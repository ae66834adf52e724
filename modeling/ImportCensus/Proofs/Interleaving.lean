import ImportCensus.Proofs.WalkFinds
import ImportCensus.Tree.Edit

namespace ImportCensus

inductive Move where
  | next
  | change (e : Edit)
deriving DecidableEq

/-- A walk was asked for its next item: the tree as it was then, and the walk. -/
structure Call where
  tree : Tree
  walk : Walk

namespace Call

def answer (c : Call) : Option Item := (c.walk.next c.tree).1

def after (c : Call) : Walk := (c.walk.next c.tree).2

def turns (c : Call) : List Turn := c.walk.turns c.tree

end Call

def Walk.calls (t : Tree) (w : Walk) : List Move → List Call
  | [] => []
  | .next :: moves => ⟨t, w⟩ :: Walk.calls t (w.next t).2 moves
  | .change e :: moves => Walk.calls (t.apply e) w moves

def Tree.calls (t : Tree) (root : Path) (suffix : Text) (moves : List Move) : List Call :=
  (Walk.start root suffix).calls t moves

def Call.answers (calls : List Call) : List Item := calls.filterMap Call.answer

/-- Under the given names stands a file, and the paths of the directories around it lead there. -/
structure Stands (t : Tree) (root : Path) (place : Place) (names : List FileName) : Prop where
  file : ∃ content, t.get? (place ++ names) = some (.file content)
  around : ∀ front rest, rest ≠ [] → names = front ++ rest →
    t.resolve true (root.below front) = .ok (.directory (place ++ front))

namespace Walk

theorem calls_behind (moves : List Move) (t : Tree) (w : Walk) (front back : List Call) (c : Call)
    (h : w.calls t moves = front ++ c :: back) : ∃ t' moves', back = c.after.calls t' moves' := by
  induction moves generalizing t w front with
  | nil => simp [calls] at h
  | cons move moves ih =>
    cases move with
    | change e => exact ih (t.apply e) w front h
    | next =>
      rw [calls] at h
      cases front with
      | nil =>
        obtain ⟨rfl, rfl⟩ := List.cons.inj h
        exact ⟨t, moves, rfl⟩
      | cons first front => exact ih t _ front (List.cons.inj h).2

theorem answer_of_over (moves : List Move) (t : Tree) (w : Walk) (h : w.entries = []) :
    ∀ c ∈ w.calls t moves, c.answer = none := by
  induction moves generalizing t with
  | nil => simp [calls]
  | cons move moves ih =>
    cases move with
    | change e => exact ih (t.apply e)
    | next =>
      rw [calls, next_of_over t w h]
      refine List.forall_mem_cons.2 ⟨?_, ih t⟩
      unfold Call.answer
      rw [next_of_over t w h]

theorem over_for_ever (moves : List Move) (t : Tree) (w : Walk) :
    (w.calls t moves).Pairwise fun c c' => c.answer = none → c'.answer = none := by
  induction moves generalizing t w with
  | nil => exact List.Pairwise.nil
  | cons move moves ih =>
    cases move with
    | change e => exact ih (t.apply e) w
    | next =>
      rw [calls]
      apply List.pairwise_cons.2
      refine ⟨?_, ih t _⟩
      intro c hc hnone
      exact answer_of_over moves t _ (over_of_next t w hnone) c hc

/-- An entry that is ahead of a walk has its turn, or it stays ahead. -/
theorem turn_or_ahead (t : Tree) (w : Walk) (p : Pending) (h : p ∈ w.entries) :
    (∃ x ∈ w.turns t, x.entry = p) ∨ p ∈ (w.next t).2.entries := by
  have hfirst (w w' : Walk) (item : Option Item) (hstep : step? t w = some (item, w'))
      (h : p ∈ w.entries) : w.first = p ∨ p ∈ w'.entries := by
    obtain ⟨rest, more, hentries, -, rfl⟩ := gives_of_step? t w w' item hstep
    rw [hentries] at h
    rcases List.mem_cons.1 h with rfl | h
    · exact Or.inl rfl
    · exact Or.inr (List.mem_append_right more h)
  fun_induction turns t w with
  | case1 w hstep =>
    rw [next, hstep]
    exact Or.inr h
  | case2 w item w' hstep =>
    rw [next, hstep]
    rcases hfirst w w' _ hstep h with hturn | hahead
    · exact Or.inl ⟨_, List.mem_singleton_self _, hturn⟩
    · exact Or.inr hahead
  | case3 w w' hstep ih =>
    rw [next, hstep]
    rcases hfirst w w' _ hstep h with hturn | hahead
    · exact Or.inl ⟨_, List.mem_cons_self, hturn⟩
    · rcases ih hahead with ⟨x, hx, hturn⟩ | hahead
      · exact Or.inl ⟨x, List.mem_cons_of_mem _ hx, hturn⟩
      · exact Or.inr hahead

/-- Before a walk is over, every entry that was ahead of it has had its turn. -/
theorem turn_before_over (moves : List Move) (t : Tree) (w : Walk) (p : Pending)
    (h : p ∈ w.entries) (hover : ∃ c ∈ w.calls t moves, c.answer = none) :
    ∃ c ∈ w.calls t moves, ∃ x ∈ c.turns, x.entry = p := by
  induction moves generalizing t w with
  | nil => simp [calls] at hover
  | cons move moves ih =>
    cases move with
    | change e => exact ih (t.apply e) w h hover
    | next =>
      rw [calls] at hover ⊢
      rcases turn_or_ahead t w p h with hturn | hahead
      · exact ⟨_, List.mem_cons_self, hturn⟩
      · obtain ⟨c, hc, hnone⟩ := hover
        rcases List.mem_cons.1 hc with rfl | hc
        · -- this call ends the walk, so nothing can have stayed ahead
          rw [over_of_next t w hnone] at hahead
          simp at hahead
        · obtain ⟨c', hc', hturn⟩ := ih t _ hahead ⟨c, hc, hnone⟩
          exact ⟨c', List.mem_cons_of_mem _ hc', hturn⟩

theorem items_calls (calls : List Call) :
    (calls.flatMap Call.turns).filterMap Turn.item = Call.answers calls := by
  induction calls with
  | nil => rfl
  | cons c calls ih =>
    rw [List.flatMap_cons, List.filterMap_append, ih]
    unfold Call.answers Call.turns
    rw [items_turns, List.filterMap_cons]
    unfold Call.answer
    cases (c.walk.next c.tree).1 <;> rfl

section Calls

variable {root : Path} {suffix : Text}

/-- The turns up to a call make up a course, whatever changes came in between. -/
theorem after_calls (moves : List Move) (t : Tree) (w : Walk) (past : List Turn)
    (h : After root suffix past w) (front back : List Call) (c : Call)
    (hsplit : w.calls t moves = front ++ c :: back) :
    After root suffix (past ++ front.flatMap Call.turns) c.walk := by
  induction moves generalizing t w past front with
  | nil => simp [calls] at hsplit
  | cons move moves ih =>
    cases move with
    | change e => exact ih (t.apply e) w past h front hsplit
    | next =>
      rw [calls] at hsplit
      cases front with
      | nil =>
        obtain ⟨rfl, -⟩ := List.cons.inj hsplit
        rw [List.flatMap_nil, List.append_nil]
        exact h
      | cons first front =>
        obtain ⟨rfl, hrest⟩ := List.cons.inj hsplit
        have hlater := ih t _ _ (after_next t past w h) front hrest
        rw [List.append_assoc] at hlater
        exact hlater

theorem after_call (moves : List Move) (t : Tree) (front back : List Call) (c : Call)
    (hsplit : t.calls root suffix moves = front ++ c :: back) :
    After root suffix ((front ++ [c]).flatMap Call.turns) c.after := by
  have hbefore := after_calls moves t _ [] (after_start root suffix) front back c hsplit
  rw [List.nil_append] at hbefore
  rw [List.flatMap_append, List.flatMap_singleton]
  exact after_next c.tree _ c.walk hbefore

theorem course_calls (moves : List Move) (t : Tree) :
    ∃ entries, Course root suffix ((t.calls root suffix moves).flatMap Call.turns) entries := by
  rcases List.eq_nil_or_concat' (t.calls root suffix moves) with hnil | ⟨front, c, hlast⟩
  · rw [hnil]
    exact ⟨_, .start⟩
  · rw [hlast]
    exact ⟨_, (after_call moves t front [] c hlast).course⟩

theorem course_of_answer (moves : List Move) (t : Tree) (front back : List Call) (c : Call)
    (hsplit : t.calls root suffix moves = front ++ c :: back) (item : Item)
    (hanswer : c.answer = some item) :
    ∃ past p rest more, (front ++ [c]).flatMap Call.turns = past ++ [⟨c.tree, p, some item⟩] ∧
      Course root suffix past (p :: rest) ∧ Gives root suffix c.tree p (some item) more ∧
      c.after.entries = more ++ rest := by
  obtain ⟨early, p, hturns⟩ := turns_of_next c.tree c.walk item hanswer
  have hall : (front ++ [c]).flatMap Call.turns =
      front.flatMap Call.turns ++ early ++ [⟨c.tree, p, some item⟩] := by
    rw [List.flatMap_append, List.flatMap_singleton, Call.turns, hturns, List.append_assoc]
  have hafter := (after_call moves t front back c hsplit).course
  rw [hall] at hafter
  obtain ⟨rest, more, hcourse, hgives, hentries⟩ := course_concat root suffix _ _ _ hafter
  exact ⟨_, p, rest, more, hall, hcourse, hgives, hentries⟩

theorem increasing_answers (moves : List Move) (t : Tree) :
    ((Call.answers (t.calls root suffix moves)).map Item.names).Pairwise (· < ·) ∧
      ((Call.answers (t.calls root suffix moves)).map fun item => root.below item.names).Nodup := by
  obtain ⟨entries, hcourse⟩ :
      ∃ entries, Course root suffix ((t.calls root suffix moves).flatMap Call.turns) entries :=
    course_calls moves t
  have hincreasing := increasing_items _ entries hcourse
  have hsublist := names_items _ entries hcourse
  rw [items_calls] at hincreasing hsublist
  refine ⟨hincreasing, ?_⟩
  have hnodup := nodup_below root _ ?_ hincreasing
  · rw [List.map_map] at hnodup
    exact hnodup
  · intro names hnames
    obtain ⟨x, hx, rfl⟩ := List.mem_map.1 (hsublist.subset hnames)
    exact (named_of_course _ entries hcourse).1 x hx

theorem present_of_answer (moves : List Move) (t : Tree) (front back : List Call) (c : Call)
    (hsplit : t.calls root suffix moves = front ++ c :: back) (names : List FileName)
    (hanswer : c.answer = some (.file names)) :
    ∃ dir n, names = dir ++ [n] ∧ EndsIn n suffix ∧
      ∃ x ∈ (front ++ [c]).flatMap Call.turns, x.entry = ⟨dir, .directory⟩ ∧
        ∃ place e, x.tree.resolve true (root.below dir) = .ok (.directory place) ∧
          x.tree.get? (place ++ [n]) = some e ∧ e.kind ≠ .directory := by
  obtain ⟨past, p, rest, more, hturns, hcourse, hgives, -⟩ :=
    course_of_answer moves t front back c hsplit _ hanswer
  rw [hturns]
  have hstack := stack_of_course past _ hcourse
  cases hgives with
  | refused dir item hlist hnames hfile => exact absurd rfl (hfile names)
  | found names kind hkind hsuffix hlink =>
    obtain ⟨hroot, -⟩ | ⟨dir, n, before, behind, below, hframe⟩ :=
      frame_of_stack root past _ rest hstack
    · obtain ⟨-, hdirectory⟩ := Pending.mk.inj hroot
      exact absurd hdirectory hkind
    · obtain ⟨x, hx, hentry, hlist⟩ := hframe.wasRead
      obtain ⟨place, hplace, hlisting⟩ := (x.tree.list_eq_ok_iff _ _).1 hlist
      have hmem : (n, kind) ∈ x.tree.children place := by
        rw [← hlisting]
        exact List.mem_append_right before List.mem_cons_self
      obtain ⟨e, hget, hkind'⟩ := x.tree.mem_children_iff.1 hmem
      have hn := (x.tree.get?_around place [] n e hget).2
      have hnames : names = dir ++ [n] := hframe.names_eq
      rw [hnames, Path.hasSuffix_below root dir n suffix hn] at hsuffix
      refine ⟨dir, n, hnames, hsuffix, x, List.mem_append_left _ hx, hentry, place, e, hplace,
        hget, ?_⟩
      rw [hkind']
      exact hkind

/-- A file that stands where it is until the walk is over has been the answer of one call by
then. -/
theorem found_once (moves : List Move) (t : Tree) (front back : List Call) (c : Call)
    (hsplit : t.calls root suffix moves = front ++ c :: back) (hover : c.answer = none)
    (dir : List FileName) (n : FileName) (hends : EndsIn n suffix)
    (hstands : ∀ d ∈ front ++ [c], ∃ place, Stands d.tree root place (dir ++ [n])) :
    (Call.answers front).count (.file (dir ++ [n])) = 1 := by
  have hafter := (after_call moves t front back c hsplit).course
  rw [Call.after, over_of_next c.tree c.walk hover] at hafter
  have hopen : ∀ x ∈ (front ++ [c]).flatMap Call.turns,
      Open x.tree root suffix (dir ++ [n]) .file := by
    intro x hx
    obtain ⟨d, hd, hturn⟩ := List.mem_flatMap.1 hx
    obtain ⟨place, hfile⟩ := hstands d hd
    obtain ⟨content, hentry⟩ := hfile.file
    have hsuffix := (d.tree.hasSuffix_of_get? place dir n _ hentry root suffix).2 hends
    rw [tree_turns d.tree d.walk x hturn]
    exact open_of_get? d.tree root suffix place _ _ hentry (by simp [Entry.kind]) hfile.around
      hsuffix (by simp [Entry.kind])
  -- the last of the calls was not answered, so all the answers are those in front of it
  have hanswers : Call.answers (front ++ [c]) = Call.answers front := by
    unfold Call.answers
    rw [List.filterMap_append, List.filterMap_cons_none hover, List.filterMap_nil,
      List.append_nil]
  have hfound : Item.file (dir ++ [n]) ∈ Call.answers front := by
    rcases found_or_ahead _ _ (by simp) _ [] hafter hopen with hfound | ⟨p, hp, -⟩
    · rw [items_calls, hanswers] at hfound
      exact hfound
    · simp at hp
  have hnodup : (Call.answers front).Nodup := by
    have hincreasing := increasing_items _ [] hafter
    rw [items_calls, hanswers] at hincreasing
    exact List.Nodup.of_map Item.names (nodup_of_increasing _ hincreasing)
  exact List.count_eq_one_of_mem hnodup hfound

/-- After a directory that cannot be listed come the entries behind it in the listing that it was
taken from, and each of them has its turn. -/
theorem goes_on (moves : List Move) (t : Tree) (front back : List Call) (c : Call)
    (hsplit : t.calls root suffix moves = front ++ c :: back) (dir : List FileName)
    (n : FileName) (cause : Cause) (hanswer : c.answer = some (.unlisted (dir ++ [n]) cause)) :
    ∃ before behind below,
      WasRead root ((front ++ [c]).flatMap Call.turns) dir
          (before ++ (n, .directory) :: behind) ∧
        c.after.entries = Pending.ofListing dir behind ++ below ∧
        (∀ q ∈ below, ¬dir <+: q.names) ∧
        ((∃ c' ∈ back, c'.answer = none) →
          ∀ p ∈ Pending.ofListing dir behind, ∃ c' ∈ back, ∃ x ∈ c'.turns, x.entry = p) := by
  obtain ⟨past, p, rest, more, hturns, hcourse, hgives, hentries⟩ :=
    course_of_answer moves t front back c hsplit _ hanswer
  have hstack := stack_of_course past _ hcourse
  cases hgives with
  | refused names item hlist hnames hfile =>
    obtain ⟨hroot, -⟩ | ⟨dir', n', before, behind, below, hframe⟩ :=
      frame_of_stack root past _ rest hstack
    · obtain ⟨hnil, -⟩ := Pending.mk.inj hroot
      rw [hnil] at hnames
      simp [Item.names] at hnames
    · have hsame : dir ++ [n] = dir' ++ [n'] := hnames.trans hframe.names_eq
      obtain ⟨rfl, hn⟩ := List.append_inj' hsame rfl
      obtain rfl := List.singleton_inj.1 hn
      have hrest : c.after.entries = Pending.ofListing dir behind ++ below := by
        rw [hentries, hframe.rest_eq]
        rfl
      refine ⟨before, behind, below, ?_, hrest, ?_, ?_⟩
      · rw [hturns]
        exact wasRead_mono root past _ dir _ hframe.wasRead
      · intro q hq
        exact not_prefix_of_precedes _ _ (hframe.outside q hq)
      · intro hover p hp
        obtain ⟨t', moves', rfl⟩ := calls_behind moves t _ front back c hsplit
        apply turn_before_over moves' t' c.after p _ hover
        rw [hrest]
        exact List.mem_append_left below hp

end Calls

end Walk

/-- A walk that is asked again and again while the tree changes in any way between the calls.
The names of its answers increase, so no path is answered twice. Once there is no answer there is
none for ever. A file that is answered stood, under a name with the suffix, in its directory when
that was read. A file that stands where it is until the walk is over has been answered exactly once
by then. After a directory below the root that cannot be listed, the walk goes on behind it in the
listing that it was taken from, of which nothing is lost. -/
theorem calls_among_changes (t : Tree) (root : Path) (suffix : Text) (moves : List Move) :
    (((Call.answers (t.calls root suffix moves)).map Item.names).Pairwise (· < ·) ∧
      ((Call.answers (t.calls root suffix moves)).map fun item => root.below item.names).Nodup) ∧
    ((t.calls root suffix moves).Pairwise fun c c' => c.answer = none → c'.answer = none) ∧
    (∀ front c back, t.calls root suffix moves = front ++ c :: back →
      ∀ names, c.answer = some (.file names) →
        ∃ dir n, names = dir ++ [n] ∧ EndsIn n suffix ∧
          ∃ x ∈ (front ++ [c]).flatMap Call.turns, x.entry = ⟨dir, .directory⟩ ∧
            ∃ place e, x.tree.resolve true (root.below dir) = .ok (.directory place) ∧
              x.tree.get? (place ++ [n]) = some e ∧ e.kind ≠ .directory) ∧
    (∀ front c back, t.calls root suffix moves = front ++ c :: back → c.answer = none →
      ∀ dir n, EndsIn n suffix →
        (∀ d ∈ front ++ [c], ∃ place, Stands d.tree root place (dir ++ [n])) →
        (Call.answers front).count (.file (dir ++ [n])) = 1) ∧
    ∀ front c back, t.calls root suffix moves = front ++ c :: back →
      ∀ dir n cause, c.answer = some (.unlisted (dir ++ [n]) cause) →
        ∃ before behind below,
          WasRead root ((front ++ [c]).flatMap Call.turns) dir
              (before ++ (n, .directory) :: behind) ∧
            c.after.entries = Pending.ofListing dir behind ++ below ∧
            (∀ q ∈ below, ¬dir <+: q.names) ∧
            ((∃ c' ∈ back, c'.answer = none) →
              ∀ p ∈ Pending.ofListing dir behind, ∃ c' ∈ back, ∃ x ∈ c'.turns, x.entry = p) := by
  refine ⟨Walk.increasing_answers moves t, Walk.over_for_ever moves t _, ?_, ?_, ?_⟩
  · intro front c back hsplit names hanswer
    exact Walk.present_of_answer moves t front back c hsplit names hanswer
  · intro front c back hsplit hover dir n hends hstands
    exact Walk.found_once moves t front back c hsplit hover dir n hends hstands
  · intro front c back hsplit dir n cause hanswer
    exact Walk.goes_on moves t front back c hsplit dir n cause hanswer

def threeEntries : Tree :=
  Tree.ofEdits [.put (Utf8.encode "a.java".toList) (.file []),
    .put (Utf8.encode "b/x.java".toList) (.file []),
    .put (Utf8.encode "c.java".toList) (.file [])]

def removal : List Move := [.next, .change (.remove (Utf8.encode "b".toList)), .next, .next, .next]

theorem calls_removal :
    ∃ first second third last : Call,
      threeEntries.calls selfName ".java".toList removal = [first, second, third, last] ∧
        first.answer = some (.file [Utf8.encode "a.java".toList]) ∧
        second.answer = some (.unlisted [Utf8.encode "b".toList] .notFound) ∧
        third.answer = some (.file [Utf8.encode "c.java".toList]) ∧
        last.answer = none ∧
        ∀ c ∈ [first, second, third, last],
          Stands c.tree selfName [] [Utf8.encode "c.java".toList] := by
  let later := threeEntries.apply (.remove (Utf8.encode "b".toList))
  let ahead (pending : List Pending) : Walk := ⟨selfName, ".java".toList, some pending⟩
  let a : Pending := ⟨[Utf8.encode "a.java".toList], .file⟩
  let b : Pending := ⟨[Utf8.encode "b".toList], .directory⟩
  let c : Pending := ⟨[Utf8.encode "c.java".toList], .file⟩
  have hlist : Walk.step? threeEntries (.start selfName ".java".toList) =
      some (none, ahead [a, b, c]) := by decide
  have ha : Walk.step? threeEntries (ahead [a, b, c]) =
      some (some (.file a.names), ahead [b, c]) := by decide
  have hb : Walk.step? later (ahead [b, c]) =
      some (some (.unlisted b.names .notFound), ahead [c]) := by decide
  have hc : Walk.step? later (ahead [c]) = some (some (.file c.names), ahead []) := by decide
  have hover : Walk.step? later (ahead []) = none := rfl
  have hfirst : Walk.next threeEntries (.start selfName ".java".toList) =
      (some (.file a.names), ahead [b, c]) := by
    rw [Walk.next, hlist]
    dsimp only
    rw [Walk.next, ha]
  have hsecond : Walk.next later (ahead [b, c]) =
      (some (.unlisted b.names .notFound), ahead [c]) := by
    rw [Walk.next, hb]
  have hthird : Walk.next later (ahead [c]) = (some (.file c.names), ahead []) := by
    rw [Walk.next, hc]
  have hlast : Walk.next later (ahead []) = (none, ahead []) := by
    rw [Walk.next, hover]
  refine ⟨⟨threeEntries, .start selfName ".java".toList⟩, ⟨later, ahead [b, c]⟩,
    ⟨later, ahead [c]⟩, ⟨later, ahead []⟩, ?_, ?_, ?_, ?_, ?_, ?_⟩
  · unfold Tree.calls removal
    simp only [Walk.calls, hfirst, hsecond, hthird, later]
  · rw [Call.answer, hfirst]
  · rw [Call.answer, hsecond]
  · rw [Call.answer, hthird]
  · rw [Call.answer, hlast]
  · have hstands (t : Tree) (hentry : t.get? c.names = some (.file []))
        (hroot : t.resolve true selfName = .ok (.directory [])) :
        Stands t selfName [] c.names := by
      refine ⟨⟨[], hentry⟩, ?_⟩
      intro front rest hrest hsplit
      cases front with
      | nil => exact hroot
      | cons n front =>
        have hnil : front ++ rest = [] := (List.cons.inj hsplit).2.symm
        exact absurd (List.append_eq_nil_iff.1 hnil).2 hrest
    have hbefore := hstands threeEntries (by decide) (by decide)
    have hafter := hstands later (by decide) (by decide)
    simp only [List.mem_cons, List.not_mem_nil, or_false]
    rintro d (rfl | rfl | rfl | rfl)
    · exact hbefore
    · exact hafter
    · exact hafter
    · exact hafter

theorem calls_among_changes_removal :
    (∃ front c back, threeEntries.calls selfName ".java".toList removal = front ++ c :: back ∧
      c.answer = none ∧
      (Call.answers front).count (.file [Utf8.encode "c.java".toList]) = 1) ∧
    ∃ front c back before behind below,
      threeEntries.calls selfName ".java".toList removal = front ++ c :: back ∧
        c.answer = some (.unlisted [Utf8.encode "b".toList] .notFound) ∧
        WasRead selfName ((front ++ [c]).flatMap Call.turns) []
          (before ++ (Utf8.encode "b".toList, .directory) :: behind) ∧
        c.after.entries = Pending.ofListing [] behind ++ below ∧
        ∀ p ∈ Pending.ofListing [] behind, ∃ c' ∈ back, ∃ x ∈ c'.turns, x.entry = p := by
  obtain ⟨first, second, third, last, hcalls, -, hsecond, -, hlast, hstands⟩ := calls_removal
  obtain ⟨-, -, -, honce, hgoes⟩ :=
    calls_among_changes threeEntries selfName ".java".toList removal
  constructor
  · refine ⟨[first, second, third], last, [], hcalls, hlast, ?_⟩
    apply honce [first, second, third] last [] hcalls hlast []
    · exact ⟨"c.java".toList, by decide, by decide⟩
    · intro d hd
      exact ⟨[], hstands d hd⟩
  · obtain ⟨before, behind, below, hread, hentries, -, hturns⟩ :=
      hgoes [first] second [third, last] hcalls [] _ _ hsecond
    refine ⟨[first], second, [third, last], before, behind, below, hcalls, hsecond, hread,
      hentries, ?_⟩
    apply hturns
    exact ⟨last, by simp, hlast⟩

end ImportCensus
