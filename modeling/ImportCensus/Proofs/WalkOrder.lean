import ImportCensus.Proofs.WalkCourse
import Mathlib.Data.List.Nodup

namespace ImportCensus

/-- Two lists of names part, and the first goes on with the smaller name. This is the order of the
lists without those pairs in which one leads on to the other. -/
inductive Precedes : List FileName → List FileName → Prop where
  | part (n m : FileName) (p q : List FileName) (h : n < m) : Precedes (n :: p) (m :: q)
  | inside (n : FileName) (p q : List FileName) (h : Precedes p q) : Precedes (n :: p) (n :: q)

theorem lt_of_precedes (p q : List FileName) (h : Precedes p q) : p < q := by
  induction h with
  | part n m p q h => exact List.Lex.rel h
  | inside n p q h ih => exact List.Lex.cons ih

theorem not_prefix_of_precedes (p q : List FileName) (h : Precedes p q) : ¬p <+: q := by
  induction h with
  | part n m p q h =>
    intro hprefix
    obtain ⟨rfl, -⟩ := List.cons_prefix_cons.1 hprefix
    exact List.lt_irrefl _ h
  | inside n p q h ih =>
    intro hprefix
    exact ih (List.cons_prefix_cons.1 hprefix).2

theorem precedes_append (p q more : List FileName) (h : Precedes p q) :
    Precedes (p ++ more) q := by
  induction h with
  | part n m p q h => exact .part n m (p ++ more) q h
  | inside n p q h ih => exact .inside n (p ++ more) q ih

theorem precedes_siblings (dir : List FileName) (n m : FileName) (h : n < m) :
    Precedes (dir ++ [n]) (dir ++ [m]) := by
  induction dir with
  | nil => exact .part n m [] [] h
  | cons k dir ih => exact .inside k _ _ ih

theorem lt_concat (dir : List FileName) (n : FileName) : dir < dir ++ [n] := by
  induction dir with
  | nil => exact List.Lex.nil
  | cons k dir ih => exact List.Lex.cons ih

theorem nodup_of_increasing (found : List (List FileName)) (h : found.Pairwise (· < ·)) :
    found.Nodup := by
  apply h.imp
  rintro a b hlt rfl
  exact List.lt_irrefl _ hlt

theorem nodup_below (root : Path) (found : List (List FileName))
    (hnamed : ∀ names ∈ found, ∀ n ∈ names, isFileName n = true)
    (hincreasing : found.Pairwise (· < ·)) : (found.map root.below).Nodup := by
  apply List.Nodup.map_on _ (nodup_of_increasing found hincreasing)
  intro a ha b hb
  exact Path.below_injective root a b (hnamed a ha) (hnamed b hb)

theorem precedes_ofListing (dir : List FileName) (listing : List (FileName × Kind))
    (h : Listing.Ordered listing) :
    (Pending.ofListing dir listing).Pairwise fun p q => Precedes p.names q.names := by
  unfold Pending.ofListing
  rw [List.pairwise_map]
  exact h.imp fun hlt => precedes_siblings dir _ _ hlt

theorem Tree.ordered_list (t : Tree) (path : Path) (listing : List (FileName × Kind))
    (h : t.list path = .ok listing) : Listing.Ordered listing := by
  obtain ⟨place, -, rfl⟩ := (t.list_eq_ok_iff path listing).1 h
  exact t.ordered_children place

theorem Tree.named_list (t : Tree) (path : Path) (listing : List (FileName × Kind))
    (h : t.list path = .ok listing) : ∀ e ∈ listing, isFileName e.1 = true := by
  intro e he
  obtain ⟨place, -, rfl⟩ := (t.list_eq_ok_iff path listing).1 h
  obtain ⟨entry, hentry, -⟩ := t.mem_children_iff.1 he
  exact (t.get?_around place [] e.1 entry hentry).2

def WasRead (root : Path) (past : List Turn) (dir : List FileName)
    (listing : List (FileName × Kind)) : Prop :=
  ∃ x ∈ past, x.entry = ⟨dir, .directory⟩ ∧ x.tree.list (root.below dir) = .ok listing

theorem wasRead_mono (root : Path) (past later : List Turn) (dir : List FileName)
    (listing : List (FileName × Kind)) (h : WasRead root past dir listing) :
    WasRead root (past ++ later) dir listing := by
  obtain ⟨x, hx, hread⟩ := h
  exact ⟨x, List.mem_append_left later hx, hread⟩

theorem ordered_of_wasRead (root : Path) (past : List Turn) (dir : List FileName)
    (listing : List (FileName × Kind)) (h : WasRead root past dir listing) :
    Listing.Ordered listing := by
  obtain ⟨x, -, -, hlist⟩ := h
  exact x.tree.ordered_list _ listing hlist

/-- The entries before a walk: at first the root alone, and then the ends of listings, where all
that is further down lies outside of the directory on top. -/
inductive Stack (root : Path) (past : List Turn) : List Pending → Prop where
  | root : Stack root past [⟨[], .directory⟩]
  | nil : Stack root past []
  | frame (dir : List FileName) (before ahead : List (FileName × Kind)) (below : List Pending)
      (hread : WasRead root past dir (before ++ ahead)) (hbelow : Stack root past below)
      (houtside : ∀ q ∈ below, Precedes dir q.names) :
      Stack root past (Pending.ofListing dir ahead ++ below)

structure Frame (root : Path) (past : List Turn) (p : Pending) (rest : List Pending)
    (dir : List FileName) (n : FileName) (before behind : List (FileName × Kind))
    (below : List Pending) : Prop where
  names_eq : p.names = dir ++ [n]
  rest_eq : rest = Pending.ofListing dir behind ++ below
  wasRead : WasRead root past dir (before ++ (n, p.kind) :: behind)
  stack : Stack root past below
  outside : ∀ q ∈ below, Precedes dir q.names

section Stack

variable (root : Path) (past : List Turn)

/-- The first entry before a walk is the root, or it is the next one of a listing. -/
theorem frame_of_stack (p : Pending) (rest : List Pending) (h : Stack root past (p :: rest)) :
    (p = ⟨[], .directory⟩ ∧ rest = []) ∨
      ∃ dir n before behind below, Frame root past p rest dir n before behind below := by
  generalize hall : p :: rest = all at h
  induction h with
  | root =>
    obtain ⟨rfl, rfl⟩ := List.cons.inj hall
    exact Or.inl ⟨rfl, rfl⟩
  | nil => simp at hall
  | frame dir before ahead below hread hbelow houtside ih =>
    -- a listing that is used up gives no entry, so the first one is found further down
    cases ahead with
    | nil => exact ih hall
    | cons e behind =>
      obtain ⟨n, kind⟩ := e
      obtain ⟨rfl, rfl⟩ := List.cons.inj hall
      exact Or.inr ⟨dir, n, before, behind, below, rfl, rfl, hread, hbelow, houtside⟩

theorem stack_mono (later : List Turn) (entries : List Pending) (h : Stack root past entries) :
    Stack root (past ++ later) entries := by
  induction h with
  | root => exact .root
  | nil => exact .nil
  | frame dir before ahead below hread hbelow houtside ih =>
    exact .frame dir before ahead below (wasRead_mono root past later _ _ hread) ih houtside

theorem stack_tail (p : Pending) (rest : List Pending) (h : Stack root past (p :: rest)) :
    Stack root past rest := by
  obtain ⟨-, rfl⟩ | ⟨dir, n, before, behind, below, hframe⟩ := frame_of_stack root past p rest h
  · exact .nil
  · have hread := hframe.wasRead
    rw [← List.singleton_append, ← List.append_assoc] at hread
    rw [hframe.rest_eq]
    exact .frame dir _ behind below hread hframe.stack hframe.outside

theorem precedes_rest (p : Pending) (rest : List Pending) (h : Stack root past (p :: rest)) :
    ∀ q ∈ rest, Precedes p.names q.names := by
  obtain ⟨-, rfl⟩ | ⟨dir, n, before, behind, below, hframe⟩ := frame_of_stack root past p rest h
  · simp
  · intro q hq
    rw [hframe.rest_eq] at hq
    rw [hframe.names_eq]
    rcases List.mem_append.1 hq with hq | hq
    · have hordered := ordered_of_wasRead root past dir _ hframe.wasRead
      obtain ⟨e, he, rfl⟩ := List.mem_map.1 hq
      have hlt := (List.pairwise_cons.1 (List.pairwise_append.1 hordered).2.1).1 e he
      exact precedes_siblings dir n e.1 hlt
    · exact precedes_append dir q.names [n] (hframe.outside q hq)

end Stack

section Course

variable {root : Path} {suffix : Text}

theorem stack_of_course (past : List Turn) (entries : List Pending)
    (h : Course root suffix past entries) : Stack root past entries := by
  induction h with
  | start => exact .root
  | step past p rest t item more h hturn ih =>
    have hrest := stack_mono root past [⟨t, p, item⟩] rest (stack_tail root past p rest ih)
    have houtside := precedes_rest root past p rest ih
    rcases more_of_gives root suffix t p item more hturn with rfl | ⟨names, listing, rfl, hlist, rfl⟩
    · exact hrest
    · refine .frame names [] listing rest ?_ hrest houtside
      exact ⟨_, List.mem_append_right past List.mem_cons_self, rfl, hlist⟩

theorem named_of_course (past : List Turn) (entries : List Pending)
    (h : Course root suffix past entries) :
    (∀ x ∈ past, ∀ n ∈ x.entry.names, isFileName n = true) ∧
      ∀ p ∈ entries, ∀ n ∈ p.names, isFileName n = true := by
  induction h with
  | start => simp
  | step past p rest t item more h hturn ih =>
    obtain ⟨hpast, hentries⟩ := ih
    obtain ⟨hp, hrest⟩ := List.forall_mem_cons.1 hentries
    have hmore : ∀ q ∈ more, ∀ n ∈ q.names, isFileName n = true := by
      rcases more_of_gives root suffix t p item more hturn with
        rfl | ⟨names, listing, rfl, hlist, rfl⟩
      · simp
      · intro q hq n hn
        obtain ⟨e, he, rfl⟩ := List.mem_map.1 hq
        rcases List.mem_append.1 hn with hn | hn
        · exact hp n hn
        · rw [List.mem_singleton.1 hn]
          exact t.named_list _ listing hlist e he
    refine ⟨?_, ?_⟩
    · intro x hx
      rcases List.mem_append.1 hx with hx | hx
      · exact hpast x hx
      · rw [List.mem_singleton.1 hx]
        exact hp
    · intro q hq
      rcases List.mem_append.1 hq with hq | hq
      · exact hmore q hq
      · exact hrest q hq

/-- The names of the turns so far and of the entries ahead stand in strictly increasing order. -/
theorem increasing_of_course (past : List Turn) (entries : List Pending)
    (h : Course root suffix past entries) :
    (past.map (fun x => x.entry.names) ++ entries.map Pending.names).Pairwise (· < ·) := by
  induction h with
  | start => simp
  | step past p rest t item more h hturn ih =>
    have houtside := precedes_rest root past p rest (stack_of_course past _ h)
    -- what the turn gives takes the place behind `p` and in front of all the rest
    have hinside : (∀ q ∈ more, p.names < q.names) ∧
        (∀ q ∈ more, ∀ r ∈ rest, q.names < r.names) ∧
        (more.map Pending.names).Pairwise (· < ·) := by
      rcases more_of_gives root suffix t p item more hturn with
        rfl | ⟨names, listing, rfl, hlist, rfl⟩
      · simp
      · refine ⟨?_, ?_, ?_⟩
        · intro q hq
          obtain ⟨e, -, rfl⟩ := List.mem_map.1 hq
          exact lt_concat names e.1
        · intro q hq r hr
          obtain ⟨e, -, rfl⟩ := List.mem_map.1 hq
          exact lt_of_precedes _ _ (precedes_append names r.names [e.1] (houtside r hr))
        · rw [List.pairwise_map]
          have hordered := t.ordered_list _ listing hlist
          exact (precedes_ofListing names listing hordered).imp fun h => lt_of_precedes _ _ h
    obtain ⟨hdown, hacross, hmore⟩ := hinside
    rw [List.map_cons, List.pairwise_append, List.pairwise_cons] at ih
    obtain ⟨hpast, ⟨hp, hrest⟩, hbetween⟩ := ih
    have hbefore : ∀ a ∈ past.map (fun x => x.entry.names), a < p.names :=
      fun a ha => hbetween a ha p.names List.mem_cons_self
    rw [List.map_append, List.map_append, List.map_singleton, List.append_assoc,
      List.singleton_append, List.pairwise_append, List.pairwise_cons, List.pairwise_append]
    refine ⟨hpast, ⟨?_, hmore, hrest, ?_⟩, ?_⟩
    · intro b hb
      rcases List.mem_append.1 hb with hb | hb
      · obtain ⟨q, hq, rfl⟩ := List.mem_map.1 hb
        exact hdown q hq
      · exact hp b hb
    · intro a ha b hb
      obtain ⟨q, hq, rfl⟩ := List.mem_map.1 ha
      obtain ⟨r, hr, rfl⟩ := List.mem_map.1 hb
      exact hacross q hq r hr
    · intro a ha b hb
      rcases List.mem_cons.1 hb with rfl | hb
      · exact hbefore a ha
      · rcases List.mem_append.1 hb with hb | hb
        · obtain ⟨q, hq, rfl⟩ := List.mem_map.1 hb
          exact List.lt_trans (hbefore a ha) (hdown q hq)
        · exact hbetween a ha b (List.mem_cons_of_mem _ hb)

theorem names_of_gives (t : Tree) (p : Pending) (item : Item) (more : List Pending)
    (h : Gives root suffix t p (some item) more) : item.names = p.names := by
  cases h with
  | refused names item hlist hnames hitem => exact hnames
  | found names kind hkind hsuffix hlink => rfl

theorem names_items (past : List Turn) (entries : List Pending)
    (h : Course root suffix past entries) :
    ((past.filterMap Turn.item).map Item.names).Sublist (past.map fun x => x.entry.names) := by
  induction h with
  | start => exact List.Sublist.slnil
  | step past p rest t item more h hturn ih =>
    rw [List.filterMap_append, List.map_append, List.map_append]
    refine List.Sublist.append ih ?_
    cases item with
    | none => exact List.nil_sublist _
    | some item =>
      have hnames := names_of_gives t p item more hturn
      simp [hnames]

theorem increasing_items (past : List Turn) (entries : List Pending)
    (h : Course root suffix past entries) :
    ((past.filterMap Turn.item).map Item.names).Pairwise (· < ·) := by
  have hturns := (List.pairwise_append.1 (increasing_of_course past entries h)).1
  exact hturns.sublist (names_items past entries h)

end Course

end ImportCensus
