import ImportCensus.Proofs.Resolution
import Mathlib.Data.List.Induction

/-!
The course of a walk: entries have their turns one after the other, each in a tree of its own, so a
course covers a walk through a tree that changes between any two steps. What is shown of every
course holds of whole walks and of walks that are asked for one item at a time.
-/

namespace ImportCensus

def Item.names : Item → List FileName
  | .file names => names
  | .unlisted names _ => names
  | .rootNotDirectory => []

structure Turn where
  tree : Tree
  entry : Pending
  item : Option Item

/-- What the turn of an entry can come to in a tree: a directory is read or is not listed, and
anything else is found or passed over. -/
inductive Gives (root : Path) (suffix : Text) (t : Tree) :
    Pending → Option Item → List Pending → Prop where
  | read (names : List FileName) (listing : List (FileName × Kind))
      (h : t.list (root.below names) = .ok listing) :
      Gives root suffix t ⟨names, .directory⟩ none (Pending.ofListing names listing)
  | refused (names : List FileName) (item : Item)
      (h : ∀ listing, t.list (root.below names) ≠ .ok listing)
      (hnames : item.names = names) (hitem : ∀ found, item ≠ .file found) :
      Gives root suffix t ⟨names, .directory⟩ (some item) []
  | found (names : List FileName) (kind : Kind) (hkind : kind ≠ .directory)
      (hsuffix : (root.below names).hasSuffix suffix = true)
      (hlink : kind = .link → t.isDirectory (root.below names) = false) :
      Gives root suffix t ⟨names, kind⟩ (some (.file names)) []
  | passed (names : List FileName) (kind : Kind) (hkind : kind ≠ .directory)
      (h : (root.below names).hasSuffix suffix = true →
        kind = .link ∧ t.isDirectory (root.below names) = true) :
      Gives root suffix t ⟨names, kind⟩ none []

/-- The turns of a walk so far and the entries that are still before it. At first there is the root
alone. -/
inductive Course (root : Path) (suffix : Text) : List Turn → List Pending → Prop where
  | start : Course root suffix [] [⟨[], .directory⟩]
  | step (past : List Turn) (p : Pending) (rest : List Pending) (t : Tree) (item : Option Item)
      (more : List Pending) (h : Course root suffix past (p :: rest))
      (hturn : Gives root suffix t p item more) :
      Course root suffix (past ++ [⟨t, p, item⟩]) (more ++ rest)

theorem more_of_gives (root : Path) (suffix : Text) (t : Tree) (p : Pending) (item : Option Item)
    (more : List Pending) (h : Gives root suffix t p item more) :
    more = [] ∨ ∃ names listing, p = ⟨names, .directory⟩ ∧
      t.list (root.below names) = .ok listing ∧ more = Pending.ofListing names listing := by
  cases h with
  | read names listing hlist => exact Or.inr ⟨names, listing, rfl, hlist, rfl⟩
  | refused names item hlist hnames hitem => exact Or.inl rfl
  | found names kind hkind hsuffix hlink => exact Or.inl rfl
  | passed names kind hkind hpassed => exact Or.inl rfl

theorem course_concat (root : Path) (suffix : Text) (past : List Turn) (x : Turn)
    (entries : List Pending) (h : Course root suffix (past ++ [x]) entries) :
    ∃ rest more, Course root suffix past (x.entry :: rest) ∧
      Gives root suffix x.tree x.entry x.item more ∧ entries = more ++ rest := by
  generalize hall : past ++ [x] = all at h
  cases h with
  | start => simp at hall
  | step before p rest t item more hbefore hturn =>
    obtain ⟨rfl, hx⟩ := List.append_inj' hall rfl
    obtain rfl := List.singleton_inj.1 hx
    exact ⟨rest, more, hbefore, hturn, rfl⟩

theorem course_front (root : Path) (suffix : Text) (front back : List Turn)
    (entries : List Pending) (h : Course root suffix (front ++ back) entries) :
    ∃ before, Course root suffix front before := by
  induction back using List.reverseRecOn generalizing entries with
  | nil =>
    rw [List.append_nil] at h
    exact ⟨entries, h⟩
  | append_singleton back x ih =>
    rw [← List.append_assoc] at h
    obtain ⟨rest, more, hback, -, -⟩ := course_concat root suffix _ x entries h
    exact ih _ hback

namespace Walk

def entries (w : Walk) : List Pending := w.pending.getD [⟨[], .directory⟩]

def first (w : Walk) : Pending := w.entries.headD ⟨[], .directory⟩

def turns (t : Tree) (w : Walk) : List Turn :=
  match _h : step? t w with
  | none => []
  | some (some item, _) => [⟨t, w.first, some item⟩]
  | some (none, w') => ⟨t, w.first, none⟩ :: turns t w'
termination_by weight t w
decreasing_by exact weight_lt_of_step? _h

theorem step?_eq_none_iff (t : Tree) (w : Walk) : step? t w = none ↔ w.entries = [] := by
  unfold step? entries
  cases w.pending with
  | none => cases listRoot t w.root <;> simp
  | some pending => cases pending <;> simp

theorem gives_listRoot (t : Tree) (root : Path) (suffix : Text) :
    match listRoot t root with
    | .ok listed => Gives root suffix t ⟨[], .directory⟩ none listed
    | .error item => Gives root suffix t ⟨[], .directory⟩ (some item) [] := by
  have hrefused (item : Item) (hnames : item.names = []) (hitem : ∀ found, item ≠ .file found)
      (h : ∀ place, t.resolve true root ≠ .ok (.directory place)) :
      Gives root suffix t ⟨[], .directory⟩ (some item) [] := by
    refine .refused [] item ?_ hnames hitem
    intro listing hlist
    obtain ⟨place, hplace, -⟩ := (t.list_eq_ok_iff root listing).1 hlist
    exact h place hplace
  rw [listRoot_eq]
  cases hroot : t.resolve true root with
  | error cause => exact hrefused _ rfl (by simp) (by simp [hroot])
  | ok found =>
    cases found with
    | file content => exact hrefused _ rfl (by simp) (by simp [hroot])
    | link place target => exact hrefused _ rfl (by simp) (by simp [hroot])
    | directory place => exact .read [] _ ((t.list_eq_ok_iff root _).2 ⟨place, hroot, rfl⟩)

theorem gives_visit (t : Tree) (w : Walk) (p : Pending) :
    Gives w.root w.suffix t p (w.visit t p).1 (w.visit t p).2 := by
  obtain ⟨names, kind⟩ := p
  unfold visit
  dsimp only
  cases kind with
  | directory =>
    cases hlist : t.list (w.root.below names) with
    | ok listing => exact .read names listing hlist
    | error cause => exact .refused names _ (by simp [hlist]) rfl (by simp)
  | file =>
    dsimp only
    split
    · rename_i hsuffix
      exact .found names .file (by simp) hsuffix (by simp)
    · rename_i hsuffix
      exact .passed names .file (by simp) fun h => absurd h hsuffix
  | link =>
    dsimp only
    split
    · rename_i hboth
      obtain ⟨hsuffix, hlink⟩ := Bool.and_eq_true_iff.1 hboth
      exact .found names .link (by simp) hsuffix fun _ => by simpa using hlink
    · rename_i hnot
      refine .passed names .link (by simp) fun hsuffix => ⟨rfl, ?_⟩
      simpa [hsuffix] using hnot

/-- A step is the turn of the first entry, and what it gives takes the place of the entry. -/
theorem gives_of_step? (t : Tree) (w w' : Walk) (item : Option Item)
    (h : step? t w = some (item, w')) :
    ∃ rest more, w.entries = w.first :: rest ∧ Gives w.root w.suffix t w.first item more ∧
      w' = { w with pending := some (more ++ rest) } := by
  unfold step? at h
  unfold first entries
  cases hpending : w.pending with
  | none =>
    rw [hpending] at h
    have hroot := gives_listRoot t w.root w.suffix
    cases hlisted : listRoot t w.root with
    | ok listed =>
      rw [hlisted] at h hroot
      obtain ⟨rfl, rfl⟩ := Prod.mk.inj (Option.some.inj h)
      exact ⟨[], listed, rfl, hroot, by rw [List.append_nil]⟩
    | error item =>
      rw [hlisted] at h hroot
      obtain ⟨rfl, rfl⟩ := Prod.mk.inj (Option.some.inj h)
      exact ⟨[], [], rfl, hroot, rfl⟩
  | some pending =>
    rw [hpending] at h
    cases pending with
    | nil => simp at h
    | cons p rest =>
      obtain ⟨rfl, rfl⟩ := Prod.mk.inj (Option.some.inj h)
      exact ⟨rest, (w.visit t p).2, rfl, gives_visit t w p, rfl⟩

structure After (root : Path) (suffix : Text) (past : List Turn) (w : Walk) : Prop where
  root_eq : w.root = root
  suffix_eq : w.suffix = suffix
  course : Course root suffix past w.entries

theorem after_start (root : Path) (suffix : Text) : After root suffix [] (start root suffix) :=
  ⟨rfl, rfl, .start⟩

section Steps

variable {root : Path} {suffix : Text}

theorem after_step (t : Tree) (past : List Turn) (w w' : Walk) (item : Option Item)
    (h : After root suffix past w) (hstep : step? t w = some (item, w')) :
    After root suffix (past ++ [⟨t, w.first, item⟩]) w' := by
  obtain ⟨rest, more, hentries, hgives, rfl⟩ := gives_of_step? t w w' item hstep
  obtain ⟨rfl, rfl, hcourse⟩ := h
  rw [hentries] at hcourse
  exact ⟨rfl, rfl, .step past w.first rest t item more hcourse hgives⟩

theorem after_next (t : Tree) (past : List Turn) (w : Walk) (h : After root suffix past w) :
    After root suffix (past ++ w.turns t) (w.next t).2 := by
  fun_induction turns t w generalizing past with
  | case1 w hstep =>
    rw [next, hstep, List.append_nil]
    exact h
  | case2 w item w' hstep =>
    rw [next, hstep]
    exact after_step t past w w' _ h hstep
  | case3 w w' hstep ih =>
    have hlater := ih _ (after_step t past w w' _ h hstep)
    rw [List.append_assoc, List.singleton_append] at hlater
    rw [next, hstep]
    exact hlater

theorem items_turns (t : Tree) (w : Walk) :
    (w.turns t).filterMap Turn.item = (w.next t).1.toList := by
  fun_induction turns t w with
  | case1 w hstep =>
    rw [next, hstep]
    rfl
  | case2 w item w' hstep =>
    rw [next, hstep]
    rfl
  | case3 w w' hstep ih =>
    rw [next, hstep]
    exact ih

theorem tree_turns (t : Tree) (w : Walk) : ∀ x ∈ w.turns t, x.tree = t := by
  fun_induction turns t w with
  | case1 w hstep => simp
  | case2 w item w' hstep => simp
  | case3 w w' hstep ih => simpa using ih

theorem turns_of_next (t : Tree) (w : Walk) (item : Item) (h : (w.next t).1 = some item) :
    ∃ front p, w.turns t = front ++ [⟨t, p, some item⟩] := by
  fun_induction turns t w with
  | case1 w hstep =>
    rw [next, hstep] at h
    simp at h
  | case2 w found w' hstep =>
    rw [next, hstep] at h
    obtain rfl := Option.some.inj h
    exact ⟨[], w.first, rfl⟩
  | case3 w w' hstep ih =>
    rw [next, hstep] at h
    obtain ⟨front, p, hfront⟩ := ih h
    exact ⟨⟨t, w.first, none⟩ :: front, p, by rw [hfront]; rfl⟩

theorem next_of_over (t : Tree) (w : Walk) (h : w.entries = []) : w.next t = (none, w) := by
  rw [next, (step?_eq_none_iff t w).2 h]

theorem over_of_next (t : Tree) (w : Walk) (h : (w.next t).1 = none) :
    (w.next t).2.entries = [] := by
  fun_induction next t w with
  | case1 w hstep => exact (step?_eq_none_iff t w).1 hstep
  | case2 w item w' hstep => simp at h
  | case3 w w' hstep ih => exact ih h

/-- The items of a walk are the answers that it gives when it is asked for one after the other in a
tree that does not change. -/
theorem items_eq_next (t : Tree) (w : Walk) :
    w.items t = match w.next t with
      | (some item, w') => item :: w'.items t
      | (none, _) => [] := by
  fun_induction next t w with
  | case1 w hstep => rw [items, hstep]
  | case2 w item w' hstep => rw [items, hstep]
  | case3 w w' hstep ih =>
    rw [items, hstep]
    exact ih

/-- A walk to its end in a tree that does not change is a course with all turns in that tree. -/
theorem after_items (t : Tree) (past : List Turn) (w : Walk) (h : After root suffix past w) :
    ∃ later, Course root suffix (past ++ later) [] ∧ (∀ x ∈ later, x.tree = t) ∧
      later.filterMap Turn.item = w.items t := by
  fun_induction items t w generalizing past with
  | case1 w hstep =>
    have hcourse := h.course
    rw [(step?_eq_none_iff t w).1 hstep] at hcourse
    exact ⟨[], by rwa [List.append_nil], by simp, rfl⟩
  | case2 w item w' hstep ih =>
    obtain ⟨later, hcourse, htree, hitems⟩ := ih _ (after_step t past w w' _ h hstep)
    rw [List.append_assoc, List.singleton_append] at hcourse
    refine ⟨_, hcourse, ?_, ?_⟩
    · simpa using htree
    · rw [List.filterMap_cons, hitems]
  | case3 w w' hstep ih =>
    obtain ⟨later, hcourse, htree, hitems⟩ := ih _ (after_step t past w w' _ h hstep)
    rw [List.append_assoc, List.singleton_append] at hcourse
    refine ⟨_, hcourse, ?_, ?_⟩
    · simpa using htree
    · rw [List.filterMap_cons_none rfl, hitems]

end Steps

end Walk

end ImportCensus
