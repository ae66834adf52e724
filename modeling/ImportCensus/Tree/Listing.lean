import ImportCensus.Tree.Path

namespace ImportCensus

abbrev Listing (α : Type) := List (FileName × α)

namespace Listing

variable {α : Type}

def Ordered (l : Listing α) : Prop := l.Pairwise fun a b => a.1 < b.1

def put (n : FileName) (x : α) : Listing α → Listing α
  | [] => [(n, x)]
  | (m, y) :: rest =>
    if n < m then (n, x) :: (m, y) :: rest
    else if n = m then (n, x) :: rest
    else (m, y) :: put n x rest

def change (n : FileName) (f : α → α) (l : Listing α) : Listing α :=
  l.map fun e => (e.1, if e.1 = n then f e.2 else e.2)

def without (n : FileName) (l : Listing α) : Listing α := l.filter fun e => decide (e.1 ≠ n)

theorem lookup_cons (n : FileName) (e : FileName × α) (l : Listing α) :
    List.lookup n (e :: l) = if n = e.1 then some e.2 else l.lookup n := by
  rw [List.lookup_cons]
  by_cases h : n = e.1
  · simp [h]
  · rw [beq_eq_false_iff_ne.2 h, if_neg h]

theorem lookup_put (n m : FileName) (x : α) (l : Listing α) :
    (put n x l).lookup m = if m = n then some x else l.lookup m := by
  induction l with
  | nil => simp [put, lookup_cons]
  | cons e l ih =>
    obtain ⟨k, y⟩ := e
    unfold put
    split
    · rw [lookup_cons]
    · split
      · rename_i heq
        subst heq
        rw [lookup_cons, lookup_cons]
        by_cases h : m = n <;> simp [h]
      · rename_i hne
        rw [lookup_cons, lookup_cons, ih]
        by_cases hk : m = k
        · have hm : m ≠ n := fun h => hne (h.symm.trans hk)
          simp [hk, hk ▸ hm]
        · simp [hk]

theorem lookup_change (n m : FileName) (f : α → α) (l : Listing α) :
    (change n f l).lookup m = if m = n then (l.lookup m).map f else l.lookup m := by
  unfold change
  induction l with
  | nil => simp
  | cons e l ih =>
    rw [List.map_cons, lookup_cons, lookup_cons, ih]
    by_cases hk : m = e.1
    · subst hk
      by_cases h : e.1 = n <;> simp [h]
    · simp [hk]

theorem lookup_without (n m : FileName) (l : Listing α) :
    (without n l).lookup m = if m = n then none else l.lookup m := by
  unfold without
  induction l with
  | nil => simp
  | cons e l ih =>
    rw [List.filter_cons, lookup_cons]
    by_cases hn : e.1 = n
    · rw [if_neg (by simpa using hn), ih]
      by_cases h : m = n
      · simp [h]
      · have hm : m ≠ e.1 := fun he => h (he.trans hn)
        simp [h, hm]
    · rw [if_pos (by simpa using hn), lookup_cons, ih]
      by_cases hk : m = e.1
      · have hm : m ≠ n := fun h => hn (hk.symm.trans h)
        simp [hk, hk ▸ hm]
      · simp [hk]

theorem mem_of_lookup {n : FileName} {x : α} {l : Listing α} (h : l.lookup n = some x) :
    (n, x) ∈ l := by
  induction l with
  | nil => simp at h
  | cons e l ih =>
    rw [lookup_cons] at h
    split at h
    · rename_i hn
      obtain rfl := Option.some.inj h
      rw [hn]
      exact List.mem_cons_self
    · exact List.mem_cons_of_mem e (ih h)

theorem mem_iff_lookup {l : Listing α} (ordered : Ordered l) {n : FileName} {x : α} :
    (n, x) ∈ l ↔ l.lookup n = some x := by
  refine ⟨?_, mem_of_lookup⟩
  induction l with
  | nil => simp
  | cons e l ih =>
    obtain ⟨first, rest⟩ := List.pairwise_cons.1 ordered
    intro h
    rw [lookup_cons]
    rcases List.mem_cons.1 h with rfl | h
    · simp
    · have before : e.1 < n := first _ h
      have different : n ≠ e.1 := by
        rintro rfl
        exact List.lt_irrefl _ before
      rw [if_neg different]
      exact ih rest h

theorem mem_put {n : FileName} {x : α} {l : Listing α} {e : FileName × α} (h : e ∈ put n x l) :
    e = (n, x) ∨ e ∈ l := by
  induction l with
  | nil => simpa [put] using h
  | cons d l ih =>
    obtain ⟨m, y⟩ := d
    unfold put at h
    split at h
    · simpa using h
    · split at h
      · rcases List.mem_cons.1 h with rfl | h
        · exact Or.inl rfl
        · exact Or.inr (List.mem_cons_of_mem _ h)
      · rcases List.mem_cons.1 h with rfl | h
        · exact Or.inr List.mem_cons_self
        · rcases ih h with rfl | h
          · exact Or.inl rfl
          · exact Or.inr (List.mem_cons_of_mem _ h)

theorem name_lt_of_not_lt {a b : FileName} (h : ¬a < b) (hne : a ≠ b) : b < a := by
  have total : a < b ∨ a = b ∨ b < a := Std.Trichotomous.rel_or_eq_or_rel_swap
  rcases total with h' | h' | h'
  · exact absurd h' h
  · exact absurd h' hne
  · exact h'

theorem ordered_put (n : FileName) (x : α) {l : Listing α} (h : Ordered l) :
    Ordered (put n x l) := by
  unfold Ordered at h ⊢
  induction l with
  | nil => simp [put]
  | cons e l ih =>
    obtain ⟨m, y⟩ := e
    obtain ⟨first, rest⟩ := List.pairwise_cons.1 h
    unfold put
    split
    · rename_i hlt
      refine List.pairwise_cons.2 ⟨?_, h⟩
      intro e he
      rcases List.mem_cons.1 he with rfl | he
      · exact hlt
      · exact List.lt_trans hlt (first e he)
    · rename_i hlt
      split
      · rename_i heq
        subst heq
        exact List.pairwise_cons.2 ⟨first, rest⟩
      · rename_i hne
        refine List.pairwise_cons.2 ⟨?_, ih rest⟩
        intro e he
        rcases mem_put he with rfl | he
        · exact name_lt_of_not_lt hlt hne
        · exact first e he

theorem ordered_change (n : FileName) (f : α → α) {l : Listing α} (h : Ordered l) :
    Ordered (change n f l) := by
  unfold Ordered change
  rw [List.pairwise_map]
  exact h

theorem ordered_without (n : FileName) {l : Listing α} (h : Ordered l) : Ordered (without n l) :=
  List.Pairwise.filter _ h

end Listing

end ImportCensus
