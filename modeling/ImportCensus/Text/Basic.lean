namespace ImportCensus

abbrev Text := List Char

abbrev Bytes := List UInt8

def decimal (n : Nat) : Text := Nat.toDigits 10 n

def after? {α : Type} [DecidableEq α] : List α → List α → Option (List α)
  | [], rest => some rest
  | _ :: _, [] => none
  | x :: front, y :: rest => if x = y then after? front rest else none

theorem after?_eq_some_iff {α : Type} [DecidableEq α] {front whole rest : List α} :
    after? front whole = some rest ↔ whole = front ++ rest := by
  induction front generalizing whole with
  | nil => simp [after?, eq_comm]
  | cons x front ih =>
    cases whole with
    | nil => simp [after?]
    | cons y whole =>
      by_cases h : x = y
      · subst h
        simp [after?, ih]
      · simp [after?, h, Ne.symm h]

theorem decide_eq_false_of_notMem {α : Type} [DecidableEq α] {a : α} {l : List α} (h : a ∉ l) :
    ∀ x ∈ l, decide (x = a) = false := by
  intro x hx
  rw [decide_eq_false_iff_not]
  rintro rfl
  exact h hx

def Text.occursIn (part : Text) : Text → Bool
  | [] => part.isEmpty
  | c :: rest => part.isPrefixOf (c :: rest) || Text.occursIn part rest

theorem Text.occursIn_iff {part whole : Text} :
    part.occursIn whole = true ↔ ∃ before behind, whole = before ++ part ++ behind := by
  induction whole with
  | nil =>
    simp only [occursIn, List.isEmpty_iff]
    constructor
    · rintro rfl
      exact ⟨[], [], rfl⟩
    · rintro ⟨before, behind, h⟩
      simp_all
  | cons c whole ih =>
    simp only [occursIn, Bool.or_eq_true, List.isPrefixOf_iff_prefix, ih]
    constructor
    · rintro (⟨behind, h⟩ | ⟨before, behind, rfl⟩)
      · exact ⟨[], behind, by simpa using h.symm⟩
      · exact ⟨c :: before, behind, rfl⟩
    · rintro ⟨before, behind, h⟩
      cases before with
      | nil => exact Or.inl ⟨behind, by simpa using h.symm⟩
      | cons d before =>
        simp only [List.cons_append, List.cons.injEq] at h
        exact Or.inr ⟨before, behind, h.2⟩

end ImportCensus
