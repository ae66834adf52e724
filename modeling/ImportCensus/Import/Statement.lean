import ImportCensus.Text.Basic

namespace ImportCensus

def keyword : Text := ['i', 'm', 'p', 'o', 'r', 't', ' ']

def toSemicolon : Text → Option (Text × Text)
  | [] => none
  | c :: rest =>
    if c = ';' then some ([], rest)
    else if c = '\n' then none
    else (toSemicolon rest).map fun (before, behind) => (c :: before, behind)

/-- The body of the statement that a text begins with, and the characters behind its semicolon. The
first character of a body may be a semicolon itself, since a body is never empty. -/
def statement? (t : Text) : Option (Text × Text) :=
  match after? keyword t with
  | some (c :: rest) =>
    if c = '\n' then none
    else (toSemicolon rest).map fun (before, behind) => (c :: before, behind)
  | _ => none

theorem eq_of_toSemicolon {t before behind : Text} (h : toSemicolon t = some (before, behind)) :
    t = before ++ ';' :: behind := by
  induction t generalizing before with
  | nil => simp [toSemicolon] at h
  | cons c t ih =>
    unfold toSemicolon at h
    split at h
    · simp_all
    · split at h
      · simp at h
      · obtain ⟨⟨b, r⟩, hb, he⟩ := Option.map_eq_some_iff.1 h
        simp only [Prod.mk.injEq] at he
        obtain ⟨rfl, rfl⟩ := he
        rw [ih hb, List.cons_append]

/-- A statement is its keyword, its body and its semicolon. -/
theorem eq_of_statement? {t body behind : Text} (h : statement? t = some (body, behind)) :
    t = keyword ++ body ++ ';' :: behind := by
  unfold statement? at h
  split at h
  · rename_i c rest hc
    split at h
    · simp at h
    · obtain ⟨⟨b, r⟩, hb, he⟩ := Option.map_eq_some_iff.1 h
      simp only [Prod.mk.injEq] at he
      obtain ⟨rfl, rfl⟩ := he
      rw [after?_eq_some_iff.1 hc, eq_of_toSemicolon hb]
      simp
  · simp at h

theorem length_of_statement? {t body behind : Text} (h : statement? t = some (body, behind)) :
    behind.length < t.length := by
  rw [eq_of_statement? h]
  simp only [List.length_append, List.length_cons]
  omega

/-- A statement found in a text: where it starts, counted in characters, and what stands between
its keyword and its semicolon. -/
structure Occurrence where
  start : Nat
  body : Text
deriving DecidableEq

def Occurrence.stop (o : Occurrence) : Nat := o.start + keyword.length + o.body.length + 1

def Occurrence.text (o : Occurrence) : Text := keyword ++ o.body ++ [';']

def occurrencesFrom (start : Nat) (t : Text) : List Occurrence :=
  match t with
  | [] => []
  | c :: rest =>
    match _h : statement? (c :: rest) with
    | some (body, behind) =>
      ⟨start, body⟩ :: occurrencesFrom (Occurrence.stop ⟨start, body⟩) behind
    | none => occurrencesFrom (start + 1) rest
termination_by t.length
decreasing_by
  · exact length_of_statement? _h
  · simp

theorem occurrencesFrom_of_statement (start : Nat) (t body behind : Text)
    (h : statement? t = some (body, behind)) :
    occurrencesFrom start t =
      ⟨start, body⟩ :: occurrencesFrom (Occurrence.stop ⟨start, body⟩) behind := by
  cases t with
  | nil => simp [statement?, keyword, after?] at h
  | cons c rest =>
    rw [occurrencesFrom]
    split
    · rename_i hsame
      rw [h] at hsame
      obtain ⟨rfl, rfl⟩ := Prod.mk.inj (Option.some.inj hsame)
      rfl
    · simp_all

theorem occurrencesFrom_of_none (start : Nat) (c : Char) (rest : Text)
    (h : statement? (c :: rest) = none) :
    occurrencesFrom start (c :: rest) = occurrencesFrom (start + 1) rest := by
  rw [occurrencesFrom]
  split
  · simp_all
  · rfl

def occurrences (t : Text) : List Occurrence := occurrencesFrom 0 t

def containsStatement : Text → Bool
  | [] => false
  | c :: rest => (statement? (c :: rest)).isSome || containsStatement rest

end ImportCensus
