import ImportCensus.Import.Candidate
import ImportCensus.Proofs.TextLines

namespace ImportCensus

def bodies (t : Text) : List Text := (occurrences t).map Occurrence.body

theorem bodies_from (start : Nat) (t : Text) :
    (occurrencesFrom start t).map Occurrence.body = bodies t := by
  unfold bodies occurrences
  generalize 0 = other
  fun_induction occurrencesFrom start t generalizing other with
  | case1 start => simp [occurrencesFrom]
  | case2 start c rest body behind hstatement ih =>
    rw [occurrencesFrom_of_statement other _ _ _ hstatement, List.map_cons, List.map_cons, ih]
  | case3 start c rest hstatement ih =>
    rw [occurrencesFrom_of_none other c rest hstatement]
    exact ih _

theorem bodies_nil : bodies [] = [] := by
  simp [bodies, occurrences, occurrencesFrom]

theorem bodies_of_statement (t body behind : Text) (h : statement? t = some (body, behind)) :
    bodies t = body :: bodies behind := by
  rw [bodies, occurrences, occurrencesFrom_of_statement 0 t body behind h, List.map_cons,
    bodies_from]

theorem bodies_of_none (c : Char) (rest : Text) (h : statement? (c :: rest) = none) :
    bodies (c :: rest) = bodies rest := by
  rw [bodies, occurrences, occurrencesFrom_of_none 0 c rest h, bodies_from]

theorem candidates_eq_bodies (t : Text) :
    candidates t [] = (bodies t).map fun body => Occurrence.candidate ⟨0, body⟩ := by
  unfold candidates bodies
  rw [List.map_map]
  rfl

theorem after?_append_cons {α : Type} [DecidableEq α] (front above below : List α) (x : α)
    (h : x ∉ front) :
    after? front (above ++ x :: below) = (after? front above).map fun rest => rest ++ x :: below := by
  induction front generalizing above with
  | nil => rfl
  | cons y front ih =>
    obtain ⟨hy, hfront⟩ : x ≠ y ∧ x ∉ front := by simpa using h
    cases above with
    | nil => simp [after?, Ne.symm hy]
    | cons z above =>
      rw [List.cons_append, after?, after?]
      split
      · exact ih above hfront
      · rfl

section Seam

/-- A place that no statement can reach over: its character is in no keyword and ends no statement,
and either it ends the line or there is no semicolon behind it in the line. -/
structure Seam (x : Char) (below : Text) : Prop where
  not_keyword : x ∉ keyword
  not_semicolon : x ≠ ';'
  no_end : x = '\n' ∨ toSemicolon below = none

variable (above below : Text) (x : Char) (seam : Seam x below)

include seam

theorem toSemicolon_seam : toSemicolon (x :: below) = none := by
  rw [toSemicolon, if_neg seam.not_semicolon]
  rcases seam.no_end with hnewline | hnone
  · rw [if_pos hnewline]
  · rw [hnone]
    split <;> rfl

theorem toSemicolon_append_seam :
    toSemicolon (above ++ x :: below) =
      (toSemicolon above).map fun found => (found.1, found.2 ++ x :: below) := by
  induction above with
  | nil => exact toSemicolon_seam below x seam
  | cons c above ih =>
    rw [List.cons_append, toSemicolon, toSemicolon, ih]
    split
    · rfl
    · split
      · rfl
      · cases toSemicolon above <;> rfl

theorem statement?_append_seam :
    statement? (above ++ x :: below) =
      (statement? above).map fun found => (found.1, found.2 ++ x :: below) := by
  unfold statement?
  rw [after?_append_cons keyword above below x seam.not_keyword]
  cases after? keyword above with
  | none => rfl
  | some rest =>
    cases rest with
    | nil =>
      -- the keyword ends at the seam, and what is behind it has no end
      simp only [Option.map_some, List.nil_append, Option.map_none]
      rcases seam.no_end with hnewline | hnone
      · rw [if_pos hnewline]
      · rw [hnone]
        split <;> rfl
    | cons c rest =>
      simp only [Option.map_some, List.cons_append]
      rw [toSemicolon_append_seam rest below x seam]
      split
      · rfl
      · cases toSemicolon rest <;> rfl

theorem bodies_append_seam : bodies (above ++ x :: below) = bodies above ++ bodies below := by
  induction hlength : above.length using Nat.strong_induction_on generalizing above with
  | _ n ih =>
    have hstatement := statement?_append_seam above below x seam
    cases hfound : statement? above with
    | some found =>
      obtain ⟨body, behind⟩ := found
      have hshorter := length_of_statement? hfound
      rw [hfound, Option.map_some] at hstatement
      rw [bodies_of_statement _ _ _ hstatement, bodies_of_statement _ _ _ hfound,
        ih behind.length (by omega) behind rfl]
      rfl
    | none =>
      rw [hfound, Option.map_none] at hstatement
      cases above with
      | nil =>
        rw [List.nil_append] at hstatement ⊢
        rw [bodies_of_none x below hstatement, bodies_nil, List.nil_append]
      | cons c above =>
        rw [List.cons_append] at hstatement ⊢
        rw [bodies_of_none c _ hstatement, bodies_of_none c above hfound,
          ih above.length (by simp at hlength; omega) above rfl]

end Seam

theorem bodies_append_newline (above below : Text) :
    bodies (above ++ '\n' :: below) = bodies above ++ bodies below :=
  bodies_append_seam above below '\n' ⟨by decide, by decide, Or.inl rfl⟩

theorem bodies_dropOne (line : Text) : bodies (Lines.dropOne '\r' line) = bodies line := by
  unfold Lines.dropOne
  split
  · rename_i hlast
    obtain ⟨front, rfl⟩ := List.getLast?_eq_some_iff.1 hlast
    rw [List.dropLast_concat,
      bodies_append_seam front [] '\r' ⟨by decide, by decide, Or.inr rfl⟩, bodies_nil,
      List.append_nil]
  · rfl

theorem bodies_ofPieces (pieces : List Text) :
    (Lines.ofPieces '\r' pieces).flatMap bodies = bodies (['\n'].intercalate pieces) := by
  induction pieces with
  | nil => simp [Lines.ofPieces, bodies_nil]
  | cons piece pieces ih =>
    cases pieces with
    | nil =>
      by_cases hnil : piece = []
      · simp [Lines.ofPieces, hnil, bodies_nil]
      · simp [Lines.ofPieces, hnil]
    | cons next pieces =>
      rw [Lines.ofPieces, List.flatMap_cons, bodies_dropOne, ih, List.intercalate_cons_cons,
        List.append_assoc, List.singleton_append, bodies_append_newline]
      simp

/-- The bodies of a text are those of its lines. -/
theorem bodies_split (t : Text) : (Lines.split '\n' '\r' t).flatMap bodies = bodies t := by
  unfold Lines.split
  rw [bodies_ofPieces]
  congr 1
  exact List.intercalate_splitOn '\n'

/-- The candidates of the lines of any data, one line behind the other, are the candidates of its
whole text, line endings included. -/
theorem candidates_of_lines (content : Bytes) :
    ((sourceLines content).flatMap fun line => candidates line.text []) =
      candidates (Utf8.decode content) [] := by
  calc
    (sourceLines content).flatMap (fun line => candidates line.text [])
    _ = ((sourceLines content).map SourceLine.text).flatMap fun text => candidates text [] := by
      rw [List.flatMap_map]
    _ = (Lines.split '\n' '\r' (Utf8.decode content)).flatMap fun text => candidates text [] := by
      rw [texts_sourceLines]
    _ = ((Lines.split '\n' '\r' (Utf8.decode content)).flatMap bodies).map
          fun body => Occurrence.candidate ⟨0, body⟩ := by
      rw [List.map_flatMap]
      simp only [candidates_eq_bodies]
    _ = candidates (Utf8.decode content) [] := by
      rw [bodies_split, candidates_eq_bodies]

end ImportCensus
