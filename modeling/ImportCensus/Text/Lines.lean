import ImportCensus.Text.Basic

namespace ImportCensus.Lines

variable {α : Type} [DecidableEq α]

def dropOne (ret : α) (piece : List α) : List α :=
  if piece.getLast? = some ret then piece.dropLast else piece

/-- The lines whose pieces between line feeds are given: every piece but the last was ended by a
line feed, and the last one is a line only if something stands in it. -/
def ofPieces (ret : α) : List (List α) → List (List α)
  | [] => []
  | [last] => if last.isEmpty then [] else [last]
  | piece :: rest => dropOne ret piece :: ofPieces ret rest

def split (feed ret : α) (whole : List α) : List (List α) :=
  ofPieces ret (whole.splitOnP fun x => decide (x = feed))

theorem ofPieces_append (ret : α) (front : List (List α)) {back : List (List α)}
    (h : back ≠ []) :
    ofPieces ret (front ++ back) = front.map (dropOne ret) ++ ofPieces ret back := by
  induction front with
  | nil => simp
  | cons piece front ih =>
    obtain ⟨next, rest, hnext⟩ : ∃ next rest, front ++ back = next :: rest := by
      cases hfront : front ++ back with
      | nil => simp_all
      | cons next rest => exact ⟨next, rest, rfl⟩
    rw [List.cons_append, hnext, ofPieces, ← hnext, ih, List.map_cons, List.cons_append]
    simp

/-- Behind a line feed the lines start afresh. -/
theorem split_append_cons (feed ret : α) (front back : List α) :
    split feed ret (front ++ feed :: back) =
      (front.splitOnP fun x => decide (x = feed)).map (dropOne ret) ++ split feed ret back := by
  unfold split
  rw [List.splitOnP_append_cons _ _ (by simp), ofPieces_append ret _ (List.splitOnP_ne_nil _ _)]

theorem split_nil (feed ret : α) : split feed ret [] = [] := by
  simp [split, ofPieces]

theorem split_of_notMem (feed ret : α) (whole : List α) (hne : whole ≠ []) (h : feed ∉ whole) :
    split feed ret whole = [whole] := by
  unfold split
  rw [List.splitOnP_eq_singleton (decide_eq_false_of_notMem h)]
  simp [ofPieces, hne]

theorem split_of_line (feed ret : α) (front back : List α) (h : feed ∉ front) :
    split feed ret (front ++ feed :: back) = dropOne ret front :: split feed ret back := by
  rw [split_append_cons, List.splitOnP_eq_singleton (decide_eq_false_of_notMem h)]
  rfl

/-- Induction line by line: a list without a line feed is its last line, and in front of a list there
may stand one more line with its line feed. -/
@[elab_as_elim]
theorem induction_by_lines (feed : α) {motive : List α → Prop}
    (last : ∀ whole, feed ∉ whole → motive whole)
    (line : ∀ front back, feed ∉ front → motive back → motive (front ++ feed :: back))
    (whole : List α) : motive whole := by
  induction hlength : whole.length using Nat.strongRecOn generalizing whole with
  | _ n ih =>
    by_cases hmem : feed ∈ whole
    · -- the first line feed ends a line, and what stands behind it is shorter
      obtain ⟨front, back, rfl, hfront⟩ := List.eq_append_cons_of_mem hmem
      have hshorter : back.length < n := by
        rw [← hlength, List.length_append, List.length_cons]
        omega
      exact line front back hfront (ih back.length hshorter back rfl)
    · exact last whole hmem

end ImportCensus.Lines
