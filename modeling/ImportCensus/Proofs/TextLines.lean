import ImportCensus.Import.SourceLine
import ImportCensus.Proofs.Decoding

namespace ImportCensus

theorem decode_newline (front back : Bytes) :
    Utf8.decode (front ++ 0x0A :: back) = Utf8.decode front ++ '\n' :: Utf8.decode back :=
  Utf8.decode_append_cons front back (by decide)

theorem decode_return (front back : Bytes) :
    Utf8.decode (front ++ 0x0D :: back) = Utf8.decode front ++ '\r' :: Utf8.decode back :=
  Utf8.decode_append_cons front back (by decide)

theorem newline_notMem_decode (data : Bytes) (h : (0x0A : UInt8) ∉ data) :
    '\n' ∉ Utf8.decode data := by
  intro hmem
  obtain ⟨b, hb, heq⟩ := Utf8.octet_of_mem_decode '\n' (by decide) (by decide) data hmem
  obtain rfl : b = 0x0A := UInt8.toNat_inj.1 heq
  exact h hb

theorem decode_pieces (content : Bytes) :
    (content.splitOnP fun b => decide (b = 0x0A)).map Utf8.decode =
      (Utf8.decode content).splitOnP fun c => decide (c = '\n') := by
  induction content using Lines.induction_by_lines (0x0A : UInt8) with
  | last whole h =>
    have hfree := decide_eq_false_of_notMem h
    have hread := decide_eq_false_of_notMem (newline_notMem_decode whole h)
    rw [List.splitOnP_eq_singleton hfree, List.splitOnP_eq_singleton hread]
    rfl
  | line front back h ih =>
    have hfree := decide_eq_false_of_notMem h
    have hread := decide_eq_false_of_notMem (newline_notMem_decode front h)
    rw [List.splitOnP_append_cons_of_forall_mem hfree 0x0A (by simp), List.map_cons, ih,
      decode_newline, List.splitOnP_append_cons_of_forall_mem hread '\n' (by simp)]

theorem decode_dropOne (piece : Bytes) :
    Utf8.decode (Lines.dropOne 0x0D piece) = Lines.dropOne '\r' (Utf8.decode piece) := by
  rcases List.eq_nil_or_concat' piece with rfl | ⟨front, b, rfl⟩
  · rfl
  · by_cases hb : b = 0x0D
    · have hread : Utf8.decode (front ++ [0x0D]) = Utf8.decode front ++ ['\r'] := decode_return front []
      rw [hb, hread]
      simp [Lines.dropOne]
    · have hlast : (Utf8.decode (front ++ [b])).getLast? ≠ some '\r' := by
        intro hreturn
        apply hb
        exact UInt8.toNat_inj.1
          (Utf8.octet_of_getLast_decode '\r' (by decide) (by decide) front b hreturn)
      simp [Lines.dropOne, hlast, hb]

theorem decode_ofPieces (pieces : List Bytes) :
    (Lines.ofPieces 0x0D pieces).map Utf8.decode =
      Lines.ofPieces '\r' (pieces.map Utf8.decode) := by
  induction pieces with
  | nil => rfl
  | cons piece pieces ih =>
    cases pieces with
    | nil =>
      by_cases hnil : piece = []
      · rw [hnil]
        rfl
      · have hread : Utf8.decode piece ≠ [] := fun h => hnil ((Utf8.decode_eq_nil_iff piece).1 h)
        simp [Lines.ofPieces, hnil, hread]
    | cons next pieces =>
      rw [Lines.ofPieces, List.map_cons, ih, decode_dropOne]
      · rfl
      · simp

/-- The lines of data, each read for itself, are the lines of its text. -/
theorem decode_split (content : Bytes) :
    (Lines.split 0x0A 0x0D content).map Utf8.decode =
      Lines.split '\n' '\r' (Utf8.decode content) := by
  unfold Lines.split
  rw [decode_ofPieces, decode_pieces]

theorem texts_sourceLines (content : Bytes) :
    (sourceLines content).map SourceLine.text = Lines.split '\n' '\r' (Utf8.decode content) := by
  unfold sourceLines
  rw [SourceLine.texts_numbered, decode_split]

end ImportCensus
