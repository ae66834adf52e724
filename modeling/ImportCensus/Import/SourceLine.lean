import ImportCensus.Import.Statement
import ImportCensus.Text.Lines
import ImportCensus.Text.Utf8

namespace ImportCensus

structure SourceLine where
  number : Nat
  text : Text
  isImport : Bool
deriving DecidableEq

def SourceLine.ofBytes (number : Nat) (data : Bytes) : SourceLine :=
  let text := Utf8.decode data
  ⟨number, text, containsStatement text⟩

def SourceLine.numbered (number : Nat) : List Bytes → List SourceLine
  | [] => []
  | data :: rest => ofBytes number data :: numbered (number + 1) rest

namespace SourceLine

variable (number : Nat) (pieces : List Bytes)

/-- Numbered lines are the given octets, each with its index counted on from the first number. -/
theorem numbered_eq :
    numbered number pieces = (pieces.zipIdx number).map fun p => ofBytes p.2 p.1 := by
  induction pieces generalizing number with
  | nil => rfl
  | cons piece pieces ih => rw [numbered, ih, List.zipIdx_cons, List.map_cons]

theorem length_numbered : (numbered number pieces).length = pieces.length := by
  rw [numbered_eq, List.length_map, List.length_zipIdx]

theorem texts_numbered :
    (numbered number pieces).map SourceLine.text = pieces.map Utf8.decode := by
  calc
    (numbered number pieces).map SourceLine.text
    _ = ((pieces.zipIdx number).map Prod.fst).map Utf8.decode := by
      rw [numbered_eq, List.map_map, List.map_map]
      rfl
    _ = pieces.map Utf8.decode := by rw [List.zipIdx_map_fst]

theorem numbers_numbered :
    (numbered number pieces).map SourceLine.number =
      List.range' number (numbered number pieces).length := by
  calc
    (numbered number pieces).map SourceLine.number
    _ = (pieces.zipIdx number).map Prod.snd := by
      rw [numbered_eq, List.map_map]
      rfl
    _ = List.range' number (numbered number pieces).length := by
      rw [List.zipIdx_map_snd, length_numbered]

theorem numbered_append (below : List Bytes) :
    numbered number (pieces ++ below) =
      numbered number pieces ++ numbered (number + pieces.length) below := by
  rw [numbered_eq, List.zipIdx_append, List.map_append, ← numbered_eq, ← numbered_eq]

theorem isImport_of_mem_numbered (line : SourceLine) (h : line ∈ numbered number pieces) :
    line.isImport = containsStatement line.text := by
  rw [numbered_eq] at h
  obtain ⟨p, -, rfl⟩ := List.mem_map.1 h
  rfl

end SourceLine

def sourceLines (content : Bytes) : List SourceLine :=
  SourceLine.numbered 1 (Lines.split 0x0A 0x0D content)

end ImportCensus
