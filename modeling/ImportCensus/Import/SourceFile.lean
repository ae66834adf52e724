import ImportCensus.Import.LineReader

namespace ImportCensus

def Tree.Opened.lines (path : Path) (opened : Tree.Opened) : List (Except Failure SourceLine) :=
  (LineReader.start path opened).reads

def Tree.readLines (t : Tree) (path : Path) : Except Failure (List (Except Failure SourceLine)) :=
  match t.openFile path with
  | .ok opened => .ok (opened.lines path)
  | .error cause => .error (.read path cause)

namespace Tree

theorem Opened.lines_content (path : Path) (data : Bytes) :
    lines path (.content data) = (sourceLines data).map .ok :=
  LineReader.reads_of_sound path 0 data

theorem Opened.lines_directory (path : Path) :
    lines path .directory = [.error (.read path .isDirectory)] :=
  LineReader.reads_of_fault path 0 .isDirectory [] [] (Or.inl rfl) List.not_mem_nil

variable {t : Tree} {path : Path}

theorem readLines_of_error {cause : Cause} (h : t.openFile path = .error cause) :
    t.readLines path = .error (.read path cause) := by
  unfold readLines
  rw [h]

theorem readLines_of_directory (h : t.openFile path = .ok .directory) :
    t.readLines path = .ok [.error (.read path .isDirectory)] := by
  unfold readLines
  rw [h, ← Opened.lines_directory]

theorem readLines_of_content {data : Bytes} (h : t.openFile path = .ok (.content data)) :
    t.readLines path = .ok ((sourceLines data).map .ok) := by
  unfold readLines
  rw [h, ← Opened.lines_content path]

end Tree

end ImportCensus
