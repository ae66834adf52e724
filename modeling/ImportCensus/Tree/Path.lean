import ImportCensus.Text.Utf8

namespace ImportCensus

abbrev Path := Bytes

abbrev FileName := Bytes

def slash : UInt8 := 0x2F

def nul : UInt8 := 0

def selfName : FileName := [0x2E]

def parentName : FileName := [0x2E, 0x2E]

namespace Path

def names (p : Path) : List FileName :=
  (p.splitOnP fun b => decide (b = slash)).filter fun n => !n.isEmpty

def endsInSlash (p : Path) : Bool := p.getLast? == some slash

def isAbsolute (p : Path) : Bool := p.head? == some slash

/-- The name of what a path leads to. There is none where the path ends in a step to a parent or
consists of steps that stay in place. -/
def fileName? (p : Path) : Option FileName :=
  match (p.names.filter fun n => decide (n ≠ selfName)).getLast? with
  | some n => if n = parentName then none else some n
  | none => none

def hasSuffix (p : Path) (suffix : Text) : Bool :=
  match p.fileName?.bind Utf8.decode? with
  | some name => suffix.isSuffixOf name
  | none => false

/-- The path of what stands below a root under the given names. A root that ends in a slash gets no
second one, and an empty root gets none. -/
def below (root : Path) (names : List FileName) : Path :=
  match names with
  | [] => root
  | _ => (if root.isEmpty || endsInSlash root then root else root ++ [slash]) ++
      List.intercalate [slash] names

def shown (p : Path) : Text := Utf8.decode p

def normalized (p : Path) : Text := p.shown.map fun c => if c = '\\' then '/' else c

theorem length_intercalate_slash (names : List FileName) :
    names.length ≤ (List.intercalate [slash] names).length + 1 := by
  induction names with
  | nil => simp
  | cons n names ih =>
    cases names with
    | nil => simp
    | cons m names =>
      rw [List.intercalate_cons_cons]
      simp only [List.length_cons, List.length_append] at ih ⊢
      omega

/-- A path is at least as long as the names below its root, one less for the first, so the length
of paths bounds how deep a walk can go. -/
theorem length_le_length_below (root : Path) (names : List FileName) :
    names.length ≤ (below root names).length + 1 := by
  unfold below
  split
  · simp
  · rw [List.length_append]
    have := length_intercalate_slash names
    omega

end Path

end ImportCensus
