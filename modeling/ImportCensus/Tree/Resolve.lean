import ImportCensus.Tree.Trail

namespace ImportCensus

def pathLimit : Nat := 4095

namespace Tree

def resolve (t : Tree) (atLast : Bool) (path : Path) : Except Cause Found :=
  if path.contains nul then .error .nulInPath
  else if path.isEmpty then .error .notFound
  else if pathLimit < path.length then .error .nameTooLong
  else
    path.orNullDevice []
      (Trail.followLinks (Trail.start t) atLast linkLimit (Trail.start t) path.steps)

/-- A path leads to where its steps lead from the top. -/
theorem resolve_eq (t : Tree) (atLast : Bool) (path : Path) :
    t.resolve atLast path =
      if path.contains nul then .error .nulInPath
      else if path.isEmpty then .error .notFound
      else if pathLimit < path.length then .error .nameTooLong
      else path.orNullDevice [] (t.followLinks atLast linkLimit [] path.steps) := by
  unfold resolve
  rw [Trail.followLinks_eq linkLimit .start]

def isDirectory (t : Tree) (path : Path) : Bool :=
  match t.resolve true path with
  | .ok (.directory _) => true
  | _ => false

def list (t : Tree) (path : Path) : Except Cause (List (FileName × Kind)) :=
  match t.resolve true path with
  | .ok (.directory place) => .ok (t.children place)
  | .ok _ => .error .notDirectory
  | .error cause => .error cause

/-- What opening a path for reading gives. A directory can be opened and is found out when it is
read. -/
inductive Opened where
  | content (data : Bytes)
  | directory
deriving DecidableEq

def openFile (t : Tree) (path : Path) : Except Cause Opened :=
  match t.resolve true path with
  | .ok (.file data) => .ok (.content data)
  | .ok (.directory _) => .ok .directory
  | .ok (.link _ _) => .error .linkLoop
  | .error cause => .error cause

theorem length_le_of_resolve {t : Tree} {atLast : Bool} {path : Path} {found : Found}
    (h : t.resolve atLast path = .ok found) : path.length ≤ pathLimit := by
  unfold resolve at h
  split at h
  · simp at h
  · split at h
    · simp at h
    · split at h
      · simp at h
      · omega

/-- A directory that can be listed has a path within the limit and no more entries than its
tree. -/
theorem bounds_of_list {t : Tree} {path : Path} {listing : List (FileName × Kind)}
    (h : t.list path = .ok listing) :
    path.length ≤ pathLimit ∧ listing.length ≤ t.size := by
  unfold list at h
  split at h
  · rename_i place hplace
    simp only [Except.ok.injEq] at h
    subst h
    exact ⟨length_le_of_resolve hplace, t.length_children_le place⟩
  · simp at h
  · simp at h

end Tree

end ImportCensus
