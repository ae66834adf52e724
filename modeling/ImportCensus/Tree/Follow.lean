import ImportCensus.Tree.Basic
import ImportCensus.Tree.Cause

/-!
What it means to follow a path. The top of the tree is the top of the file system, and the directory
that the program runs in. A link on the way is replaced by its target, and a step to the parent leaves
the directory that was really reached. The first obstacle on the way is the cause of failure.
-/

namespace ImportCensus

def nameLimit : Nat := 255

def linkLimit : Nat := 40

inductive Step where
  | stay
  | up
  | into (name : FileName)
deriving DecidableEq

/-- The steps of a path. A slash at the end asks for a directory, which is a step that stays in
it. -/
def Path.steps (p : Path) : List Step :=
  (p.names.map fun n => if n = selfName then .stay else if n = parentName then .up else .into n) ++
    (if endsInSlash p then [.stay] else [])

inductive Found where
  | file (content : Bytes)
  | link (place : Place) (target : Path)
  | directory (place : Place)
deriving DecidableEq

def nullDevice : List Step := [.into [0x64, 0x65, 0x76], .into [0x6E, 0x75, 0x6C, 0x6C]]

/-- What a path leads to with the steps behind it, given what the tree has there. The null device, an
empty file, is where an absolute path asks for it, if the tree has nothing in its place. -/
def Path.orNullDevice (p : Path) (rest : List Step) (result : Except Cause Found) :
    Except Cause Found :=
  match result, p.isAbsolute, after? nullDevice (p.steps ++ rest) with
  | .error .notFound, true, some [] => .ok (.file [])
  | .error .notFound, true, some _ => .error .notDirectory
  | _, _, _ => result

theorem Path.orNullDevice_of_ne (p : Path) (rest : List Step) {result : Except Cause Found}
    (h : result ≠ .error .notFound) : p.orNullDevice rest result = result := by
  unfold orNullDevice
  split
  · exact absurd rfl h
  · exact absurd rfl h
  · rfl

theorem Path.directory_of_orNullDevice {p : Path} {rest : List Step} {result : Except Cause Found}
    {place : Place} (h : p.orNullDevice rest result = .ok (.directory place)) :
    result = .ok (.directory place) := by
  unfold orNullDevice at h
  split at h
  · simp at h
  · simp at h
  · exact h

def Path.origin (p : Path) (place : Place) : Place := if p.isAbsolute then [] else place

namespace Tree

/-- Follows steps from a directory up to the next link, which is passed on with the steps behind
it. If links are not to be followed at the end, a link in the last step is the result. -/
def follow (t : Tree) (atLast : Bool) (pass : Place → Path → List Step → Except Cause Found) :
    Place → List Step → Except Cause Found
  | place, [] => .ok (.directory place)
  | place, .stay :: rest => follow t atLast pass place rest
  | place, .up :: rest => follow t atLast pass place.dropLast rest
  | place, .into n :: rest =>
    if nameLimit < n.length then .error .nameTooLong
    else
      match t.get? (place ++ [n]) with
      | none => .error .notFound
      | some .directory => follow t atLast pass (place ++ [n]) rest
      | some (.file content) => if rest.isEmpty then .ok (.file content) else .error .notDirectory
      | some (.link target) =>
        if rest.isEmpty && !atLast then .ok (.link (place ++ [n]) target)
        else pass place target rest

def followLinks (t : Tree) (atLast : Bool) : Nat → Place → List Step → Except Cause Found
  | 0 => follow t atLast fun _ _ _ => .error .linkLoop
  | links + 1 => follow t atLast fun place target rest =>
    target.orNullDevice rest (followLinks t atLast links (target.origin place) (target.steps ++ rest))

end Tree

end ImportCensus
