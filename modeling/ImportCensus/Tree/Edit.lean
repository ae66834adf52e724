import ImportCensus.Tree.Resolve

namespace ImportCensus

inductive Edit where
  | put (path : Path) (entry : Entry)
  | remove (path : Path)
deriving DecidableEq

namespace Tree

/-- The directory that steps from a directory lead to, with all that is missing on the way made.
Links are followed; a file on the way leaves the tree as it is and leads nowhere. -/
def makeDirectories (t : Tree) : Place → List Step → Tree × Option Place
  | place, [] => (t, some place)
  | place, .stay :: rest => makeDirectories t place rest
  | place, .up :: rest => makeDirectories t place.dropLast rest
  | place, .into n :: rest =>
    match t.get? (place ++ [n]) with
    | none => makeDirectories (t.insert (place ++ [n]) .directory) (place ++ [n]) rest
    | some .directory => makeDirectories t (place ++ [n]) rest
    | some (.file _) => (t, none)
    | some (.link _) =>
      match t.followLinks true linkLimit place [.into n] with
      | .ok (.directory target) => makeDirectories t target rest
      | _ => (t, none)

def splitLast? (path : Path) : Option (List Step × FileName) :=
  match (path.steps.filter fun s => decide (s ≠ .stay)).reverse with
  | .into n :: around => some (around.reverse, n)
  | _ => none

/-- The place where what is written under a name in a directory ends up, after at most a given
number of links. Nothing needs to stand there yet. -/
def destination? (t : Tree) : Nat → Place → FileName → Option Place
  | 0, _, _ => none
  | links + 1, place, n =>
    match t.get? (place ++ [n]) with
    | some (.link target) =>
      match splitLast? target with
      | some (around, m) =>
        match t.followLinks true linkLimit (target.origin place) around with
        | .ok (.directory inside) => t.destination? links inside m
        | _ => none
      | none => none
    | _ => some (place ++ [n])

def putInto (t : Tree) (place : Place) (n : FileName) : Entry → Tree
  | .file content =>
    match t.destination? (linkLimit + 1) place n with
    | some inside => t.insert inside (.file content)
    | none => t
  | entry => t.insert (place ++ [n]) entry

def apply (t : Tree) : Edit → Tree
  | .put path .directory => (t.makeDirectories [] path.steps).1
  | .put path entry =>
    match splitLast? path with
    | none => t
    | some (around, n) =>
      match t.makeDirectories [] around with
      | (made, some place) => made.putInto place n entry
      | (made, none) => made
  | .remove path =>
    match splitLast? path with
    | none => t
    | some (around, n) =>
      match t.followLinks true linkLimit [] around with
      | .ok (.directory place) => t.erase (place ++ [n])
      | _ => t

def ofEdits (edits : List Edit) : Tree := edits.foldl apply empty

end Tree

end ImportCensus
