import ImportCensus.Text.Quoted
import ImportCensus.Tree.Cause
import ImportCensus.Tree.Path

namespace ImportCensus

inductive Failure where
  | walk (path : Path) (cause : Cause)
  | rootNotDirectory (path : Path)
  | read (path : Path) (cause : Cause)
  | malformedImport (path : Path) (line : Nat) (text : Text)
  | output (cause : Cause)
deriving DecidableEq

namespace Failure

def message : Failure → Text
  | walk path _ => "cannot walk ".toList ++ path.shown
  | rootNotDirectory path => "scan root ".toList ++ path.shown ++ " is not a directory".toList
  | read path _ => "cannot read ".toList ++ path.shown
  | malformedImport path line text =>
    "malformed import at ".toList ++ path.shown ++ [':'] ++ decimal line ++ ": ".toList ++
      text.quoted
  | output _ => "cannot write output".toList

def causes : Failure → List Text
  | walk path cause =>
    ["IO error for operation on ".toList ++ path.shown ++ ": ".toList ++ cause.text, cause.text]
  | read _ cause => [cause.text]
  | output cause => [cause.text]
  | rootNotDirectory _ | malformedImport _ _ _ => []

def hanging (margin : Nat) (t : Text) : Text :=
  t.flatMap fun c => if c = '\n' then '\n' :: List.replicate margin ' ' else [c]

/-- A failure as it is reported at the end of a run, piece by piece. Causes are numbered if there
are several, and each stands in a column of its own. -/
def report (f : Failure) : List Text :=
  ("Error: ".toList ++ f.message) ::
    match f.causes with
    | [] => []
    | [cause] => [[], "Caused by:".toList, "    ".toList ++ hanging 4 cause]
    | causes =>
      [] :: "Caused by:".toList ::
        causes.mapIdx fun i cause =>
          "    ".toList ++ decimal i ++ ": ".toList ++ hanging 7 cause

end Failure

end ImportCensus
