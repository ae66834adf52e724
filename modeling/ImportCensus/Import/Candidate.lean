import ImportCensus.Import.Statement
import ImportCensus.Text.Blank

namespace ImportCensus

/-- The second word of a text without the semicolon at its end. There is none if the second word
has no semicolon at its end or is nothing else. -/
def secondWord? (t : Text) : Option Text :=
  match t.words with
  | _ :: word :: _ =>
    if word.getLast? = some ';' ∧ word.dropLast ≠ [] then some word.dropLast else none
  | _ => none

inductive Candidate where
  | reference (token : Text)
  | excluded
  | malformed
deriving DecidableEq

/-- A line is excluded if the excluded namespace stands anywhere in it. The empty namespace
excludes no line. -/
def isExcluded (line excludedNamespace : Text) : Bool :=
  !excludedNamespace.isEmpty && excludedNamespace.occursIn line

def Occurrence.candidate (o : Occurrence) : Candidate :=
  match secondWord? o.text with
  | some token => .reference token
  | none => .malformed

def candidates (line excludedNamespace : Text) : List Candidate :=
  (occurrences line).map fun o =>
    if isExcluded line excludedNamespace then .excluded else o.candidate

end ImportCensus
