import ImportCensus.References

namespace ImportCensus

/-- The counters of a census. Files and lines are counted as they are taken up; the other counters
count occurrences, except for the references kept, which are counted at the end. -/
structure Stats where
  filesScanned : Nat
  linesMatched : Nat
  referencesKept : Nat
  duplicatesDropped : Nat
  excluded : Nat
  malformedSkipped : Nat
deriving DecidableEq

def Stats.zero : Stats := ⟨0, 0, 0, 0, 0, 0⟩

structure Tally where
  references : References
  stats : Stats

def Tally.empty : Tally := ⟨References.empty, Stats.zero⟩

namespace Tally

def countFile (t : Tally) : Tally :=
  { t with stats := { t.stats with filesScanned := t.stats.filesScanned + 1 } }

def countLine (t : Tally) : Tally :=
  { t with stats := { t.stats with linesMatched := t.stats.linesMatched + 1 } }

def keep (t : Tally) (token : Text) : Tally :=
  if t.references.contains token then
    { t with stats := { t.stats with duplicatesDropped := t.stats.duplicatesDropped + 1 } }
  else { t with references := t.references.insert token }

def countExcluded (t : Tally) : Tally :=
  { t with stats := { t.stats with excluded := t.stats.excluded + 1 } }

def countMalformed (t : Tally) : Tally :=
  { t with stats := { t.stats with malformedSkipped := t.stats.malformedSkipped + 1 } }

def countKept (t : Tally) : Tally :=
  { t with stats := { t.stats with referencesKept := t.references.size } }

end Tally

end ImportCensus
