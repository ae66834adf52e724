import ImportCensus.Config
import ImportCensus.Failure
import ImportCensus.Import.Candidate
import ImportCensus.Import.SourceFile
import ImportCensus.Log
import ImportCensus.Walk

/-!
The census of a tree: every file that the walk finds is read line by line, and each occurrence of
a statement is kept, dropped or passed over. A census under way is a value with its tally, its log
and, once something has failed, its failure; from then on nothing changes it any more, so what
comes after the first failure has no effect.
-/

namespace ImportCensus

structure Census where
  tally : Tally
  log : List Event
  failure : Option Failure

namespace Census

def resume (tally : Tally) : Census := ⟨tally, [], none⟩

def unlessFailed (c : Census) (change : Census → Census) : Census :=
  if c.failure.isSome then c else change c

def note (c : Census) (e : Event) : Census := { c with log := c.log ++ [e] }

def fail (c : Census) (f : Failure) : Census := { c with failure := some f }

def takeCandidate (config : Config) (path : Path) (line : SourceLine) (c : Census)
    (candidate : Candidate) : Census :=
  c.unlessFailed fun c =>
    match candidate, config.malformed with
    | .reference token, _ => { c with tally := c.tally.keep token }
    | .excluded, _ => { c with tally := c.tally.countExcluded }
    | .malformed, .abort => c.fail (.malformedImport path line.number line.text)
    | .malformed, .skip =>
      { c.note (.skippingMalformed path line.number line.text) with
        tally := c.tally.countMalformed }

def takeLine (config : Config) (path : Path) (c : Census) (line : SourceLine) : Census :=
  c.unlessFailed fun c =>
    if line.isImport then
      (candidates line.text config.excludedNamespace).foldl (takeCandidate config path line)
        { c with tally := c.tally.countLine }
    else c

def takeRead (config : Config) (path : Path) (c : Census) (read : Except Failure SourceLine) :
    Census :=
  match read with
  | .ok line => c.takeLine config path line
  | .error failure => c.unlessFailed fun c => c.fail failure

def takeReader (config : Config) (c : Census) (r : LineReader) : Census :=
  r.reads.foldl (takeRead config r.path) c

/-- Takes up one file. It counts even if it cannot be opened. -/
def takeFile (t : Tree) (config : Config) (c : Census) (path : Path) : Census :=
  c.unlessFailed fun c =>
    let begun := { c.note (.reading path) with tally := c.tally.countFile }
    match t.openFile path with
    | .ok opened => begun.takeReader config (.start path opened)
    | .error cause => begun.fail (.read path cause)

def takeItem (t : Tree) (config : Config) (c : Census) (item : Item) : Census :=
  c.unlessFailed fun c =>
    match item.result config.root with
    | .ok path => c.takeFile t config path
    | .error failure => c.fail failure

/-- Ends a census: the references are counted and the counters go to the log. -/
def complete (c : Census) : Census :=
  c.unlessFailed fun c =>
    { c.note (.scanComplete c.tally.countKept.stats) with tally := c.tally.countKept }

end Census

def Tree.scanFile (t : Tree) (config : Config) (path : Path) (tally : Tally) : Census :=
  (Census.resume tally).takeFile t config path

def Tree.census (t : Tree) (config : Config) : Census :=
  let begun := (Census.resume Tally.empty).note (.scanning config.root config.suffix)
  ((t.discover config.root config.suffix).foldl (Census.takeItem t config) begun).complete

end ImportCensus
