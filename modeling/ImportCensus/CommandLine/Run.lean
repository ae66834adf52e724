import ImportCensus.Census
import ImportCensus.CommandLine.Help
import ImportCensus.CommandLine.Options
import ImportCensus.Output

namespace ImportCensus.CommandLine

/-- What a run leaves behind. Its diagnostics are the events shown and then the lines of the
report. -/
structure Outcome where
  exitCode : Nat
  output : Writer
  events : List Event
  report : List Text
deriving DecidableEq

def firstLine (t : Text) : Text := t.takeWhile fun c => decide (c ≠ '\n')

def runCensus (t : Tree) (o : Options) (w : Writer) : Outcome :=
  let census := t.census o.config
  match census.failure with
  | some failure => ⟨1, w, o.verbosity.filter census.log, failure.report⟩
  | none =>
    let references := census.tally.references
    let log := if references.isEmpty then census.log ++ [.nothingFound] else census.log
    match references.writeTo w with
    | (w, none) => ⟨0, w, o.verbosity.filter log, []⟩
    | (w, some cause) => ⟨1, w, o.verbosity.filter log, (Failure.output cause).report⟩

/-- A run of the program. Of a refusal only the first line is reported; information about the
program that cannot be written is lost without a report. -/
def run (t : Tree) (arguments : List Bytes) (w : Writer) : Outcome :=
  match parse arguments with
  | .ok options => runCensus t options w
  | .error (.refused refusal) => ⟨2, w, [], [firstLine refusal.report]⟩
  | .error (.help long) => ⟨0, (w.write (Utf8.encode (help long))).1, [], []⟩
  | .error .version => ⟨0, (w.write (Utf8.encode version)).1, [], []⟩

def Outcome.diagnostics (o : Outcome) (stamp : Text) : Text :=
  (o.events.flatMap fun e => stamp ++ [' '] ++ e.line ++ ['\n']) ++
    o.report.flatMap fun line => line ++ ['\n']

end ImportCensus.CommandLine
