import ImportCensus.Proofs.Arguments
import ImportCensus.Proofs.FailFast

namespace ImportCensus

/-- The events of a run, in order. That nothing was found is noted behind a census that succeeds. -/
def Tree.events (t : Tree) (config : Config) : List Event :=
  let census := t.census config
  census.log ++
    if census.failure.isNone && census.tally.references.isEmpty then [.nothingFound] else []

namespace CommandLine

def endedLines (t : Text) : List Text := (t.splitOn '\n').dropLast

def Outcome.lines (o : Outcome) (stamp : Text) : List Text := endedLines (o.diagnostics stamp)

def Outcome.reportLines (o : Outcome) : List Text := o.report.flatMap fun line => line.splitOn '\n'

theorem endedLines_append (pieces : List Text) (rest : Text) :
    endedLines ((pieces.flatMap fun piece => piece ++ ['\n']) ++ rest) =
      (pieces.flatMap fun piece => piece.splitOn '\n') ++ endedLines rest := by
  induction pieces with
  | nil => rfl
  | cons piece pieces ih =>
    unfold endedLines at ih ⊢
    rw [List.flatMap_cons, List.flatMap_cons, List.append_assoc, List.append_assoc,
      List.singleton_append, List.splitOn_append_cons_self,
      List.dropLast_append_of_ne_nil (List.splitOn_ne_nil _ _), ih, List.append_assoc]

theorem lines_eq (o : Outcome) (stamp : Text) :
    o.lines stamp =
      (o.events.flatMap fun e => (stamp ++ [' '] ++ e.line).splitOn '\n') ++ o.reportLines := by
  have hevents : (o.events.flatMap fun e => stamp ++ [' '] ++ e.line ++ ['\n']) =
      (o.events.map fun e => stamp ++ [' '] ++ e.line).flatMap fun piece => piece ++ ['\n'] := by
    rw [List.flatMap_map]
  have hreport : endedLines (o.report.flatMap fun line => line ++ ['\n']) = o.reportLines := by
    have h := endedLines_append o.report []
    rw [List.append_nil] at h
    rw [h]
    exact List.append_nil _
  rw [Outcome.lines, Outcome.diagnostics, hevents, endedLines_append, hreport, List.flatMap_map]

/-- The verbosity of a run decides which events are shown, and nothing else. -/
theorem runCensus_by_verbosity (t : Tree) (config : Config) (v : Verbosity) (w : Writer) :
    runCensus t ⟨config, v⟩ w =
      { runCensus t ⟨config, .normal⟩ w with events := v.filter (t.events config) } := by
  cases hfailure : (t.census config).failure with
  | some failure =>
    rw [runCensus_of_failure t ⟨config, v⟩ w failure hfailure,
      runCensus_of_failure t ⟨config, .normal⟩ w failure hfailure]
    simp [Tree.events, hfailure]
  | none =>
    rw [runCensus_of_success t ⟨config, v⟩ w hfailure,
      runCensus_of_success t ⟨config, .normal⟩ w hfailure]
    simp [Tree.events, hfailure]

theorem lines_of_sublist (few many : Outcome) (stamp : Text) (hreport : few.report = many.report)
    (hevents : few.events.Sublist many.events) : (few.lines stamp).Sublist (many.lines stamp) := by
  have hlines : few.reportLines = many.reportLines := by
    rw [Outcome.reportLines, Outcome.reportLines, hreport]
  rw [lines_eq, lines_eq, hlines]
  exact (hevents.flatMap _).append (List.Sublist.refl _)

/-- Whether a run is asked to be quiet, to be verbose or neither, it ends in the same way and writes
the same output. When it is quiet it tells only what went wrong, which the others tell behind
everything else; otherwise it tells of the warnings as well, and when it is verbose of everything
that happens. -/
theorem run_by_verbosity (t : Tree) (arguments quietly verbosely : List Bytes) (config : Config)
    (w : Writer) (stamp : Text) (h : parse arguments = .ok ⟨config, .normal⟩)
    (hquiet : Adds .quiet arguments quietly) (hverbose : Adds .verbose arguments verbosely) :
    let normal := run t arguments w
    let quiet := run t quietly w
    let verbose := run t verbosely w
    (quiet.exitCode = normal.exitCode ∧ verbose.exitCode = normal.exitCode) ∧
      (quiet.output = normal.output ∧ verbose.output = normal.output) ∧
      (quiet.events = [] ∧
        normal.events = (t.events config).filter (fun e => e.level = .warn) ∧
        verbose.events = t.events config) ∧
      (quiet.lines stamp = normal.reportLines ∧
        normal.reportLines <:+ normal.lines stamp ∧
        normal.reportLines <:+ verbose.lines stamp) ∧
      (quiet.lines stamp).Sublist (normal.lines stamp) ∧
      (normal.lines stamp).Sublist (verbose.lines stamp) := by
  intro normal quiet verbose
  let outcome (v : Verbosity) : Outcome :=
    { runCensus t ⟨config, .normal⟩ w with events := v.filter (t.events config) }
  have hrun (given : List Bytes) (v : Verbosity) (hgiven : parse given = .ok ⟨config, v⟩) :
      run t given w = outcome v := by
    rw [run_of_accepted t ⟨config, v⟩ w given hgiven]
    exact runCensus_by_verbosity t config v w
  have hn : normal = outcome .normal := hrun arguments .normal h
  have hq : quiet = outcome .quiet :=
    hrun quietly .quiet (parse_of_adds arguments quietly .quiet .quiet config rfl hquiet h)
  have hv : verbose = outcome .verbose :=
    hrun verbosely .verbose (parse_of_adds arguments verbosely .verbose .verbose config rfl hverbose h)
  have hnone : (outcome .quiet).events = [] :=
    List.filter_eq_nil_iff.2 fun e _ => Bool.false_ne_true
  have hwarned : (outcome .normal).events = (t.events config).filter fun e => e.level = .warn := rfl
  have hall : (outcome .verbose).events = t.events config :=
    List.filter_eq_self.2 fun e _ => rfl
  rw [hn, hq, hv]
  refine ⟨⟨rfl, rfl⟩, ⟨rfl, rfl⟩, ⟨hnone, hwarned, hall⟩, ⟨?_, ?_, ?_⟩, ?_, ?_⟩
  · rw [lines_eq, hnone]
    rfl
  · rw [lines_eq]
    exact List.suffix_append _ _
  · rw [lines_eq]
    exact List.suffix_append _ _
  · apply lines_of_sublist (outcome .quiet) (outcome .normal) stamp rfl
    rw [hnone]
    exact List.nil_sublist _
  · apply lines_of_sublist (outcome .normal) (outcome .verbose) stamp rfl
    rw [hwarned, hall]
    exact List.filter_sublist

def lenientArguments : List Bytes :=
  [Utf8.encode "--root".toList, selfName, Utf8.encode "--skip-malformed".toList]

def quietArguments : List Bytes :=
  [Utf8.encode "--root".toList, selfName, Utf8.encode "-q".toList,
    Utf8.encode "--skip-malformed".toList]

theorem adds_quietArguments : Adds .quiet lenientArguments quietArguments := by
  have hfront : parse [Utf8.encode "--root".toList, selfName] = .ok ⟨atTop, .normal⟩ := by decide
  have hspelling : Utf8.encode "-q".toList ∈ (Flag.switch .quiet).spellings := by decide
  exact Adds.behind [Utf8.encode "--root".toList, selfName]
    [Utf8.encode "--skip-malformed".toList] _ _ hspelling hfront (by decide)

theorem run_by_verbosity_soleFile :
    let config := atTop.withPolicy .skip
    let t := soleFile staticImport
    let w : Writer := ⟨[], some 0, .noSpace, none⟩
    let verboseArguments := Utf8.encode "--verbose".toList :: lenientArguments
    let normal := run t lenientArguments w
    let quiet := run t quietArguments w
    let verbose := run t verboseArguments w
    parse lenientArguments = .ok ⟨config, .normal⟩ ∧
      Adds .quiet lenientArguments quietArguments ∧
      Adds .verbose lenientArguments verboseArguments ∧
      (quiet.exitCode = normal.exitCode ∧ verbose.exitCode = normal.exitCode) ∧
      (quiet.output = normal.output ∧ verbose.output = normal.output) ∧
      (quiet.events = [] ∧
        normal.events = (t.events config).filter (fun e => e.level = .warn) ∧
        verbose.events = t.events config) ∧
      (quiet.lines [] = normal.reportLines ∧
        normal.reportLines <:+ normal.lines [] ∧
        normal.reportLines <:+ verbose.lines []) ∧
      (quiet.lines []).Sublist (normal.lines []) ∧
      (normal.lines []).Sublist (verbose.lines []) := by
  intro config t w verboseArguments normal quiet verbose
  have hparse : parse lenientArguments = .ok ⟨config, .normal⟩ := by decide
  have hspelling : Utf8.encode "--verbose".toList ∈ (Flag.switch .verbose).spellings := by decide
  have hverbose : Adds .verbose lenientArguments verboseArguments :=
    adds_first .verbose lenientArguments _ hspelling
  have hruns := run_by_verbosity t lenientArguments quietArguments verboseArguments config w []
    hparse adds_quietArguments hverbose
  exact ⟨hparse, adds_quietArguments, hverbose, hruns⟩

end CommandLine

end ImportCensus
