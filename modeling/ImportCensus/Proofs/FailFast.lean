import ImportCensus.CommandLine.Run
import ImportCensus.Proofs.Policies
import ImportCensus.Proofs.Rendering

namespace ImportCensus

structure Writer.Takes (w : Writer) (data : Bytes) : Prop where
  fits : ∀ room, w.room = some room → data.length ≤ room
  passesOn : w.flushFault = none

/-- A writer that takes nothing more. It fails at the first octet, and not before. -/
structure Writer.IsFull (w : Writer) : Prop where
  room : w.room = some 0
  passesOn : w.flushFault = none

theorem rendered_eq_nil (r : References) : Utf8.encode r.rendered = [] ↔ r.tokens = [] := by
  constructor
  · intro h
    cases htokens : r.tokens with
    | nil => rfl
    | cons token rest =>
      have hlength := congrArg List.length h
      rw [References.rendered, htokens, List.flatMap_cons, Utf8.encode_append,
        Utf8.encode_append] at hlength
      have hfeed : (Utf8.encode ['\n']).length = 1 := rfl
      simp only [List.length_append, hfeed, List.length_nil] at hlength
      omega
  · intro h
    rw [References.rendered, h]
    rfl

theorem writeTo_of_takes (r : References) (w : Writer) (h : w.Takes (Utf8.encode r.rendered)) :
    (r.writeTo w).2 = none ∧ (r.writeTo w).1.stored = w.stored ++ Utf8.encode r.rendered := by
  rw [writeTo_eq, Writer.write]
  cases hroom : w.room with
  | none => exact ⟨h.passesOn, rfl⟩
  | some room =>
    have hfits := h.fits room hroom
    dsimp only
    rw [if_neg (Nat.not_lt.2 hfits), List.take_of_length_le hfits]
    exact ⟨h.passesOn, rfl⟩

/-- A full writer is found out by the first reference. Without one it goes unnoticed. -/
theorem writeTo_of_full (r : References) (w : Writer) (h : w.IsFull) :
    (r.writeTo w).2 = (if r.tokens = [] then none else some w.full) ∧
      (r.writeTo w).1.stored = w.stored := by
  rw [writeTo_eq, Writer.write, h.room]
  by_cases hnone : r.tokens = []
  · have hempty := (rendered_eq_nil r).2 hnone
    simp [hempty, hnone, h.passesOn]
  · have hdata : 0 < (Utf8.encode r.rendered).length :=
      List.length_pos_of_ne_nil fun hempty => hnone ((rendered_eq_nil r).1 hempty)
    simp [hdata, hnone]

namespace CommandLine

variable (t : Tree) (o : Options) (w : Writer)

theorem runCensus_of_failure (failure : Failure) (h : (t.census o.config).failure = some failure) :
    runCensus t o w = ⟨1, w, o.verbosity.filter (t.census o.config).log, failure.report⟩ := by
  unfold runCensus
  dsimp only
  rw [h]

theorem runCensus_of_success (h : (t.census o.config).failure = none) :
    let references := (t.census o.config).tally.references
    let log := (t.census o.config).log ++ if references.isEmpty then [.nothingFound] else []
    let written := references.writeTo w
    runCensus t o w =
      ⟨if written.2.isSome then 1 else 0, written.1, o.verbosity.filter log,
        (written.2.map fun cause => (Failure.output cause).report).getD []⟩ := by
  intro references log written
  have hlog : (if references.isEmpty then (t.census o.config).log ++ [.nothingFound]
      else (t.census o.config).log) = log := by
    by_cases hempty : references.isEmpty = true
    · simp only [log, hempty, if_true]
    · simp only [log, hempty, if_false, List.append_nil, Bool.false_eq_true]
  unfold runCensus
  dsimp only
  rw [h]
  dsimp only
  rw [hlog]
  rcases hwritten : references.writeTo w with ⟨after, _ | cause⟩
  · simp only [written, hwritten]
    rfl
  · simp only [written, hwritten]
    rfl

theorem run_of_refused (arguments : List Bytes) (refusal : Refusal)
    (h : parse arguments = .error (.refused refusal)) :
    run t arguments w = ⟨2, w, [], [firstLine refusal.report]⟩ := by
  rw [run, h]

theorem run_of_accepted (arguments : List Bytes) (h : parse arguments = .ok o) :
    run t arguments w = runCensus t o w := by
  rw [run, h]

/-- A run whose arguments are refused writes nothing, and the tree does not matter. A run whose
census fails writes nothing, whatever it has gathered until then. Otherwise all references are
written, if they can be. -/
theorem run_fails_fast (t : Tree) (arguments : List Bytes) (w : Writer) :
    let outcome := run t arguments w
    (∀ refusal, parse arguments = .error (.refused refusal) →
      outcome.exitCode = 2 ∧ outcome.output = w ∧ ∀ other, run other arguments w = outcome) ∧
    ∀ options, parse arguments = .ok options →
      let census := t.census options.config
      let tokens := census.tally.references.tokens
      let lines := Utf8.encode (tokens.flatMap fun token => token ++ ['\n'])
      (∀ failure, census.failure = some failure →
        outcome.exitCode = 1 ∧ outcome.output = w ∧ outcome.report = failure.report) ∧
      (census.failure = none → w.Takes lines →
        outcome.exitCode = 0 ∧ outcome.output.stored = w.stored ++ lines ∧ outcome.report = []) ∧
      (census.failure = none → w.IsFull →
        outcome.output.stored = w.stored ∧
          (tokens = [] → outcome.exitCode = 0 ∧ outcome.report = []) ∧
          (tokens ≠ [] → outcome.exitCode = 1 ∧
            outcome.report = (Failure.output w.full).report)) := by
  intro outcome
  refine ⟨?_, ?_⟩
  · intro refusal h
    have hrun (other : Tree) := run_of_refused other w arguments refusal h
    have houtcome : outcome = ⟨2, w, [], [firstLine refusal.report]⟩ := hrun t
    rw [houtcome]
    exact ⟨rfl, rfl, hrun⟩
  · intro options h census tokens lines
    have hrun : outcome = runCensus t options w := run_of_accepted t options w arguments h
    rw [hrun]
    refine ⟨?_, ?_, ?_⟩
    -- the tally of a census that failed is not looked at, so what is in it stays behind
    · intro failure hfailure
      rw [runCensus_of_failure t options w failure hfailure]
      exact ⟨rfl, rfl, rfl⟩
    · intro hsuccess htakes
      rw [runCensus_of_success t options w hsuccess]
      obtain ⟨hwritten, hstored⟩ := writeTo_of_takes census.tally.references w htakes
      rw [hwritten]
      exact ⟨rfl, hstored, rfl⟩
    · intro hsuccess hfull
      rw [runCensus_of_success t options w hsuccess]
      obtain ⟨hwritten, hstored⟩ := writeTo_of_full census.tally.references w hfull
      rw [hwritten]
      refine ⟨hstored, ?_, ?_⟩
      · intro hnone
        rw [if_pos hnone]
        exact ⟨rfl, rfl⟩
      · intro hsome
        rw [if_neg hsome]
        exact ⟨rfl, rfl⟩

def topArguments : List Bytes := [Utf8.encode "--root=.".toList]

theorem parse_topArguments : parse topArguments = .ok ⟨atTop, .normal⟩ := by decide

theorem census_staticImport :
    ((soleFile staticImport).census atTop).failure =
        some (.malformedImport solePath 2 " import static c.D;".toList) ∧
      ((soleFile staticImport).census atTop).tally.references.tokens = ["a.B".toList] := by
  have heffects : (soleFile staticImport).effects atTop =
      [.beginFile solePath, .countLine, .keep "a.B".toList, .countLine,
        .fail (.malformedImport solePath 2 " import static c.D;".toList), .countLine,
        .keep "e.F".toList] := by
    rw [effects_soleFile _ _ rfl rfl]
    cbv
  rw [Tree.census_eq, heffects]
  exact ⟨rfl, rfl⟩

theorem census_plainImport :
    ((soleFile plainImport).census atTop).failure = none ∧
      ((soleFile plainImport).census atTop).tally.references.tokens = ["a.B".toList] := by
  have heffects := effects_plainImport .abort
  change (soleFile plainImport).effects atTop = _ at heffects
  rw [Tree.census_eq, heffects]
  exact ⟨rfl, rfl⟩

theorem census_emptyFile :
    ((soleFile []).census atTop).failure = none ∧
      ((soleFile []).census atTop).tally.references.tokens = [] := by
  rw [Tree.census_eq, effects_soleFile _ _ rfl rfl]
  exact ⟨rfl, rfl⟩

theorem run_fails_fast_soleFile :
    let unknown := [Utf8.encode "-x".toList]
    let roomy : Writer := ⟨[], none, .noSpace, none⟩
    let full : Writer := ⟨[], some 0, .noSpace, none⟩
    let broken := soleFile staticImport
    let plain := soleFile plainImport
    let empty := soleFile []
    ((run broken unknown roomy).exitCode = 2 ∧ (run broken unknown roomy).output = roomy ∧
        ∀ other, run other unknown roomy = run broken unknown roomy) ∧
      ((broken.census atTop).tally.references.tokens = ["a.B".toList] ∧
        (run broken topArguments roomy).exitCode = 1 ∧
        (run broken topArguments roomy).output = roomy) ∧
      ((run plain topArguments roomy).exitCode = 0 ∧
        (run plain topArguments roomy).output.stored = Utf8.encode "a.B\n".toList) ∧
      ((run plain topArguments full).exitCode = 1 ∧
        (run plain topArguments full).output.stored = [] ∧
        (run plain topArguments full).report = (Failure.output .noSpace).report) ∧
      (run empty topArguments full).exitCode = 0 ∧
        (run empty topArguments full).output.stored = [] := by
  intro unknown roomy full broken plain empty
  obtain ⟨hrefused, -⟩ := run_fails_fast broken unknown roomy
  obtain ⟨-, hbroken⟩ := run_fails_fast broken topArguments roomy
  obtain ⟨-, hplain⟩ := run_fails_fast plain topArguments roomy
  obtain ⟨-, hlost⟩ := run_fails_fast plain topArguments full
  obtain ⟨-, hempty⟩ := run_fails_fast empty topArguments full
  obtain ⟨hfailed, -, -⟩ := hbroken _ parse_topArguments
  obtain ⟨-, hwritten, -⟩ := hplain _ parse_topArguments
  obtain ⟨-, -, hunwritten⟩ := hlost _ parse_topArguments
  obtain ⟨-, -, hunnoticed⟩ := hempty _ parse_topArguments
  have hroomy (data : Bytes) : roomy.Takes data := by
    refine ⟨?_, rfl⟩
    intro room h
    simp [roomy] at h
  have hfull : full.IsFull := ⟨rfl, rfl⟩
  obtain ⟨hfailure, hgathered⟩ := census_staticImport
  obtain ⟨hsuccess, htokens⟩ := census_plainImport
  obtain ⟨hnothing, hnone⟩ := census_emptyFile
  have hparse : parse unknown = .error (.refused (.unknownArgument "-x".toList)) := rfl
  refine ⟨hrefused _ hparse, ⟨hgathered, ?_⟩, ?_, ?_, ?_⟩
  · obtain ⟨hexit, houtput, -⟩ := hfailed _ hfailure
    exact ⟨hexit, houtput⟩
  · obtain ⟨hexit, hstored, -⟩ := hwritten hsuccess (hroomy _)
    rw [htokens] at hstored
    exact ⟨hexit, hstored⟩
  · obtain ⟨hstored, -, hsome⟩ := hunwritten hsuccess hfull
    obtain ⟨hexit, hreport⟩ := hsome (by rw [htokens]; decide)
    exact ⟨hexit, hstored, hreport⟩
  · obtain ⟨hstored, hnone', -⟩ := hunnoticed hnothing hfull
    exact ⟨(hnone' hnone).1, hstored⟩

end CommandLine

end ImportCensus
