import Mathlib
import ImportCensus.Proofs.FirstFailure
import ImportCensus.Proofs.Policies

namespace ImportCensus

def Item.path? (root : Path) (item : Item) : Option Path := (item.result root).toOption

def Tree.found (t : Tree) (config : Config) : List Path :=
  (t.discover config.root config.suffix).filterMap (Item.path? config.root)

def malformedOccurrences (excludedNamespace line : Text) : List Occurrence :=
  (openOccurrences excludedNamespace [line]).filter fun o => o.candidate = .malformed

/-- The lines of a file that a census warns of, in order, each as often as something malformed
stands on it. -/
def Tree.warned (t : Tree) (config : Config) (path : Path) : List SourceLine :=
  match t.openFile path, config.malformed with
  | .ok (.content data), .skip =>
    (sourceLines data).flatMap fun line =>
      List.replicate (malformedOccurrences config.excludedNamespace line.text).length line
  | _, _ => []

def Tree.fileEvents (t : Tree) (config : Config) (path : Path) : List Event :=
  .reading path ::
    (t.warned config path).map fun line => .skippingMalformed path line.number line.text

def Event.isReading : Event → Bool
  | reading _ => true
  | _ => false

namespace Effect

theorem countP_isReading (row : List Effect) :
    (row.flatMap events).countP Event.isReading = row.countP isFile := by
  induction row with
  | nil => rfl
  | cons e row ih =>
    rw [List.flatMap_cons, List.countP_append, List.countP_cons, ih, Nat.add_comm]
    cases e <;> rfl

theorem countP_warn (row : List Effect) :
    (row.flatMap events).countP (fun x => x.level = .warn) = row.countP isPassedOver := by
  induction row with
  | nil => rfl
  | cons e row ih =>
    rw [List.flatMap_cons, List.countP_append, List.countP_cons, ih, Nat.add_comm]
    cases e <;> rfl

theorem length_malformedOccurrences (excludedNamespace line : Text) :
    (malformedOccurrences excludedNamespace line).length =
      (candidates line excludedNamespace).count .malformed := by
  obtain ⟨-, -, hmalformed⟩ := candidates_split excludedNamespace [line]
  rw [List.flatMap_singleton, List.count_eq_countP (a := Candidate.malformed) (l := List.map _ _),
    List.countP_map] at hmalformed
  rw [malformedOccurrences, ← List.countP_eq_length_filter, hmalformed]
  exact List.countP_congr fun o _ => by simp

variable (t : Tree) (config : Config) (path : Path)

theorem events_of_candidates (line : SourceLine) (h : config.malformed = .skip)
    (cs : List Candidate) :
    (cs.map (ofCandidate config path line)).flatMap events =
      List.replicate (cs.count .malformed) (.skippingMalformed path line.number line.text) := by
  induction cs with
  | nil => rfl
  | cons c cs ih =>
    rw [List.map_cons, List.flatMap_cons, ih, List.count_cons]
    cases c with
    | reference token => rfl
    | excluded => rfl
    | malformed =>
      rw [ofCandidate, h, if_pos (beq_self_eq_true _), List.replicate_succ]
      rfl

theorem events_ofLine (line : SourceLine) (h : config.malformed = .skip)
    (himport : line.isImport = containsStatement line.text) :
    (ofLine config path line).flatMap events =
      List.replicate (malformedOccurrences config.excludedNamespace line.text).length
        (.skippingMalformed path line.number line.text) := by
  rw [length_malformedOccurrences, ← events_of_candidates config path line h]
  unfold ofLine
  split
  · rfl
  · rename_i hnone
    have hempty : occurrences line.text = [] := by
      rw [himport, containsStatement_eq] at hnone
      simpa using hnone
    simp [candidates, hempty]

/-- Where nothing is passed over, a line adds nothing to the log. -/
theorem events_of_mem_ofLine (line : SourceLine) (h : config.malformed = .abort) (e : Effect)
    (he : e ∈ ofLine config path line) : e.events = [] := by
  unfold ofLine at he
  split at he
  · rcases List.mem_cons.1 he with rfl | he
    · rfl
    · obtain ⟨c, -, rfl⟩ := List.mem_map.1 he
      cases c <;> simp [ofCandidate, h, events]
  · simp at he

/-- The lines of a file add its warnings to the log, up to the failure of the file if there is
one. -/
theorem events_of_lines (data : Bytes) (h : t.openFile path = .ok (.content data)) :
    (done ((sourceLines data).flatMap (ofLine config path))).flatMap events =
      (t.warned config path).map fun line => .skippingMalformed path line.number line.text := by
  have himport := isImport_of_mem_sourceLines data
  unfold Tree.warned
  rw [h]
  cases hpolicy : config.malformed with
  | abort =>
    dsimp only
    rw [List.map_nil, List.flatMap_eq_nil_iff]
    intro e he
    obtain ⟨line, -, hline⟩ := List.mem_flatMap.1 ((List.takeWhile_prefix _).subset he)
    exact events_of_mem_ofLine config path line hpolicy e hline
  | skip =>
    have hgoing := failure_of_lines_skip config path (sourceLines data) hpolicy
    rw [done_of_going _ (List.findSome?_eq_none_iff.1 hgoing), List.flatMap_assoc]
    dsimp only
    rw [List.map_flatMap]
    refine List.flatMap_congr fun line hline => ?_
    rw [events_ofLine config path line hpolicy (himport line hline), List.map_replicate]

/-- A file adds its own events to the log, whether it fails or not. -/
theorem events_ofFile :
    (done (ofFile t config path)).flatMap events = t.fileEvents config path := by
  have hbegin (row : List Effect) :
      done (beginFile path :: row) = beginFile path :: done row := by simp [done, failure?]
  cases hopen : t.openFile path with
  | error cause =>
    simp [ofFile, Tree.readLines_of_error hopen, done, failure?, events, Tree.fileEvents,
      Tree.warned, hopen]
  | ok opened =>
    cases opened with
    | directory =>
      simp [ofFile, Tree.readLines_of_directory hopen, ofRead, done, failure?, events,
        Tree.fileEvents, Tree.warned, hopen]
    | content data =>
      rw [ofFile_of_content t config path data hopen, hbegin, List.flatMap_cons,
        events_of_lines t config path data hopen]
      rfl

/-- What the items of a walk add to the log: file by file their events, up to a file that fails or
to an item that is none. -/
theorem events_of_items (items : List Item) :
    ∃ attempted, attempted <+: items.filterMap (Item.path? config.root) ∧
      (done (items.flatMap (ofItem t config))).flatMap events =
        attempted.flatMap (t.fileEvents config) ∧
      ((items.flatMap (ofItem t config)).findSome? failure? = none →
        attempted = items.filterMap (Item.path? config.root)) := by
  induction items with
  | nil => exact ⟨[], List.nil_prefix, rfl, fun _ => rfl⟩
  | cons item items ih =>
    obtain ⟨attempted, hprefix, hevents, hall⟩ := ih
    rw [List.flatMap_cons, done_append, List.findSome?_append, List.filterMap_cons]
    cases hresult : item.result config.root with
    | error failure =>
      have hitem : ofItem t config item = [fail failure] := by simp [ofItem, hresult]
      rw [hitem]
      exact ⟨[], List.nil_prefix, rfl, by simp [failure?]⟩
    | ok path =>
      have hitem : ofItem t config item = ofFile t config path := by simp [ofItem, hresult]
      have hpath : item.path? config.root = some path := by
        simp [Item.path?, hresult, Except.toOption]
      have hfile := events_ofFile t config path
      rw [hitem, hpath]
      dsimp only
      cases hfailure : (ofFile t config path).findSome? failure? with
      | some failure =>
        rw [if_neg (by simp)]
        refine ⟨[path], ⟨_, rfl⟩, ?_, by simp⟩
        rw [hfile, List.flatMap_singleton]
      | none =>
        rw [done_of_going _ (List.findSome?_eq_none_iff.1 hfailure)] at hfile
        rw [if_pos rfl]
        refine ⟨path :: attempted, (List.prefix_cons_inj path).2 hprefix, ?_, ?_⟩
        · rw [List.flatMap_append, hfile, hevents, List.flatMap_cons]
        · intro hgoing
          rw [hall (by simpa using hgoing)]

end Effect

section Warned

variable (t : Tree) (config : Config) (path : Path)

theorem pairwise_sourceLines (data : Bytes) :
    (sourceLines data).Pairwise (·.number < ·.number) := by
  rw [← List.pairwise_map (f := SourceLine.number)]
  unfold sourceLines
  rw [SourceLine.numbers_numbered]
  exact List.pairwise_lt_range' 1

theorem pairwise_warned : (t.warned config path).Pairwise (·.number ≤ ·.number) := by
  unfold Tree.warned
  split
  · rename_i data _ _
    rw [List.pairwise_flatMap]
    refine ⟨?_, (pairwise_sourceLines data).imp ?_⟩
    · intro line _
      exact List.pairwise_replicate.2 (Or.inr (Nat.le_refl _))
    · intro line later hlt a ha b hb
      rw [List.eq_of_mem_replicate ha, List.eq_of_mem_replicate hb]
      exact Nat.le_of_lt hlt
  · exact List.Pairwise.nil

theorem count_flatMap_replicate {α : Type} [DecidableEq α] (copies : α → ℕ) (l : List α)
    (h : l.Nodup) (a : α) :
    (l.flatMap fun b => List.replicate (copies b) b).count a = if a ∈ l then copies a else 0 := by
  induction l with
  | nil => rfl
  | cons b l ih =>
    obtain ⟨hb, hl⟩ := List.nodup_cons.1 h
    rw [List.flatMap_cons, List.count_append, List.count_replicate, ih hl]
    by_cases hab : a = b
    · subst hab
      simp [hb]
    · have hba : ¬b = a := fun h => hab h.symm
      simp [hab, hba]

theorem count_warned (data : Bytes) (h : t.openFile path = .ok (.content data))
    (hpolicy : config.malformed = .skip) (line : SourceLine) (hline : line ∈ sourceLines data) :
    (t.warned config path).count line =
      (malformedOccurrences config.excludedNamespace line.text).length := by
  have hnodup : (sourceLines data).Nodup := by
    refine (pairwise_sourceLines data).imp ?_
    rintro line _ hlt rfl
    exact Nat.lt_irrefl _ hlt
  unfold Tree.warned
  rw [h, hpolicy]
  dsimp only
  rw [count_flatMap_replicate _ _ hnodup, if_pos hline]

theorem mem_warned (line : SourceLine) (h : line ∈ t.warned config path) :
    config.malformed = .skip ∧ ∃ data, t.openFile path = .ok (.content data) ∧
      line ∈ sourceLines data ∧ malformedOccurrences config.excludedNamespace line.text ≠ [] := by
  unfold Tree.warned at h
  split at h
  · rename_i data hopen hpolicy
    obtain ⟨origin, horigin, hcopy⟩ := List.mem_flatMap.1 h
    obtain ⟨hsome, rfl⟩ := List.mem_replicate.1 hcopy
    exact ⟨hpolicy, data, hopen, horigin, fun hnone => hsome (by rw [hnone]; rfl)⟩
  · simp at h

end Warned

section FileEvents

variable (t : Tree) (config : Config)

theorem readings_fileEvents (attempted : List Path) :
    (attempted.flatMap (t.fileEvents config)).filter Event.isReading = attempted.map .reading := by
  have hfile (path : Path) :
      (t.fileEvents config path).filter Event.isReading = [.reading path] := by
    unfold Tree.fileEvents
    rw [List.filter_cons_of_pos rfl, List.filter_eq_nil_iff.2]
    intro e he
    obtain ⟨line, -, rfl⟩ := List.mem_map.1 he
    simp [Event.isReading]
  rw [List.filter_flatMap, List.map_eq_flatMap]
  exact List.flatMap_congr fun path _ => hfile path

theorem mem_fileEvents (path : Path) (e : Event) (h : e ∈ t.fileEvents config path) :
    e = .reading path ∨
      ∃ line ∈ t.warned config path, e = .skippingMalformed path line.number line.text := by
  rcases List.mem_cons.1 h with rfl | h
  · exact Or.inl rfl
  · obtain ⟨line, hline, rfl⟩ := List.mem_map.1 h
    exact Or.inr ⟨line, hline, rfl⟩

end FileEvents

/-- Between its two ends the log goes through the files that are attempted. -/
theorem events_of_attempted (t : Tree) (config : Config) :
    ∃ attempted, attempted <+: t.found config ∧
      ((t.census config).failure = none → attempted = t.found config) ∧
      (Effect.done (t.effects config)).flatMap Effect.events =
        attempted.flatMap (t.fileEvents config) := by
  obtain ⟨attempted, hprefix, hevents, hall⟩ :=
    Effect.events_of_items t config (t.discover config.root config.suffix)
  refine ⟨attempted, hprefix, ?_, hevents⟩
  intro hok
  rw [Tree.failure_census] at hok
  exact hall hok

theorem warnings_census (t : Tree) (config : Config) :
    (t.census config).log.countP (fun e => e.level = .warn) =
      (t.census config).tally.stats.malformedSkipped := by
  have hend : (if (t.census config).failure = none then
      [Event.scanComplete (t.census config).tally.stats] else []).countP
        (fun e => e.level = .warn) = 0 := by
    split <;> rfl
  rw [t.log_census_eq, List.countP_append, hend, List.countP_cons_of_neg (by simp [Event.level]),
    Effect.countP_warn, malformedSkipped_census]
  rfl

section Attempted

variable (t : Tree) (config : Config) (attempted : List Path)
  (hevents : (Effect.done (t.effects config)).flatMap Effect.events =
    attempted.flatMap (t.fileEvents config))

include hevents

theorem filesScanned_of_attempted :
    (t.census config).tally.stats.filesScanned = attempted.length := by
  obtain ⟨hfiles, -⟩ := t.counters_census config
  rw [hfiles, ← Effect.countP_isReading, hevents, List.countP_eq_length_filter,
    readings_fileEvents, List.length_map]

theorem readings_of_attempted :
    (t.census config).log.filter Event.isReading = attempted.map .reading := by
  have hend : (if (t.census config).failure = none then
      [Event.scanComplete (t.census config).tally.stats] else []).filter Event.isReading = [] := by
    split <;> rfl
  rw [t.log_census_eq, hevents, List.cons_append,
    List.filter_cons_of_neg (by simp [Event.isReading]), List.filter_append, readings_fileEvents,
    hend, List.append_nil]

/-- An event of a census is its beginning, or it belongs to a file that is attempted, or it is the
end of a census that succeeds. -/
theorem mem_log_of_attempted (e : Event) (h : e ∈ (t.census config).log) :
    e = .scanning config.root config.suffix ∨
      (∃ path ∈ attempted, e ∈ t.fileEvents config path) ∨
      (t.census config).failure = none ∧ e = .scanComplete (t.census config).tally.stats := by
  rw [t.log_census_eq, hevents, List.mem_append, List.mem_cons, List.mem_flatMap] at h
  rcases h with (hfirst | hfile) | hlast
  · exact Or.inl hfirst
  · exact Or.inr (Or.inl hfile)
  · split at hlast
    · rename_i hok
      exact Or.inr (Or.inr ⟨hok, List.mem_singleton.1 hlast⟩)
    · simp at hlast

theorem warning_of_attempted (warning : Event) (h : warning ∈ (t.census config).log)
    (hwarn : warning.level = .warn) :
    ∃ path ∈ attempted, ∃ line ∈ t.warned config path,
      warning = .skippingMalformed path line.number line.text := by
  rcases mem_log_of_attempted t config attempted hevents warning h with
    rfl | ⟨path, hpath, hfile⟩ | ⟨-, rfl⟩
  · simp [Event.level] at hwarn
  · rcases mem_fileEvents t config path warning hfile with rfl | ⟨line, hline, rfl⟩
    · simp [Event.level] at hwarn
    · exact ⟨path, hpath, line, hline, rfl⟩
  · simp [Event.level] at hwarn

theorem end_of_attempted (stats : Stats) :
    .scanComplete stats ∈ (t.census config).log ↔
      (t.census config).failure = none ∧ stats = (t.census config).tally.stats := by
  constructor
  · intro h
    rcases mem_log_of_attempted t config attempted hevents _ h with
      hfirst | ⟨path, -, hfile⟩ | ⟨hok, hlast⟩
    · simp at hfirst
    · rcases mem_fileEvents t config path _ hfile with hevent | ⟨line, -, hevent⟩ <;>
        simp at hevent
    · exact ⟨hok, Event.scanComplete.inj hlast⟩
  · rintro ⟨hok, rfl⟩
    rw [t.log_census_eq, if_pos hok]
    exact List.mem_append_right _ (List.mem_singleton_self _)

end Attempted

/-- The log of a census agrees with what the census has done. First it says that the census begins.
Then it goes through the files that are attempted, which are the first ones of those found, and all
of them if nothing fails: each is read, and then the malformed occurrences on its lines are warned
of one by one, in the order of the lines, if they are passed over at all. At the end, and only if
nothing has failed, stand the counters. -/
theorem log_of_census (t : Tree) (config : Config) :
    let census := t.census config
    (∃ attempted,
      attempted <+: t.found config ∧
      (census.failure = none → attempted = t.found config) ∧
      attempted.length = census.tally.stats.filesScanned ∧
      census.log =
        .scanning config.root config.suffix :: attempted.flatMap (t.fileEvents config) ++
          (if census.failure = none then [.scanComplete census.tally.stats] else []) ∧
      (census.log.filter Event.isReading).map Event.fields =
        attempted.map (fun path => [("path".toList, .text path.normalized)]) ∧
      ∀ warning ∈ census.log, warning.level = .warn →
        ∃ path ∈ attempted, ∃ line ∈ t.warned config path,
          warning.message = "skipping malformed import: ".toList ++ line.text.trim ∧
          warning.fields =
            [("path".toList, .text path.normalized), ("line".toList, .number line.number)]) ∧
    (∀ path, (t.warned config path).Pairwise (·.number ≤ ·.number)) ∧
    (∀ path, ∀ line ∈ t.warned config path,
      config.malformed = .skip ∧
      ∃ data, t.openFile path = .ok (.content data) ∧ line ∈ sourceLines data) ∧
    (config.malformed = .skip → ∀ path data, t.openFile path = .ok (.content data) →
      ∀ line ∈ sourceLines data, (t.warned config path).count line =
        (malformedOccurrences config.excludedNamespace line.text).length) ∧
    (config.malformed = .abort → ∀ e ∈ census.log, e.level ≠ .warn) ∧
    census.log.countP (fun e => e.level = .warn) = census.tally.stats.malformedSkipped ∧
    (∀ stats, .scanComplete stats ∈ census.log ↔
      census.failure = none ∧ stats = census.tally.stats) ∧
    (census.failure = none →
      census.log.getLast?.map Event.fields =
        some [("files".toList, .number census.tally.stats.filesScanned),
          ("matched".toList, .number census.tally.stats.linesMatched),
          ("kept".toList, .number census.tally.stats.referencesKept),
          ("duplicates".toList, .number census.tally.stats.duplicatesDropped),
          ("excluded".toList, .number census.tally.stats.excluded),
          ("malformed".toList, .number census.tally.stats.malformedSkipped)]) := by
  intro census
  obtain ⟨attempted, hprefix, hall, hevents⟩ := events_of_attempted t config
  have hlog : census.log = _ := t.log_census_eq config
  have hwarned := warning_of_attempted t config attempted hevents
  -- the first part is about the log as a whole, the others about single events in it
  refine ⟨⟨attempted, hprefix, hall, ?_, ?_, ?_, ?_⟩, pairwise_warned t config, ?_, ?_, ?_,
    warnings_census t config, end_of_attempted t config attempted hevents, ?_⟩
  · exact (filesScanned_of_attempted t config attempted hevents).symm
  · rw [hlog, hevents]
  · rw [readings_of_attempted t config attempted hevents, List.map_map]
    rfl
  · intro warning h hwarn
    obtain ⟨path, hpath, line, hline, rfl⟩ := hwarned warning h hwarn
    exact ⟨path, hpath, line, hline, rfl, rfl⟩
  · intro path line hline
    obtain ⟨hpolicy, data, hopen, hsource, -⟩ := mem_warned t config path line hline
    exact ⟨hpolicy, data, hopen, hsource⟩
  · intro hpolicy path data hopen line hline
    exact count_warned t config path data hopen hpolicy line hline
  · intro habort e h hwarn
    obtain ⟨path, -, line, hline, -⟩ := hwarned e h hwarn
    obtain ⟨hskip, -⟩ := mem_warned t config path line hline
    rw [habort] at hskip
    simp at hskip
  · intro hok
    rw [hlog, if_pos hok, List.getLast?_concat]
    rfl

/-- Two malformed statements on one line give two warnings. -/
example :
    ((soleFile (Utf8.encode "import a b;import c d;".toList)).census
        (atTop.withPolicy .skip)).log =
      [.scanning selfName ".java".toList, .reading solePath,
        .skippingMalformed solePath 1 "import a b;import c d;".toList,
        .skippingMalformed solePath 1 "import a b;import c d;".toList,
        .scanComplete ⟨1, 1, 0, 0, 0, 2⟩] := by
  have hrow : (soleFile (Utf8.encode "import a b;import c d;".toList)).effects
      (atTop.withPolicy .skip) =
      [.beginFile solePath, .countLine,
        .passOver solePath 1 "import a b;import c d;".toList,
        .passOver solePath 1 "import a b;import c d;".toList] := by
    rw [effects_soleFile _ _ rfl rfl]
    cbv
  rw [Tree.census_eq, hrow]
  rfl

end ImportCensus
