import Mathlib
import ImportCensus.Proofs.Occurrences
import ImportCensus.Proofs.TallyAfter
import ImportCensus.Tree.Edit

namespace ImportCensus

def Candidate.token? : Candidate → Option Text
  | .reference token => some token
  | _ => none

def openOccurrences (excludedNamespace : Text) (lines : List Text) : List Occurrence :=
  (lines.filter fun line => !isExcluded line excludedNamespace).flatMap occurrences

def excludedOccurrences (excludedNamespace : Text) (lines : List Text) : List Occurrence :=
  (lines.filter fun line => isExcluded line excludedNamespace).flatMap occurrences

/-- The tally that belongs to a number of files and their lines. Its tokens are those of the
occurrences on the lines that are not excluded. -/
def Tally.declared (excludedNamespace : Text) (files : Nat) (lines : List Text) : Tally :=
  let found := (openOccurrences excludedNamespace lines).map Occurrence.candidate
  let tokens := found.filterMap Candidate.token?
  { references := References.ofTokens tokens
    stats :=
      { filesScanned := files
        linesMatched := lines.countP fun line => !(occurrences line).isEmpty
        referencesKept := (References.ofTokens tokens).size
        duplicatesDropped := tokens.length - (References.ofTokens tokens).size
        excluded := (excludedOccurrences excludedNamespace lines).length
        malformedSkipped := found.count .malformed } }

theorem length_by_kind (found : List Candidate) :
    (found.filterMap Candidate.token?).length + found.count .excluded + found.count .malformed =
      found.length := by
  induction found with
  | nil => rfl
  | cons c found ih =>
    rw [List.filterMap_cons, List.count_cons, List.count_cons, List.length_cons]
    cases c with
    | reference token =>
      have hexcluded : (Candidate.reference token == Candidate.excluded) = false := by simp
      have hmalformed : (Candidate.reference token == Candidate.malformed) = false := by simp
      rw [hexcluded, hmalformed]
      simp only [Candidate.token?, List.length_cons, Bool.false_eq_true, if_false]
      omega
    | excluded =>
      have hmalformed : (Candidate.excluded == Candidate.malformed) = false := rfl
      rw [hmalformed]
      simp only [Candidate.token?, beq_self_eq_true, Bool.false_eq_true, if_true, if_false]
      omega
    | malformed =>
      have hexcluded : (Candidate.malformed == Candidate.excluded) = false := rfl
      rw [hexcluded]
      simp only [Candidate.token?, beq_self_eq_true, Bool.false_eq_true, if_true, if_false]
      omega

/-- An occurrence for itself is not excluded: that concerns its line. -/
theorem count_excluded_occurrences (found : List Occurrence) :
    (found.map Occurrence.candidate).count .excluded = 0 := by
  rw [List.count_eq_zero]
  intro hmem
  obtain ⟨o, -, ho⟩ := List.mem_map.1 hmem
  unfold Occurrence.candidate at ho
  split at ho <;> simp at ho

/-- A tally with some more files, lines with a statement, and candidates. Of the tokens that the
candidates give those that are new become references, and all others are duplicates. -/
def Tally.plus (tally : Tally) (files lines : Nat) (found : List Candidate) : Tally :=
  let tokens := found.filterMap Candidate.token?
  let references := References.ofTokens (tally.references.tokens ++ tokens)
  { references
    stats :=
      { filesScanned := tally.stats.filesScanned + files
        linesMatched := tally.stats.linesMatched + lines
        referencesKept := tally.stats.referencesKept
        duplicatesDropped := tally.stats.duplicatesDropped +
          (tally.references.size + tokens.length - references.size)
        excluded := tally.stats.excluded + found.count .excluded
        malformedSkipped := tally.stats.malformedSkipped + found.count .malformed } }

namespace Effect

structure Amounts (effects : List Effect) (files lines : Nat) (found : List Candidate) : Prop where
  files_eq : effects.countP isFile = files
  lines_eq : effects.countP isLine = lines
  tokens_eq : effects.filterMap token? = found.filterMap Candidate.token?
  excluded_eq : effects.countP isExcluded = found.count .excluded
  malformed_eq : effects.countP isPassedOver = found.count .malformed

theorem amounts_append (front back : List Effect) (m n k l : Nat) (above below : List Candidate)
    (hfront : Amounts front m k above) (hback : Amounts back n l below) :
    Amounts (front ++ back) (m + n) (k + l) (above ++ below) where
  files_eq := by rw [List.countP_append, hfront.files_eq, hback.files_eq]
  lines_eq := by rw [List.countP_append, hfront.lines_eq, hback.lines_eq]
  tokens_eq := by
    rw [List.filterMap_append, List.filterMap_append, hfront.tokens_eq, hback.tokens_eq]
  excluded_eq := by
    rw [List.countP_append, List.count_append, hfront.excluded_eq, hback.excluded_eq]
  malformed_eq := by
    rw [List.countP_append, List.count_append, hfront.malformed_eq, hback.malformed_eq]

theorem amounts_beginFile (path : Path) (row : List Effect) (files lines : Nat)
    (found : List Candidate) (h : Amounts row files lines found) :
    Amounts (beginFile path :: row) (1 + files) lines found := by
  have hbegin : Amounts [beginFile path] 1 0 [] := ⟨rfl, rfl, rfl, rfl, rfl⟩
  have hall := amounts_append _ _ _ _ _ _ _ _ hbegin h
  rwa [Nat.zero_add] at hall

def Sums (excludedNamespace : Text) (effects : List Effect) (files : Nat) (lines : List Text) : Prop :=
  Amounts effects files (lines.countP containsStatement)
    (lines.flatMap fun line => candidates line excludedNamespace)

theorem sums_nil (excludedNamespace : Text) : Sums excludedNamespace [] 0 [] :=
  ⟨rfl, rfl, rfl, rfl, rfl⟩

theorem sums_append (excludedNamespace : Text) (front back : List Effect) (m n : Nat)
    (above below : List Text) (hfront : Sums excludedNamespace front m above)
    (hback : Sums excludedNamespace back n below) :
    Sums excludedNamespace (front ++ back) (m + n) (above ++ below) := by
  unfold Sums
  rw [List.countP_append, List.flatMap_append]
  exact amounts_append _ _ _ _ _ _ _ _ hfront hback

variable (t : Tree) (config : Config) (path : Path)

theorem kind_ofCandidate (line : SourceLine) (c : Candidate)
    (h : (ofCandidate config path line c).failure? = none) :
    isFile (ofCandidate config path line c) = false ∧
      isLine (ofCandidate config path line c) = false ∧
      token? (ofCandidate config path line c) = c.token? ∧
      isExcluded (ofCandidate config path line c) = (c == .excluded) ∧
      isPassedOver (ofCandidate config path line c) = (c == .malformed) := by
  cases c with
  | reference token => exact ⟨rfl, rfl, rfl, rfl, rfl⟩
  | excluded => exact ⟨rfl, rfl, rfl, rfl, rfl⟩
  | malformed =>
    cases hpolicy : config.malformed with
    | abort => simp [ofCandidate, hpolicy, failure?] at h
    | skip => simp [ofCandidate, hpolicy, isFile, isLine, token?, isExcluded, isPassedOver,
        Candidate.token?]

theorem amounts_of_candidates (line : SourceLine) (cs : List Candidate)
    (hgoing : ∀ c ∈ cs, (ofCandidate config path line c).failure? = none) :
    Amounts (cs.map (ofCandidate config path line)) 0 0 cs := by
  have hkind : ∀ c ∈ cs, _ := fun c hc => kind_ofCandidate config path line c (hgoing c hc)
  refine ⟨?_, ?_, ?_, ?_, ?_⟩
  · rw [List.countP_map, List.countP_eq_zero]
    intro c hc
    simp [(hkind c hc).1]
  · rw [List.countP_map, List.countP_eq_zero]
    intro c hc
    simp [(hkind c hc).2.1]
  · rw [List.filterMap_map]
    exact List.filterMap_congr fun c hc => (hkind c hc).2.2.1
  · rw [List.countP_map]
    exact List.countP_congr fun c hc => by simp [(hkind c hc).2.2.2.1]
  · rw [List.countP_map]
    exact List.countP_congr fun c hc => by simp [(hkind c hc).2.2.2.2]

theorem amounts_of_statement (line : SourceLine) (cs : List Candidate)
    (hgoing : ∀ c ∈ cs, (ofCandidate config path line c).failure? = none) :
    Amounts (countLine :: cs.map (ofCandidate config path line)) 0 1 cs := by
  have hline : Amounts [countLine] 0 1 [] := ⟨rfl, rfl, rfl, rfl, rfl⟩
  exact amounts_append _ _ _ _ _ _ _ _ hline (amounts_of_candidates config path line cs hgoing)

theorem sums_ofLine (line : SourceLine) (himport : line.isImport = containsStatement line.text)
    (hgoing : ∀ e ∈ ofLine config path line, e.failure? = none) :
    Sums config.excludedNamespace (ofLine config path line) 0 [line.text] := by
  unfold Sums
  rw [List.flatMap_singleton, List.countP_singleton, ← himport]
  cases h : line.isImport with
  | false =>
    have hnone : ofLine config path line = [] := by simp [ofLine, h]
    have hempty : occurrences line.text = [] := by
      have := containsStatement_eq line.text
      rw [← himport, h] at this
      simpa using this.symm
    have hcandidates : candidates line.text config.excludedNamespace = [] := by
      simp [candidates, hempty]
    rw [hnone, hcandidates]
    exact ⟨rfl, rfl, rfl, rfl, rfl⟩
  | true =>
    have hrow : ofLine config path line = countLine ::
        (candidates line.text config.excludedNamespace).map (ofCandidate config path line) := by
      simp [ofLine, h]
    rw [hrow] at hgoing ⊢
    exact amounts_of_statement config path line _ fun c hc =>
      hgoing _ (List.mem_cons_of_mem _ (List.mem_map_of_mem hc))

theorem sums_ofLines (lines : List SourceLine)
    (himport : ∀ line ∈ lines, line.isImport = containsStatement line.text)
    (hgoing : ∀ e ∈ lines.flatMap (ofLine config path), e.failure? = none) :
    Sums config.excludedNamespace (lines.flatMap (ofLine config path)) 0
      (lines.map SourceLine.text) := by
  induction lines with
  | nil => exact sums_nil _
  | cons line lines ih =>
    rw [List.flatMap_cons] at hgoing ⊢
    exact sums_append _ _ _ 0 0 [line.text] _
      (sums_ofLine config path line (himport line List.mem_cons_self)
        fun e he => hgoing e (List.mem_append_left _ he))
      (ih (fun l hl => himport l (List.mem_cons_of_mem line hl))
        fun e he => hgoing e (List.mem_append_right _ he))

theorem sums_ofFile (lines : List SourceLine) (hread : t.readLines path = .ok (lines.map .ok))
    (himport : ∀ line ∈ lines, line.isImport = containsStatement line.text)
    (hgoing : ∀ e ∈ ofFile t config path, e.failure? = none) :
    Sums config.excludedNamespace (ofFile t config path) 1 (lines.map SourceLine.text) := by
  have hrow : ofFile t config path = beginFile path :: lines.flatMap (ofLine config path) := by
    simp [ofFile, hread, List.flatMap_map, ofRead]
  rw [hrow] at hgoing ⊢
  obtain ⟨-, hgoing⟩ := List.forall_mem_cons.1 hgoing
  exact amounts_beginFile path _ 0 _ _ (sums_ofLines config path lines himport hgoing)

end Effect

theorem isImport_of_mem_sourceLines (content : Bytes) (line : SourceLine)
    (h : line ∈ sourceLines content) : line.isImport = containsStatement line.text :=
  SourceLine.isImport_of_mem_numbered 1 _ line h

theorem lines_of_going (t : Tree) (config : Config) (path : Path)
    (hgoing : ∀ e ∈ Effect.ofFile t config path, e.failure? = none) :
    ∃ lines : List SourceLine, t.readLines path = .ok (lines.map .ok) ∧
      ∀ line ∈ lines, line.isImport = containsStatement line.text := by
  cases hopen : t.openFile path with
  | error cause => simp [Effect.ofFile, Tree.readLines_of_error hopen, Effect.failure?] at hgoing
  | ok opened =>
    cases opened with
    | directory =>
      simp [Effect.ofFile, Tree.readLines_of_directory hopen, Effect.ofRead,
        Effect.failure?] at hgoing
    | content data =>
      exact ⟨sourceLines data, Tree.readLines_of_content hopen, isImport_of_mem_sourceLines data⟩

/-- Items whose effects hold no failure are files that can be read, and their effects add up to the
lines of these files. -/
theorem sums_of_going (t : Tree) (config : Config) (items : List Item)
    (hgoing : ∀ e ∈ items.flatMap (Effect.ofItem t config), e.failure? = none) :
    ∃ (paths : List Path) (files : List (List SourceLine)),
      items.map (Item.result config.root) = paths.map .ok ∧
      paths.map t.readLines = files.map (fun lines => .ok (lines.map .ok)) ∧
      Effect.Sums config.excludedNamespace (items.flatMap (Effect.ofItem t config)) paths.length
        (files.flatten.map SourceLine.text) := by
  induction items with
  | nil => exact ⟨[], [], rfl, rfl, Effect.sums_nil _⟩
  | cons item items ih =>
    rw [List.flatMap_cons] at hgoing ⊢
    obtain ⟨paths, files, hpaths, hfiles, hsums⟩ :=
      ih fun e he => hgoing e (List.mem_append_right _ he)
    have hfirst : ∀ e ∈ Effect.ofItem t config item, e.failure? = none :=
      fun e he => hgoing e (List.mem_append_left _ he)
    cases hresult : item.result config.root with
    | error failure => simp [Effect.ofItem, hresult, Effect.failure?] at hfirst
    | ok path =>
      have hitem : Effect.ofItem t config item = Effect.ofFile t config path := by
        simp [Effect.ofItem, hresult]
      rw [hitem] at hfirst ⊢
      obtain ⟨lines, hlines, himport⟩ := lines_of_going t config path hfirst
      refine ⟨path :: paths, lines :: files, ?_, ?_, ?_⟩
      · rw [List.map_cons, List.map_cons, hresult, hpaths]
      · rw [List.map_cons, List.map_cons, hlines, hfiles]
      · rw [List.length_cons, Nat.add_comm, List.flatten_cons, List.map_append]
        exact Effect.sums_append _ _ _ _ _ _ _
          (Effect.sums_ofFile t config path lines hlines himport hfirst) hsums

/-- The candidates of some lines are excluded on the lines that the namespace excludes, and on the
others they are what their occurrences give. -/
theorem candidates_split (excludedNamespace : Text) (lines : List Text) :
    let found := lines.flatMap fun line => candidates line excludedNamespace
    let opened := (openOccurrences excludedNamespace lines).map Occurrence.candidate
    found.filterMap Candidate.token? = opened.filterMap Candidate.token? ∧
      found.count .excluded = (excludedOccurrences excludedNamespace lines).length ∧
      found.count .malformed = opened.count .malformed := by
  induction lines with
  | nil => exact ⟨rfl, rfl, rfl⟩
  | cons line lines ih =>
    obtain ⟨htokens, hexcluded, hmalformed⟩ := ih
    dsimp only at htokens hexcluded hmalformed ⊢
    unfold openOccurrences excludedOccurrences at *
    cases h : isExcluded line excludedNamespace with
    | true =>
      have hall : candidates line excludedNamespace =
          List.replicate (occurrences line).length .excluded := by
        simp [candidates, h, List.map_const']
      simp only [List.flatMap_cons, List.filterMap_append, List.count_append, hall, htokens,
        hexcluded, hmalformed, List.filter_cons, h]
      simp [Candidate.token?, List.count_replicate]
    | false =>
      have hall : candidates line excludedNamespace =
          (occurrences line).map Occurrence.candidate := by
        simp [candidates, h]
      simp only [List.flatMap_cons, List.filterMap_append, List.count_append, hall, htokens,
        hexcluded, hmalformed, List.filter_cons, h, count_excluded_occurrences]
      simp

theorem Tally.size_plus_le (tally : Tally) (files lines : Nat) (found : List Candidate) :
    (tally.plus files lines found).references.size ≤
      tally.references.size + (found.filterMap Candidate.token?).length := by
  have hle := length_eraseDups_le
    (tally.references.tokens ++ found.filterMap Candidate.token?)
  rw [List.length_append] at hle
  exact hle

/-- A row of effects adds to a tally what it amounts to. -/
theorem Tally.after_of_amounts (tally : Tally) (effects : List Effect) (files lines : Nat)
    (found : List Candidate) (h : Effect.Amounts effects files lines found) :
    tally.after effects = tally.plus files lines found := by
  obtain ⟨hfiles, hlines, hkept, hexcluded, hmalformed⟩ := tally.counters_after effects
  have hduplicates := tally.duplicates_after effects
  have hsize := tally.size_plus_le files lines found
  have hreferences : (tally.after effects).references = (tally.plus files lines found).references := by
    apply References.eq_of_tokens
    rw [tally.tokens_after effects, h.tokens_eq]
    rfl
  rw [h.tokens_eq, hreferences] at hduplicates
  cases htally : tally.after effects with
  | mk references stats =>
    rw [htally] at hreferences hfiles hlines hkept hexcluded hmalformed hduplicates
    obtain rfl := hreferences
    obtain ⟨filesScanned, linesMatched, referencesKept, duplicatesDropped, excluded,
      malformedSkipped⟩ := stats
    dsimp only [Tally.plus] at hfiles hlines hkept hexcluded hmalformed hduplicates hsize ⊢
    simp only [Tally.mk.injEq, Stats.mk.injEq, true_and]
    refine ⟨?_, ?_, hkept, ?_, ?_, ?_⟩
    · rw [hfiles, h.files_eq]
    · rw [hlines, h.lines_eq]
    · omega
    · rw [hexcluded, h.excluded_eq]
    · rw [hmalformed, h.malformed_eq]

/-- A row of effects that adds up to some files and their lines leaves the tally declared for
them. -/
theorem tally_of_sums (excludedNamespace : Text) (effects : List Effect) (files : Nat)
    (lines : List Text) (h : Effect.Sums excludedNamespace effects files lines) :
    (Tally.empty.after effects).countKept = Tally.declared excludedNamespace files lines := by
  obtain ⟨htokens, hexcluded, hmalformed⟩ := candidates_split excludedNamespace lines
  have hlines : lines.countP containsStatement =
      lines.countP fun line => !(occurrences line).isEmpty :=
    List.countP_congr fun line _ => by rw [containsStatement_eq]
  rw [Tally.after_of_amounts _ _ _ _ _ h]
  simp only [Tally.plus, Tally.countKept, Tally.declared, htokens, hexcluded, hmalformed, hlines,
    Tally.empty, Stats.zero, References.tokens_empty, References.size, List.nil_append,
    List.length_nil, Nat.zero_add]

theorem not_passedOver_of_abort (t : Tree) (config : Config) (habort : config.malformed = .abort)
    (item : Item) (e : Effect) (h : e ∈ Effect.ofItem t config item) : e.isPassedOver = false := by
  have hcandidate (path : Path) (line : SourceLine) (c : Candidate) :
      (Effect.ofCandidate config path line c).isPassedOver = false := by
    cases c <;> simp [Effect.ofCandidate, habort, Effect.isPassedOver]
  have hline (path : Path) (line : SourceLine) (he : e ∈ Effect.ofLine config path line) :
      e.isPassedOver = false := by
    unfold Effect.ofLine at he
    split at he
    · rcases List.mem_cons.1 he with rfl | he
      · rfl
      · obtain ⟨c, -, rfl⟩ := List.mem_map.1 he
        exact hcandidate path line c
    · simp at he
  unfold Effect.ofItem Effect.ofFile at h
  split at h
  · rename_i path _
    rcases List.mem_cons.1 h with rfl | h
    · rfl
    · split at h
      · obtain ⟨read, -, hread⟩ := List.mem_flatMap.1 h
        cases read with
        | ok line => exact hline path line hread
        | error failure =>
          rw [List.mem_singleton.1 hread]
          rfl
      · rw [List.mem_singleton.1 h]
        rfl
  · rw [List.mem_singleton.1 h]
    rfl

/-- A census that succeeds has found files only, has read every one of them, and its outcome is the
one declared for their number and their lines. -/
theorem census_eq_declared (t : Tree) (config : Config) (h : (t.census config).failure = none) :
    ∃ (paths : List Path) (files : List (List SourceLine)),
      (t.discover config.root config.suffix).map (Item.result config.root) = paths.map .ok ∧
      paths.map t.readLines = files.map (fun lines => .ok (lines.map .ok)) ∧
      (t.census config).tally =
        Tally.declared config.excludedNamespace paths.length
          (files.flatten.map SourceLine.text) ∧
      (config.malformed = .abort → (t.census config).tally.stats.malformedSkipped = 0) := by
  rw [Tree.census_eq] at h ⊢
  have hfailure : (t.effects config).findSome? Effect.failure? = none := by
    cases hf : (t.effects config).findSome? Effect.failure? with
    | none => rfl
    | some failure => simp [hf, Census.complete, Census.unlessFailed] at h
  have hgoing : ∀ e ∈ t.effects config, e.failure? = none := List.findSome?_eq_none_iff.1 hfailure
  have hdone := Effect.done_of_going (t.effects config) hgoing
  obtain ⟨paths, files, hpaths, hfiles, hsums⟩ := sums_of_going t config _ hgoing
  have htally := tally_of_sums _ _ _ _ hsums
  rw [hfailure, hdone, Census.complete, Census.unlessFailed_of_going _ rfl]
  refine ⟨paths, files, hpaths, hfiles, htally, ?_⟩
  intro habort
  obtain ⟨-, -, -, -, hmalformed⟩ := Tally.counters_after Tally.empty (t.effects config)
  have hnone : (t.effects config).countP Effect.isPassedOver = 0 := by
    rw [List.countP_eq_zero]
    intro e he
    obtain ⟨item, -, hitem⟩ := List.mem_flatMap.1 he
    simp [not_passedOver_of_abort t config habort item e hitem]
  rw [hnone] at hmalformed
  exact hmalformed

def oneFile : Tree :=
  Tree.ofEdits [.put (Utf8.encode "A.java".toList)
    (.file (Utf8.encode "import a.B;\nimport org.wahlzeit.C;\n".toList))]

theorem discover_oneFile :
    oneFile.discover selfName ".java".toList = [.file [Utf8.encode "A.java".toList]] := by
  have hlist : Walk.step? oneFile (.start selfName ".java".toList) =
      some (none, ⟨selfName, ".java".toList, some [⟨[Utf8.encode "A.java".toList], .file⟩]⟩) := by
    decide
  have hfile : Walk.step? oneFile
      ⟨selfName, ".java".toList, some [⟨[Utf8.encode "A.java".toList], .file⟩]⟩ =
      some (some (.file [Utf8.encode "A.java".toList]), ⟨selfName, ".java".toList, some []⟩) := by
    decide
  have hover : Walk.step? oneFile ⟨selfName, ".java".toList, some []⟩ = none := rfl
  unfold Tree.discover
  rw [Walk.items, hlist]
  dsimp only
  rw [Walk.items, hfile]
  dsimp only
  rw [Walk.items, hover]

theorem census_oneFile :
    let config : Config := { Config.default with root := selfName }
    (oneFile.census config).failure = none ∧
      ∃ (paths : List Path) (files : List (List SourceLine)),
        (oneFile.discover config.root config.suffix).map (Item.result config.root) =
            paths.map .ok ∧
          paths.map oneFile.readLines = files.map (fun lines => .ok (lines.map .ok)) ∧
          (oneFile.census config).tally =
            Tally.declared config.excludedNamespace paths.length
              (files.flatten.map SourceLine.text) ∧
          (config.malformed = .abort →
            (oneFile.census config).tally.stats.malformedSkipped = 0) := by
  intro config
  have hfailure : (oneFile.census config).failure = none := by
    have hdiscover : oneFile.discover config.root config.suffix =
        [.file [Utf8.encode "A.java".toList]] := discover_oneFile
    unfold Tree.census
    rw [hdiscover]
    cbv
  exact ⟨hfailure, census_eq_declared oneFile config hfailure⟩

end ImportCensus
