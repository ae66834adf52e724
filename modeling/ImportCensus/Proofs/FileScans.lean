import ImportCensus.Proofs.Events

namespace ImportCensus

structure Placed where
  line : SourceLine
  occurrence : Occurrence

def Placed.candidate (excludedNamespace : Text) (p : Placed) : Candidate :=
  if isExcluded p.line.text excludedNamespace then .excluded else p.occurrence.candidate

def placed (lines : List SourceLine) : List Placed :=
  lines.flatMap fun line => (occurrences line.text).map (Placed.mk line)

/-- The first malformed occurrence on some lines. It is the first one on its line that gives no
reference, and the first line with such an occurrence that the namespace does not exclude. -/
structure FirstMalformed (excludedNamespace : Text) (lines : List SourceLine) where
  front : List SourceLine
  line : SourceLine
  back : List SourceLine
  before : List Occurrence
  occurrence : Occurrence
  behind : List Occurrence
  lines_eq : lines = front ++ line :: back
  occurrences_eq : occurrences line.text = before ++ occurrence :: behind
  front_sound : ∀ l ∈ front, ¬IsMalformed excludedNamespace l.text
  before_sound : ∀ o ∈ before, o.candidate ≠ .malformed
  line_open : isExcluded line.text excludedNamespace = false
  malformed : occurrence.candidate = .malformed

def FirstMalformed.preceding {excludedNamespace : Text} {lines : List SourceLine}
    (first : FirstMalformed excludedNamespace lines) : List Placed :=
  placed first.front ++ first.before.map (Placed.mk first.line)

def FirstMalformed.leftward {excludedNamespace : Text} {lines : List SourceLine}
    (first : FirstMalformed excludedNamespace lines) : List Candidate :=
  (first.before.map (Placed.mk first.line)).map (Placed.candidate excludedNamespace)

theorem candidates_placed (excludedNamespace : Text) (lines : List SourceLine) :
    (placed lines).map (Placed.candidate excludedNamespace) =
      (lines.map SourceLine.text).flatMap fun line => candidates line excludedNamespace := by
  unfold placed
  rw [List.map_flatMap, List.flatMap_map]
  apply List.flatMap_congr
  intro line _
  rw [List.map_map]
  rfl

section Plus

variable (tally : Tally) (files lines : Nat) (found : List Candidate)

theorem prefix_plus :
    tally.references.tokens <+: (tally.plus files lines found).references.tokens := by
  show _ <+: (tally.references.tokens ++ found.filterMap Candidate.token?).eraseDups
  rw [List.eraseDups_append, eraseDups_of_nodup _ tally.references.nodup]
  exact List.prefix_append _ _

/-- Every candidate is counted once: as a reference, as a duplicate, as excluded or as malformed. -/
theorem total_plus :
    let after := tally.plus files lines found
    after.references.size + after.stats.duplicatesDropped + after.stats.excluded +
        after.stats.malformedSkipped =
      tally.references.size + tally.stats.duplicatesDropped + tally.stats.excluded +
        tally.stats.malformedSkipped + found.length := by
  have hsize := tally.size_plus_le files lines found
  have hkinds := length_by_kind found
  dsimp only [Tally.plus] at hsize ⊢
  omega

end Plus

section FirstMalformed

variable (excludedNamespace : Text) (lines : List SourceLine)

theorem exists_firstMalformed (h : ∃ line ∈ lines, IsMalformed excludedNamespace line.text) :
    Nonempty (FirstMalformed excludedNamespace lines) := by
  have hline : (lines.find? fun l => IsMalformed excludedNamespace l.text).isSome := by
    obtain ⟨line, hmem, hmalformed⟩ := h
    rw [List.find?_isSome]
    exact ⟨line, hmem, by simpa using hmalformed⟩
  obtain ⟨line, hfound⟩ := Option.isSome_iff_exists.1 hline
  obtain ⟨hmalformed, front, back, hlines, hfront⟩ := List.find?_eq_some_iff_append.1 hfound
  obtain ⟨hopen, hoccurrence⟩ : IsMalformed excludedNamespace line.text := by simpa using hmalformed
  have hsome : ((occurrences line.text).find? fun o => o.candidate = .malformed).isSome := by
    rw [List.find?_isSome]
    simpa using hoccurrence
  obtain ⟨o, hfirst⟩ := Option.isSome_iff_exists.1 hsome
  obtain ⟨ho, before, behind, hoccurrences, hbefore⟩ := List.find?_eq_some_iff_append.1 hfirst
  exact ⟨{
    front, line, back, before, occurrence := o, behind
    lines_eq := hlines
    occurrences_eq := hoccurrences
    front_sound := by simpa using hfront
    before_sound := by simpa using hbefore
    line_open := hopen
    malformed := by simpa using ho }⟩

variable {excludedNamespace lines} (first : FirstMalformed excludedNamespace lines)

namespace FirstMalformed

theorem line_mem : first.line ∈ lines := by
  have hmem : first.line ∈ first.front ++ first.line :: first.back :=
    List.mem_append_right _ List.mem_cons_self
  rwa [← first.lines_eq] at hmem

theorem line_malformed : IsMalformed excludedNamespace first.line.text := by
  refine ⟨first.line_open, first.occurrence, ?_, first.malformed⟩
  rw [first.occurrences_eq]
  exact List.mem_append_right _ List.mem_cons_self

theorem line_statement : containsStatement first.line.text = true := by
  rw [containsStatement_eq, first.occurrences_eq]
  simp

/-- Among the lines of increasing numbers the line of the first malformed occurrence has the least
number of all that are malformed. -/
theorem line_least (h : lines.Pairwise (·.number < ·.number)) (line : SourceLine)
    (hline : line ∈ lines) (hmalformed : IsMalformed excludedNamespace line.text) :
    first.line.number ≤ line.number := by
  rw [first.lines_eq, List.pairwise_append, List.pairwise_cons] at h
  obtain ⟨-, ⟨hbehind, -⟩, -⟩ := h
  rw [first.lines_eq, List.mem_append, List.mem_cons] at hline
  rcases hline with hfront | rfl | hback
  · exact absurd hmalformed (first.front_sound line hfront)
  · exact Nat.le_refl _
  · exact Nat.le_of_lt (hbehind line hback)

theorem countP_upTo (h : lines.Pairwise (·.number < ·.number)) (p : SourceLine → Bool) :
    lines.countP (fun line => line.number ≤ first.line.number && p line) =
      (first.front ++ [first.line]).countP p := by
  have hsplit : lines = first.front ++ [first.line] ++ first.back :=
    first.lines_eq.trans (List.append_cons _ _ _)
  rw [first.lines_eq, List.pairwise_append, List.pairwise_cons] at h
  obtain ⟨-, ⟨hbehind, -⟩, hfront⟩ := h
  have hupTo : ∀ line ∈ first.front ++ [first.line], line.number ≤ first.line.number := by
    intro line hline
    rw [List.mem_append, List.mem_singleton] at hline
    rcases hline with hline | rfl
    · exact Nat.le_of_lt (hfront line hline _ List.mem_cons_self)
    · exact Nat.le_refl _
  have hback : first.back.countP (fun line => line.number ≤ first.line.number && p line) = 0 := by
    rw [List.countP_eq_zero]
    intro line hline
    have hgreater := hbehind line hline
    simp [Nat.not_le.2 hgreater]
  calc
    lines.countP (fun line => line.number ≤ first.line.number && p line)
    _ = (first.front ++ [first.line] ++ first.back).countP
          (fun line => line.number ≤ first.line.number && p line) :=
      congrArg (List.countP _) hsplit
    _ = (first.front ++ [first.line]).countP
          (fun line => line.number ≤ first.line.number && p line) := by
      rw [List.countP_append, hback, Nat.add_zero]
    _ = (first.front ++ [first.line]).countP p :=
      List.countP_congr fun line hline => by simp [hupTo line hline]

theorem not_malformed_preceding :
    ∀ p ∈ first.preceding, p.candidate excludedNamespace ≠ .malformed := by
  intro p hp hmalformed
  unfold Placed.candidate at hmalformed
  rcases List.mem_append.1 hp with hfront | hbefore
  · obtain ⟨line, hline, hplaced⟩ := List.mem_flatMap.1 hfront
    obtain ⟨o, ho, rfl⟩ := List.mem_map.1 hplaced
    -- an occurrence on an excluded line is never malformed, so the line would be a malformed one
    split at hmalformed
    · simp at hmalformed
    · rename_i hopen
      exact first.front_sound line hline ⟨by simpa using hopen, o, ho, hmalformed⟩
  · obtain ⟨o, ho, rfl⟩ := List.mem_map.1 hbefore
    rw [first.line_open] at hmalformed
    exact first.before_sound o ho hmalformed

theorem count_malformed_preceding :
    (first.preceding.map (Placed.candidate excludedNamespace)).count .malformed = 0 := by
  rw [List.count_eq_zero, List.mem_map]
  rintro ⟨p, hp, hmalformed⟩
  exact first.not_malformed_preceding p hp hmalformed

theorem malformed_notMem_leftward : .malformed ∉ first.leftward := by
  intro hmem
  obtain ⟨p, hp, hmalformed⟩ := List.mem_map.1 hmem
  exact first.not_malformed_preceding p (List.mem_append_right _ hp) hmalformed

/-- The candidates of the line of the first malformed occurrence, with this one in the middle. -/
theorem candidates_line :
    candidates first.line.text excludedNamespace =
      first.leftward ++ .malformed :: first.behind.map Occurrence.candidate := by
  unfold candidates leftward
  rw [first.occurrences_eq]
  simp [Placed.candidate, first.line_open, first.malformed]

end FirstMalformed

end FirstMalformed

namespace Effect

variable (t : Tree) (config : Config) (path : Path)

/-- Of a row in which one effect fails, all that stands in front of the first failure comes about. -/
theorem done_of_failure (front back : List Effect) (failure : Failure)
    (h : ∀ e ∈ front, e.failure? = none) : done (front ++ fail failure :: back) = front := by
  rw [done_append, if_pos (List.findSome?_eq_none_iff.2 h)]
  simp [done, failure?]

theorem findSome?_of_failure (front back : List Effect) (failure : Failure)
    (h : ∀ e ∈ front, e.failure? = none) :
    (front ++ fail failure :: back).findSome? failure? = some failure := by
  rw [List.findSome?_append, List.findSome?_eq_none_iff.2 h]
  rfl

theorem amounts_of_lines (lines : List SourceLine)
    (himport : ∀ line ∈ lines, line.isImport = containsStatement line.text)
    (hgoing : ∀ e ∈ lines.flatMap (ofLine config path), e.failure? = none) :
    Amounts (beginFile path :: lines.flatMap (ofLine config path)) 1
      (lines.countP fun line => containsStatement line.text)
      ((placed lines).map (Placed.candidate config.excludedNamespace)) := by
  have hlines := sums_ofLines config path lines himport hgoing
  unfold Sums at hlines
  rw [List.countP_map, ← candidates_placed] at hlines
  exact amounts_beginFile path _ 0 _ _ hlines

theorem going_of_sound (lines : List SourceLine) (habort : config.malformed = .abort)
    (himport : ∀ line ∈ lines, line.isImport = containsStatement line.text)
    (hsound : ∀ line ∈ lines, ¬IsMalformed config.excludedNamespace line.text) :
    ∀ e ∈ lines.flatMap (ofLine config path), e.failure? = none := by
  rw [← List.findSome?_eq_none_iff, failure_of_lines config path lines habort himport,
    List.findSome?_eq_none_iff]
  intro line hline
  rw [if_neg (hsound line hline)]

section UpTo

variable {lines : List SourceLine} (first : FirstMalformed config.excludedNamespace lines)

def upTo : List Effect :=
  beginFile path :: first.front.flatMap (ofLine config path) ++
    countLine :: first.leftward.map (ofCandidate config path first.line)

theorem going_leftward :
    ∀ c ∈ first.leftward, (ofCandidate config path first.line c).failure? = none := by
  intro c hc
  cases c with
  | malformed => exact absurd hc first.malformed_notMem_leftward
  | _ => rfl

variable (habort : config.malformed = .abort)
  (himport : ∀ line ∈ lines, line.isImport = containsStatement line.text)

include himport

theorem isImport_of_mem_front (line : SourceLine) (h : line ∈ first.front) :
    line.isImport = containsStatement line.text := by
  apply himport
  rw [first.lines_eq]
  exact List.mem_append_left _ h

include habort

theorem ofLine_of_firstMalformed :
    ∃ behind, ofLine config path first.line =
      countLine :: first.leftward.map (ofCandidate config path first.line) ++
        fail (.malformedImport path first.line.number first.line.text) :: behind := by
  have hstatement : first.line.isImport = true :=
    (himport _ first.line_mem).trans first.line_statement
  refine ⟨(first.behind.map Occurrence.candidate).map (ofCandidate config path first.line), ?_⟩
  unfold ofLine
  rw [if_pos hstatement, first.candidates_line, List.map_append, List.map_cons]
  simp only [ofCandidate, habort, List.cons_append]

theorem going_upTo : ∀ e ∈ upTo config path first, e.failure? = none := by
  have hfront := going_of_sound config path first.front habort
    (isImport_of_mem_front config first himport) first.front_sound
  unfold upTo
  rw [List.forall_mem_append, List.forall_mem_cons, List.forall_mem_cons, List.forall_mem_map]
  exact ⟨⟨rfl, hfront⟩, rfl, going_leftward config path first⟩

/-- Up to its first malformed occurrence a file amounts to what precedes this one. -/
theorem amounts_upTo :
    Amounts (upTo config path first) 1
      ((first.front ++ [first.line]).countP fun line => containsStatement line.text)
      (first.preceding.map (Placed.candidate config.excludedNamespace)) := by
  have hfrontImport := isImport_of_mem_front config first himport
  have hfront := amounts_of_lines config path first.front hfrontImport
    (going_of_sound config path first.front habort hfrontImport first.front_sound)
  have hline := amounts_of_statement config path first.line first.leftward
    (going_leftward config path first)
  rw [List.countP_append, List.countP_singleton, if_pos first.line_statement,
    FirstMalformed.preceding, List.map_append]
  exact amounts_append _ _ _ _ _ _ _ _ hfront hline

end UpTo

end Effect

/-- A path gives no line at all: it cannot be opened, or the first read of it fails. -/
def Tree.IsUnread (t : Tree) (path : Path) (failure : Failure) : Prop :=
  t.readLines path = .error failure ∨ ∃ rest, t.readLines path = .ok (.error failure :: rest)

section Ends

variable (t : Tree) (config : Config) (path : Path) (tally : Tally)

/-- Of a file that gives no line nothing is counted but the file. -/
theorem scanFile_of_unread (failure : Failure) (h : t.IsUnread path failure) :
    (t.scanFile config path tally).failure = some failure ∧
      (t.scanFile config path tally).tally = tally.countFile ∧
      ∃ cause, failure = .read path cause := by
  unfold Tree.IsUnread at h
  rw [Tree.scanFile_eq]
  unfold Effect.ofFile
  cases hopened : t.openFile path with
  | error cause =>
    rw [Tree.readLines_of_error hopened] at h ⊢
    obtain rfl : .read path cause = failure := by simpa using h
    exact ⟨rfl, rfl, cause, rfl⟩
  | ok opened =>
    cases opened with
    | directory =>
      rw [Tree.readLines_of_directory hopened] at h ⊢
      obtain rfl : .read path .isDirectory = failure := by simpa using h
      exact ⟨rfl, rfl, .isDirectory, rfl⟩
    | content data =>
      rw [Tree.readLines_of_content hopened] at h
      rcases h with h | ⟨rest, h⟩
      · simp at h
      · obtain ⟨line, _, -, hline, -⟩ := List.map_eq_cons_iff.1 (Except.ok.inj h)
        simp at hline

/-- The reading of a file ends before the first line, at the first malformed occurrence, or at the
end of the file. -/
theorem scanFile_ends :
    (∃ failure, t.IsUnread path failure) ∨
      ∃ data, t.openFile path = .ok (.content data) ∧
        ((t.scanFile config path tally).failure = none ∨
          config.malformed = .abort ∧
            Nonempty (FirstMalformed config.excludedNamespace (sourceLines data))) := by
  cases hopened : t.openFile path with
  | error cause => exact Or.inl ⟨_, Or.inl (Tree.readLines_of_error hopened)⟩
  | ok opened =>
    cases opened with
    | directory =>
      exact Or.inl ⟨_, Or.inr ⟨[], Tree.readLines_of_directory hopened⟩⟩
    | content data =>
      refine Or.inr ⟨data, rfl, ?_⟩
      rw [Tree.scanFile_eq]
      dsimp only
      rw [Effect.failure_of_file, Tree.fileFailures, hopened]
      cases hpolicy : config.malformed with
      | skip => exact Or.inl rfl
      | abort =>
        by_cases hsome : ∃ line ∈ sourceLines data, IsMalformed config.excludedNamespace line.text
        · exact Or.inr ⟨rfl, exists_firstMalformed _ _ hsome⟩
        · refine Or.inl ?_
          rw [List.head?_eq_none_iff, List.filterMap_eq_nil_iff]
          intro line hline
          exact if_neg fun hmalformed => hsome ⟨line, hline, hmalformed⟩

section Content

variable (data : Bytes) (hopen : t.openFile path = .ok (.content data))

include hopen

/-- A file that is read to its end adds all of its occurrences. -/
theorem scanFile_of_going (hgoing : (t.scanFile config path tally).failure = none) :
    (t.scanFile config path tally).tally =
      tally.plus 1 ((sourceLines data).countP fun line => containsStatement line.text)
        ((placed (sourceLines data)).map (Placed.candidate config.excludedNamespace)) := by
  rw [Tree.scanFile_eq] at hgoing ⊢
  dsimp only at hgoing ⊢
  have hall := List.findSome?_eq_none_iff.1 hgoing
  rw [Effect.done_of_going _ hall]
  rw [Effect.ofFile_of_content t config path data hopen] at hall ⊢
  obtain ⟨-, hlines⟩ := List.forall_mem_cons.1 hall
  exact Tally.after_of_amounts _ _ _ _ _ (Effect.amounts_of_lines config path _
    (isImport_of_mem_sourceLines data) hlines)

/-- A file that is left at its first malformed occurrence adds the occurrences in front of it, and
counts the line that it stands on. -/
theorem scanFile_of_firstMalformed (habort : config.malformed = .abort)
    (first : FirstMalformed config.excludedNamespace (sourceLines data)) :
    (t.scanFile config path tally).failure =
        some (.malformedImport path first.line.number first.line.text) ∧
      (t.scanFile config path tally).tally =
        tally.plus 1
          ((first.front ++ [first.line]).countP fun line => containsStatement line.text)
          (first.preceding.map (Placed.candidate config.excludedNamespace)) := by
  have himport := isImport_of_mem_sourceLines data
  obtain ⟨behind, hline⟩ := Effect.ofLine_of_firstMalformed config path first habort himport
  have hrow := Effect.ofFile_of_failure t config path data _ _ _ _ _ _ hopen first.lines_eq hline
  have hgoing := Effect.going_upTo config path first habort himport
  unfold Effect.upTo at hgoing
  rw [Tree.scanFile_eq, hrow, Effect.done_of_failure _ _ _ hgoing,
    Effect.findSome?_of_failure _ _ _ hgoing]
  exact ⟨rfl, Tally.after_of_amounts _ _ _ _ _
    (Effect.amounts_upTo config path first habort himport)⟩

end Content

/-- Whatever ends the reading of a file, it adds one file, some lines and some candidates. -/
theorem exists_plus_scanFile :
    ∃ lines found, (t.scanFile config path tally).tally = tally.plus 1 lines found := by
  rcases scanFile_ends t config path tally with
    ⟨failure, hunread⟩ | ⟨data, hopen, hgoing | ⟨habort, ⟨first⟩⟩⟩
  · obtain ⟨-, htally, -⟩ := scanFile_of_unread t config path tally failure hunread
    have hfile : tally.after [.beginFile path] = tally.plus 1 0 [] :=
      Tally.after_of_amounts _ _ _ _ _ ⟨rfl, rfl, rfl, rfl, rfl⟩
    exact ⟨0, [], htally.trans hfile⟩
  · exact ⟨_, _, scanFile_of_going t config path tally data hopen hgoing⟩
  · exact ⟨_, _, (scanFile_of_firstMalformed t config path tally data hopen habort first).2⟩

end Ends

/-- What the reading of a file leaves of a tally. The file is counted, references that were there stay
in front, and nothing that was counted is lost. If the file gives no line, there is no more to it. If
a malformed occurrence ends the reading, it is the first one, on the first line that has one: the
lines with a statement are counted up to this line, and what the occurrences in front give is kept,
dropped or counted as excluded. A file that is read to its end has each of its occurrences counted
once. -/
theorem tally_of_scanFile (t : Tree) (config : Config) (path : Path) (tally : Tally) :
    let scan := t.scanFile config path tally
    (scan.tally.stats.filesScanned = tally.stats.filesScanned + 1 ∧
      scan.tally.stats.referencesKept = tally.stats.referencesKept ∧
      tally.references.tokens <+: scan.tally.references.tokens ∧
      tally.stats.linesMatched ≤ scan.tally.stats.linesMatched ∧
      tally.stats.duplicatesDropped ≤ scan.tally.stats.duplicatesDropped ∧
      tally.stats.excluded ≤ scan.tally.stats.excluded ∧
      tally.stats.malformedSkipped ≤ scan.tally.stats.malformedSkipped) ∧
    (∀ failure, t.IsUnread path failure →
      scan.failure = some failure ∧ scan.tally = tally.countFile ∧
      ∃ cause, failure = .read path cause) ∧
    (∀ other number text, scan.failure = some (.malformedImport other number text) →
      other = path ∧
      ∃ data, t.openFile path = .ok (.content data) ∧
        ∃ first : FirstMalformed config.excludedNamespace (sourceLines data),
          first.line.number = number ∧ first.line.text = text ∧
          IsMalformed config.excludedNamespace text ∧
          (∀ line ∈ sourceLines data, IsMalformed config.excludedNamespace line.text →
            number ≤ line.number) ∧
          scan.tally =
            tally.plus 1
              ((sourceLines data).countP fun line =>
                line.number ≤ number && containsStatement line.text)
              (first.preceding.map (Placed.candidate config.excludedNamespace)) ∧
          scan.tally.stats.malformedSkipped = tally.stats.malformedSkipped) ∧
    (∀ failure, scan.failure = some failure →
      t.IsUnread path failure ∨ ∃ number text, failure = .malformedImport path number text) ∧
    (scan.failure = none →
      ∃ data, t.openFile path = .ok (.content data) ∧
        scan.tally.references.size + scan.tally.stats.duplicatesDropped +
            scan.tally.stats.excluded + scan.tally.stats.malformedSkipped =
          tally.references.size + tally.stats.duplicatesDropped + tally.stats.excluded +
            tally.stats.malformedSkipped + (placed (sourceLines data)).length) := by
  intro scan
  have hends := scanFile_ends t config path tally
  have hunread := scanFile_of_unread t config path tally
  refine ⟨?_, hunread, ?_, ?_, ?_⟩
  · obtain ⟨lines, found, htally⟩ := exists_plus_scanFile t config path tally
    change scan.tally = _ at htally
    rw [htally]
    exact ⟨rfl, rfl, prefix_plus tally 1 lines found, Nat.le_add_right _ _, Nat.le_add_right _ _,
      Nat.le_add_right _ _, Nat.le_add_right _ _⟩
  · intro other number text hfailure
    rcases hends with ⟨failure, h⟩ | ⟨data, hopen, hgoing | ⟨habort, ⟨first⟩⟩⟩
    · obtain ⟨hread, -, cause, rfl⟩ := hunread failure h
      simp [scan, hread] at hfailure
    · simp [scan, hgoing] at hfailure
    · obtain ⟨hfirst, htally⟩ := scanFile_of_firstMalformed t config path tally data hopen habort first
      simp only [scan, hfirst, Option.some.injEq, Failure.malformedImport.injEq] at hfailure
      obtain ⟨rfl, rfl, rfl⟩ := hfailure
      have hincreasing := pairwise_sourceLines data
      rw [← first.countP_upTo hincreasing] at htally
      refine ⟨rfl, data, hopen, first, rfl, rfl, first.line_malformed,
        first.line_least hincreasing, htally, ?_⟩
      change scan.tally = _ at htally
      rw [htally]
      simp only [Tally.plus, first.count_malformed_preceding, Nat.add_zero]
  · intro failure hfailure
    rcases hends with ⟨other, h⟩ | ⟨data, hopen, hgoing | ⟨habort, ⟨first⟩⟩⟩
    · have hread := (hunread other h).1
      simp only [scan, hread, Option.some.injEq] at hfailure
      exact Or.inl (hfailure ▸ h)
    · simp [scan, hgoing] at hfailure
    · obtain ⟨hfirst, -⟩ := scanFile_of_firstMalformed t config path tally data hopen habort first
      simp only [scan, hfirst, Option.some.injEq] at hfailure
      exact Or.inr ⟨_, _, hfailure.symm⟩
  · intro hgoing
    rcases hends with ⟨failure, h⟩ | ⟨data, hopen, -⟩
    · simp [scan, (hunread failure h).1] at hgoing
    · have htally := scanFile_of_going t config path tally data hopen hgoing
      change scan.tally = _ at htally
      refine ⟨data, hopen, ?_⟩
      rw [htally, total_plus, List.length_map]

/-- A scan that is cut short in the middle of a line keeps what stands in front on that line. -/
example :
    let scan := (soleFile (Utf8.encode "import a.B;import static c.D;import e.F;\n".toList)).scanFile
      atTop solePath Tally.empty
    scan.failure.isSome ∧ scan.tally.references.size = 1 ∧
      scan.tally.stats = ⟨1, 1, 0, 0, 0, 0⟩ := by
  cbv

end ImportCensus
