import ImportCensus.Proofs.Outcome
import ImportCensus.Proofs.SoleFile
import ImportCensus.Proofs.WalkCourse

namespace ImportCensus

/-- A line is malformed: the namespace does not exclude it, and an occurrence on it gives no
reference. -/
def IsMalformed (excludedNamespace line : Text) : Prop :=
  isExcluded line excludedNamespace = false ∧ ∃ o ∈ occurrences line, o.candidate = .malformed

instance (excludedNamespace line : Text) : Decidable (IsMalformed excludedNamespace line) :=
  inferInstanceAs (Decidable (_ ∧ _))

/-- The failures of a file, in order: it is not opened, or it is not read, or, if nothing is passed
over, each of its malformed lines is one. -/
def Tree.fileFailures (t : Tree) (config : Config) (path : Path) : List Failure :=
  match t.openFile path, config.malformed with
  | .error cause, _ => [.read path cause]
  | .ok .directory, _ => [.read path .isDirectory]
  | .ok (.content _), .skip => []
  | .ok (.content data), .abort =>
    (sourceLines data).filterMap fun line =>
      if IsMalformed config.excludedNamespace line.text then
        some (.malformedImport path line.number line.text)
      else none

def Tree.failures (t : Tree) (config : Config) : List Failure :=
  (t.discover config.root config.suffix).flatMap fun item =>
    match item.result config.root with
    | .ok path => t.fileFailures config path
    | .error failure => [failure]

theorem malformed_of_mem_fileFailures (t : Tree) (config : Config) (path : Path) (data : Bytes)
    (hopen : t.openFile path = .ok (.content data)) (failure : Failure)
    (h : failure ∈ t.fileFailures config path) :
    ∃ number text, failure = .malformedImport path number text := by
  unfold Tree.fileFailures at h
  rw [hopen] at h
  cases hpolicy : config.malformed with
  | skip => simp [hpolicy] at h
  | abort =>
    rw [hpolicy] at h
    obtain ⟨line, -, hline⟩ := List.mem_filterMap.1 h
    split at hline
    · exact ⟨line.number, line.text, (Option.some.inj hline).symm⟩
    · simp at hline

theorem malformed_mem_candidates_iff (line excludedNamespace : Text) :
    .malformed ∈ candidates line excludedNamespace ↔ IsMalformed excludedNamespace line := by
  unfold candidates IsMalformed
  cases isExcluded line excludedNamespace <;> simp

namespace Effect

variable (t : Tree) (config : Config) (path : Path)

theorem failure_of_candidates (line : SourceLine) (h : config.malformed = .abort)
    (cs : List Candidate) :
    (cs.map (ofCandidate config path line)).findSome? failure? =
      if .malformed ∈ cs then some (.malformedImport path line.number line.text) else none := by
  induction cs with
  | nil => rfl
  | cons c cs ih =>
    rw [List.map_cons, List.findSome?_cons, ih]
    cases c with
    | reference token => simp [ofCandidate, failure?]
    | excluded => simp [ofCandidate, failure?]
    | malformed => simp [ofCandidate, failure?, h]

theorem failure_of_line (line : SourceLine) (h : config.malformed = .abort)
    (himport : line.isImport = containsStatement line.text) :
    (ofLine config path line).findSome? failure? =
      if IsMalformed config.excludedNamespace line.text then
        some (.malformedImport path line.number line.text)
      else none := by
  unfold ofLine
  split
  · rw [List.findSome?_cons]
    dsimp only [failure?]
    rw [failure_of_candidates config path line h]
    simp only [malformed_mem_candidates_iff]
  · rename_i hnone
    -- a line without a statement has no occurrence, so none that is malformed
    have hempty : occurrences line.text = [] := by
      rw [himport, containsStatement_eq] at hnone
      simpa using hnone
    have hwell : ¬IsMalformed config.excludedNamespace line.text := by
      simp [IsMalformed, hempty]
    rw [if_neg hwell]
    rfl

/-- Of some lines, the first that is malformed ends their reading. -/
theorem failure_of_lines (lines : List SourceLine) (h : config.malformed = .abort)
    (himport : ∀ line ∈ lines, line.isImport = containsStatement line.text) :
    (lines.flatMap (ofLine config path)).findSome? failure? =
      lines.findSome? fun line =>
        if IsMalformed config.excludedNamespace line.text then
          some (.malformedImport path line.number line.text)
        else none := by
  induction lines with
  | nil => rfl
  | cons line lines ih =>
    obtain ⟨hfirst, hrest⟩ := List.forall_mem_cons.1 himport
    rw [List.flatMap_cons, List.findSome?_append, failure_of_line config path line h hfirst,
      ih hrest, List.findSome?_cons]
    split <;> simp_all

theorem failure_of_lines_skip (lines : List SourceLine) (h : config.malformed = .skip) :
    (lines.flatMap (ofLine config path)).findSome? failure? = none := by
  rw [List.findSome?_eq_none_iff]
  intro e he
  obtain ⟨line, -, hline⟩ := List.mem_flatMap.1 he
  unfold ofLine at hline
  split at hline
  · rcases List.mem_cons.1 hline with rfl | hline
    · rfl
    · obtain ⟨c, -, rfl⟩ := List.mem_map.1 hline
      cases c <;> simp [ofCandidate, h, failure?]
  · simp at hline

theorem failure_of_file :
    (ofFile t config path).findSome? failure? = (t.fileFailures config path).head? := by
  unfold Tree.fileFailures
  cases hopen : t.openFile path with
  | error cause =>
    rw [ofFile, Tree.readLines_of_error hopen]
    rfl
  | ok opened =>
    cases opened with
    | directory =>
      rw [ofFile, Tree.readLines_of_directory hopen]
      rfl
    | content data =>
      rw [ofFile_of_content t config path data hopen, List.findSome?_cons]
      cases hpolicy : config.malformed with
      | skip => exact failure_of_lines_skip config path _ hpolicy
      | abort =>
        dsimp only [failure?]
        rw [List.head?_filterMap]
        exact failure_of_lines config path _ hpolicy (isImport_of_mem_sourceLines data)

end Effect

/-- A census fails with the first failure in its way. -/
theorem failure_eq_head? (t : Tree) (config : Config) :
    (t.census config).failure = (t.failures config).head? := by
  have hitem (item : Item) : (Effect.ofItem t config item).findSome? Effect.failure? =
      (match item.result config.root with
        | .ok path => t.fileFailures config path
        | .error failure => [failure]).head? := by
    unfold Effect.ofItem
    cases item.result config.root with
    | ok path => exact Effect.failure_of_file t config path
    | error failure => rfl
  rw [Tree.failure_census, Tree.effects, Tree.failures, List.head?_flatMap,
    ← List.head?_filterMap, List.filterMap_flatMap, List.head?_flatMap]
  simp only [List.head?_filterMap, hitem]

/-- Two trees agree on an item that a census fails at, and on what it holds up to the failure. -/
inductive FailsAlike (t t' : Tree) (config : Config) : Item → Prop where
  | walk (item : Item) (failure : Failure) (h : item.result config.root = .error failure) :
      FailsAlike t t' config item
  | unread (names : List FileName)
      (h : t.openFile (config.root.below names) = t'.openFile (config.root.below names))
      (hfail : ∀ data, t.openFile (config.root.below names) ≠ .ok (.content data)) :
      FailsAlike t t' config (.file names)
  | malformed (names : List FileName) (data data' : Bytes) (front back back' : List SourceLine)
      (line : SourceLine) (h : t.openFile (config.root.below names) = .ok (.content data))
      (h' : t'.openFile (config.root.below names) = .ok (.content data'))
      (hlines : sourceLines data = front ++ line :: back)
      (hlines' : sourceLines data' = front ++ line :: back') (hpolicy : config.malformed = .abort)
      (hline : IsMalformed config.excludedNamespace line.text) :
      FailsAlike t t' config (.file names)

/-- A walk through each of two trees: they give the same files, which hold the same in both trees,
until both are over or give an item that a census fails at. Nothing is asked of what is before them
then, nor of what the steps between two items meet with. -/
inductive AgreeUntilFailure (t t' : Tree) (config : Config) : Walk → Walk → Prop where
  | finished (w w' v v' : Walk) (hnext : w.next t = (none, v)) (hnext' : w'.next t' = (none, v')) :
      AgreeUntilFailure t t' config w w'
  | read (w w' v v' : Walk) (names : List FileName) (hnext : w.next t = (some (.file names), v))
      (hnext' : w'.next t' = (some (.file names), v'))
      (hopen : t.openFile (config.root.below names) = t'.openFile (config.root.below names))
      (hrest : AgreeUntilFailure t t' config v v') : AgreeUntilFailure t t' config w w'
  | failed (w w' v v' : Walk) (item : Item) (hnext : w.next t = (some item, v))
      (hnext' : w'.next t' = (some item, v')) (hfail : FailsAlike t t' config item) :
      AgreeUntilFailure t t' config w w'

namespace Effect

structure SameUntilFailure (row row' : List Effect) : Prop where
  done_eq : done row = done row'
  failure_eq : row.findSome? failure? = row'.findSome? failure?

theorem same_of_failure (failure : Failure) (back back' : List Effect) :
    SameUntilFailure (fail failure :: back) (fail failure :: back') :=
  ⟨rfl, rfl⟩

theorem same_append (front row row' : List Effect) (h : SameUntilFailure row row') :
    SameUntilFailure (front ++ row) (front ++ row') := by
  induction front with
  | nil => exact h
  | cons e front ih =>
    obtain ⟨hdone, hfailure⟩ := ih
    unfold done at hdone
    refine ⟨?_, ?_⟩
    · unfold done
      rw [List.cons_append, List.cons_append, List.takeWhile_cons, List.takeWhile_cons, hdone]
    · rw [List.cons_append, List.cons_append, List.findSome?_cons, List.findSome?_cons, hfailure]

theorem failure_mem_ofLine (config : Config) (path : Path) (line : SourceLine)
    (hpolicy : config.malformed = .abort) (himport : line.isImport = containsStatement line.text)
    (hline : IsMalformed config.excludedNamespace line.text) :
    ∃ front failure back, ofLine config path line = front ++ fail failure :: back := by
  have hfailure := failure_of_line config path line hpolicy himport
  rw [if_pos hline] at hfailure
  obtain ⟨e, he, hfail⟩ := List.exists_of_findSome?_eq_some hfailure
  obtain ⟨front, back, hrow⟩ := List.append_of_mem he
  cases e with
  | fail failure => exact ⟨front, failure, back, hrow⟩
  | _ => simp [failure?] at hfail

theorem ofFile_of_failure (t : Tree) (config : Config) (path : Path) (data : Bytes)
    (front back : List SourceLine) (line : SourceLine) (before behind : List Effect)
    (failure : Failure) (h : t.openFile path = .ok (.content data))
    (hlines : sourceLines data = front ++ line :: back)
    (hrow : ofLine config path line = before ++ fail failure :: behind) :
    ofFile t config path =
      (beginFile path :: front.flatMap (ofLine config path) ++ before) ++
        fail failure :: (behind ++ back.flatMap (ofLine config path)) := by
  rw [ofFile_of_content t config path data h, hlines, List.flatMap_append, List.flatMap_cons, hrow]
  simp

/-- Of an item at which two trees fail alike, the effects are the same up to one failure in both. -/
theorem ofItem_of_failsAlike (t t' : Tree) (config : Config) (item : Item)
    (h : FailsAlike t t' config item) :
    ∃ front failure back back', ofItem t config item = front ++ fail failure :: back ∧
      ofItem t' config item = front ++ fail failure :: back' := by
  cases h with
  | walk item failure h =>
    unfold ofItem
    rw [h]
    exact ⟨[], failure, [], [], rfl, rfl⟩
  | unread names h hfail =>
    rw [ofItem_file, ofItem_file]
    unfold ofFile
    cases hopen : t.openFile (config.root.below names) with
    | error cause =>
      rw [Tree.readLines_of_error hopen, Tree.readLines_of_error (h.symm.trans hopen)]
      exact ⟨[_], _, [], [], rfl, rfl⟩
    | ok opened =>
      cases opened with
      | directory =>
        rw [Tree.readLines_of_directory hopen, Tree.readLines_of_directory (h.symm.trans hopen)]
        exact ⟨[_], _, [], [], rfl, rfl⟩
      | content data => exact absurd hopen (hfail data)
  | malformed names data data' front back back' line h h' hlines hlines' hpolicy hline =>
    have himport : line.isImport = containsStatement line.text := by
      apply isImport_of_mem_sourceLines data
      rw [hlines]
      simp
    obtain ⟨before, failure, behind, hrow⟩ :=
      failure_mem_ofLine config (config.root.below names) line hpolicy himport hline
    exact ⟨_, failure, _, _,
      ofFile_of_failure t config _ data front back line before behind failure h hlines hrow,
      ofFile_of_failure t' config _ data' front back' line before behind failure h' hlines' hrow⟩

/-- What two trees agree on up to the first failure is all that a census of them does. -/
theorem same_of_agree (t t' : Tree) (config : Config) (w w' : Walk)
    (h : AgreeUntilFailure t t' config w w') :
    SameUntilFailure ((w.items t).flatMap (ofItem t config))
      ((w'.items t').flatMap (ofItem t' config)) := by
  -- one item at a time, whatever steps each walk takes to come upon it
  induction h with
  | finished w w' v v' hnext hnext' =>
    rw [Walk.items_eq_next, hnext, Walk.items_eq_next, hnext']
    dsimp only
    rw [List.flatMap_nil, List.flatMap_nil]
    exact ⟨rfl, rfl⟩
  | read w w' v v' names hnext hnext' hopen hrest ih =>
    have hitem : ofItem t config (.file names) = ofItem t' config (.file names) := by
      rw [ofItem_file, ofItem_file]
      exact ofFile_of_openFile t' t config _ hopen
    rw [Walk.items_eq_next, hnext, Walk.items_eq_next, hnext']
    dsimp only
    rw [List.flatMap_cons, List.flatMap_cons, ← hitem]
    exact same_append _ _ _ ih
  | failed w w' v v' item hnext hnext' hfail =>
    obtain ⟨front, failure, back, back', hrow, hrow'⟩ := ofItem_of_failsAlike t t' config item hfail
    rw [Walk.items_eq_next, hnext, Walk.items_eq_next, hnext']
    dsimp only
    rw [List.flatMap_cons, List.flatMap_cons, hrow, hrow', List.append_assoc, List.append_assoc,
      List.cons_append, List.cons_append]
    exact same_append front _ _ (same_of_failure failure _ _)

end Effect

/-- A census fails exactly if there is a failure in its way, and then with the first one. Two trees
that agree on all that comes up to the first failure have the same census, whatever either of them
holds behind it. -/
theorem census_fails_first (t : Tree) (config : Config) :
    (t.census config).failure = (t.failures config).head? ∧
      ∀ t' : Tree,
        AgreeUntilFailure t t' config (.start config.root config.suffix)
            (.start config.root config.suffix) →
          t'.census config = t.census config := by
  refine ⟨failure_eq_head? t config, ?_⟩
  intro t' h
  obtain ⟨hdone, hfailure⟩ := Effect.same_of_agree t t' config _ _ h
  have hrow (t : Tree) : t.effects config =
      ((Walk.start config.root config.suffix).items t).flatMap (Effect.ofItem t config) := rfl
  rw [Tree.census_eq, Tree.census_eq, hrow t, hrow t', hdone, hfailure]

def failingTree : Tree :=
  Tree.ofEdits [
    .put soleName (.file (Utf8.encode "import a.B;\nimport static c.D;\n".toList)),
    .put (Utf8.encode "z/B.java".toList) (.file [])]

def otherTree : Tree :=
  Tree.ofEdits [
    .put soleName (.file (Utf8.encode "import a.B;\nimport static c.D;\nimport e.F;\n".toList)),
    .put (Utf8.encode "B.java".toList) (.file []),
    .put (Utf8.encode "C.java".toList) (.link (Utf8.encode "gone".toList)),
    .put (Utf8.encode "z/C.java".toList) (.link (Utf8.encode "gone".toList))]

theorem agree_failingTree :
    AgreeUntilFailure failingTree otherTree atTop (.start atTop.root atTop.suffix)
      (.start atTop.root atTop.suffix) := by
  have hnext (t : Tree) (rest : List Pending)
      (hroot : Walk.listRoot t selfName = .ok (⟨[soleName], .file⟩ :: rest)) :
      (Walk.start selfName ".java".toList).next t =
        (some (.file [soleName]), ⟨selfName, ".java".toList, some rest⟩) := by
    have hlisted : Walk.step? t (.start selfName ".java".toList) =
        some (none, ⟨selfName, ".java".toList, some (⟨[soleName], .file⟩ :: rest)⟩) := by
      unfold Walk.step? Walk.start
      dsimp only
      rw [hroot]
    have hfile : Walk.step? t ⟨selfName, ".java".toList, some (⟨[soleName], .file⟩ :: rest)⟩ =
        some (some (.file [soleName]), ⟨selfName, ".java".toList, some rest⟩) := rfl
    rw [Walk.next, hlisted]
    dsimp only
    rw [Walk.next, hfile]
  have hmalformed : candidates "import static c.D;".toList "org.wahlzeit".toList = [.malformed] := by
    cbv
  have hline : IsMalformed "org.wahlzeit".toList "import static c.D;".toList := by
    rw [← malformed_mem_candidates_iff, hmalformed]
    exact List.mem_singleton_self _
  have hfail : FailsAlike failingTree otherTree atTop (.file [soleName]) := by
    refine .malformed [soleName] _ _ [⟨1, "import a.B;".toList, true⟩] []
      [⟨3, "import e.F;".toList, true⟩] ⟨2, "import static c.D;".toList, true⟩ rfl rfl ?_ ?_ rfl
      hline
    · cbv
    · cbv
  exact .failed _ _ _ _ _ (hnext failingTree _ rfl) (hnext otherTree _ rfl) hfail

theorem census_fails_first_failingTree :
    AgreeUntilFailure failingTree otherTree atTop (.start atTop.root atTop.suffix)
        (.start atTop.root atTop.suffix) ∧
      failingTree.children [] ≠ otherTree.children [] ∧
      otherTree.census atTop = failingTree.census atTop ∧
      (failingTree.census atTop).failure = (failingTree.failures atTop).head? := by
  obtain ⟨hfirst, hsame⟩ := census_fails_first failingTree atTop
  exact ⟨agree_failingTree, by decide, hsame otherTree agree_failingTree, hfirst⟩

end ImportCensus
