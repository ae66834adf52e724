import ImportCensus.Proofs.FileScans
import ImportCensus.Proofs.ScannedTokens

namespace ImportCensus

def Tally.afterScans (tally : Tally) (scans : List FileScan) : Tally :=
  scans.foldl (fun tally s => (s.tree.scanFile s.config s.path tally).tally) tally

def fileCandidates (excludedNamespace : Text) (data : Bytes) : List Candidate :=
  (placed (sourceLines data)).map (Placed.candidate excludedNamespace)

section Known

variable {tally : Tally} {found : List Candidate} (files lines : Nat)

theorem mem_plus (token : Text) (h : token ∈ found.filterMap Candidate.token?) :
    token ∈ (tally.plus files lines found).references.tokens := by
  show token ∈ (tally.references.tokens ++ found.filterMap Candidate.token?).eraseDups
  rw [List.mem_eraseDups]
  exact List.mem_append_right _ h

variable (h : ∀ token ∈ found.filterMap Candidate.token?, token ∈ tally.references.tokens)

include h

theorem references_plus_of_known :
    (tally.plus files lines found).references = tally.references := by
  have hnone : (found.filterMap Candidate.token?).removeAll tally.references.tokens = [] := by
    rw [List.removeAll, List.filter_eq_nil_iff]
    intro token htoken
    simpa using h token htoken
  apply References.eq_of_tokens
  show (tally.references.tokens ++ found.filterMap Candidate.token?).eraseDups = _
  rw [List.eraseDups_append, hnone, eraseDups_of_nodup _ tally.references.nodup,
    List.eraseDups_nil, List.append_nil]

theorem duplicates_plus_of_known :
    (tally.plus files lines found).stats.duplicatesDropped =
      tally.stats.duplicatesDropped + (found.filterMap Candidate.token?).length := by
  have hsame := references_plus_of_known files lines h
  show tally.stats.duplicatesDropped +
    (tally.references.size + _ - (tally.plus files lines found).references.size) = _
  rw [hsame, Nat.add_sub_cancel_left]

end Known

/-- Files that are added keep all references in their places. -/
theorem prefix_afterScans (tally : Tally) (scans : List FileScan) :
    tally.references.tokens <+: (tally.afterScans scans).references.tokens := by
  induction scans generalizing tally with
  | nil => exact List.prefix_refl _
  | cons s scans ih =>
    obtain ⟨lines, found, htally⟩ := exists_plus_scanFile s.tree s.config s.path tally
    have hfirst := prefix_plus tally 1 lines found
    rw [← htally] at hfirst
    exact hfirst.trans (ih _)

theorem failure_scanFile (t t' : Tree) (config : Config) (path : Path) (tally tally' : Tally)
    (hsame : t'.openFile path = t.openFile path) :
    (t'.scanFile config path tally').failure = (t.scanFile config path tally).failure := by
  rw [Tree.scanFile_eq, Tree.scanFile_eq, Effect.ofFile_of_openFile t t' config path hsame]

/-- Scanning a file again adds nothing. Let a file be read to its end, let any other files be added
to the tally behind it, in any way, and let the file have the same contents still. Then it can be read
to its end again, and the references stay exactly as they are. Each occurrence that gives a reference
is one more duplicate, and all other counters grow by what the first scan of the file has added to
them. -/
theorem scanFile_again (tally : Tally) (before between : List FileScan) (s : FileScan) (t : Tree)
    (hread : (s.tree.scanFile s.config s.path (tally.afterScans before)).failure = none)
    (hsame : t.openFile s.path = s.tree.openFile s.path) :
    let start := tally.afterScans before
    let first := (s.tree.scanFile s.config s.path start).tally
    let reached := tally.afterScans (before ++ s :: between)
    let again := t.scanFile s.config s.path reached
    again.failure = none ∧
      again.tally.references = reached.references ∧
      ∃ data lines excluded malformed,
        t.openFile s.path = .ok (.content data) ∧
        first.stats =
          { filesScanned := start.stats.filesScanned + 1
            linesMatched := start.stats.linesMatched + lines
            referencesKept := start.stats.referencesKept
            duplicatesDropped := first.stats.duplicatesDropped
            excluded := start.stats.excluded + excluded
            malformedSkipped := start.stats.malformedSkipped + malformed } ∧
        again.tally.stats =
          { filesScanned := reached.stats.filesScanned + 1
            linesMatched := reached.stats.linesMatched + lines
            referencesKept := reached.stats.referencesKept
            duplicatesDropped := reached.stats.duplicatesDropped +
              ((fileCandidates s.config.excludedNamespace data).filterMap
                Candidate.token?).length
            excluded := reached.stats.excluded + excluded
            malformedSkipped := reached.stats.malformedSkipped + malformed } := by
  intro start first reached again
  have hagain : again.failure = none :=
    (failure_scanFile s.tree t s.config s.path start reached hsame).trans hread
  rcases scanFile_ends s.tree s.config s.path start with ⟨failure, hunread⟩ | ⟨data, hopen, -⟩
  · obtain ⟨hfailure, -⟩ := scanFile_of_unread s.tree s.config s.path start failure hunread
    rw [hread] at hfailure
    simp at hfailure
  have hopen' : t.openFile s.path = .ok (.content data) := hsame.trans hopen
  let lines := (sourceLines data).countP fun line => containsStatement line.text
  let found := fileCandidates s.config.excludedNamespace data
  have hfirst : first = start.plus 1 lines found :=
    scanFile_of_going s.tree s.config s.path start data hopen hread
  have hsecond : again.tally = reached.plus 1 lines found :=
    scanFile_of_going t s.config s.path reached data hopen' hagain
  have hreached : reached = first.afterScans between := by
    show List.foldl _ _ _ = _
    rw [List.foldl_append]
    rfl
  have hknown : ∀ token ∈ found.filterMap Candidate.token?, token ∈ reached.references.tokens := by
    intro token htoken
    have hmem : token ∈ first.references.tokens := by
      rw [hfirst]
      exact mem_plus 1 lines token htoken
    rw [hreached]
    exact (prefix_afterScans first between).subset hmem
  refine ⟨hagain, ?_, data, lines, found.count .excluded, found.count .malformed, hopen', ?_, ?_⟩
  · rw [hsecond]
    exact references_plus_of_known 1 lines hknown
  · rw [hfirst]
    rfl
  · rw [hsecond, ← duplicates_plus_of_known 1 lines hknown]
    rfl

def passingScan : FileScan where
  tree := soleFile (Utf8.encode "import a.B;import c.D;\nimport static f.G;\n".toList)
  config := { atTop with malformed := .skip }
  path := solePath

def passingTally : Tally := Tally.empty.afterScans ([] ++ passingScan :: [brokenScan])

theorem scanFile_again_passingScan :
    let first := passingScan.tree.scanFile passingScan.config passingScan.path Tally.empty
    let again := passingScan.tree.scanFile passingScan.config passingScan.path passingTally
    first.failure = none ∧ again.failure = none ∧
      again.tally.references = passingTally.references ∧
      passingTally.stats = ⟨2, 5, 0, 1, 1, 1⟩ ∧ again.tally.stats = ⟨3, 7, 0, 3, 1, 2⟩ := by
  have hread : (passingScan.tree.scanFile passingScan.config passingScan.path
      Tally.empty).failure = none := by cbv
  have hreached : passingTally.stats = ⟨2, 5, 0, 1, 1, 1⟩ := by cbv
  have hstats : (passingScan.tree.scanFile passingScan.config passingScan.path
      passingTally).tally.stats = ⟨3, 7, 0, 3, 1, 2⟩ := by cbv
  obtain ⟨hagain, hreferences, -⟩ :=
    scanFile_again Tally.empty [] [brokenScan] passingScan passingScan.tree hread rfl
  exact ⟨hread, hagain, hreferences, hreached, hstats⟩

end ImportCensus
