import Mathlib
import ImportCensus.Proofs.Rendering
import ImportCensus.Proofs.TallyAfter
import ImportCensus.Proofs.Tokens
import ImportCensus.Tree.Edit

namespace ImportCensus

structure FileScan where
  tree : Tree
  config : Config
  path : Path

/-- The tally after files have been added to the empty one. A file that fails adds what came before
its failure. -/
def Tally.ofScans (scans : List FileScan) : Tally :=
  scans.foldl (fun tally s => (s.tree.scanFile s.config s.path tally).tally) Tally.empty

/-- The shape of a reference: it is not empty, no blank stands in it, and a semicolon can only be its
first character. -/
structure IsToken (token : Text) : Prop where
  nonempty : token ≠ []
  solid : ∀ c ∈ token, Text.isBlank c = false
  no_semicolon : ';' ∉ token.tail

/-- A token has its origin on a line: it is the token of an occurrence there, and the namespace does
not exclude the line. -/
def HasOrigin (excludedNamespace token : Text) : Prop :=
  ∃ line o, o ∈ occurrences line ∧ isExcluded line excludedNamespace = false ∧
    o.candidate = .reference token

theorem secondWord?_of_candidate (o : Occurrence) (token : Text)
    (h : o.candidate = .reference token) : secondWord? o.text = some token := by
  unfold Occurrence.candidate at h
  split at h
  · rename_i word hword
    rw [hword, Candidate.reference.inj h]
  · simp at h

theorem isToken_of_origin (excludedNamespace token : Text)
    (h : HasOrigin excludedNamespace token) : IsToken token := by
  obtain ⟨line, o, ho, -, hcandidate⟩ := h
  obtain ⟨hbody, -⟩ := occurrence_infix line o ho
  have hword := secondWord?_of_candidate o token hcandidate
  obtain ⟨blanks, hsplit, -, hne, hsolid⟩ := (secondWord?_occurrence o hbody token).1 hword
  refine ⟨hne, hsolid, ?_⟩
  have hfree := hbody.no_semicolon
  rw [hsplit] at hfree
  -- behind a blank the token is free of semicolons, and without one it is the whole body
  cases blanks with
  | nil => exact hfree
  | cons b blanks =>
    intro hmem
    exact hfree (List.mem_append_right blanks (List.mem_of_mem_tail hmem))

/-- A token stands on the line of its origin, so what the line does not hold, neither does it. -/
theorem not_occursIn_of_origin (excludedNamespace token : Text) (hne : excludedNamespace ≠ [])
    (h : HasOrigin excludedNamespace token) : excludedNamespace.occursIn token = false := by
  obtain ⟨line, o, ho, hopen, hcandidate⟩ := h
  obtain ⟨hbody, hline⟩ := occurrence_infix line o ho
  have hword := secondWord?_of_candidate o token hcandidate
  obtain ⟨blanks, hsplit, -⟩ := (secondWord?_occurrence o hbody token).1 hword
  have htoken : token <:+: line := by
    refine List.IsInfix.trans ?_ hline
    exact ⟨keyword ++ blanks, [';'], by simp [Occurrence.text, hsplit]⟩
  rw [Bool.eq_false_iff]
  intro hin
  obtain ⟨before, behind, hpart⟩ := Text.occursIn_iff.1 hin
  have hinside : excludedNamespace <:+: line :=
    List.IsInfix.trans ⟨before, behind, hpart.symm⟩ htoken
  obtain ⟨before, behind, hwhole⟩ := hinside
  have hexcluded : isExcluded line excludedNamespace = true := by
    unfold isExcluded
    rw [Text.occursIn_iff.2 ⟨before, behind, hwhole.symm⟩]
    simpa using hne
  rw [hopen] at hexcluded
  simp at hexcluded

theorem origin_of_ofFile (t : Tree) (config : Config) (path : Path) (token : Text)
    (h : Effect.keep token ∈ Effect.ofFile t config path) :
    HasOrigin config.excludedNamespace token := by
  have hline (line : SourceLine) (h : Effect.keep token ∈ Effect.ofLine config path line) :
      HasOrigin config.excludedNamespace token := by
    unfold Effect.ofLine at h
    split at h
    · obtain ⟨c, hc, he⟩ : ∃ c ∈ candidates line.text config.excludedNamespace,
          Effect.ofCandidate config path line c = .keep token := by simpa using h
      obtain ⟨o, ho, rfl⟩ := List.mem_map.1 hc
      refine ⟨line.text, o, ho, ?_⟩
      cases hx : isExcluded line.text config.excludedNamespace with
      | true => simp [hx, Effect.ofCandidate] at he
      | false =>
        refine ⟨rfl, ?_⟩
        simp only [hx, Bool.false_eq_true, if_false] at he
        cases hcandidate : o.candidate with
        | reference word =>
          rw [hcandidate] at he
          rw [Effect.keep.inj he]
        | excluded => simp [hcandidate, Effect.ofCandidate] at he
        | malformed =>
          cases hpolicy : config.malformed <;>
            simp [hcandidate, Effect.ofCandidate, hpolicy] at he
    · simp at h
  unfold Effect.ofFile at h
  cases hread : t.readLines path with
  | error failure => simp [hread] at h
  | ok reads =>
    obtain ⟨read, -, he⟩ : ∃ read ∈ reads, Effect.keep token ∈ Effect.ofRead config path read := by
      simpa [hread] using h
    cases read with
    | ok line => exact hline line he
    | error failure => simp [Effect.ofRead] at he

theorem origin_of_scanFile (s : FileScan) (tally : Tally) (token : Text)
    (h : token ∈ (s.tree.scanFile s.config s.path tally).tally.references.tokens) :
    token ∈ tally.references.tokens ∨ HasOrigin s.config.excludedNamespace token := by
  rw [Tree.scanFile_eq, Tally.tokens_after, List.mem_eraseDups] at h
  rcases List.mem_append.1 h with h | h
  · exact Or.inl h
  · right
    obtain ⟨e, he, htoken⟩ := List.mem_filterMap.1 h
    have hkeep : e = .keep token := by
      cases e <;> simp_all [Effect.token?]
    rw [hkeep] at he
    exact origin_of_ofFile s.tree s.config s.path token (List.takeWhile_subset _ he)

/-- Every reference of a tally comes from one of the files that were added to it. -/
theorem origin_of_scans (scans : List FileScan) (token : Text)
    (h : token ∈ (Tally.ofScans scans).references.tokens) :
    ∃ s ∈ scans, HasOrigin s.config.excludedNamespace token := by
  induction scans using List.reverseRecOn with
  | nil => simp [Tally.ofScans, Tally.empty] at h
  | append_singleton scans s ih =>
    unfold Tally.ofScans at h ih
    rw [List.foldl_append, List.foldl_cons, List.foldl_nil] at h
    rcases origin_of_scanFile s _ token h with h | h
    · obtain ⟨r, hr, horigin⟩ := ih h
      exact ⟨r, List.mem_append_left _ hr, horigin⟩
    · exact ⟨s, by simp, h⟩

/-- Whatever files were added to a tally, in whatever way each of them ended: its references stand
there once each, they have the shape of tokens, they are free of a namespace that all the files
excluded, and their rendered lines give them back. -/
theorem references_of_scans (scans : List FileScan) :
    (Tally.ofScans scans).references.tokens.Nodup ∧
      (∀ token ∈ (Tally.ofScans scans).references.tokens, IsToken token) ∧
      (∀ excludedNamespace : Text, excludedNamespace ≠ [] →
        (∀ s ∈ scans, s.config.excludedNamespace = excludedNamespace) →
        ∀ token ∈ (Tally.ofScans scans).references.tokens,
          excludedNamespace.occursIn token = false) ∧
      (∀ w : Writer, w.room = none →
        ((Tally.ofScans scans).references.writeTo w).1.stored =
          w.stored ++ Utf8.encode (Tally.ofScans scans).references.rendered) ∧
      (Tally.ofScans scans).references.rendered.splitOn '\n' =
        (Tally.ofScans scans).references.tokens ++ [[]] := by
  have hshape : ∀ token ∈ (Tally.ofScans scans).references.tokens, IsToken token := by
    intro token htoken
    obtain ⟨s, -, horigin⟩ := origin_of_scans scans token htoken
    exact isToken_of_origin _ _ horigin
  refine ⟨(Tally.ofScans scans).references.nodup, hshape, ?_, ?_, ?_⟩
  · intro excludedNamespace hne hsame token htoken
    obtain ⟨s, hs, horigin⟩ := origin_of_scans scans token htoken
    rw [hsame s hs] at horigin
    exact not_occursIn_of_origin excludedNamespace token hne horigin
  · intro w hw
    exact stored_writeTo _ w hw
  · apply splitOn_rendered
    intro token htoken hmem
    have hblank := (hshape token htoken).solid '\n' hmem
    simp [Text.isBlank] at hblank

def brokenScan : FileScan where
  tree := Tree.ofEdits [.put (Utf8.encode "A.java".toList) (.file (Utf8.encode
    "import a.B;\nimport org.wahlzeit.C;\nimport static d.E;\nimport f.G;\n".toList))]
  config := Config.default
  path := Utf8.encode "A.java".toList

theorem references_of_brokenScan :
    (brokenScan.tree.scanFile brokenScan.config brokenScan.path Tally.empty).failure.isSome ∧
      (Tally.ofScans [brokenScan, brokenScan]).references.tokens = ["a.B".toList] ∧
      (∀ token ∈ (Tally.ofScans [brokenScan, brokenScan]).references.tokens,
        Text.occursIn "org.wahlzeit".toList token = false) ∧
      (Tally.ofScans [brokenScan, brokenScan]).references.rendered.splitOn '\n' =
        (Tally.ofScans [brokenScan, brokenScan]).references.tokens ++ [[]] := by
  obtain ⟨-, -, hfree, -, hsplit⟩ := references_of_scans [brokenScan, brokenScan]
  refine ⟨by cbv, by cbv, ?_, hsplit⟩
  apply hfree
  · decide
  · intro s hs
    have hsame : s = brokenScan := by simpa using hs
    rw [hsame]
    rfl

end ImportCensus
