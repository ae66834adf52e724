import ImportCensus.Proofs.LineByLine
import ImportCensus.Proofs.Outcome
import ImportCensus.Proofs.ScannedTokens
import ImportCensus.Proofs.SoleFile

namespace ImportCensus

def importOf (token : Text) : Text := keyword ++ token ++ [';']

def written (tokens : List Text) : Text := tokens.flatMap fun token => importOf token ++ ['\n']

theorem isToken_iff (token : Text) :
    IsToken token ↔
      token ≠ [] ∧ (token.all fun c => !Text.isBlank c) = true ∧ ';' ∉ token.tail := by
  have hsolid : (token.all fun c => !Text.isBlank c) = true ↔
      ∀ c ∈ token, Text.isBlank c = false := by
    simp [List.all_eq_true]
  rw [hsolid]
  exact ⟨fun h => ⟨h.nonempty, h.solid, h.no_semicolon⟩,
    fun ⟨hne, hblank, hfree⟩ => ⟨hne, hblank, hfree⟩⟩

instance (token : Text) : Decidable (IsToken token) :=
  decidable_of_iff _ (isToken_iff token).symm

section Statements

variable {token : Text}

theorem newline_notMem_of_isToken (h : IsToken token) : '\n' ∉ token := by
  intro hmem
  have hblank := h.solid '\n' hmem
  simp [Text.isBlank] at hblank

theorem isBody_of_isToken (h : IsToken token) : IsBody token :=
  ⟨h.nonempty, newline_notMem_of_isToken h, h.no_semicolon⟩

theorem candidates_importOf (h : IsToken token) :
    candidates (importOf token) [] = [.reference token] := by
  have hstatement : statement? (importOf token) = some (token, []) :=
    statement?_of_isBody token [] (isBody_of_isToken h)
  have hword : secondWord? (Occurrence.text ⟨0, token⟩) = some token := by
    rw [secondWord?_occurrence ⟨0, token⟩ (isBody_of_isToken h)]
    exact ⟨[], rfl, by simp, h.nonempty, h.solid⟩
  rw [candidates_eq_bodies, bodies_of_statement _ _ _ hstatement, bodies_nil, List.map_singleton,
    Occurrence.candidate, hword]

theorem containsStatement_importOf (h : IsToken token) :
    containsStatement (importOf token) = true := by
  have hone := congrArg List.length (candidates_importOf h)
  rw [candidates, List.length_map] at hone
  rw [containsStatement_eq]
  cases ho : occurrences (importOf token) with
  | nil => simp [ho] at hone
  | cons o rest => rfl

end Statements

/-- A text made of statements in lines is cut into just those statements. -/
theorem split_written (tokens : List Text) (h : ∀ token ∈ tokens, IsToken token) :
    Lines.split '\n' '\r' (written tokens) = tokens.map importOf := by
  have hpieces : (written tokens).splitOn '\n' = tokens.map importOf ++ [[]] := by
    rw [← splitOn_lines (tokens.map importOf), List.flatMap_map]
    · rfl
    · intro line hline
      obtain ⟨token, htoken, rfl⟩ := List.mem_map.1 hline
      have hfree := newline_notMem_of_isToken (h token htoken)
      simp [importOf, keyword, hfree]
  -- a statement ends in its semicolon, so its line has no carriage return to lose
  have hkept : (tokens.map importOf).map (Lines.dropOne '\r') = tokens.map importOf := by
    rw [List.map_map]
    apply List.map_congr_left
    intro token _
    simp [importOf, Lines.dropOne]
  calc
    Lines.split '\n' '\r' (written tokens)
    _ = Lines.ofPieces '\r' ((written tokens).splitOn '\n') := rfl
    _ = (tokens.map importOf).map (Lines.dropOne '\r') ++ Lines.ofPieces '\r' [[]] := by
      rw [hpieces, Lines.ofPieces_append _ _ (List.cons_ne_nil _ _)]
    _ = tokens.map importOf := by
      rw [hkept]
      simp [Lines.ofPieces]

theorem texts_written (tokens : List Text) (h : ∀ token ∈ tokens, IsToken token) :
    (sourceLines (Utf8.encode (written tokens))).map SourceLine.text = tokens.map importOf := by
  rw [texts_sourceLines, Utf8.decode_encode, split_written tokens h]

namespace Effect

variable (config : Config) (path : Path)

def keepAll (tokens : List Text) : List Effect :=
  tokens.flatMap fun token => [countLine, keep token]

theorem ofLine_importOf (hnamespace : config.excludedNamespace = []) (token : Text)
    (h : IsToken token) (line : SourceLine) (htext : line.text = importOf token)
    (himport : line.isImport = containsStatement line.text) :
    ofLine config path line = [countLine, keep token] := by
  have hmatched : line.isImport = true := by
    rw [himport, htext, containsStatement_importOf h]
  unfold ofLine
  rw [if_pos hmatched, htext, hnamespace, candidates_importOf h]
  rfl

theorem ofLines_importOf (hnamespace : config.excludedNamespace = []) (tokens : List Text)
    (h : ∀ token ∈ tokens, IsToken token) (lines : List SourceLine)
    (htexts : lines.map SourceLine.text = tokens.map importOf)
    (himport : ∀ line ∈ lines, line.isImport = containsStatement line.text) :
    lines.flatMap (ofLine config path) = keepAll tokens := by
  -- the lines follow the tokens one by one
  induction tokens generalizing lines with
  | nil =>
    obtain rfl : lines = [] := by simpa using htexts
    rfl
  | cons token tokens ih =>
    obtain ⟨line, rest, rfl, htext, hrest⟩ := List.map_eq_cons_iff.1 htexts
    obtain ⟨htoken, htokens⟩ := List.forall_mem_cons.1 h
    obtain ⟨hline, hlines⟩ := List.forall_mem_cons.1 himport
    rw [List.flatMap_cons, ofLine_importOf config path hnamespace token htoken line htext hline,
      ih htokens rest hrest hlines, keepAll, keepAll, List.flatMap_cons]

theorem going_keepAll (tokens : List Text) : ∀ e ∈ keepAll tokens, e.failure? = none := by
  intro e he
  obtain ⟨token, -, he⟩ := List.mem_flatMap.1 he
  rcases List.mem_pair.1 he with rfl | rfl <;> rfl

theorem amounts_keepAll (tokens : List Text) :
    Amounts (keepAll tokens) 0 tokens.length (tokens.map .reference) := by
  induction tokens with
  | nil => exact ⟨rfl, rfl, rfl, rfl, rfl⟩
  | cons token tokens ih =>
    have hone : Amounts [countLine, keep token] 0 1 [.reference token] := ⟨rfl, rfl, rfl, rfl, rfl⟩
    have hall := amounts_append _ _ _ _ _ _ _ _ hone ih
    rw [Nat.add_comm 1] at hall
    exact hall

end Effect

/-- A row that keeps each of some different tokens leaves those tokens, and its counters tell of as
many lines and references and of nothing else. -/
theorem tally_keepAll (path : Path) (tokens : List Text) (hnodup : tokens.Nodup) :
    (Tally.empty.after (.beginFile path :: Effect.keepAll tokens)).references.tokens = tokens ∧
      (Tally.empty.after (.beginFile path :: Effect.keepAll tokens)).countKept.stats =
        { filesScanned := 1
          linesMatched := tokens.length
          referencesKept := tokens.length
          duplicatesDropped := 0
          excluded := 0
          malformedSkipped := 0 } := by
  have hamounts := Effect.amounts_beginFile path _ 0 _ _ (Effect.amounts_keepAll tokens)
  have htokens : (tokens.map Candidate.reference).filterMap Candidate.token? = tokens := by
    rw [List.filterMap_map]
    exact List.filterMap_some
  have hexcluded : (tokens.map Candidate.reference).count .excluded = 0 := by
    simp [List.count_eq_zero]
  have hmalformed : (tokens.map Candidate.reference).count .malformed = 0 := by
    simp [List.count_eq_zero]
  have hreferences : References.ofTokens tokens = ⟨tokens, hnodup⟩ := by
    simp only [References.ofTokens, eraseDups_of_nodup tokens hnodup]
  rw [Tally.after_of_amounts _ _ _ _ _ hamounts]
  simp only [Tally.plus, Tally.countKept, Tally.empty, Stats.zero, References.tokens_empty,
    List.nil_append, htokens, hexcluded, hmalformed, hreferences, References.size, List.length_nil,
    Nat.zero_add, Nat.add_zero, Nat.sub_self, and_self]

/-- A tree in which the only file that is sought has the statements of some different tokens, each in
a line of its own. Its census succeeds under either policy, and it gives back the tokens in their
order, each from its own line. -/
theorem census_of_written (t : Tree) (config : Config) (place : Place) (names : List FileName)
    (tokens : List Text) (hnodup : tokens.Nodup) (htokens : ∀ token ∈ tokens, IsToken token)
    (hnamespace : config.excludedNamespace = [])
    (h : OnlyFile t config place names (Utf8.encode (written tokens))) :
    (t.census config).failure = none ∧
      (t.census config).tally.references.tokens = tokens ∧
      (t.census config).tally.stats =
        { filesScanned := 1
          linesMatched := tokens.length
          referencesKept := tokens.length
          duplicatesDropped := 0
          excluded := 0
          malformedSkipped := 0 } := by
  have heffects : t.effects config =
      .beginFile (config.root.below names) :: Effect.keepAll tokens := by
    rw [effects_of_only h,
      Effect.ofLines_importOf config _ hnamespace tokens htokens _ (texts_written tokens htokens)
        (isImport_of_mem_sourceLines _)]
  have hgoing : ∀ e ∈ t.effects config, e.failure? = none := by
    rw [heffects]
    exact List.forall_mem_cons.2 ⟨rfl, Effect.going_keepAll tokens⟩
  have hfailure : (t.effects config).findSome? Effect.failure? = none :=
    List.findSome?_eq_none_iff.2 hgoing
  rw [Tree.census_eq, Effect.done_of_going _ hgoing, hfailure, Census.complete,
    Census.unlessFailed_of_going _ rfl, heffects]
  exact ⟨rfl, tally_keepAll _ tokens hnodup⟩

/-- The references that files leave, however each of them ended, can be written as statements and read
back. -/
theorem isToken_of_scans (scans : List FileScan) :
    ∀ token ∈ (Tally.ofScans scans).references.tokens, IsToken token := by
  intro token htoken
  obtain ⟨s, -, horigin⟩ := origin_of_scans scans token htoken
  exact isToken_of_origin _ _ horigin

def oddTokens : List Text :=
  ["import".toList, ";".toList, ";import".toList, "\uFFFD.B".toList]

theorem census_of_written_soleFile :
    let config : Config := { atTop with excludedNamespace := [] }
    (oddTokens.Nodup ∧ (∀ token ∈ oddTokens, IsToken token) ∧ config.excludedNamespace = [] ∧
      OnlyFile (soleFile (Utf8.encode (written oddTokens))) config [] [soleName]
        (Utf8.encode (written oddTokens)) ∧
      ((soleFile (Utf8.encode (written oddTokens))).census config).failure = none ∧
      ((soleFile (Utf8.encode (written oddTokens))).census config).tally.references.tokens =
        oddTokens ∧
      ((soleFile (Utf8.encode (written oddTokens))).census config).tally.stats =
        ⟨1, 4, 4, 0, 0, 0⟩) ∧
      ∀ scans : List FileScan,
        let tokens := (Tally.ofScans scans).references.tokens
        ((soleFile (Utf8.encode (written tokens))).census config).failure = none ∧
          ((soleFile (Utf8.encode (written tokens))).census config).tally.references.tokens =
            tokens := by
  intro config
  have honly (content : Bytes) : OnlyFile (soleFile content) config [] [soleName] content :=
    onlyFile_soleFile content config rfl rfl
  constructor
  · have hnodup : oddTokens.Nodup := by decide
    have htokens : ∀ token ∈ oddTokens, IsToken token := by decide
    exact ⟨hnodup, htokens, rfl, honly _,
      census_of_written _ config [] [soleName] oddTokens hnodup htokens rfl (honly _)⟩
  · intro scans tokens
    obtain ⟨hfailure, hreferences, -⟩ :=
      census_of_written _ config [] [soleName] tokens (Tally.ofScans scans).references.nodup
        (isToken_of_scans scans) rfl (honly _)
    exact ⟨hfailure, hreferences⟩

end ImportCensus
