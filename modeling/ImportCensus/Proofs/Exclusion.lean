import ImportCensus.Proofs.Outcome
import ImportCensus.Proofs.SoleFile

namespace ImportCensus

def Config.withNamespace (config : Config) (excludedNamespace : Text) : Config :=
  { config with excludedNamespace := excludedNamespace }

/-- One namespace is wider than another one: it is not empty, and the other one is empty, so that it
excludes nothing, or holds it somewhere. -/
def IsWider (wide narrow : Text) : Prop := wide ≠ [] ∧ (narrow = [] ∨ wide.occursIn narrow = true)

instance (wide narrow : Text) : Decidable (IsWider wide narrow) :=
  inferInstanceAs (Decidable (_ ∧ _))

theorem occursIn_trans (part middle whole : Text) (hpart : part.occursIn middle = true)
    (hmiddle : middle.occursIn whole = true) : part.occursIn whole = true := by
  obtain ⟨before, behind, rfl⟩ := Text.occursIn_iff.1 hpart
  obtain ⟨front, back, rfl⟩ := Text.occursIn_iff.1 hmiddle
  rw [Text.occursIn_iff]
  refine ⟨front ++ before, behind ++ back, ?_⟩
  simp only [List.append_assoc]

theorem isExcluded_of_wider (wide narrow line : Text) (h : IsWider wide narrow)
    (hline : isExcluded line narrow = true) : isExcluded line wide = true := by
  obtain ⟨hwide, hnarrow⟩ := h
  obtain ⟨hsome, hoccurs⟩ := Bool.and_eq_true_iff.1 hline
  have hne : narrow ≠ [] := by
    rintro rfl
    simp at hsome
  have hpart : wide.occursIn narrow = true := hnarrow.resolve_left hne
  have hwhole : wide.occursIn line = true := occursIn_trans wide narrow line hpart hoccurs
  simp [isExcluded, hwide, hwhole]

/-- Under a wider namespace a line gives the same candidates, or it is excluded. -/
theorem candidates_of_wider (wide narrow line : Text) (h : IsWider wide narrow) :
    candidates line wide = candidates line narrow ∨ ∀ c ∈ candidates line wide, c = .excluded := by
  unfold candidates
  cases hwide : isExcluded line wide with
  | true =>
    refine Or.inr ?_
    intro c hc
    obtain ⟨o, -, rfl⟩ := List.mem_map.1 hc
    rfl
  | false =>
    have hnarrow : isExcluded line narrow = false := by
      cases hline : isExcluded line narrow with
      | false => rfl
      | true =>
        have hboth := isExcluded_of_wider wide narrow line h hline
        rw [hwide] at hboth
        exact absurd hboth (by simp)
    rw [hnarrow]
    exact Or.inl rfl

namespace Effect

section Wider

variable (t : Tree) (config : Config) (path : Path) (wide narrow : Text) (h : IsWider wide narrow)

include h

theorem going_ofLine_of_wider (line : SourceLine)
    (hgoing : ∀ e ∈ ofLine (config.withNamespace narrow) path line, e.failure? = none) :
    ∀ e ∈ ofLine (config.withNamespace wide) path line, e.failure? = none := by
  have hcandidate (c : Candidate) : ofCandidate (config.withNamespace wide) path line c =
      ofCandidate (config.withNamespace narrow) path line c := rfl
  unfold ofLine at hgoing ⊢
  split
  · rename_i himport
    rw [if_pos himport] at hgoing
    obtain ⟨-, hrow⟩ := List.forall_mem_cons.1 hgoing
    refine List.forall_mem_cons.2 ⟨rfl, ?_⟩
    intro e he
    obtain ⟨c, hc, rfl⟩ := List.mem_map.1 he
    change c ∈ candidates line.text wide at hc
    rcases candidates_of_wider wide narrow line.text h with hsame | hall
    · rw [hsame] at hc
      rw [hcandidate]
      exact hrow _ (List.mem_map_of_mem hc)
    · rw [hall c hc]
      rfl
  · simp

theorem going_ofRead_of_wider (read : Except Failure SourceLine)
    (hgoing : ∀ e ∈ ofRead (config.withNamespace narrow) path read, e.failure? = none) :
    ∀ e ∈ ofRead (config.withNamespace wide) path read, e.failure? = none := by
  cases read with
  | ok line => exact going_ofLine_of_wider config path wide narrow h line hgoing
  | error failure => exact hgoing

theorem going_ofFile_of_wider
    (hgoing : ∀ e ∈ ofFile t (config.withNamespace narrow) path, e.failure? = none) :
    ∀ e ∈ ofFile t (config.withNamespace wide) path, e.failure? = none := by
  unfold ofFile at hgoing ⊢
  obtain ⟨hbegin, hrow⟩ := List.forall_mem_cons.1 hgoing
  refine List.forall_mem_cons.2 ⟨hbegin, ?_⟩
  cases hread : t.readLines path with
  | error failure =>
    rw [hread] at hrow
    exact hrow
  | ok reads =>
    rw [hread] at hrow
    dsimp only at hrow ⊢
    rw [List.forall_mem_flatMap] at hrow ⊢
    intro read hmem
    exact going_ofRead_of_wider config path wide narrow h read (hrow read hmem)

theorem going_ofItem_of_wider (item : Item)
    (hgoing : ∀ e ∈ ofItem t (config.withNamespace narrow) item, e.failure? = none) :
    ∀ e ∈ ofItem t (config.withNamespace wide) item, e.failure? = none := by
  have hroot (ns : Text) : (config.withNamespace ns).root = config.root := rfl
  unfold ofItem at hgoing ⊢
  rw [hroot] at hgoing ⊢
  cases hresult : item.result config.root with
  | error failure =>
    rw [hresult] at hgoing
    exact hgoing
  | ok path =>
    rw [hresult] at hgoing
    exact going_ofFile_of_wider t config path wide narrow h hgoing

end Wider

end Effect

/-- What goes well with a narrower namespace goes well with a wider one. -/
theorem Tree.going_of_wider (t : Tree) (config : Config) (wide narrow : Text)
    (h : IsWider wide narrow)
    (hgoing : ∀ e ∈ t.effects (config.withNamespace narrow), e.failure? = none) :
    ∀ e ∈ t.effects (config.withNamespace wide), e.failure? = none := by
  unfold Tree.effects at hgoing ⊢
  rw [List.forall_mem_flatMap] at hgoing ⊢
  intro item hitem
  exact Effect.going_ofItem_of_wider t config wide narrow h item (hgoing item hitem)

theorem Tree.going_of_census (t : Tree) (config : Config) (h : (t.census config).failure = none) :
    ∀ e ∈ t.effects config, e.failure? = none := by
  rw [Tree.failure_census] at h
  exact List.findSome?_eq_none_iff.1 h

theorem Tree.census_of_going (t : Tree) (config : Config)
    (h : ∀ e ∈ t.effects config, e.failure? = none) :
    (t.census config).failure = none ∧
      (t.census config).tally = (Tally.empty.after (t.effects config)).countKept := by
  have hfailure : (t.effects config).findSome? Effect.failure? = none :=
    List.findSome?_eq_none_iff.2 h
  rw [Tree.census_eq, hfailure, Effect.done_of_going _ h, Census.complete,
    Census.unlessFailed_of_going _ rfl]
  exact ⟨rfl, rfl⟩

/-- Two censuses that differ in nothing but the namespace, and both succeed, are declared for the
same files with the same lines. -/
theorem tally_by_namespace (t : Tree) (config : Config) (wide narrow : Text)
    (hwide : ∀ e ∈ t.effects (config.withNamespace wide), e.failure? = none)
    (hnarrow : ∀ e ∈ t.effects (config.withNamespace narrow), e.failure? = none) :
    ∃ files lines,
      (t.census (config.withNamespace wide)).tally = Tally.declared wide files lines ∧
        (t.census (config.withNamespace narrow)).tally = Tally.declared narrow files lines := by
  obtain ⟨paths, files, hpaths, hfiles, hsums⟩ := sums_of_going t _ _ hwide
  obtain ⟨paths', files', hpaths', hfiles', hsums'⟩ := sums_of_going t _ _ hnarrow
  have hsamePaths : paths' = paths := by
    have hitems := hpaths'.symm.trans hpaths
    exact List.map_injective_iff.2 (fun a b hab => Except.ok.inj hab) hitems
  subst hsamePaths
  have hsameFiles : files' = files := by
    have hreads := hfiles'.symm.trans hfiles
    refine List.map_injective_iff.2 (fun a b hab => ?_) hreads
    exact List.map_injective_iff.2 (fun c d hcd => Except.ok.inj hcd) (Except.ok.inj hab)
  subst hsameFiles
  refine ⟨paths'.length, files'.flatten.map SourceLine.text, ?_, ?_⟩
  · rw [(t.census_of_going _ hwide).2]
    exact tally_of_sums _ _ _ _ hsums
  · rw [(t.census_of_going _ hnarrow).2]
    exact tally_of_sums _ _ _ _ hsums'

section Counting

theorem open_add_excluded (excludedNamespace : Text) (lines : List Text) :
    (openOccurrences excludedNamespace lines).length +
        (excludedOccurrences excludedNamespace lines).length =
      (lines.flatMap occurrences).length := by
  unfold openOccurrences excludedOccurrences
  induction lines with
  | nil => rfl
  | cons line lines ih =>
    rw [List.flatMap_cons, List.length_append, ← ih]
    cases hline : isExcluded line excludedNamespace with
    | true =>
      simp only [List.filter_cons, hline, Bool.not_true, Bool.false_eq_true, if_false, if_true,
        List.flatMap_cons, List.length_append]
      omega
    | false =>
      simp only [List.filter_cons, hline, Bool.not_false, Bool.false_eq_true, if_false, if_true,
        List.flatMap_cons, List.length_append]
      omega

theorem tokens_add_malformed (found : List Occurrence) :
    ((found.map Occurrence.candidate).filterMap Candidate.token?).length +
        (found.map Occurrence.candidate).count .malformed = found.length := by
  have hkinds := length_by_kind (found.map Occurrence.candidate)
  rw [count_excluded_occurrences, List.length_map] at hkinds
  omega

variable {α : Type} [BEq α] [LawfulBEq α]

theorem length_eraseDups [DecidableEq α] (l : List α) :
    l.eraseDups.length = l.toFinset.card := by
  have hset : l.eraseDups.toFinset = l.toFinset := by
    ext a
    simp
  rw [← hset, List.toFinset_card_of_nodup (nodup_eraseDups l)]

theorem duplicates_of_sublist (few many : List α) (h : few.Sublist many) :
    many.eraseDups.length + few.length ≤ few.eraseDups.length + many.length := by
  classical
  simp only [length_eraseDups]
  induction h with
  | slnil => rfl
  | @cons few many a h ih =>
    have hinsert := Finset.card_insert_le a many.toFinset
    rw [List.toFinset_cons, List.length_cons]
    omega
  | @cons_cons few many a h ih =>
    rw [List.toFinset_cons, List.toFinset_cons, List.length_cons, List.length_cons]
    by_cases ha : a ∈ many
    · have hmany : insert a many.toFinset = many.toFinset := by simpa using ha
      have hfew : few.toFinset.card ≤ (insert a few.toFinset).card :=
        Finset.card_le_card (Finset.subset_insert a _)
      rw [hmany]
      omega
    · have hnot : a ∉ few := fun hfew => ha (h.subset hfew)
      rw [Finset.card_insert_of_notMem (by simpa using ha),
        Finset.card_insert_of_notMem (by simpa using hnot)]
      omega

end Counting

/-- Every occurrence is counted once, as a reference that is kept, as a duplicate, as excluded or as
malformed. -/
theorem stats_declared (excludedNamespace : Text) (files : Nat) (lines : List Text) :
    let stats := (Tally.declared excludedNamespace files lines).stats
    stats.referencesKept + stats.duplicatesDropped + stats.excluded + stats.malformedSkipped =
      (lines.flatMap occurrences).length := by
  have hsplit := open_add_excluded excludedNamespace lines
  have hopen := tokens_add_malformed (openOccurrences excludedNamespace lines)
  have hkept := duplicates_of_sublist [] (((openOccurrences excludedNamespace lines).map
    Occurrence.candidate).filterMap Candidate.token?) (List.nil_sublist _)
  simp only [List.length_nil, List.eraseDups_nil] at hkept
  simp only [Tally.declared, References.ofTokens, References.size]
  omega

section Wider

variable (wide narrow : Text) (h : IsWider wide narrow)

include h

theorem openOccurrences_of_wider (lines : List Text) :
    (openOccurrences wide lines).Sublist (openOccurrences narrow lines) := by
  apply List.Sublist.flatMap
  apply List.monotone_filter_right
  intro line hline
  cases hnarrow : isExcluded line narrow with
  | false => rfl
  | true => simp [isExcluded_of_wider wide narrow line h hnarrow] at hline

theorem excludedOccurrences_of_wider (lines : List Text) :
    (excludedOccurrences narrow lines).Sublist (excludedOccurrences wide lines) := by
  apply List.Sublist.flatMap
  apply List.monotone_filter_right
  intro line hline
  exact isExcluded_of_wider wide narrow line h hline

/-- The tokens, the duplicates and the malformed occurrences that a wider namespace leaves are among
those that the narrower one leaves, and more is excluded. -/
theorem declared_of_wider (files : Nat) (lines : List Text) :
    let few := Tally.declared wide files lines
    let many := Tally.declared narrow files lines
    (∀ token ∈ few.references.tokens, token ∈ many.references.tokens) ∧
      many.stats.excluded ≤ few.stats.excluded ∧
      few.stats.duplicatesDropped ≤ many.stats.duplicatesDropped ∧
      few.stats.malformedSkipped ≤ many.stats.malformedSkipped := by
  have hfound := (openOccurrences_of_wider wide narrow h lines).map Occurrence.candidate
  have htokens := hfound.filterMap Candidate.token?
  have hexcluded := (excludedOccurrences_of_wider wide narrow h lines).length_le
  have hduplicates := duplicates_of_sublist _ _ htokens
  have hmalformed := hfound.count_le Candidate.malformed
  refine ⟨?_, hexcluded, ?_, hmalformed⟩
  · intro token htoken
    simp only [Tally.declared, References.ofTokens, List.mem_eraseDups] at htoken ⊢
    exact htokens.subset htoken
  · simp only [Tally.declared, References.ofTokens, References.size]
    omega

end Wider

/-- If a census succeeds, then it succeeds with a wider namespace to leave out as well. The files and
the lines with a statement are the same, and so is the number of all occurrences; no reference,
duplicate or malformed occurrence comes in, and no less is excluded. -/
theorem census_of_wider (t : Tree) (config : Config) (wide narrow : Text)
    (h : IsWider wide narrow) (hok : (t.census (config.withNamespace narrow)).failure = none) :
    let few := t.census (config.withNamespace wide)
    let many := t.census (config.withNamespace narrow)
    few.failure = none ∧
      few.tally.stats.filesScanned = many.tally.stats.filesScanned ∧
      few.tally.stats.linesMatched = many.tally.stats.linesMatched ∧
      few.tally.stats.referencesKept + few.tally.stats.duplicatesDropped +
          few.tally.stats.excluded + few.tally.stats.malformedSkipped =
        many.tally.stats.referencesKept + many.tally.stats.duplicatesDropped +
          many.tally.stats.excluded + many.tally.stats.malformedSkipped ∧
      (∀ token ∈ few.tally.references.tokens, token ∈ many.tally.references.tokens) ∧
      many.tally.stats.excluded ≤ few.tally.stats.excluded ∧
      few.tally.stats.duplicatesDropped ≤ many.tally.stats.duplicatesDropped ∧
      few.tally.stats.malformedSkipped ≤ many.tally.stats.malformedSkipped := by
  intro few many
  have hnarrow := t.going_of_census _ hok
  have hwide := t.going_of_wider config wide narrow h hnarrow
  obtain ⟨files, lines, hfew, hmany⟩ := tally_by_namespace t config wide narrow hwide hnarrow
  have htotal := stats_declared wide files lines
  have htotal' := stats_declared narrow files lines
  have hless := declared_of_wider wide narrow h files lines
  change few.tally = _ at hfew
  change many.tally = _ at hmany
  rw [hfew, hmany]
  exact ⟨(t.census_of_going _ hwide).1, rfl, rfl, htotal.trans htotal'.symm, hless⟩

def nestedNamespaces : Bytes :=
  Utf8.encode "import a.B;\nimport org.C;\nimport static org.D;\nimport org.C;\nimport org.w.E;\n".toList

def passingOver : Config := { atTop with malformed := .skip }

theorem failure_nestedNamespaces :
    ((soleFile nestedNamespaces).census
      (passingOver.withNamespace "org.w".toList)).failure = none := by
  rw [Tree.failure_census, effects_soleFile _ _ rfl rfl]
  cbv

theorem census_of_wider_soleFile :
    let few := (soleFile nestedNamespaces).census (passingOver.withNamespace "org".toList)
    let many := (soleFile nestedNamespaces).census (passingOver.withNamespace "org.w".toList)
    IsWider "org".toList "org.w".toList ∧ many.failure = none ∧ few.failure = none ∧
      few.tally.stats.filesScanned = many.tally.stats.filesScanned ∧
      few.tally.stats.linesMatched = many.tally.stats.linesMatched ∧
      few.tally.stats.referencesKept + few.tally.stats.duplicatesDropped +
          few.tally.stats.excluded + few.tally.stats.malformedSkipped =
        many.tally.stats.referencesKept + many.tally.stats.duplicatesDropped +
          many.tally.stats.excluded + many.tally.stats.malformedSkipped ∧
      (∀ token ∈ few.tally.references.tokens, token ∈ many.tally.references.tokens) ∧
      many.tally.stats.excluded ≤ few.tally.stats.excluded ∧
      few.tally.stats.duplicatesDropped ≤ many.tally.stats.duplicatesDropped ∧
      few.tally.stats.malformedSkipped ≤ many.tally.stats.malformedSkipped := by
  have hwider : IsWider "org".toList "org.w".toList := by decide
  have hcensus := census_of_wider (soleFile nestedNamespaces) passingOver _ _ hwider
    failure_nestedNamespaces
  exact ⟨hwider, failure_nestedNamespaces, hcensus⟩

end ImportCensus
