import ImportCensus.Proofs.FileScans
import ImportCensus.Proofs.LineReading
import ImportCensus.Proofs.Relabelling

namespace ImportCensus

namespace Lines

/-- The lines of what ends with a line, or is empty, stay apart from those behind it. -/
theorem split_append {α : Type} [DecidableEq α] (feed ret : α) (above below : List α)
    (hcut : above = [] ∨ above.getLast? = some feed) :
    split feed ret (above ++ below) = split feed ret above ++ split feed ret below := by
  rcases hcut with rfl | hlast
  · rw [split_nil]
    rfl
  · obtain ⟨front, rfl⟩ := List.getLast?_eq_some_iff.1 hlast
    -- what stands in front of the last line feed gives the same lines whatever follows
    have halone : split feed ret (front ++ [feed]) =
        (front.splitOnP fun x => decide (x = feed)).map (dropOne ret) := by
      rw [split_append_cons, split_nil, List.append_nil]
    rw [halone, List.append_assoc, List.singleton_append, split_append_cons]

end Lines

theorem SourceLine.numbered_add (number lines : Nat) (pieces : List Bytes) :
    numbered (number + lines) pieces = (numbered number pieces).map (lowered lines) := by
  induction pieces generalizing number with
  | nil => rfl
  | cons piece pieces ih =>
    rw [numbered, Nat.add_right_comm, ih, numbered]
    rfl

theorem sourceLines_append (above below : Bytes)
    (hcut : above = [] ∨ above.getLast? = some 0x0A) :
    sourceLines (above ++ below) =
      sourceLines above ++
        (sourceLines below).map (SourceLine.lowered (sourceLines above).length) := by
  unfold sourceLines
  rw [Lines.split_append _ _ above below hcut, SourceLine.numbered_append,
    SourceLine.length_numbered, SourceLine.numbered_add]

namespace Tally

theorem onTally_countFile (e : Effect) (tally : Tally) :
    e.onTally tally.countFile = (e.onTally tally).countFile := by
  cases e with
  | keep token =>
    show tally.countFile.keep token = (tally.keep token).countFile
    have hreferences : tally.countFile.references = tally.references := rfl
    unfold keep
    rw [hreferences]
    split <;> rfl
  | _ => rfl

theorem after_countFile (tally : Tally) (row : List Effect) :
    tally.countFile.after row = (tally.after row).countFile := by
  induction row generalizing tally with
  | nil => rfl
  | cons e row ih =>
    show (e.onTally tally.countFile).after row = _
    rw [onTally_countFile, ih]
    rfl

end Tally

section Content

variable (t : Tree) (config : Config) (path : Path) (data : Bytes)
  (hopen : t.openFile path = .ok (.content data)) (tally : Tally)

include hopen

theorem scanFile_of_content :
    let row := (sourceLines data).flatMap (Effect.ofLine config path)
    (t.scanFile config path tally).failure = row.findSome? Effect.failure? ∧
      (t.scanFile config path tally).tally = (tally.after (Effect.done row)).countFile := by
  intro row
  have hdone : Effect.done (.beginFile path :: row) = .beginFile path :: Effect.done row := by
    simp [Effect.done, Effect.failure?]
  rw [Tree.scanFile_eq, Effect.ofFile_of_content t config path data hopen]
  refine ⟨rfl, ?_⟩
  dsimp only
  rw [hdone, ← Tally.after_countFile]
  rfl

theorem malformed_of_scanFile (failure : Failure)
    (h : (t.scanFile config path tally).failure = some failure) :
    ∃ number text, failure = .malformedImport path number text := by
  rw [Tree.scanFile_eq] at h
  dsimp only at h
  rw [Effect.failure_of_file] at h
  exact malformed_of_mem_fileFailures t config path data hopen failure (List.mem_of_head? h)

end Content

/-- The effects of joined contents are those of the first and, numbered on, those of the second, all
of them told with one path. -/
theorem effects_of_joined (config : Config) (path path₁ path₂ : Path) (above below : Bytes)
    (hcut : above = [] ∨ above.getLast? = some 0x0A) :
    (sourceLines (above ++ below)).flatMap (Effect.ofLine config path) =
      ((sourceLines above).flatMap (Effect.ofLine config path₁)).map
          (Effect.mapPath fun _ => path) ++
        ((sourceLines below).flatMap (Effect.ofLine config path₂)).map
          (Effect.lowered (sourceLines above).length ∘ Effect.mapPath fun _ => path) := by
  have hpath (other : Path) (lines : List SourceLine) :
      lines.flatMap (Effect.ofLine config path) =
        (lines.flatMap (Effect.ofLine config other)).map (Effect.mapPath fun _ => path) := by
    rw [List.map_flatMap]
    exact List.flatMap_congr fun line _ =>
      Effect.ofLine_mapPath (fun _ => path) config other line
  have hlowered (lines : Nat) (rest : List SourceLine) :
      (rest.map (SourceLine.lowered lines)).flatMap (Effect.ofLine config path) =
        (rest.flatMap (Effect.ofLine config path)).map (Effect.lowered lines) := by
    rw [List.flatMap_map, List.map_flatMap]
    exact List.flatMap_congr fun line _ => Effect.ofLine_lowered lines config path line
  rw [sourceLines_append above below hcut, List.flatMap_append, hlowered, hpath path₁, hpath path₂,
    List.map_map]

section Joined

variable (t t₁ t₂ : Tree) (config : Config) (path path₁ path₂ : Path) (above below : Bytes)
  (hcut : above = [] ∨ above.getLast? = some 0x0A)
  (h : t.openFile path = .ok (.content (above ++ below)))
  (h₁ : t₁.openFile path₁ = .ok (.content above)) (tally : Tally)

include hcut h h₁

/-- A failure of the first file is one of the file with joined contents, and the same has been counted
by then. -/
theorem scanFile_of_first (failure : Failure)
    (hfirst : (t₁.scanFile config path₁ tally).failure = some failure) :
    (t.scanFile config path tally).failure = some (failure.mapPath fun _ => path) ∧
      (t.scanFile config path tally).tally = (t₁.scanFile config path₁ tally).tally := by
  have hpath := Effect.relabels_mapPath fun _ => path
  obtain ⟨hfailure, htally⟩ := scanFile_of_content t config path _ h tally
  obtain ⟨hfailure₁, htally₁⟩ := scanFile_of_content t₁ config path₁ above h₁ tally
  rw [hfirst] at hfailure₁
  rw [effects_of_joined config path path₁ [] above below hcut] at hfailure htally
  constructor
  · rw [hfailure, List.findSome?_append, hpath.findSome?_map, ← hfailure₁]
    rfl
  · rw [htally, htally₁, Tally.after_done_append, hpath.findSome?_map, ← hfailure₁,
      Option.map_some, if_neg (Option.some_ne_none _), hpath.after_done_map]

/-- Behind a first file that does not fail, the second does what the rest of the file with joined
contents does, and one file more is counted. -/
theorem scanFile_of_second (h₂ : t₂.openFile path₂ = .ok (.content below))
    (hfirst : (t₁.scanFile config path₁ tally).failure = none) :
    let whole := t.scanFile config path tally
    let second := t₂.scanFile config path₂ (t₁.scanFile config path₁ tally).tally
    whole.failure =
        second.failure.map
          (Failure.lowered (sourceLines above).length ∘ Failure.mapPath fun _ => path) ∧
      second.tally = whole.tally.countFile := by
  intro whole second
  have hpath := Effect.relabels_mapPath fun _ => path
  have hboth := hpath.comp (Effect.relabels_lowered (sourceLines above).length)
  obtain ⟨hfailure, htally⟩ := scanFile_of_content t config path _ h tally
  obtain ⟨hfailure₁, htally₁⟩ := scanFile_of_content t₁ config path₁ above h₁ tally
  obtain ⟨hfailure₂, htally₂⟩ :=
    scanFile_of_content t₂ config path₂ below h₂ (t₁.scanFile config path₁ tally).tally
  rw [hfirst] at hfailure₁
  rw [effects_of_joined config path path₁ path₂ above below hcut] at hfailure htally
  constructor
  · rw [hfailure, hfailure₂, List.findSome?_append, hpath.findSome?_map, ← hfailure₁,
      hboth.findSome?_map]
    rfl
  · rw [htally, htally₂, htally₁, Tally.after_done_append, hpath.findSome?_map, ← hfailure₁,
      Option.map_none, if_pos rfl, hpath.after_done_map, hboth.after_done_map,
      Tally.after_countFile]

end Joined

/-- Two files in one. If the contents of a file are those of two others, and the first of these are
empty or end with a line feed, then the file does what the two do one after the other. It can be added
to a tally exactly if first the one and then the other can. Where both can, they leave the same
references in the same order and the same counters, but one file more is counted. Where the first
fails, the file fails on the line of the same number and text, and the tally is the same by then.
Where the second fails, the file fails on the line of the same text, numbered on behind the lines of
the first; there too the tallies are the same but for the one file more. -/
theorem scanFile_of_joined (t t₁ t₂ : Tree) (config : Config) (path path₁ path₂ : Path)
    (above below : Bytes) (hcut : above = [] ∨ above.getLast? = some 0x0A)
    (h : t.openFile path = .ok (.content (above ++ below)))
    (h₁ : t₁.openFile path₁ = .ok (.content above))
    (h₂ : t₂.openFile path₂ = .ok (.content below)) (tally : Tally) :
    let whole := t.scanFile config path tally
    let first := t₁.scanFile config path₁ tally
    let second := t₂.scanFile config path₂ first.tally
    whole.tally.stats.filesScanned = tally.stats.filesScanned + 1 ∧
      (whole.failure = none ↔ first.failure = none ∧ second.failure = none) ∧
      (first.failure = none → second.tally = whole.tally.countFile) ∧
      (∀ failure, first.failure = some failure →
        whole.tally = first.tally ∧
          ∃ number text, failure = .malformedImport path₁ number text ∧
            whole.failure = some (.malformedImport path number text)) ∧
      (first.failure = none → ∀ failure, second.failure = some failure →
        ∃ number text, failure = .malformedImport path₂ number text ∧
          whole.failure =
            some (.malformedImport path (number + (sourceLines above).length) text)) := by
  intro whole first second
  have hfirst := scanFile_of_first t t₁ config path path₁ above below hcut h h₁ tally
  have hsecond := scanFile_of_second t t₁ t₂ config path path₁ path₂ above below hcut h h₁ tally h₂
  refine ⟨?_, ?_, ?_, ?_, ?_⟩
  · obtain ⟨lines, found, htally⟩ := exists_plus_scanFile t config path tally
    change whole.tally = _ at htally
    rw [htally]
    rfl
  · cases hends : first.failure with
    | some failure =>
      rw [(hfirst failure hends).1]
      simp
    | none =>
      rw [(hsecond hends).1, Option.map_eq_none_iff]
      simp [second, first]
  · intro hends
    exact (hsecond hends).2
  · intro failure hends
    obtain ⟨number, text, rfl⟩ := malformed_of_scanFile t₁ config path₁ above h₁ tally failure hends
    obtain ⟨hfailure, htally⟩ := hfirst _ hends
    exact ⟨htally, number, text, rfl, hfailure⟩
  · intro hends failure hfailure
    obtain ⟨number, text, rfl⟩ :=
      malformed_of_scanFile t₂ config path₂ below h₂ first.tally failure hfailure
    refine ⟨number, text, rfl, ?_⟩
    rw [(hsecond hends).1, hfailure]
    rfl

def aboveSeam : Bytes := Utf8.encode "import a;\n".toList ++ [0xE2, 0x0A]

def belowSeam : Bytes := Utf8.encode "import a;\nimport static b;\n".toList

theorem scanFile_of_joined_seam :
    let whole := (soleFile (aboveSeam ++ belowSeam)).scanFile atTop solePath Tally.empty
    let first := (soleFile aboveSeam).scanFile atTop solePath Tally.empty
    let second := (soleFile belowSeam).scanFile atTop solePath first.tally
    aboveSeam.getLast? = some 0x0A ∧ first.failure = none ∧
      second.failure = some (.malformedImport solePath 2 "import static b;".toList) ∧
      whole.failure = some (.malformedImport solePath 4 "import static b;".toList) ∧
      second.tally = whole.tally.countFile ∧ whole.tally.stats = ⟨1, 3, 0, 1, 0, 0⟩ := by
  have hcut : aboveSeam.getLast? = some 0x0A := by decide
  have hlines : (sourceLines aboveSeam).length = 2 := by cbv
  have hfirst : ((soleFile aboveSeam).scanFile atTop solePath Tally.empty).failure = none := by cbv
  have hsecond : ((soleFile belowSeam).scanFile atTop solePath
      ((soleFile aboveSeam).scanFile atTop solePath Tally.empty).tally).failure =
        some (.malformedImport solePath 2 "import static b;".toList) := by cbv
  have hstats : ((soleFile (aboveSeam ++ belowSeam)).scanFile atTop solePath
      Tally.empty).tally.stats = ⟨1, 3, 0, 1, 0, 0⟩ := by cbv
  obtain ⟨-, -, htally, -, hfailure⟩ :=
    scanFile_of_joined (soleFile (aboveSeam ++ belowSeam)) (soleFile aboveSeam) (soleFile belowSeam)
      atTop solePath solePath solePath aboveSeam belowSeam (Or.inr hcut) (openFile_soleFile _)
      (openFile_soleFile _) (openFile_soleFile _) Tally.empty
  obtain ⟨number, text, hsame, hwhole⟩ := hfailure hfirst _ hsecond
  obtain ⟨-, rfl, rfl⟩ := Failure.malformedImport.inj hsame
  rw [hlines] at hwhole
  exact ⟨hcut, hfirst, hsecond, hwhole, htally hfirst, hstats⟩

end ImportCensus
