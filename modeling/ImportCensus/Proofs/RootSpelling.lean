import ImportCensus.Proofs.Discovery
import ImportCensus.Proofs.FirstFailure
import ImportCensus.Proofs.Relabelling

namespace ImportCensus

/-- A root is a spelling of the directory at a place: it leads there, and no path that a walk makes
below it is too long, nor any name in it. -/
structure Spells (t : Tree) (root : Path) (place : Place) : Prop where
  leads : t.resolve true root = .ok (.directory place)
  limits : ∀ names e, t.get? (place ++ names) = some e →
    (root.below names).length ≤ pathLimit ∧ ∀ n ∈ names, n.length ≤ nameLimit

def IsPlain (t : Tree) (place : Place) : Prop :=
  ∀ names target, t.get? (place ++ names) ≠ some (.link target)

/-- A path with its root spelled in another way. A path that does not begin with the root stays as it
is. -/
def Path.respelled (path root root' : Path) : Path :=
  match after? (root ++ joint root) path with
  | some rest => root' ++ joint root' ++ rest
  | none => path

def Config.withRoot (config : Config) (root : Path) : Config := { config with root }

theorem respelled_below (root root' : Path) (names : List FileName) (hne : names ≠ []) :
    (root.below names).respelled root root' = root'.below names := by
  have hrest : after? (root ++ root.joint) (root.below names) =
      some (List.intercalate [slash] names) := by
    rw [after?_eq_some_iff, Path.below_eq root names hne]
  unfold Path.respelled
  rw [hrest, Path.below_eq root' names hne]

theorem Census.tally_complete (c : Census) :
    c.complete.tally = if c.failure.isSome then c.tally else c.tally.countKept := by
  unfold complete unlessFailed
  split <;> rfl

/-- If what two censuses do differs in the paths alone, then they find and count the same, and their
failures differ in the path alone. -/
theorem census_of_mapPath (f : Path → Path) (t t' : Tree) (config config' : Config)
    (h : t'.effects config' = (t.effects config).map (Effect.mapPath f)) :
    (t'.census config').failure = (t.census config).failure.map (Failure.mapPath f) ∧
      (t'.census config').tally = (t.census config).tally := by
  have hpath := Effect.relabels_mapPath f
  have hfailure : (t'.census config').failure =
      (t.census config).failure.map (Failure.mapPath f) := by
    rw [Tree.failure_census, Tree.failure_census, h, hpath.findSome?_map]
  refine ⟨hfailure, ?_⟩
  rw [Tree.census_eq, Tree.census_eq, Census.tally_complete, Census.tally_complete, h]
  simp only [hpath.findSome?_map, Option.isSome_map, hpath.after_done_map]

section Spellings

variable {t : Tree} {root root' : Path} {place : Place}

theorem withinLimits_of_spells (h : Spells t root place) : WithinLimits t root place :=
  fun names hdir => h.limits names .directory hdir

theorem sought_of_plain (hplain : IsPlain t place) (suffix : Text) (names : List FileName)
    (h : Sought t root suffix place names) : Sought t root' suffix place names := by
  refine ⟨h.inside, ?_, h.named⟩
  rcases h.leaf with hfile | ⟨⟨target, hlink⟩, -⟩
  · exact Or.inl hfile
  · exact absurd hlink (hplain names target)

/-- Two spellings of the root of a plain directory find the same files, under the same names below
the root. Each is opened by both of its paths. -/
theorem discover_of_spellings (hplain : IsPlain t place) (hroot : Spells t root place)
    (hroot' : Spells t root' place) (suffix : Text) :
    ∃ found : List (List FileName),
      t.discover root suffix = found.map .file ∧ t.discover root' suffix = found.map .file ∧
      ∀ names ∈ found, names ≠ [] ∧
        ∃ data, t.openFile (root.below names) = .ok (.content data) ∧
          t.openFile (root'.below names) = .ok (.content data) := by
  obtain ⟨found, hfound, hmem, hincreasing⟩ :=
    discover_sought hroot.leads (withinLimits_of_spells hroot) suffix
  obtain ⟨found', hfound', hmem', hincreasing'⟩ :=
    discover_sought hroot'.leads (withinLimits_of_spells hroot') suffix
  have hboth : found' = found := by
    apply hincreasing'.eq_of_mem_iff hincreasing
    intro names
    rw [hmem, hmem']
    exact ⟨sought_of_plain hplain suffix names, sought_of_plain hplain suffix names⟩
  subst hboth
  refine ⟨found', hfound, hfound', ?_⟩
  intro names hnames
  have hsought := (hmem names).1 hnames
  have hne : names ≠ [] := by
    obtain ⟨dir, n, rfl, -⟩ := hsought.named
    simp
  rcases hsought.leaf with ⟨data, hfile⟩ | ⟨⟨target, hlink⟩, -⟩
  · obtain ⟨hlength, hshort⟩ := hroot.limits names _ hfile
    obtain ⟨hlength', -⟩ := hroot'.limits names _ hfile
    exact ⟨hne, data, t.openFile_below root place names data hroot.leads hfile hlength hshort,
      t.openFile_below root' place names data hroot'.leads hfile hlength' hshort⟩
  · exact absurd hlink (hplain names target)

/-- If all that a walk finds can be read, then nothing but a malformed occurrence in what was found
can fail. -/
theorem malformed_of_readable (t : Tree) (config : Config) (found : List (List FileName))
    (hfound : t.discover config.root config.suffix = found.map .file)
    (hopen : ∀ names ∈ found, ∃ data, t.openFile (config.root.below names) = .ok (.content data))
    (failure : Failure) (h : (t.census config).failure = some failure) :
    ∃ names ∈ found, ∃ number text,
      failure = .malformedImport (config.root.below names) number text := by
  rw [failure_eq_head?] at h
  have hmem := List.mem_of_head? h
  unfold Tree.failures at hmem
  rw [hfound, List.flatMap_map] at hmem
  obtain ⟨names, hnames, hfailure⟩ := List.mem_flatMap.1 hmem
  obtain ⟨data, hdata⟩ := hopen names hnames
  exact ⟨names, hnames, malformed_of_mem_fileFailures t config _ data hdata failure hfailure⟩

/-- What two censuses do with the same files is the same but for the spelling of the root in the
paths. -/
theorem effects_of_spellings (t : Tree) (config : Config) (root' : Path)
    (found : List (List FileName))
    (hfound : t.discover config.root config.suffix = found.map .file)
    (hfound' : t.discover root' config.suffix = found.map .file)
    (hopen : ∀ names ∈ found, names ≠ [] ∧
      ∃ data, t.openFile (config.root.below names) = .ok (.content data) ∧
        t.openFile (root'.below names) = .ok (.content data)) :
    t.effects (config.withRoot root') =
      (t.effects config).map (Effect.mapPath fun path => path.respelled config.root root') := by
  have hwalk : t.discover (config.withRoot root').root (config.withRoot root').suffix =
      found.map .file := hfound'
  unfold Tree.effects
  rw [hwalk, hfound, List.flatMap_map, List.flatMap_map, List.map_flatMap]
  apply List.flatMap_congr
  intro names hnames
  obtain ⟨hne, data, hdata, hdata'⟩ := hopen names hnames
  have hpath := respelled_below config.root root' names hne
  rw [← hpath] at hdata'
  calc
    Effect.ofItem t (config.withRoot root') (.file names)
    _ = Effect.ofFile t config (root'.below names) := rfl
    _ = Effect.ofFile t config ((config.root.below names).respelled config.root root') := by
      rw [hpath]
    _ = (Effect.ofItem t config (.file names)).map
          (Effect.mapPath fun path => path.respelled config.root root') :=
      Effect.ofFile_mapPath (fun path => path.respelled config.root root') t config _ data hdata
        hdata'

end Spellings

/-- The spelling of the root does not matter. If two roots lead to one directory, in which nothing but
files and directories stands, then their walks give the same paths in the same order, except that
each begins with its own root. Their censuses both succeed with the same references and counters, or
they both fail at a malformed occurrence with the same number and text of its line, and at the same
path except for the root. -/
theorem census_of_spellings (t : Tree) (config : Config) (root' : Path) (place : Place)
    (hplain : IsPlain t place) (hroot : Spells t config.root place)
    (hroot' : Spells t root' place) :
    let census := t.census config
    let census' := t.census (config.withRoot root')
    ∃ rests : List Path,
      (t.discover config.root config.suffix).map (Item.result config.root) =
          rests.map (fun rest => .ok (config.root ++ config.root.joint ++ rest)) ∧
        (t.discover root' config.suffix).map (Item.result root') =
          rests.map (fun rest => .ok (root' ++ root'.joint ++ rest)) ∧
        (census.failure = none ∧ census'.failure = none ∧ census'.tally = census.tally ∨
          ∃ rest ∈ rests, ∃ number text,
            census.failure =
                some (.malformedImport (config.root ++ config.root.joint ++ rest) number text) ∧
              census'.failure =
                some (.malformedImport (root' ++ root'.joint ++ rest) number text)) := by
  intro census census'
  obtain ⟨found, hfound, hfound', hopen⟩ :=
    discover_of_spellings hplain hroot hroot' config.suffix
  have hbelow (root : Path) : ∀ names ∈ found,
      root.below names = root ++ root.joint ++ List.intercalate [slash] names :=
    fun names hnames => Path.below_eq root names (hopen names hnames).1
  have hpaths (root : Path) : (found.map Item.file).map (Item.result root) =
      (found.map (List.intercalate [slash])).map fun rest => .ok (root ++ root.joint ++ rest) := by
    rw [List.map_map, List.map_map]
    apply List.map_congr_left
    intro names hnames
    exact congrArg Except.ok (hbelow root names hnames)
  have heffects := effects_of_spellings t config root' found hfound hfound' hopen
  obtain ⟨hfailure, htally⟩ := census_of_mapPath _ t t config _ heffects
  refine ⟨found.map (List.intercalate [slash]), ?_, ?_, ?_⟩
  · rw [hfound, hpaths]
  · rw [hfound', hpaths]
  · cases hcensus : census.failure with
    | none =>
      refine Or.inl ⟨rfl, ?_, htally⟩
      rw [hfailure, hcensus]
      rfl
    | some failure =>
      obtain ⟨names, hnames, number, text, rfl⟩ := malformed_of_readable t config found hfound
        (fun names hnames => (hopen names hnames).2.imp fun _ h => h.1) failure hcensus
      refine Or.inr ⟨_, List.mem_map_of_mem hnames, number, text, ?_, ?_⟩
      · rw [hbelow config.root names hnames]
      · rw [hfailure, hcensus, ← hbelow root' names hnames,
          ← respelled_below config.root root' names (hopen names hnames).1]
        rfl

def walkedName : FileName := Utf8.encode "s".toList

def spelledTree : Tree :=
  Tree.ofEdits [
    .put (Utf8.encode "l".toList) (.link walkedName),
    .put (Utf8.encode "s/B.java".toList)
      (.file (Utf8.encode "import a.B;\nimport static c.D;\n".toList)),
    .put (Utf8.encode "s/a/A.java".toList) (.file (Utf8.encode "import e.F;\n".toList))]

theorem entries_spelledTree (names : List FileName) (e : Entry)
    (h : spelledTree.get? ([walkedName] ++ names) = some e) :
    (names, e.kind) ∈ [([], Kind.directory), ([Utf8.encode "B.java".toList], .file),
      ([Utf8.encode "a".toList], .directory),
      ([Utf8.encode "a".toList, Utf8.encode "A.java".toList], .file)] := by
  have hself : spelledTree.get? [walkedName] = some .directory := by decide
  have htop : spelledTree.children [walkedName] =
      [(Utf8.encode "B.java".toList, .file), (Utf8.encode "a".toList, .directory)] := by decide
  have hinner : spelledTree.children [walkedName, Utf8.encode "a".toList] =
      [(Utf8.encode "A.java".toList, .file)] := by decide
  cases names with
  | nil =>
    rw [List.append_nil, hself] at h
    obtain rfl := Option.some.inj h
    exact List.mem_cons_self
  | cons n rest =>
    have hn := spelledTree.listed_on_way [walkedName] n rest e h
    rw [htop] at hn
    cases rest with
    | nil =>
      rw [if_pos rfl, List.mem_pair, Prod.mk.injEq, Prod.mk.injEq] at hn
      rcases hn with ⟨rfl, hkind⟩ | ⟨rfl, hkind⟩ <;> simp [hkind]
    | cons m rest =>
      obtain rfl : n = Utf8.encode "a".toList := by simpa using hn
      have hm := spelledTree.listed_on_way [walkedName, Utf8.encode "a".toList] m rest e h
      rw [hinner] at hm
      cases rest with
      | nil =>
        obtain ⟨rfl, hkind⟩ : m = Utf8.encode "A.java".toList ∧ e.kind = .file := by simpa using hm
        simp [hkind]
      | cons k rest => simp at hm

theorem isPlain_spelledTree : IsPlain spelledTree [walkedName] := by
  intro names target h
  have hentry := entries_spelledTree names _ h
  simp [Entry.kind] at hentry

theorem spells_spelledTree (root : Path)
    (hleads : spelledTree.resolve true root = .ok (.directory [walkedName]))
    (hshort : root.length ≤ 4) : Spells spelledTree root [walkedName] := by
  refine ⟨hleads, ?_⟩
  intro names e h
  have hjoint : root.joint.length ≤ 1 := by
    unfold Path.joint
    split <;> simp
  have hpath : (List.intercalate [slash] names).length ≤ 8 ∧ ∀ n ∈ names, n.length ≤ nameLimit := by
    have hentry := entries_spelledTree names e h
    simp only [List.mem_cons, List.not_mem_nil, or_false, Prod.mk.injEq] at hentry
    rcases hentry with ⟨rfl, -⟩ | ⟨rfl, -⟩ | ⟨rfl, -⟩ | ⟨rfl, -⟩ <;> decide
  refine ⟨?_, hpath.2⟩
  by_cases hne : names = []
  · rw [hne]
    show root.length ≤ 4095
    omega
  · rw [Path.below_eq root names hne, List.length_append, List.length_append]
    show _ ≤ 4095
    omega

theorem census_of_spellings_spelledTree :
    let config : Config := { Config.default with root := walkedName }
    let root' : Path := Utf8.encode "./l/".toList
    let census := spelledTree.census config
    let census' := spelledTree.census (config.withRoot root')
    IsPlain spelledTree [walkedName] ∧ Spells spelledTree config.root [walkedName] ∧
      Spells spelledTree root' [walkedName] ∧
      ∃ rests : List Path,
        (spelledTree.discover config.root config.suffix).map (Item.result config.root) =
            rests.map (fun rest => .ok (config.root ++ config.root.joint ++ rest)) ∧
          (spelledTree.discover root' config.suffix).map (Item.result root') =
            rests.map (fun rest => .ok (root' ++ root'.joint ++ rest)) ∧
          (census.failure = none ∧ census'.failure = none ∧ census'.tally = census.tally ∨
            ∃ rest ∈ rests, ∃ number text,
              census.failure =
                  some (.malformedImport (config.root ++ config.root.joint ++ rest) number text) ∧
                census'.failure =
                  some (.malformedImport (root' ++ root'.joint ++ rest) number text)) := by
  intro config root' census census'
  have hroot : Spells spelledTree config.root [walkedName] :=
    spells_spelledTree walkedName (by decide) (by decide)
  have hroot' : Spells spelledTree root' [walkedName] :=
    spells_spelledTree root' (by decide +kernel) (by decide)
  exact ⟨isPlain_spelledTree, hroot, hroot',
    census_of_spellings spelledTree config root' [walkedName] isPlain_spelledTree hroot hroot'⟩

end ImportCensus
