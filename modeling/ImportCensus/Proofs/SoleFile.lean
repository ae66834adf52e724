import ImportCensus.Proofs.Discovery
import ImportCensus.Proofs.Effects

namespace ImportCensus

/-- All that a census looks for in a tree is one file, which stands below the root under the given
names and holds the given contents. The root leads to a directory, and no path in the way of the
walk is too long. -/
structure OnlyFile (t : Tree) (config : Config) (place : Place) (names : List FileName)
    (content : Bytes) : Prop where
  root : t.resolve true config.root = .ok (.directory place)
  limits : WithinLimits t config.root place
  only : ∀ other, Sought t config.root config.suffix place other ↔ other = names
  holds : t.get? (place ++ names) = some (.file content)
  length : (config.root.below names).length ≤ pathLimit
  short : ∀ n ∈ names, n.length ≤ nameLimit

section OnlyFile

variable {t : Tree} {config : Config} {place : Place} {names : List FileName} {content : Bytes}

theorem discover_of_only (h : OnlyFile t config place names content) :
    t.discover config.root config.suffix = [.file names] := by
  obtain ⟨found, hdiscover, hsought, hincreasing⟩ := discover_sought h.root h.limits config.suffix
  have hnodup : found.Nodup := by
    refine hincreasing.imp ?_
    rintro other _ hlt rfl
    exact List.lt_irrefl other hlt
  have hperm : found.Perm [names] := by
    rw [List.perm_ext_iff_of_nodup hnodup (List.pairwise_singleton _ names)]
    intro other
    rw [hsought, h.only, List.mem_singleton]
  rw [hdiscover, List.perm_singleton.1 hperm, List.map_singleton]

theorem effects_of_only (h : OnlyFile t config place names content) :
    t.effects config =
      .beginFile (config.root.below names) ::
        (sourceLines content).flatMap (Effect.ofLine config (config.root.below names)) := by
  have hopen := t.openFile_below config.root place names content h.root h.holds h.length h.short
  unfold Tree.effects
  rw [discover_of_only h, List.flatMap_singleton, Effect.ofItem_file]
  exact Effect.ofFile_of_content t config _ content hopen

end OnlyFile

def soleName : FileName := Utf8.encode "A.java".toList

def solePath : Path := Path.below selfName [soleName]

def soleFile (content : Bytes) : Tree := Tree.ofEdits [.put soleName (.file content)]

def atTop : Config := { Config.default with root := selfName }

theorem openFile_soleFile (content : Bytes) :
    (soleFile content).openFile solePath = .ok (.content content) := rfl

theorem get?_soleFile (content : Bytes) (names : List FileName) (e : Entry) :
    (soleFile content).get? names = some e ↔
      names = [] ∧ e = .directory ∨ names = [soleName] ∧ e = .file content := by
  have htop : (soleFile content).top = .directory [(soleName, .file content)] := rfl
  rw [Tree.get?, htop]
  cases names with
  | nil => simp [Node.entry, eq_comm]
  | cons n rest =>
    rw [Node.at?_cons, Node.listing_directory, Listing.lookup_cons]
    by_cases hn : n = soleName
    · cases rest with
      | nil => simp [hn, Node.entry, eq_comm]
      | cons m rest => simp [hn, Node.at?_cons, Node.listing]
    · simp [hn]

theorem sought_soleFile (content : Bytes) (names : List FileName) :
    Sought (soleFile content) selfName ".java".toList [] names ↔ names = [soleName] := by
  have hentry : (soleFile content).get? ([] ++ [soleName]) = some (.file content) := rfl
  constructor
  · intro h
    rcases h.leaf with ⟨other, hother⟩ | ⟨⟨target, hother⟩, -⟩
    · rw [List.nil_append, get?_soleFile] at hother
      rcases hother with ⟨-, hkind⟩ | ⟨hname, -⟩
      · simp at hkind
      · exact hname
    · rw [List.nil_append, get?_soleFile] at hother
      simp at hother
  · rintro rfl
    refine ⟨?_, Or.inl ⟨content, hentry⟩, [], soleName, rfl, ?_⟩
    · intro front rest hrest hsplit
      rw [hsplit] at hentry
      exact (soleFile content).directory_on_way [] front rest _ hrest hentry
    · exact ⟨"A.java".toList, by decide, "A".toList, rfl⟩

theorem onlyFile_soleFile (content : Bytes) (config : Config) (hroot : config.root = selfName)
    (hsuffix : config.suffix = ".java".toList) :
    OnlyFile (soleFile content) config [] [soleName] content where
  root := by
    rw [hroot]
    rfl
  limits := by
    intro names h
    rw [List.nil_append, get?_soleFile] at h
    obtain rfl : names = [] := by simpa using h
    rw [hroot]
    decide
  only names := by
    rw [hroot, hsuffix]
    exact sought_soleFile content names
  holds := rfl
  length := by
    rw [hroot]
    decide
  short := by decide

theorem effects_soleFile (content : Bytes) (config : Config) (hroot : config.root = selfName)
    (hsuffix : config.suffix = ".java".toList) :
    (soleFile content).effects config =
      .beginFile solePath :: (sourceLines content).flatMap (Effect.ofLine config solePath) := by
  have h := effects_of_only (onlyFile_soleFile content config hroot hsuffix)
  rw [hroot] at h
  exact h

end ImportCensus
