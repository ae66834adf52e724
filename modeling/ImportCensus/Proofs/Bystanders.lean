import ImportCensus.Proofs.Routes
import ImportCensus.Proofs.SoleFile
import Mathlib.Data.List.Sort

namespace ImportCensus

/-- What stands under a name below the root, if anything does, is a file or a link that a walk does
not look for: its name does not end in the suffix, or it is a link to a directory. Neither the root
nor any other link below it leads by there. -/
structure Bystander (t : Tree) (root : Path) (suffix : Text) (place : Place)
    (dir : List FileName) (n : FileName) : Prop where
  unsought : ∀ e, t.get? (place ++ (dir ++ [n])) = some e → e ≠ .directory ∧
    (¬EndsIn n suffix ∨ e.kind = .link ∧ t.isDirectory (root.below (dir ++ [n])) = true)
  apart : Apart t root place dir n

section Bystander

variable {t t' : Tree} {root : Path} {suffix : Text} {place : Place} {dir : List FileName}
  {n : FileName}

theorem no_directory_of_bystander (h : Bystander t root suffix place dir n) :
    t.get? (place ++ (dir ++ [n])) ≠ some .directory := by
  intro hdirectory
  exact (h.unsought .directory hdirectory).1 rfl

theorem ne_of_sought (h : Bystander t root suffix place dir n) (names : List FileName)
    (hsought : Sought t root suffix place names) : names ≠ dir ++ [n] := by
  rintro rfl
  have hends : EndsIn n suffix := by
    obtain ⟨around, m, hsplit, hends⟩ := hsought.named
    obtain ⟨-, hlast⟩ := List.append_inj' hsplit rfl
    rwa [List.singleton_inj.1 hlast]
  rcases hsought.leaf with ⟨content, hentry⟩ | ⟨⟨target, hentry⟩, hlink⟩
  · rcases (h.unsought _ hentry).2 with hnot | ⟨hkind, -⟩
    · exact hnot hends
    · simp [Entry.kind] at hkind
  · rcases (h.unsought _ hentry).2 with hnot | ⟨-, hdirectory⟩
    · exact hnot hends
    · rw [hlink] at hdirectory
      simp at hdirectory

theorem apart_of_bystander (hroot : t.resolve true root = .ok (.directory place))
    (h : Bystander t root suffix place dir n) (names : List FileName) (e : Entry)
    (hentry : t.get? (place ++ names) = some e) (hother : names ≠ dir ++ [n]) :
    place ++ (dir ++ [n]) ∉ t.routeOf (root.below names) :=
  notMem_routeOf_of_apart t root place dir n hroot (no_directory_of_bystander h) h.apart names e
    hentry hother

theorem sought_of_bystander (hroot : t.resolve true root = .ok (.directory place))
    (h : Bystander t root suffix place dir n)
    (hsame : SameExcept t t' (place ++ (dir ++ [n]))) (names : List FileName)
    (hsought : Sought t root suffix place names) : Sought t' root suffix place names := by
  have hother : names ≠ dir ++ [n] := ne_of_sought h names hsought
  have hentry : t'.get? (place ++ names) = t.get? (place ++ names) := by
    apply hsame
    intro heq
    exact hother (List.append_cancel_left heq)
  refine ⟨?_, ?_, hsought.named⟩
  · intro front rest hrest hsplit
    have haround := hsought.inside front rest hrest hsplit
    rw [hsame]
    · exact haround
    · intro heq
      rw [heq] at haround
      exact no_directory_of_bystander h haround
  · rw [hentry]
    rcases hsought.leaf with hfile | ⟨⟨target, hlink⟩, helsewhere⟩
    · exact Or.inl hfile
    · have hapart := apart_of_bystander hroot h names _ hlink hother
      rw [isDirectory_of_sameExcept hsame _ hapart]
      exact Or.inr ⟨⟨target, hlink⟩, helsewhere⟩

theorem withinLimits_of_bystander (h : Bystander t' root suffix place dir n)
    (hsame : SameExcept t t' (place ++ (dir ++ [n]))) (hlimits : WithinLimits t root place) :
    WithinLimits t' root place := by
  intro names hdirectory
  apply hlimits names
  rw [← hsame]
  · exact hdirectory
  · intro heq
    rw [heq] at hdirectory
    exact no_directory_of_bystander h hdirectory

theorem ofItem_of_bystander (config : Config)
    (hroot : t.resolve true config.root = .ok (.directory place))
    (h : Bystander t config.root suffix place dir n)
    (hsame : SameExcept t t' (place ++ (dir ++ [n]))) (names : List FileName)
    (hsought : Sought t config.root suffix place names) :
    Effect.ofItem t' config (.file names) = Effect.ofItem t config (.file names) := by
  have hother : names ≠ dir ++ [n] := ne_of_sought h names hsought
  have hentry : ∃ e, t.get? (place ++ names) = some e := by
    rcases hsought.leaf with ⟨content, hfile⟩ | ⟨⟨target, hlink⟩, -⟩
    · exact ⟨_, hfile⟩
    · exact ⟨_, hlink⟩
  obtain ⟨e, hentry⟩ := hentry
  have hapart := apart_of_bystander hroot h names e hentry hother
  rw [Effect.ofItem_file, Effect.ofItem_file]
  exact Effect.ofFile_of_openFile t t' config _ (openFile_of_sameExcept hsame _ hapart)

end Bystander

/-- Two trees that differ in nothing but a bystander have the same census: the same outcome or the
same failure, and the same log. -/
theorem census_of_bystander (t t' : Tree) (config : Config) (place : Place) (dir : List FileName)
    (n : FileName) (hroot : t.resolve true config.root = .ok (.directory place))
    (hlimits : WithinLimits t config.root place)
    (h : Bystander t config.root config.suffix place dir n)
    (h' : Bystander t' config.root config.suffix place dir n)
    (hsame : SameExcept t t' (place ++ (dir ++ [n]))) : t'.census config = t.census config := by
  have hback := sameExcept_symm t t' _ hsame
  have hroot' : t'.resolve true config.root = .ok (.directory place) := by
    rw [resolve_of_sameExcept hsame _ h.apart.root_apart]
    exact hroot
  have hlimits' := withinLimits_of_bystander h' hsame hlimits
  obtain ⟨found, hfound, hmem, hincreasing⟩ := discover_sought hroot hlimits config.suffix
  obtain ⟨found', hfound', hmem', hincreasing'⟩ := discover_sought hroot' hlimits' config.suffix
  have hboth : found' = found := by
    apply hincreasing'.eq_of_mem_iff hincreasing
    intro names
    rw [hmem, hmem']
    exact ⟨sought_of_bystander hroot' h' hback names, sought_of_bystander hroot h hsame names⟩
  subst hboth
  have heffects : t'.effects config = t.effects config := by
    unfold Tree.effects
    rw [hfound, hfound', List.flatMap_map, List.flatMap_map]
    apply List.flatMap_congr
    intro names hnames
    exact ofItem_of_bystander config hroot h hsame names ((hmem names).1 hnames)
  rw [Tree.census_eq, Tree.census_eq, heffects]

def linkName : FileName := Utf8.encode "d.java".toList

def linkedTree : Tree := nestedTree.insert [linkName] (.link (Utf8.encode "a".toList))

theorem sameExcept_linkedTree : SameExcept nestedTree linkedTree [linkName] :=
  sameExcept_insert nestedTree [] linkName _ rfl (by decide) (by simp) (by decide)

theorem links_nestedTree (around : List FileName) (m : FileName) (target : Path)
    (h : nestedTree.get? (around ++ [m]) = some (.link target)) :
    around = [] ∧ m = Utf8.encode "l.java".toList := by
  have htop : nestedTree.children [] = [(Utf8.encode "a".toList, .directory),
      (Utf8.encode "a.java".toList, .file), (Utf8.encode "l.java".toList, .link)] := by decide
  have hinner : nestedTree.children [Utf8.encode "a".toList] =
      [(Utf8.encode "x.java".toList, .file)] := by decide
  cases around with
  | nil =>
    have hm := nestedTree.listed_on_way [] m [] _ h
    rw [htop] at hm
    exact ⟨rfl, by simpa [Entry.kind] using hm⟩
  | cons n rest =>
    have hn := nestedTree.listed_on_way [] n (rest ++ [m]) _ h
    rw [htop] at hn
    obtain rfl : n = Utf8.encode "a".toList := by simpa using hn
    cases rest with
    | nil =>
      have hm := nestedTree.listed_on_way [Utf8.encode "a".toList] m [] _ h
      rw [hinner] at hm
      simp [Entry.kind] at hm
    | cons k rest =>
      have hk := nestedTree.listed_on_way [Utf8.encode "a".toList] k (rest ++ [m]) _ h
      rw [hinner] at hk
      simp at hk

theorem bystander_nestedTree :
    Bystander nestedTree selfName ".java".toList [] [] linkName where
  unsought := by
    intro e hentry
    have hnone : nestedTree.get? ([] ++ ([] ++ [linkName])) = none := by decide
    rw [hnone] at hentry
    simp at hentry
  apart := by
    refine ⟨by decide, ?_⟩
    intro around m target hlink _
    obtain ⟨rfl, rfl⟩ := links_nestedTree around m target hlink
    decide

theorem bystander_linkedTree :
    Bystander linkedTree selfName ".java".toList [] [] linkName where
  unsought := by
    intro e hentry
    have hlink : linkedTree.get? ([] ++ ([] ++ [linkName])) =
        some (.link (Utf8.encode "a".toList)) := by decide
    rw [hlink] at hentry
    obtain rfl := Option.some.inj hentry
    exact ⟨by simp, Or.inr ⟨rfl, by decide⟩⟩
  apart := by
    refine ⟨by decide, ?_⟩
    intro around m target hlink hother
    rw [List.nil_append, sameExcept_linkedTree _ (by simpa using hother)] at hlink
    obtain ⟨rfl, rfl⟩ := links_nestedTree around m target hlink
    decide

theorem census_of_bystander_linkedTree :
    nestedTree.resolve true atTop.root = .ok (.directory []) ∧
      WithinLimits nestedTree atTop.root [] ∧
      Bystander nestedTree atTop.root atTop.suffix [] [] linkName ∧
      Bystander linkedTree atTop.root atTop.suffix [] [] linkName ∧
      SameExcept nestedTree linkedTree [linkName] ∧
      linkedTree.census atTop = nestedTree.census atTop := by
  have hroot : nestedTree.resolve true atTop.root = .ok (.directory []) := by decide
  exact ⟨hroot, withinLimits_nestedTree, bystander_nestedTree, bystander_linkedTree,
    sameExcept_linkedTree,
    census_of_bystander nestedTree linkedTree atTop [] [] linkName hroot withinLimits_nestedTree
      bystander_nestedTree bystander_linkedTree sameExcept_linkedTree⟩

end ImportCensus
