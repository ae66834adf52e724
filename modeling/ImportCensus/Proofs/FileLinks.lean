import ImportCensus.Proofs.Bystanders
import ImportCensus.Proofs.WalkPairs

namespace ImportCensus

def Pending.withFile (names : List FileName) (p : Pending) : Pending :=
  ⟨p.names, if p.names = names then .file else p.kind⟩

/-- In one tree a link below the root leads to a file, in the other one there is a file with the
same contents in its place, and all else is the same. No other path of a walk leads by there. -/
structure Replaces (t t' : Tree) (root : Path) (place : Place) (dir : List FileName) (n : FileName)
    (data : Bytes) : Prop where
  leads : t.resolve true root = .ok (.directory place)
  link : ∃ target, t.get? (place ++ (dir ++ [n])) = some (.link target)
  opened : t.openFile (root.below (dir ++ [n])) = .ok (.content data)
  apart : Apart t root place dir n
  file : t'.get? (place ++ (dir ++ [n])) = some (.file data)
  same : SameExcept t t' (place ++ (dir ++ [n]))

section Replaces

variable {t t' : Tree} {root : Path} {place : Place} {dir : List FileName} {n : FileName}
  {data : Bytes}

theorem resolve_of_replaces (h : Replaces t t' root place dir n data) (p : Pending)
    (hp : Genuine t place p) (hother : p.names ≠ dir ++ [n]) :
    t'.resolve true (root.below p.names) = t.resolve true (root.below p.names) := by
  obtain ⟨e, hentry, -⟩ := hp
  obtain ⟨target, hlink⟩ := h.link
  have hdirectory : t.get? (place ++ (dir ++ [n])) ≠ some .directory := by simp [hlink]
  have hroute := notMem_routeOf_of_apart t root place dir n h.leads hdirectory h.apart p.names e
    hentry hother
  exact resolve_of_sameExcept h.same _ hroute

/-- The link leads to a file, so its path is neither too long nor refused for anything else. -/
theorem resolve_of_link (h : Replaces t t' root place dir n data) :
    t.resolve true (root.below (dir ++ [n])) = .ok (.file data) := by
  have hopened := h.opened
  unfold Tree.openFile at hopened
  cases hresult : t.resolve true (root.below (dir ++ [n])) with
  | error cause => simp [hresult] at hopened
  | ok found => cases found <;> simp_all

theorem openFile_of_replaces (h : Replaces t t' root place dir n data) :
    t'.openFile (root.below (dir ++ [n])) = .ok (.content data) := by
  obtain ⟨target, hlink⟩ := h.link
  have hresult := resolve_of_link h
  have hroot' : t'.resolve true root = .ok (.directory place) := by
    rw [resolve_of_sameExcept h.same root h.apart.root_apart]
    exact h.leads
  exact t'.openFile_below root place (dir ++ [n]) data hroot' h.file
    (Tree.length_le_of_resolve hresult)
    (t.short_of_resolve root place (dir ++ [n]) _ _ h.leads hlink hresult)

/-- A directory lists the file in place of the link, and all else as before. -/
theorem ofListing_of_replaces (h : Replaces t t' root place dir n data) (names : List FileName) :
    Pending.ofListing names (t'.children (place ++ names)) =
      (Pending.ofListing names (t.children (place ++ names))).map (.withFile (dir ++ [n])) := by
  obtain ⟨target, hlink⟩ := h.link
  let retyped (e : FileName × Kind) : FileName × Kind :=
    (e.1, if names ++ [e.1] = dir ++ [n] then .file else e.2)
  have hmem (m : FileName) (kind : Kind) :
      (m, kind) ∈ (t.children (place ++ names)).map retyped ↔
        ∃ before, (m, before) ∈ t.children (place ++ names) ∧
          (if names ++ [m] = dir ++ [n] then .file else before) = kind := by
    rw [List.mem_map]
    constructor
    · rintro ⟨⟨m', before⟩, hbefore, heq⟩
      obtain ⟨rfl, rfl⟩ := Prod.mk.inj heq
      exact ⟨before, hbefore, rfl⟩
    · rintro ⟨before, hbefore, rfl⟩
      exact ⟨(m, before), hbefore, rfl⟩
  have hchildren : t'.children (place ++ names) = (t.children (place ++ names)).map retyped := by
    apply t'.children_eq_of_kinds
    · unfold Listing.Ordered
      rw [List.pairwise_map]
      exact t.ordered_children (place ++ names)
    · intro m kind
      rw [hmem]
      simp only [t.mem_children_iff, List.append_assoc]
      by_cases hhere : names ++ [m] = dir ++ [n]
      · rw [hhere, hlink, h.file]
        simp [Entry.kind]
      · rw [h.same _ fun heq => hhere (List.append_cancel_left heq)]
        simp [hhere]
  unfold Pending.ofListing
  rw [hchildren, List.map_map, List.map_map]
  rfl

theorem listed_of_replaces (h : Replaces t t' root place dir n data) (names : List FileName) :
    List.Forall₂ (fun p p' => Genuine t place p ∧ p' = p.withFile (dir ++ [n]))
      (Pending.ofListing names (t.children (place ++ names)))
      (Pending.ofListing names (t'.children (place ++ names))) := by
  rw [ofListing_of_replaces h, List.forall₂_map_right_iff, List.forall₂_same]
  intro p hp
  exact ⟨genuine_of_mem_ofListing names p hp, rfl⟩

/-- The link is looked for by its name alone, since it leads to no directory, and so is the file. -/
theorem visit_of_link (h : Replaces t t' root place dir n data) (suffix : Text) :
    (Walk.start root suffix).visit t ⟨dir ++ [n], .link⟩ =
      (Walk.start root suffix).visit t' ⟨dir ++ [n], .file⟩ := by
  have hdirectory : t.isDirectory (root.below (dir ++ [n])) = false := by
    unfold Tree.isDirectory
    rw [resolve_of_link h]
  unfold Walk.visit Walk.start
  dsimp only
  rw [hdirectory, Bool.not_false, Bool.and_true]

theorem visit_of_replaces (h : Replaces t t' root place dir n data) (suffix : Text) (p : Pending)
    (hp : Genuine t place p) (hother : p.names ≠ dir ++ [n]) :
    ((Walk.start root suffix).visit t p).1 = ((Walk.start root suffix).visit t' p).1 ∧
      List.Forall₂ (fun p p' => Genuine t place p ∧ p' = p.withFile (dir ++ [n]))
        ((Walk.start root suffix).visit t p).2 ((Walk.start root suffix).visit t' p).2 := by
  have hresolve := resolve_of_replaces h p hp hother
  obtain ⟨names, kind⟩ := p
  dsimp only at hresolve
  unfold Walk.visit Walk.start
  cases kind with
  | file => exact ⟨rfl, .nil⟩
  | link =>
    have hdirectory : t'.isDirectory (root.below names) = t.isDirectory (root.below names) := by
      unfold Tree.isDirectory
      rw [hresolve]
    dsimp only
    rw [hdirectory]
    exact ⟨rfl, .nil⟩
  | directory =>
    obtain ⟨e, hentry, hkind⟩ := hp
    rw [eq_directory_of_kind e hkind] at hentry
    dsimp only
    unfold Tree.list
    rw [hresolve]
    cases hresult : t.resolve true (root.below names) with
    | error cause => exact ⟨rfl, .nil⟩
    | ok found =>
      obtain rfl := t.directory_of_resolve_below root place names found h.leads hentry hresult
      exact ⟨rfl, listed_of_replaces h names⟩

/-- The walks through both trees go in step: what is before one of them is what is before the other,
with a file for the link. -/
theorem inStep_of_replaces (h : Replaces t t' root place dir n data) (suffix : Text) :
    InStep t t' root root suffix fun p p' => Genuine t place p ∧ p' = p.withFile (dir ++ [n]) where
  roots := by
    have hlisted := listed_of_replaces h []
    rw [List.append_nil] at hlisted
    refine Or.inr ⟨_, _, ?_, ?_, hlisted⟩
    · rw [Walk.listRoot_eq, h.leads]
    · rw [Walk.listRoot_eq, resolve_of_sameExcept h.same root h.apart.root_apart, h.leads]
  visits := by
    rintro p _ ⟨hp, rfl⟩
    by_cases hhere : p.names = dir ++ [n]
    · -- the turn of the link, in which the other walk comes to the file
      obtain ⟨target, hlink⟩ := h.link
      obtain ⟨e, hentry, hkind⟩ := hp
      rw [hhere, hlink] at hentry
      obtain rfl := Option.some.inj hentry
      have hentryLink : p = ⟨dir ++ [n], .link⟩ := by
        obtain ⟨names, kind⟩ := p
        obtain rfl : names = dir ++ [n] := hhere
        obtain rfl : kind = .link := hkind.symm
        rfl
      have hentryFile : p.withFile (dir ++ [n]) = ⟨dir ++ [n], .file⟩ := by
        simp [Pending.withFile, hhere]
      rw [hentryFile, hentryLink, visit_of_link h]
      exact ⟨rfl, .nil⟩
    · have hkept : p.withFile (dir ++ [n]) = p := by
        unfold Pending.withFile
        rw [if_neg hhere]
      rw [hkept]
      exact visit_of_replaces h suffix p hp hhere

theorem ofItem_of_replaces (config : Config)
    (h : Replaces t t' config.root place dir n data) (item : Item)
    (hitem : item ∈ t.discover config.root config.suffix) :
    Effect.ofItem t' config item = Effect.ofItem t config item := by
  cases item with
  | unlisted names cause => rfl
  | rootNotDirectory => rfl
  | file names =>
    have hopen : t'.openFile (config.root.below names) = t.openFile (config.root.below names) := by
      by_cases hhere : names = dir ++ [n]
      · rw [hhere, h.opened, openFile_of_replaces h]
      · obtain ⟨kind, hgenuine⟩ := genuine_of_mem_discover h.leads config.suffix names hitem
        unfold Tree.openFile
        rw [resolve_of_replaces h _ hgenuine hhere]
    rw [Effect.ofItem_file, Effect.ofItem_file]
    exact Effect.ofFile_of_openFile t t' config _ hopen

end Replaces

/-- A census does not tell a link to a file from a file with the same contents. If a link below the
root leads to a file, and neither the root nor any other link below it leads by that link, then the
census stays the same when a file with the contents takes the place of the link: the same outcome or
the same failure, and the same log. -/
theorem census_of_fileLink (t : Tree) (config : Config) (place : Place) (dir : List FileName)
    (n : FileName) (target : Path) (data : Bytes)
    (hroot : t.resolve true config.root = .ok (.directory place))
    (hlink : t.get? (place ++ (dir ++ [n])) = some (.link target))
    (hopen : t.openFile (config.root.below (dir ++ [n])) = .ok (.content data))
    (hapart : Apart t config.root place dir n) :
    (t.insert (place ++ (dir ++ [n])) (.file data)).census config = t.census config := by
  have hreplaces : Replaces t (t.insert (place ++ (dir ++ [n])) (.file data)) config.root place dir
      n data := by
    have hsplit : place ++ (dir ++ [n]) = place ++ dir ++ [n] := by simp
    have haround : t.get? (place ++ dir) = some .directory ∧ isFileName n = true := by
      rw [hsplit] at hlink
      exact t.get?_around (place ++ dir) [] n _ hlink
    have hnames := t.isFileName_of_get? [] (place ++ (dir ++ [n])) _ hlink
    have hself : after? (place ++ (dir ++ [n])) (place ++ (dir ++ [n])) = some [] :=
      after?_eq_some_iff.2 (List.append_nil _).symm
    refine ⟨hroot, ⟨target, hlink⟩, hopen, hapart, ?_, ?_⟩
    · rw [t.get?_insert (by simp) hnames (by simp), hself]
      rfl
    · rw [hsplit] at hlink ⊢
      refine sameExcept_insert t (place ++ dir) n _ haround.1 haround.2 (by simp) ?_
      intro hdirectory
      rw [hlink] at hdirectory
      simp at hdirectory
  have hdiscover := Walk.discover_of_inStep (inStep_of_replaces hreplaces config.suffix)
  rw [Tree.census_eq, Tree.census_eq]
  have heffects : (t.insert (place ++ (dir ++ [n])) (.file data)).effects config =
      t.effects config := by
    unfold Tree.effects
    rw [← hdiscover]
    exact List.flatMap_congr fun item hitem => ofItem_of_replaces config hreplaces item hitem
  rw [heffects]

def innerName : FileName := Utf8.encode "s".toList

/-- A tree in which a link leads out of the directory that is walked, through another link, to a
file whose name does not end in the suffix. -/
def outwardTree : Tree :=
  Tree.ofEdits [.put (Utf8.encode "b".toList) (.file (Utf8.encode "import a.B;".toList)),
    .put (Utf8.encode "c".toList) (.link (Utf8.encode "b".toList)),
    .put (Utf8.encode "s/A.java".toList) (.link (Utf8.encode "../c".toList))]

theorem apart_outwardTree : Apart outwardTree innerName [innerName] [] soleName where
  root_apart := by decide
  links_apart := by
    have hinner : outwardTree.children [innerName] = [(soleName, .link)] := by decide
    intro around m target hlink hother
    cases around with
    | nil =>
      have hm := outwardTree.listed_on_way [innerName] m [] _ hlink
      rw [hinner] at hm
      obtain rfl : m = soleName := by simpa [Entry.kind] using hm
      exact absurd rfl hother
    | cons k rest =>
      have hk := outwardTree.listed_on_way [innerName] k (rest ++ [m]) _ hlink
      rw [hinner] at hk
      simp at hk

theorem census_of_fileLink_outwardTree :
    let config : Config := { Config.default with root := innerName }
    let data := Utf8.encode "import a.B;".toList
    outwardTree.resolve true config.root = .ok (.directory [innerName]) ∧
      outwardTree.get? [innerName, soleName] = some (.link (Utf8.encode "../c".toList)) ∧
      outwardTree.openFile (config.root.below [soleName]) = .ok (.content data) ∧
      Apart outwardTree config.root [innerName] [] soleName ∧
      (outwardTree.insert [innerName, soleName] (.file data)).census config =
        outwardTree.census config := by
  intro config data
  have hroot : outwardTree.resolve true config.root = .ok (.directory [innerName]) := by decide
  have hlink : outwardTree.get? [innerName, soleName] =
      some (.link (Utf8.encode "../c".toList)) := by decide
  have hopen : outwardTree.openFile (config.root.below [soleName]) = .ok (.content data) := by
    decide +kernel
  exact ⟨hroot, hlink, hopen, apart_outwardTree,
    census_of_fileLink outwardTree config [innerName] [] soleName _ data hroot hlink hopen
      apart_outwardTree⟩

end ImportCensus
