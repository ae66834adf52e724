import ImportCensus.Proofs.WalkFinds
import ImportCensus.Tree.Edit

namespace ImportCensus

/-- What is sought below a root that leads to the directory at a place: it stands in real
directories, it is a file or a link that does not lead to a directory, and its name ends in the
suffix. -/
structure Sought (t : Tree) (root : Path) (suffix : Text) (place : Place)
    (names : List FileName) : Prop where
  inside : ∀ front rest, rest ≠ [] → names = front ++ rest →
    t.get? (place ++ front) = some .directory
  leaf : (∃ content, t.get? (place ++ names) = some (.file content)) ∨
    (∃ target, t.get? (place ++ names) = some (.link target)) ∧
      t.isDirectory (root.below names) = false
  named : ∃ dir n, names = dir ++ [n] ∧ EndsIn n suffix

/-- No directory below a root has a path that is too long, or a name that is too long in it. -/
def WithinLimits (t : Tree) (root : Path) (place : Place) : Prop :=
  ∀ names, t.get? (place ++ names) = some .directory →
    (root.below names).length ≤ pathLimit ∧ ∀ n ∈ names, n.length ≤ nameLimit

def Genuine (t : Tree) (place : Place) (p : Pending) : Prop :=
  ∃ e, t.get? (place ++ p.names) = some e ∧ e.kind = p.kind

theorem eq_directory_of_kind (e : Entry) (h : e.kind = .directory) : e = .directory := by
  cases e with
  | file content => simp [Entry.kind] at h
  | link target => simp [Entry.kind] at h
  | directory => rfl

section Unchanged

variable {t : Tree} {root : Path} {suffix : Text} {place : Place}

theorem list_of_genuine (hroot : t.resolve true root = .ok (.directory place))
    (hlimits : WithinLimits t root place) (names : List FileName)
    (h : Genuine t place ⟨names, .directory⟩) :
    t.list (root.below names) = .ok (t.children (place ++ names)) := by
  obtain ⟨e, hentry, hkind⟩ := h
  rw [eq_directory_of_kind e hkind] at hentry
  obtain ⟨hlength, hshort⟩ := hlimits names hentry
  have hresolved := t.resolve_below root place names hroot hentry hlength hshort
  exact (t.list_eq_ok_iff _ _).2 ⟨_, hresolved, rfl⟩

theorem listing_of_genuine (hroot : t.resolve true root = .ok (.directory place))
    (names : List FileName) (listing : List (FileName × Kind))
    (h : Genuine t place ⟨names, .directory⟩) (hlist : t.list (root.below names) = .ok listing) :
    listing = t.children (place ++ names) := by
  obtain ⟨e, hentry, hkind⟩ := h
  rw [eq_directory_of_kind e hkind] at hentry
  obtain ⟨found, hfound, rfl⟩ := (t.list_eq_ok_iff _ _).1 hlist
  have hplace := t.directory_of_resolve_below root place names _ hroot hentry hfound
  rw [Found.directory.inj hplace]

theorem genuine_of_mem_ofListing (names : List FileName) (p : Pending)
    (h : p ∈ Pending.ofListing names (t.children (place ++ names))) : Genuine t place p := by
  obtain ⟨⟨n, kind⟩, he, rfl⟩ := List.mem_map.1 h
  obtain ⟨e, hentry, hkind⟩ := t.mem_children_iff.1 he
  rw [List.append_assoc] at hentry
  exact ⟨e, hentry, hkind⟩

theorem genuine_of_course (hroot : t.resolve true root = .ok (.directory place))
    (past : List Turn) (entries : List Pending)
    (h : Course root suffix past entries) (htree : ∀ x ∈ past, x.tree = t) :
    (∀ x ∈ past, Genuine t place x.entry) ∧ ∀ p ∈ entries, Genuine t place p := by
  induction h with
  | start =>
    refine ⟨by simp, ?_⟩
    intro p hp
    rw [List.mem_singleton.1 hp]
    refine ⟨.directory, ?_, rfl⟩
    rw [List.append_nil]
    exact t.directory_of_resolve root place hroot
  | step past p rest t' item more h hturn ih =>
    obtain ⟨hbefore, hnow⟩ := List.forall_mem_append.1 htree
    have hsame : t' = t := hnow _ (List.mem_singleton_self _)
    subst hsame
    obtain ⟨hpast, hentries⟩ := ih hbefore
    obtain ⟨hp, hrest⟩ := List.forall_mem_cons.1 hentries
    have hmore : ∀ q ∈ more, Genuine t' place q := by
      rcases more_of_gives root suffix t' p item more hturn with
        rfl | ⟨names, listing, rfl, hlist, rfl⟩
      · simp
      · obtain rfl := listing_of_genuine hroot names listing hp hlist
        exact genuine_of_mem_ofListing names
    exact ⟨List.forall_mem_append.2 ⟨hpast, by simpa using hp⟩,
      List.forall_mem_append.2 ⟨hmore, hrest⟩⟩

/-- Whatever a walk finds below a directory stands in the tree. -/
theorem genuine_of_mem_discover (hroot : t.resolve true root = .ok (.directory place))
    (suffix : Text) (names : List FileName) (h : .file names ∈ t.discover root suffix) :
    ∃ kind, Genuine t place ⟨names, kind⟩ := by
  obtain ⟨past, hcourse, htree, hitems⟩ := Walk.after_items t [] _ (Walk.after_start root suffix)
  rw [List.nil_append] at hcourse
  rw [Tree.discover, ← hitems] at h
  obtain ⟨x, hx, hfound⟩ := List.mem_filterMap.1 h
  obtain ⟨more, hgives⟩ := gives_of_mem past [] hcourse x hx
  have hgenuine := (genuine_of_course hroot past [] hcourse htree).1 x hx
  rw [hfound] at hgives
  generalize x.entry = p at hgives hgenuine
  cases hgives with
  | refused _ item hlist hnames hfile => exact absurd rfl (hfile names)
  | found _ kind hkind hsuffix hlink => exact ⟨kind, hgenuine⟩

/-- In a tree that does not change, a walk comes upon nothing but what is sought. -/
theorem sought_of_item (hroot : t.resolve true root = .ok (.directory place))
    (hlimits : WithinLimits t root place) (past : List Turn) (entries : List Pending)
    (h : Course root suffix past entries) (htree : ∀ x ∈ past, x.tree = t) (item : Item)
    (hitem : item ∈ past.filterMap Turn.item) :
    item = .file item.names ∧ Sought t root suffix place item.names := by
  obtain ⟨x, hx, hfound⟩ := List.mem_filterMap.1 hitem
  obtain ⟨more, hgives⟩ := gives_of_mem past entries h x hx
  have hgenuine := (genuine_of_course hroot past entries h htree).1 x hx
  rw [htree x hx, hfound] at hgives
  generalize x.entry = p at hgives hgenuine
  cases hgives with
  | refused names item hlist hnames hfile =>
    exact absurd (list_of_genuine hroot hlimits names hgenuine) (hlist _)
  | found names kind hkind hsuffix hlink =>
    refine ⟨rfl, ?_⟩
    obtain ⟨e, hentry, rfl⟩ := hgenuine
    have hne : names ≠ [] := by
      rintro rfl
      rw [List.append_nil, t.directory_of_resolve root place hroot] at hentry
      obtain rfl := Option.some.inj hentry
      exact hkind rfl
    refine ⟨?_, ?_, ?_⟩
    · intro front rest hrest hsplit
      change names = front ++ rest at hsplit
      rw [hsplit] at hentry
      exact t.directory_on_way place front rest e hrest hentry
    · cases e with
      | file content => exact Or.inl ⟨content, hentry⟩
      | link target => exact Or.inr ⟨⟨target, hentry⟩, hlink rfl⟩
      | directory => exact absurd rfl hkind
    · obtain ⟨dir, n, rfl⟩ := (List.eq_nil_or_concat' names).resolve_left hne
      exact ⟨dir, n, rfl, (t.hasSuffix_of_get? place dir n e hentry root suffix).1 hsuffix⟩

theorem named_of_sought {names : List FileName} (h : Sought t root suffix place names) :
    ∀ n ∈ names, isFileName n = true := by
  rcases h.leaf with ⟨content, hentry⟩ | ⟨⟨target, hentry⟩, -⟩
  · exact t.isFileName_of_get? place names _ hentry
  · exact t.isFileName_of_get? place names _ hentry

theorem open_of_sought (hroot : t.resolve true root = .ok (.directory place))
    (hlimits : WithinLimits t root place) (names : List FileName)
    (h : Sought t root suffix place names) : ∃ kind, Open t root suffix names kind := by
  obtain ⟨dir, n, hconcat, hends⟩ := h.named
  have hdirs : ∀ front rest, rest ≠ [] → names = front ++ rest →
      t.resolve true (root.below front) = .ok (.directory (place ++ front)) := by
    intro front rest hrest hsplit
    have hdir := h.inside front rest hrest hsplit
    obtain ⟨hlength, hshort⟩ := hlimits front hdir
    exact t.resolve_below root place front hroot hdir hlength hshort
  have hsuffix (e : Entry) (hentry : t.get? (place ++ names) = some e) :
      (root.below names).hasSuffix suffix = true := by
    rw [hconcat] at hentry ⊢
    exact (t.hasSuffix_of_get? place dir n e hentry root suffix).2 hends
  rcases h.leaf with ⟨content, hentry⟩ | ⟨⟨target, hentry⟩, hlink⟩
  · exact ⟨_, open_of_get? t root suffix place names _ hentry (by simp [Entry.kind]) hdirs
      (hsuffix _ hentry) (by simp [Entry.kind])⟩
  · exact ⟨_, open_of_get? t root suffix place names _ hentry (by simp [Entry.kind]) hdirs
      (hsuffix _ hentry) fun _ => hlink⟩

/-- In a tree that does not change, a walk that is over has come upon all that is sought. -/
theorem item_of_sought (hroot : t.resolve true root = .ok (.directory place))
    (hlimits : WithinLimits t root place) (past : List Turn) (h : Course root suffix past [])
    (htree : ∀ x ∈ past, x.tree = t) (names : List FileName)
    (hsought : Sought t root suffix place names) : .file names ∈ past.filterMap Turn.item := by
  obtain ⟨kind, hopen⟩ := open_of_sought hroot hlimits names hsought
  have hne : names ≠ [] := by
    obtain ⟨dir, n, rfl, -⟩ := hsought.named
    simp
  have hall : ∀ x ∈ past, Open x.tree root suffix names kind := by
    intro x hx
    rw [htree x hx]
    exact hopen
  rcases found_or_ahead names kind hne past [] h hall with hfound | ⟨p, hp, -⟩
  · exact hfound
  · simp at hp

/-- From a root that leads to a directory, and within the limits, a walk gives the files that are
sought, in the order of their names, and nothing else. -/
theorem discover_sought (hroot : t.resolve true root = .ok (.directory place))
    (hlimits : WithinLimits t root place) (suffix : Text) :
    ∃ found : List (List FileName), t.discover root suffix = found.map .file ∧
      (∀ names, names ∈ found ↔ Sought t root suffix place names) ∧ found.Pairwise (· < ·) := by
  obtain ⟨past, hcourse, htree, hitems⟩ := Walk.after_items t [] _ (Walk.after_start root suffix)
  rw [List.nil_append] at hcourse
  have hdiscover : t.discover root suffix = past.filterMap Turn.item := hitems.symm
  have hsought := sought_of_item hroot hlimits past [] hcourse htree
  refine ⟨(past.filterMap Turn.item).map Item.names, ?_, ?_, increasing_items past [] hcourse⟩
  · have hfiles : ∀ item ∈ past.filterMap Turn.item, Item.file item.names = item :=
      fun item hitem => (hsought item hitem).1.symm
    rw [hdiscover, List.map_map]
    exact ((List.map_congr_left hfiles).trans (List.map_id' _)).symm
  · intro names
    constructor
    · intro hnames
      obtain ⟨item, hitem, rfl⟩ := List.mem_map.1 hnames
      exact (hsought item hitem).2
    · intro h
      exact List.mem_map_of_mem (item_of_sought hroot hlimits past hcourse htree names h)

end Unchanged

theorem items_of_refused (t : Tree) (root : Path) (suffix : Text) (item : Item)
    (h : Walk.listRoot t root = .error item) : t.discover root suffix = [item] := by
  have hover (w : Walk) (hw : w.entries = []) : w.items t = [] := by
    rw [Walk.items, (Walk.step?_eq_none_iff t w).2 hw]
  have hstep : Walk.step? t (Walk.start root suffix) = some (some item, ⟨root, suffix, some []⟩) := by
    unfold Walk.step? Walk.start
    dsimp only
    rw [h]
  unfold Tree.discover
  rw [Walk.items, hstep]
  dsimp only
  rw [hover _ rfl]

/-- A whole walk through a tree. From a root that leads to a directory, and within the limits, it
gives the paths of all that is sought, each once and in the order of their names, and no failure. A
root that leads nowhere or to no directory gives the one failure that says so. -/
theorem discover_eq_sought (t : Tree) (root : Path) (suffix : Text) :
    (∀ place, t.resolve true root = .ok (.directory place) → WithinLimits t root place →
      ∃ found : List (List FileName),
        (t.discover root suffix).map (Item.result root) =
            found.map (fun names => .ok (root.below names)) ∧
          (∀ names, names ∈ found ↔ Sought t root suffix place names) ∧
          found.Pairwise (· < ·) ∧ (found.map root.below).Nodup) ∧
      (∀ cause, t.resolve true root = .error cause →
        (t.discover root suffix).map (Item.result root) = [.error (.walk root cause)]) ∧
      ∀ other, t.resolve true root = .ok other → (∀ place, other ≠ .directory place) →
        (t.discover root suffix).map (Item.result root) = [.error (.rootNotDirectory root)] := by
  refine ⟨?_, ?_, ?_⟩
  · intro place hroot hlimits
    obtain ⟨found, hfound, hmem, hincreasing⟩ := discover_sought hroot hlimits suffix
    refine ⟨found, ?_, hmem, hincreasing, ?_⟩
    · rw [hfound, List.map_map]
      rfl
    · refine nodup_below root found ?_ hincreasing
      intro names hnames
      exact named_of_sought ((hmem names).1 hnames)
  · intro cause hroot
    rw [items_of_refused t root suffix (.unlisted [] cause)]
    · rfl
    · rw [Walk.listRoot_eq, hroot]
  · intro other hroot hother
    rw [items_of_refused t root suffix .rootNotDirectory]
    · rfl
    · rw [Walk.listRoot_eq, hroot]
      cases other with
      | file content => rfl
      | link place target => rfl
      | directory place => exact absurd rfl (hother place)

def nestedTree : Tree :=
  Tree.ofEdits [.put (Utf8.encode "a.java".toList) (.file []),
    .put (Utf8.encode "a/x.java".toList) (.file []),
    .put (Utf8.encode "l.java".toList) (.link (Utf8.encode "gone".toList))]

theorem withinLimits_nestedTree : WithinLimits nestedTree selfName [] := by
  have htop : nestedTree.children [] = [(Utf8.encode "a".toList, .directory),
      (Utf8.encode "a.java".toList, .file), (Utf8.encode "l.java".toList, .link)] := by decide
  have hinner : nestedTree.children [Utf8.encode "a".toList] =
      [(Utf8.encode "x.java".toList, .file)] := by decide
  intro names h
  rw [List.nil_append] at h
  cases names with
  | nil => decide
  | cons n rest =>
    have hn := nestedTree.listed_on_way [] n rest _ h
    rw [htop] at hn
    obtain rfl : n = Utf8.encode "a".toList := by simpa [Entry.kind] using hn
    cases rest with
    | nil => decide
    | cons m rest =>
      have hm := nestedTree.listed_on_way [Utf8.encode "a".toList] m rest _ h
      rw [hinner] at hm
      simp [Entry.kind] at hm

theorem discover_nestedTree :
    nestedTree.resolve true selfName = .ok (.directory []) ∧
      WithinLimits nestedTree selfName [] ∧
      ∃ found : List (List FileName),
        (nestedTree.discover selfName ".java".toList).map (Item.result selfName) =
            found.map (fun names => .ok (Path.below selfName names)) ∧
          (∀ names, names ∈ found ↔ Sought nestedTree selfName ".java".toList [] names) ∧
          found.Pairwise (· < ·) ∧ (found.map (Path.below selfName)).Nodup := by
  have hroot : nestedTree.resolve true selfName = .ok (.directory []) := by decide
  obtain ⟨hfound, -, -⟩ := discover_eq_sought nestedTree selfName ".java".toList
  exact ⟨hroot, withinLimits_nestedTree, hfound [] hroot withinLimits_nestedTree⟩

end ImportCensus
