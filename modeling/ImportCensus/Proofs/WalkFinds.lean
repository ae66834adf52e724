import ImportCensus.Proofs.WalkOrder

namespace ImportCensus

/-- Under the given names stands something that a walk is to find: every directory on the way can be
listed and lists the next name, and at the end stands no directory but what bears the suffix. -/
structure Open (t : Tree) (root : Path) (suffix : Text) (names : List FileName) (kind : Kind) :
    Prop where
  no_directory : kind ≠ .directory
  listed : ∀ front n rest, names = front ++ n :: rest →
    ∃ listing, t.list (root.below front) = .ok listing ∧
      (n, if rest = [] then kind else .directory) ∈ listing
  hasSuffix : (root.below names).hasSuffix suffix = true
  link_elsewhere : kind = .link → t.isDirectory (root.below names) = false

/-- An entry leads to what stands under the given names: it is that itself, or a directory on the
way. -/
def LeadsTo (p : Pending) (names : List FileName) (kind : Kind) : Prop :=
  ∃ rest, names = p.names ++ rest ∧ p.kind = if rest = [] then kind else .directory

/-- What stands at a place is open to a walk if the paths of the directories around it lead there. -/
theorem open_of_get? (t : Tree) (root : Path) (suffix : Text) (place : Place)
    (names : List FileName) (e : Entry) (hentry : t.get? (place ++ names) = some e)
    (hkind : e.kind ≠ .directory)
    (hdirs : ∀ front rest, rest ≠ [] → names = front ++ rest →
      t.resolve true (root.below front) = .ok (.directory (place ++ front)))
    (hsuffix : (root.below names).hasSuffix suffix = true)
    (hlink : e.kind = .link → t.isDirectory (root.below names) = false) :
    Open t root suffix names e.kind := by
  refine ⟨hkind, ?_, hsuffix, hlink⟩
  intro front n rest hsplit
  have hfront := hdirs front (n :: rest) (List.cons_ne_nil n rest) hsplit
  refine ⟨_, (t.list_eq_ok_iff _ _).2 ⟨_, hfront, rfl⟩, ?_⟩
  rw [t.mem_children_iff]
  rw [hsplit] at hentry
  by_cases hrest : rest = []
  · refine ⟨e, ?_, by rw [if_pos hrest]⟩
    rw [hrest, ← List.append_assoc] at hentry
    exact hentry
  · refine ⟨.directory, ?_, by rw [if_neg hrest]; rfl⟩
    have hbehind : front ++ n :: rest = front ++ [n] ++ rest := by simp
    rw [hbehind] at hentry
    have hway := t.directory_on_way place (front ++ [n]) rest e hrest hentry
    rwa [← List.append_assoc] at hway

section Finds

variable {root : Path} {suffix : Text}

/-- The turn of an entry that leads to what is open either finds it or gives an entry that leads
there. -/
theorem found_or_leads (t : Tree) (p : Pending) (item : Option Item) (more : List Pending)
    (names : List FileName) (kind : Kind) (hopen : Open t root suffix names kind)
    (hleads : LeadsTo p names kind) (hturn : Gives root suffix t p item more) :
    item = some (.file names) ∨ ∃ q ∈ more, LeadsTo q names kind := by
  obtain ⟨rest, hnames, hkind⟩ := hleads
  cases rest with
  | nil =>
    rw [if_pos rfl] at hkind
    rw [List.append_nil] at hnames
    subst hnames
    cases hturn with
    | read names listing hlist => exact absurd hkind.symm hopen.no_directory
    | refused names item hlist hitem hfile => exact absurd hkind.symm hopen.no_directory
    | found names k hk hsuffix hlink => exact Or.inl rfl
    | passed names k hk hpassed =>
      obtain ⟨hlink, hdir⟩ := hpassed hopen.hasSuffix
      rw [hopen.link_elsewhere (hkind.symm.trans hlink)] at hdir
      simp at hdir
  | cons n rest =>
    rw [if_neg (List.cons_ne_nil n rest)] at hkind
    obtain ⟨listing, hlisting, hmem⟩ := hopen.listed p.names n rest hnames
    cases hturn with
    | read dir other hlist =>
      rw [hlist] at hlisting
      obtain rfl := Except.ok.inj hlisting
      refine Or.inr ⟨_, List.mem_map_of_mem hmem, rest, ?_, rfl⟩
      rw [List.append_assoc]
      exact hnames
    | refused dir item hlist hitem hfile => exact absurd hlisting (hlist listing)
    | found dir k hk hsuffix hlink => exact absurd hkind hk
    | passed dir k hk hpassed => exact absurd hkind hk

/-- What stays open in a course has been found, or something ahead leads to it. -/
theorem found_or_ahead (names : List FileName) (kind : Kind) (hne : names ≠ []) (past : List Turn)
    (entries : List Pending) (h : Course root suffix past entries)
    (hopen : ∀ x ∈ past, Open x.tree root suffix names kind) :
    Item.file names ∈ past.filterMap Turn.item ∨ ∃ p ∈ entries, LeadsTo p names kind := by
  induction h with
  | start =>
    refine Or.inr ⟨_, List.mem_singleton_self _, names, rfl, ?_⟩
    rw [if_neg hne]
  | step past p rest t item more h hturn ih =>
    obtain ⟨hpast, hnow⟩ := List.forall_mem_append.1 hopen
    rw [List.filterMap_append, List.mem_append]
    rcases ih hpast with hfound | ⟨q, hq, hleads⟩
    · exact Or.inl (Or.inl hfound)
    · rcases List.mem_cons.1 hq with rfl | hq
      · have hopen := hnow _ (List.mem_singleton_self _)
        rcases found_or_leads t q item more names kind hopen hleads hturn with rfl | hmore
        · exact Or.inl (Or.inr (by simp))
        · obtain ⟨r, hr, hleads⟩ := hmore
          exact Or.inr ⟨r, List.mem_append_left rest hr, hleads⟩
      · exact Or.inr ⟨q, List.mem_append_right more hq, hleads⟩

theorem gives_of_mem (past : List Turn) (entries : List Pending)
    (h : Course root suffix past entries) (x : Turn) (hx : x ∈ past) :
    ∃ more, Gives root suffix x.tree x.entry x.item more := by
  obtain ⟨front, back, rfl⟩ := List.append_of_mem hx
  rw [← List.singleton_append, ← List.append_assoc] at h
  obtain ⟨before, hfront⟩ := course_front root suffix _ back entries h
  obtain ⟨rest, more, -, hgives, -⟩ := course_concat root suffix front x before hfront
  exact ⟨more, hgives⟩

end Finds

end ImportCensus
