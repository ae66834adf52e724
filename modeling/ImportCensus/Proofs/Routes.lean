import ImportCensus.Proofs.Resolution

/-!
The route of a path: the places at which an entry is looked up while the path is followed, through
links and out of them again. Where a path leads depends on nothing but what stands at these places,
so it leads to the same in two trees that differ only elsewhere. The route of a path below a root is
that of the root, and then it goes down by the names.
-/

namespace ImportCensus

namespace Tree

/-- The places that are looked at while steps are followed from a directory up to the next link,
which is passed on with the steps behind it. -/
def route (t : Tree) (pass : Place → Path → List Step → List Place) :
    Place → List Step → List Place
  | _, [] => []
  | place, .stay :: rest => route t pass place rest
  | place, .up :: rest => route t pass place.dropLast rest
  | place, .into n :: rest =>
    if nameLimit < n.length then []
    else
      (place ++ [n]) ::
        match t.get? (place ++ [n]) with
        | some .directory => route t pass (place ++ [n]) rest
        | some (.link target) => pass place target rest
        | _ => []

def routeLinks (t : Tree) : Nat → Place → List Step → List Place
  | 0 => route t fun _ _ _ => []
  | links + 1 => route t fun place target rest =>
    routeLinks t links (target.origin place) (target.steps ++ rest)

def routeOf (t : Tree) (path : Path) : List Place := t.routeLinks linkLimit [] path.steps

end Tree

def SameExcept (t t' : Tree) (q : Place) : Prop := ∀ place, place ≠ q → t'.get? place = t.get? place

theorem sameExcept_symm (t t' : Tree) (q : Place) (h : SameExcept t t' q) : SameExcept t' t q :=
  fun place hplace => (h place hplace).symm

/-- Putting a file or a link into a directory, where there is no directory, changes nothing but what
stands there. -/
theorem sameExcept_insert (t : Tree) (dir : Place) (n : FileName) (e : Entry)
    (hdir : t.get? dir = some .directory) (hname : isFileName n = true) (hkind : e ≠ .directory)
    (hthere : t.get? (dir ++ [n]) ≠ some .directory) :
    SameExcept t (t.insert (dir ++ [n]) e) (dir ++ [n]) := by
  have hnames : ∀ m ∈ dir ++ [n], isFileName m = true := by
    have hdirNames := t.isFileName_of_get? [] dir .directory hdir
    exact List.forall_mem_append.2 ⟨hdirNames, by simpa using hname⟩
  have hnew : ¬(e = .directory ∧ t.get? (dir ++ [n]) = some .directory) := fun h => hkind h.1
  intro place hplace
  rw [t.get?_insert (by simp) hnames hnew]
  cases hbelow : after? (dir ++ [n]) place with
  | some rest =>
    obtain rfl := after?_eq_some_iff.1 hbelow
    have hrest : rest ≠ [] := by
      rintro rfl
      simp at hplace
    obtain ⟨m, rest, rfl⟩ := List.exists_cons_of_ne_nil hrest
    have hnone : t.get? (dir ++ [n] ++ m :: rest) = none := by
      cases hentry : t.get? (dir ++ [n] ++ m :: rest) with
      | none => rfl
      | some inner => exact absurd (t.get?_around _ rest m inner hentry).1 hthere
    rw [hnone]
    simp
  | none =>
    cases habove : after? place (dir ++ [n]) with
    | none => rfl
    | some rest =>
      have hsplit : dir ++ [n] = place ++ rest := after?_eq_some_iff.1 habove
      have hrest : rest ≠ [] := by
        rintro rfl
        rw [List.append_nil] at hsplit
        exact hplace hsplit.symm
      obtain ⟨front, m, rfl⟩ := (List.eq_nil_or_concat' rest).resolve_left hrest
      rw [← List.append_assoc] at hsplit
      obtain ⟨rfl, -⟩ := List.append_inj' hsplit rfl
      by_cases hfront : front = []
      · rw [hfront, List.append_nil] at hdir
        exact hdir.symm
      · have haround := t.directory_on_way [] place front .directory hfront hdir
        exact haround.symm

section SameExcept

variable {t t' : Tree} {q : Place}

theorem follow_of_sameExcept (h : SameExcept t t' q)
    (pass pass' : Place → Path → List Step → Except Cause Found)
    (passed : Place → Path → List Step → List Place)
    (hpass : ∀ place target rest, q ∉ passed place target rest →
      pass' place target rest = pass place target rest)
    (place : Place) (steps : List Step) (hroute : q ∉ t.route passed place steps) :
    t'.follow true pass' place steps = t.follow true pass place steps := by
  induction steps generalizing place with
  | nil => rfl
  | cons step steps ih =>
    cases step with
    | stay => exact ih place hroute
    | up => exact ih place.dropLast hroute
    | into n =>
      rw [Tree.route] at hroute
      rw [Tree.follow, Tree.follow]
      by_cases hlong : nameLimit < n.length
      · rw [if_pos hlong, if_pos hlong]
      · rw [if_neg hlong, List.mem_cons, not_or] at hroute
        obtain ⟨hhere, hbehind⟩ := hroute
        have hentry : t'.get? (place ++ [n]) = t.get? (place ++ [n]) := h _ (Ne.symm hhere)
        rw [if_neg hlong, if_neg hlong, hentry]
        cases hstands : t.get? (place ++ [n]) with
        | none => rfl
        | some e =>
          rw [hstands] at hbehind
          cases e with
          | file content => rfl
          | directory => exact ih (place ++ [n]) hbehind
          | link target =>
            dsimp only
            rw [hpass place target steps hbehind]

theorem followLinks_of_sameExcept (h : SameExcept t t' q) (links : Nat) (place : Place)
    (steps : List Step) (hroute : q ∉ t.routeLinks links place steps) :
    t'.followLinks true links place steps = t.followLinks true links place steps := by
  induction links generalizing place steps with
  | zero => exact follow_of_sameExcept h _ _ _ (fun _ _ _ _ => rfl) place steps hroute
  | succ links ih =>
    refine follow_of_sameExcept h _ _ _ ?_ place steps hroute
    intro place target rest hpassed
    rw [ih (target.origin place) (target.steps ++ rest) hpassed]

/-- A path leads to the same in two trees, if they do not differ on its route. -/
theorem resolve_of_sameExcept (h : SameExcept t t' q) (path : Path)
    (hroute : q ∉ t.routeOf path) : t'.resolve true path = t.resolve true path := by
  rw [Tree.resolve_eq, Tree.resolve_eq, followLinks_of_sameExcept h linkLimit [] path.steps hroute]

theorem isDirectory_of_sameExcept (h : SameExcept t t' q) (path : Path)
    (hroute : q ∉ t.routeOf path) : t'.isDirectory path = t.isDirectory path := by
  unfold Tree.isDirectory
  rw [resolve_of_sameExcept h path hroute]

theorem openFile_of_sameExcept (h : SameExcept t t' q) (path : Path)
    (hroute : q ∉ t.routeOf path) : t'.openFile path = t.openFile path := by
  unfold Tree.openFile
  rw [resolve_of_sameExcept h path hroute]

end SameExcept

section Below

variable (t : Tree) (q : Place)

theorem mem_route_mono (passed passed' : Place → Path → List Step → List Place)
    (hpassed : ∀ place target rest, q ∈ passed place target rest → q ∈ passed' place target rest)
    (place : Place) (steps : List Step) (h : q ∈ t.route passed place steps) :
    q ∈ t.route passed' place steps := by
  induction steps generalizing place with
  | nil => simp [Tree.route] at h
  | cons step steps ih =>
    cases step with
    | stay => exact ih place h
    | up => exact ih place.dropLast h
    | into n =>
      rw [Tree.route] at h ⊢
      by_cases hlong : nameLimit < n.length
      · rw [if_pos hlong] at h
        simp at h
      · rw [if_neg hlong] at h ⊢
        rcases List.mem_cons.1 h with hhere | hbehind
        · exact List.mem_cons.2 (Or.inl hhere)
        · refine List.mem_cons.2 (Or.inr ?_)
          cases hstands : t.get? (place ++ [n]) with
          | none => simp [hstands] at hbehind
          | some e =>
            rw [hstands] at hbehind
            cases e with
            | file content => simp at hbehind
            | directory => exact ih (place ++ [n]) hbehind
            | link target => exact hpassed place target steps hbehind

/-- Whoever may follow more links looks at no fewer places. -/
theorem mem_routeLinks_mono (few many : Nat) (hle : few ≤ many) (place : Place)
    (steps : List Step) (h : q ∈ t.routeLinks few place steps) :
    q ∈ t.routeLinks many place steps := by
  induction few generalizing many place steps with
  | zero =>
    cases many with
    | zero => exact h
    | succ many => exact mem_route_mono t q _ _ (by simp) place steps h
  | succ few ih =>
    obtain ⟨many, rfl⟩ : ∃ more, many = more + 1 := ⟨many - 1, by omega⟩
    refine mem_route_mono t q _ _ ?_ place steps h
    intro place target rest hpassed
    exact ih many (by omega) (target.origin place) (target.steps ++ rest) hpassed

theorem notMem_route_append (pass : Place → Path → List Step → Except Cause Found)
    (passed : Place → Path → List Step → List Place) (tail more : List Step) (p : Place)
    (htail : ∀ s ∈ tail, s = .stay)
    (hpass : ∀ place target rest, pass place target (rest ++ tail) = .ok (.directory p) →
      q ∉ passed place target (rest ++ tail) → q ∉ passed place target (rest ++ more))
    (hmore : q ∉ t.route passed p more) (steps : List Step) (place : Place)
    (h : t.follow true pass place (steps ++ tail) = .ok (.directory p))
    (hroute : q ∉ t.route passed place (steps ++ tail)) :
    q ∉ t.route passed place (steps ++ more) := by
  induction steps generalizing place with
  | nil =>
    rw [List.nil_append, Tree.follow_stays t pass true place tail htail] at h
    obtain rfl := Found.directory.inj (Except.ok.inj h)
    exact hmore
  | cons step steps ih =>
    rw [List.cons_append] at h hroute ⊢
    cases step with
    | stay => exact ih place h hroute
    | up => exact ih place.dropLast h hroute
    | into n =>
      rw [Tree.follow] at h
      rw [Tree.route] at hroute ⊢
      by_cases hlong : nameLimit < n.length
      · rw [if_pos hlong] at h
        simp at h
      · rw [if_neg hlong] at h
        rw [if_neg hlong, List.mem_cons, not_or] at hroute
        obtain ⟨hhere, hbehind⟩ := hroute
        rw [if_neg hlong, List.mem_cons, not_or]
        refine ⟨hhere, ?_⟩
        cases hstands : t.get? (place ++ [n]) with
        | none => simp
        | some e =>
          rw [hstands] at h hbehind
          cases e with
          | file content => simp
          | directory => exact ih (place ++ [n]) h hbehind
          | link target =>
            -- links are followed at the end too, whatever stands behind this one
            rw [Bool.not_true, Bool.and_false] at h
            exact hpass place target steps h hbehind

theorem notMem_routeLinks_append (tail more : List Step) (p : Place)
    (htail : ∀ s ∈ tail, s = .stay) (links : Nat)
    (hmore : ∀ fewer, fewer ≤ links → q ∉ t.routeLinks fewer p more) (place : Place)
    (steps : List Step) (h : t.followLinks true links place (steps ++ tail) = .ok (.directory p))
    (hroute : q ∉ t.routeLinks links place (steps ++ tail)) :
    q ∉ t.routeLinks links place (steps ++ more) := by
  induction links generalizing place steps with
  | zero =>
    refine notMem_route_append t q _ _ tail more p htail ?_ (hmore 0 (Nat.le_refl 0)) steps place h
      hroute
    intro place target rest hpassed
    simp at hpassed
  | succ links ih =>
    refine notMem_route_append t q _ _ tail more p htail ?_ (hmore _ (Nat.le_refl _)) steps place h
      hroute
    intro place target rest hpassed hnot
    have hfound := Path.directory_of_orNullDevice hpassed
    rw [← List.append_assoc] at hfound hnot ⊢
    exact ih (fun fewer hfewer => hmore fewer (by omega)) (target.origin place)
      (target.steps ++ rest) hfound hnot

/-- The way down to an entry looks at the directories around it, and then goes on as from the
directory that it stands in. -/
theorem notMem_route_into (passed : Place → Path → List Step → List Place) (place : Place)
    (dir : List FileName) (n : FileName) (e : Entry)
    (hentry : t.get? (place ++ (dir ++ [n])) = some e) (hdirectory : t.get? q ≠ some .directory)
    (hlast : q ∉ t.route passed (place ++ dir) [.into n]) :
    q ∉ t.route passed place ((dir ++ [n]).map Step.into) := by
  induction dir generalizing place with
  | nil =>
    rw [List.append_nil] at hlast
    exact hlast
  | cons m dir ih =>
    have hsplit (rest : List FileName) : place ++ m :: rest = place ++ [m] ++ rest := by simp
    have haround : t.get? (place ++ [m]) = some .directory := by
      rw [List.cons_append] at hentry
      exact t.directory_on_way place [m] (dir ++ [n]) e (by simp) hentry
    have hne : q ≠ place ++ [m] := by
      rintro rfl
      exact hdirectory haround
    rw [List.cons_append, List.map_cons, Tree.route]
    by_cases hlong : nameLimit < m.length
    · rw [if_pos hlong]
      simp
    · rw [if_neg hlong, haround, List.mem_cons, not_or]
      rw [List.cons_append, hsplit] at hentry
      rw [hsplit] at hlast
      exact ⟨hne, ih (place ++ [m]) hentry hlast⟩

theorem notMem_routeLinks_into (links : Nat) (place : Place) (dir : List FileName) (n : FileName)
    (e : Entry) (hentry : t.get? (place ++ (dir ++ [n])) = some e)
    (hdirectory : t.get? q ≠ some .directory)
    (hlast : q ∉ t.routeLinks links (place ++ dir) [.into n]) :
    q ∉ t.routeLinks links place ((dir ++ [n]).map Step.into) := by
  cases links with
  | zero => exact notMem_route_into t q _ place dir n e hentry hdirectory hlast
  | succ links => exact notMem_route_into t q _ place dir n e hentry hdirectory hlast

theorem eq_of_mem_route (passed : Place → Path → List Step → List Place) (place : Place)
    (n : FileName) (e : Entry) (hentry : t.get? (place ++ [n]) = some e) (hkind : e.kind ≠ .link)
    (h : q ∈ t.route passed place [.into n]) : q = place ++ [n] := by
  rw [Tree.route] at h
  by_cases hlong : nameLimit < n.length
  · rw [if_pos hlong] at h
    simp at h
  · rw [if_neg hlong, hentry] at h
    cases e with
    | link target => exact absurd rfl hkind
    | file content => exact List.mem_singleton.1 h
    | directory => exact List.mem_singleton.1 h

/-- What is no directory is not on the route of an entry below the root, if it is neither on the
route of the root nor on that of the entry itself. -/
theorem notMem_routeOf_below (root : Path) (place : Place) (dir : List FileName) (n : FileName)
    (e : Entry) (hroot : t.resolve true root = .ok (.directory place))
    (hentry : t.get? (place ++ (dir ++ [n])) = some e) (hdirectory : t.get? q ≠ some .directory)
    (hrootRoute : q ∉ t.routeOf root)
    (hlast : q ∉ t.routeLinks linkLimit (place ++ dir) [.into n]) :
    q ∉ t.routeOf (root.below (dir ++ [n])) := by
  obtain ⟨-, -, hsteps⟩ := t.followLinks_of_resolve root place hroot
  have hnames := t.isFileName_of_get? place (dir ++ [n]) e hentry
  unfold Tree.routeOf at hrootRoute ⊢
  rw [Path.steps_below root _ (by simp) hnames]
  rw [Path.steps_eq] at hsteps hrootRoute
  refine notMem_routeLinks_append t q _ _ place ?_ linkLimit ?_ [] _ hsteps hrootRoute
  · intro s hs
    split at hs
    · exact List.mem_singleton.1 hs
    · simp at hs
  · intro fewer hfewer
    have hfew : q ∉ t.routeLinks fewer (place ++ dir) [.into n] :=
      fun hmem => hlast (mem_routeLinks_mono t q fewer linkLimit hfewer _ _ hmem)
    exact notMem_routeLinks_into t q fewer place dir n e hentry hdirectory hfew

end Below

/-- The routes that a walk has to do with pass an entry by: neither the root nor any link below it
leads by there, but for the entry itself if that is a link. -/
structure Apart (t : Tree) (root : Path) (place : Place) (dir : List FileName) (n : FileName) :
    Prop where
  root_apart : place ++ (dir ++ [n]) ∉ t.routeOf root
  links_apart : ∀ around m target, t.get? (place ++ (around ++ [m])) = some (.link target) →
    around ++ [m] ≠ dir ++ [n] →
      place ++ (dir ++ [n]) ∉ t.routeLinks linkLimit (place ++ around) [.into m]

/-- The path of any other entry below the root passes such an entry by. -/
theorem notMem_routeOf_of_apart (t : Tree) (root : Path) (place : Place) (dir : List FileName)
    (n : FileName) (hroot : t.resolve true root = .ok (.directory place))
    (hdirectory : t.get? (place ++ (dir ++ [n])) ≠ some .directory) (h : Apart t root place dir n)
    (names : List FileName) (e : Entry) (hentry : t.get? (place ++ names) = some e)
    (hother : names ≠ dir ++ [n]) :
    place ++ (dir ++ [n]) ∉ t.routeOf (root.below names) := by
  rcases List.eq_nil_or_concat' names with rfl | ⟨around, m, rfl⟩
  · exact h.root_apart
  · refine notMem_routeOf_below t _ root place around m e hroot hentry hdirectory h.root_apart ?_
    cases hkind : e.kind with
    | link =>
      obtain ⟨target, rfl⟩ : ∃ target, e = .link target := by
        cases e with
        | link target => exact ⟨target, rfl⟩
        | _ => simp [Entry.kind] at hkind
      exact h.links_apart around m target hentry hother
    | _ =>
      intro hmem
      have hnolink : e.kind ≠ .link := by simp [hkind]
      rw [← List.append_assoc] at hentry
      have hhere := eq_of_mem_route t _ _ (place ++ around) m e hentry hnolink hmem
      rw [List.append_assoc] at hhere
      exact hother (List.append_cancel_left hhere).symm

end ImportCensus
