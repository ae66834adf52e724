import ImportCensus.Proofs.PathNames
import ImportCensus.Walk

namespace ImportCensus

namespace Tree

/-- What stands around an entry is a directory, and the way to the entry goes by names that entries
can have. -/
theorem get?_around (t : Tree) (place rest : Place) (n : FileName) (e : Entry)
    (h : t.get? (place ++ n :: rest) = some e) :
    t.get? place = some .directory ∧ isFileName n = true := by
  unfold get? at h ⊢
  rw [Node.at?_append] at h
  cases hnode : t.top.at? place with
  | none => simp [hnode] at h
  | some node =>
    rw [hnode, Option.bind_some, Node.at?_cons] at h
    cases hlookup : node.listing.lookup n with
    | none => simp [hlookup] at h
    | some below =>
      have hmem := Listing.mem_of_lookup hlookup
      refine ⟨?_, (t.wellFormed place node hnode).2 _ hmem⟩
      cases node with
      | file _ => simp [Node.listing] at hmem
      | link _ => simp [Node.listing] at hmem
      | directory _ => rfl

theorem isFileName_of_get? (t : Tree) (place : Place) (names : List FileName) (e : Entry)
    (h : t.get? (place ++ names) = some e) : ∀ n ∈ names, isFileName n = true := by
  intro n hn
  obtain ⟨front, back, rfl⟩ := List.append_of_mem hn
  rw [← List.append_assoc] at h
  exact (get?_around t _ back n e h).2

theorem hasSuffix_of_get? (t : Tree) (place : Place) (dir : List FileName) (n : FileName)
    (e : Entry) (h : t.get? (place ++ (dir ++ [n])) = some e) (root : Path) (suffix : Text) :
    (root.below (dir ++ [n])).hasSuffix suffix = true ↔ EndsIn n suffix := by
  have hnames := isFileName_of_get? t place (dir ++ [n]) e h
  exact Path.hasSuffix_below root dir n suffix (hnames n (by simp))

theorem directory_on_way (t : Tree) (place : Place) (front rest : List FileName) (e : Entry)
    (hne : rest ≠ []) (h : t.get? (place ++ (front ++ rest)) = some e) :
    t.get? (place ++ front) = some .directory := by
  obtain ⟨n, rest, rfl⟩ := List.exists_cons_of_ne_nil hne
  rw [← List.append_assoc] at h
  exact (get?_around t _ rest n e h).1

/-- The first name on the way to an entry is listed, as a directory if the way goes on. -/
theorem listed_on_way (t : Tree) (place : Place) (n : FileName) (rest : List FileName) (e : Entry)
    (h : t.get? (place ++ n :: rest) = some e) :
    (n, if rest = [] then e.kind else .directory) ∈ t.children place := by
  rw [t.mem_children_iff]
  by_cases hrest : rest = []
  · rw [hrest] at h
    exact ⟨e, h, by rw [if_pos hrest]⟩
  · exact ⟨.directory, directory_on_way t place [n] rest e hrest h, by rw [if_neg hrest]; rfl⟩

section Following

variable (t : Tree) (pass : Place → Path → List Step → Except Cause Found)

theorem follow_stays (atLast : Bool) (place : Place) (steps : List Step)
    (h : ∀ s ∈ steps, s = .stay) : t.follow atLast pass place steps = .ok (.directory place) := by
  induction steps with
  | nil => rfl
  | cons s steps ih =>
    obtain ⟨rfl, hrest⟩ := List.forall_mem_cons.1 h
    exact ih hrest

theorem follow_into (atLast : Bool) (place : Place) (names : List FileName)
    (h : t.get? (place ++ names) = some .directory) (hshort : ∀ n ∈ names, n.length ≤ nameLimit) :
    t.follow atLast pass place (names.map Step.into) = .ok (.directory (place ++ names)) := by
  induction names generalizing place with
  | nil =>
    rw [List.append_nil]
    rfl
  | cons n names ih =>
    obtain ⟨hn, hrest⟩ := List.forall_mem_cons.1 hshort
    have hlong : ¬nameLimit < n.length := by omega
    have hsplit : place ++ n :: names = place ++ [n] ++ names := by simp
    rw [hsplit] at h ⊢
    have hfirst : t.get? (place ++ [n]) = some .directory := by
      by_cases hne : names = []
      · simpa [hne] using h
      · rw [List.append_assoc] at h
        exact directory_on_way t place [n] names _ hne h
    rw [List.map_cons, follow, if_neg hlong, hfirst]
    exact ih (place ++ [n]) h hrest

theorem follow_into_file (atLast : Bool) (place : Place) (names : List FileName) (n : FileName)
    (content : Bytes) (h : t.get? (place ++ (names ++ [n])) = some (.file content))
    (hshort : ∀ m ∈ names ++ [n], m.length ≤ nameLimit) :
    t.follow atLast pass place ((names ++ [n]).map Step.into) = .ok (.file content) := by
  induction names generalizing place with
  | nil =>
    have hlong : ¬nameLimit < n.length := by
      have := hshort n (by simp)
      omega
    rw [List.nil_append] at h ⊢
    rw [List.map_singleton, follow, if_neg hlong, h]
    rfl
  | cons m names ih =>
    obtain ⟨hm, hrest⟩ := List.forall_mem_cons.1 hshort
    have hlong : ¬nameLimit < m.length := by omega
    have hsplit : place ++ (m :: names ++ [n]) = place ++ [m] ++ (names ++ [n]) := by simp
    rw [hsplit] at h
    have hfirst : t.get? (place ++ [m]) = some .directory := by
      rw [List.append_assoc] at h
      exact directory_on_way t place [m] (names ++ [n]) _ (by simp) h
    rw [List.cons_append, List.map_cons, follow, if_neg hlong, hfirst]
    exact ih (place ++ [m]) h hrest

theorem follow_into_long (atLast : Bool) (place : Place) (names : List FileName) (e : Entry)
    (h : t.get? (place ++ names) = some e) (hlong : ∃ n ∈ names, nameLimit < n.length) :
    t.follow atLast pass place (names.map Step.into) = .error .nameTooLong := by
  induction names generalizing place with
  | nil => simp at hlong
  | cons m names ih =>
    rw [List.map_cons, follow]
    by_cases hm : nameLimit < m.length
    · rw [if_pos hm]
    · -- the long name is further down, so there is a directory in front of it
      obtain ⟨n, hn, hlong⟩ := hlong
      have hbelow : n ∈ names := by
        rcases List.mem_cons.1 hn with rfl | hbelow
        · exact absurd hlong hm
        · exact hbelow
      have hne : names ≠ [] := List.ne_nil_of_mem hbelow
      have hsplit : place ++ m :: names = place ++ [m] ++ names := by simp
      rw [hsplit] at h
      have hfirst : t.get? (place ++ [m]) = some .directory := by
        rw [List.append_assoc] at h
        exact directory_on_way t place [m] names e hne h
      rw [if_neg hm, hfirst]
      exact ih (place ++ [m]) h ⟨n, hbelow, hlong⟩

/-- Steps that lead to a directory can be gone on from there. Steps that stay, at the end, make no
difference. -/
theorem follow_append (tail more : List Step) (p : Place) (result : Except Cause Found)
    (htail : ∀ s ∈ tail, s = .stay)
    (hpass : ∀ place target rest, pass place target (rest ++ tail) = .ok (.directory p) →
      pass place target (rest ++ more) = result)
    (hmore : t.follow true pass p more = result) (steps : List Step) (place : Place)
    (h : t.follow true pass place (steps ++ tail) = .ok (.directory p)) :
    t.follow true pass place (steps ++ more) = result := by
  induction steps generalizing place with
  | nil =>
    rw [List.nil_append, follow_stays t pass true place tail htail] at h
    obtain rfl := Found.directory.inj (Except.ok.inj h)
    exact hmore
  | cons step steps ih =>
    rw [List.cons_append] at h ⊢
    cases step with
    | stay => exact ih place h
    | up => exact ih place.dropLast h
    | into n =>
      rw [follow] at h ⊢
      split at h
      · simp at h
      · rename_i hlong
        rw [if_neg hlong]
        cases hentry : t.get? (place ++ [n]) with
        | none => simp [hentry] at h
        | some e =>
          rw [hentry] at h
          cases e with
          | directory => exact ih (place ++ [n]) h
          | file content =>
            dsimp only at h
            split at h <;> simp at h
          | link target =>
            rw [Bool.not_true, Bool.and_false] at h ⊢
            exact hpass place target steps h

/-- If links are not followed at the end, then what is found is the same, unless it is a link. -/
theorem follow_false (pass' : Place → Path → List Step → Except Cause Found)
    (hpass : ∀ place target rest, pass place target rest = pass' place target rest ∨
      ∃ p target', pass place target rest = .ok (.link p target'))
    (place : Place) (steps : List Step) :
    t.follow false pass place steps = t.follow true pass' place steps ∨
      ∃ p target, t.follow false pass place steps = .ok (.link p target) := by
  induction steps generalizing place with
  | nil => exact Or.inl rfl
  | cons step steps ih =>
    cases step with
    | stay => exact ih place
    | up => exact ih place.dropLast
    | into n =>
      rw [follow, follow]
      split
      · exact Or.inl rfl
      · cases hentry : t.get? (place ++ [n]) with
        | none => exact Or.inl rfl
        | some e =>
          cases e with
          | directory => exact ih (place ++ [n])
          | file content => exact Or.inl rfl
          | link target =>
            by_cases hlast : steps = []
            · exact Or.inr ⟨place ++ [n], target, by simp [hlast]⟩
            · have hmore : steps.isEmpty = false := by simpa using hlast
              rw [hmore]
              exact hpass place target steps

theorem directory_of_follow (p : Place)
    (hpass : ∀ place target rest, t.get? place = some .directory →
      pass place target rest = .ok (.directory p) → t.get? p = some .directory)
    (place : Place) (steps : List Step) (hplace : t.get? place = some .directory)
    (h : t.follow true pass place steps = .ok (.directory p)) : t.get? p = some .directory := by
  induction steps generalizing place with
  | nil =>
    obtain rfl := Found.directory.inj (Except.ok.inj h)
    exact hplace
  | cons step steps ih =>
    cases step with
    | stay => exact ih place hplace h
    | up =>
      refine ih place.dropLast ?_ h
      rcases List.eq_nil_or_concat' place with rfl | ⟨front, n, rfl⟩
      · rfl
      · rw [List.dropLast_concat]
        exact (get?_around t front [] n _ hplace).1
    | into n =>
      rw [follow] at h
      split at h
      · simp at h
      · cases hentry : t.get? (place ++ [n]) with
        | none => simp [hentry] at h
        | some e =>
          rw [hentry] at h
          cases e with
          | directory => exact ih (place ++ [n]) hentry h
          | file content =>
            dsimp only at h
            split at h <;> simp at h
          | link target =>
            rw [Bool.not_true, Bool.and_false] at h
            exact hpass place target steps hplace h

end Following

theorem followLinks_into (t : Tree) (atLast : Bool) (links : Nat) (place : Place)
    (names : List FileName) (h : t.get? (place ++ names) = some .directory)
    (hshort : ∀ n ∈ names, n.length ≤ nameLimit) :
    t.followLinks atLast links place (names.map Step.into) = .ok (.directory (place ++ names)) := by
  cases links with
  | zero => exact follow_into t _ atLast place names h hshort
  | succ links => exact follow_into t _ atLast place names h hshort

theorem followLinks_into_file (t : Tree) (atLast : Bool) (links : Nat) (place : Place)
    (names : List FileName) (n : FileName) (content : Bytes)
    (h : t.get? (place ++ (names ++ [n])) = some (.file content))
    (hshort : ∀ m ∈ names ++ [n], m.length ≤ nameLimit) :
    t.followLinks atLast links place ((names ++ [n]).map Step.into) = .ok (.file content) := by
  cases links with
  | zero => exact follow_into_file t _ atLast place names n content h hshort
  | succ links => exact follow_into_file t _ atLast place names n content h hshort

theorem followLinks_into_long (t : Tree) (atLast : Bool) (links : Nat) (place : Place)
    (names : List FileName) (e : Entry) (h : t.get? (place ++ names) = some e)
    (hlong : ∃ n ∈ names, nameLimit < n.length) :
    t.followLinks atLast links place (names.map Step.into) = .error .nameTooLong := by
  cases links with
  | zero => exact follow_into_long t _ atLast place names e h hlong
  | succ links => exact follow_into_long t _ atLast place names e h hlong

theorem followLinks_append (t : Tree) (tail more : List Step) (p : Place)
    (result : Except Cause Found) (hresult : result ≠ .error .notFound)
    (htail : ∀ s ∈ tail, s = .stay) (hmore : ∀ links, t.followLinks true links p more = result) (links : Nat)
    (place : Place) (steps : List Step)
    (h : t.followLinks true links place (steps ++ tail) = .ok (.directory p)) :
    t.followLinks true links place (steps ++ more) = result := by
  induction links generalizing place steps with
  | zero =>
    refine follow_append t _ tail more p result htail ?_ (hmore 0) steps place h
    intro place target rest hpassed
    simp at hpassed
  | succ links ih =>
    refine follow_append t _ tail more p result htail ?_ (hmore (links + 1)) steps place h
    intro place target rest hpassed
    have hfound := Path.directory_of_orNullDevice hpassed
    rw [← List.append_assoc] at hfound
    have hbehind := ih (target.origin place) (target.steps ++ rest) hfound
    rw [List.append_assoc] at hbehind
    rw [hbehind, Path.orNullDevice_of_ne _ _ hresult]

theorem followLinks_false (t : Tree) (links : Nat) (place : Place) (steps : List Step) :
    t.followLinks false links place steps = t.followLinks true links place steps ∨
      ∃ p target, t.followLinks false links place steps = .ok (.link p target) := by
  induction links generalizing place steps with
  | zero => exact follow_false t _ _ (fun _ _ _ => Or.inl rfl) place steps
  | succ links ih =>
    refine follow_false t _ _ ?_ place steps
    intro place target rest
    rcases ih (target.origin place) (target.steps ++ rest) with hsame | ⟨p, target', hlink⟩
    · exact Or.inl (by rw [hsame])
    · refine Or.inr ⟨p, target', ?_⟩
      rw [hlink, Path.orNullDevice_of_ne _ _ (by simp)]

theorem directory_of_followLinks (t : Tree) (links : Nat) (p place : Place) (steps : List Step)
    (hplace : t.get? place = some .directory)
    (h : t.followLinks true links place steps = .ok (.directory p)) :
    t.get? p = some .directory := by
  induction links generalizing place steps with
  | zero =>
    refine directory_of_follow t _ p ?_ place steps hplace h
    intro place target rest _ hpassed
    simp at hpassed
  | succ links ih =>
    refine directory_of_follow t _ p ?_ place steps hplace h
    intro place target rest hplace hpassed
    have horigin : t.get? (target.origin place) = some .directory := by
      unfold Path.origin
      split
      · rfl
      · exact hplace
    exact ih (target.origin place) (target.steps ++ rest) horigin
      (Path.directory_of_orNullDevice hpassed)

/-- What the system takes for a path, if the path leads to a directory. -/
theorem followLinks_of_resolve (t : Tree) (path : Path) (p : Place)
    (h : t.resolve true path = .ok (.directory p)) :
    nul ∉ path ∧ path ≠ [] ∧
      t.followLinks true linkLimit [] path.steps = .ok (.directory p) := by
  rw [resolve_eq] at h
  split at h
  · simp at h
  · rename_i hnul
    split at h
    · simp at h
    · rename_i hempty
      split at h
      · simp at h
      · exact ⟨by simpa using hnul, by simpa using hempty, Path.directory_of_orNullDevice h⟩

theorem directory_of_resolve (t : Tree) (path : Path) (p : Place)
    (h : t.resolve true path = .ok (.directory p)) : t.get? p = some .directory := by
  obtain ⟨-, -, hsteps⟩ := followLinks_of_resolve t path p h
  exact directory_of_followLinks t linkLimit p [] path.steps rfl hsteps

/-- If the root leads to a directory, then a path below the root leads to where its names lead from
that directory. -/
theorem resolve_below_eq (t : Tree) (root : Path) (place : Place) (names : List FileName)
    (result : Except Cause Found) (hresult : result ≠ .error .notFound)
    (hroot : t.resolve true root = .ok (.directory place)) (hne : names ≠ []) (hnames : ∀ n ∈ names, isFileName n = true)
    (hlength : (root.below names).length ≤ pathLimit)
    (hfollow : ∀ links, t.followLinks true links place (names.map Step.into) = result) :
    t.resolve true (root.below names) = result := by
  obtain ⟨hnul, hempty, hsteps⟩ := followLinks_of_resolve t root place hroot
  have hnul' := Path.nul_notMem_below root names hnul hnames
  have hempty' := Path.below_ne_nil root names hempty
  have hlength' : ¬pathLimit < (root.below names).length := by omega
  rw [Path.steps_eq] at hsteps
  -- the steps of the root are gone on from; a slash at its end was but a step that stays
  have hbelow : t.followLinks true linkLimit [] (root.below names).steps = result := by
    rw [Path.steps_below root names hne hnames]
    refine followLinks_append t _ _ place _ hresult ?_ hfollow linkLimit [] _ hsteps
    intro s hs
    split at hs
    · exact List.mem_singleton.1 hs
    · simp at hs
  rw [resolve_eq, if_neg (by simpa using hnul'), if_neg (by simpa using hempty'),
    if_neg hlength', hbelow, Path.orNullDevice_of_ne _ _ hresult]

/-- If the root leads to a directory, then what stands below it as a directory is where its path
leads. -/
theorem resolve_below (t : Tree) (root : Path) (place : Place) (names : List FileName)
    (hroot : t.resolve true root = .ok (.directory place))
    (hdir : t.get? (place ++ names) = some .directory)
    (hlength : (root.below names).length ≤ pathLimit)
    (hshort : ∀ n ∈ names, n.length ≤ nameLimit) :
    t.resolve true (root.below names) = .ok (.directory (place ++ names)) := by
  by_cases hne : names = []
  · rw [hne, List.append_nil]
    exact hroot
  · exact resolve_below_eq t root place names _ (by simp) hroot hne
      (isFileName_of_get? t place names _ hdir) hlength fun links => followLinks_into t true links place names hdir hshort

theorem openFile_below (t : Tree) (root : Path) (place : Place) (names : List FileName)
    (content : Bytes) (hroot : t.resolve true root = .ok (.directory place))
    (hfile : t.get? (place ++ names) = some (.file content))
    (hlength : (root.below names).length ≤ pathLimit)
    (hshort : ∀ n ∈ names, n.length ≤ nameLimit) :
    t.openFile (root.below names) = .ok (.content content) := by
  have hnames := isFileName_of_get? t place names _ hfile
  rcases List.eq_nil_or_concat' names with rfl | ⟨front, n, rfl⟩
  · rw [List.append_nil, directory_of_resolve t root place hroot] at hfile
    simp at hfile
  · unfold openFile
    rw [resolve_below_eq t root place (front ++ [n]) _ (by simp) hroot (by simp) hnames hlength
      fun links => followLinks_into_file t true links place front n content hfile hshort]

theorem short_of_resolve (t : Tree) (root : Path) (place : Place) (names : List FileName)
    (e : Entry) (found : Found) (hroot : t.resolve true root = .ok (.directory place))
    (hentry : t.get? (place ++ names) = some e)
    (h : t.resolve true (root.below names) = .ok found) : ∀ n ∈ names, n.length ≤ nameLimit := by
  intro n hn
  by_contra hlong
  have hrefused := resolve_below_eq t root place names _ (by simp) hroot (List.ne_nil_of_mem hn)
    (isFileName_of_get? t place names e hentry) (length_le_of_resolve h)
    fun links => followLinks_into_long t true links place names e hentry ⟨n, hn, by omega⟩
  rw [hrefused] at h
  simp at h

theorem directory_of_resolve_below (t : Tree) (root : Path) (place : Place) (names : List FileName)
    (found : Found) (hroot : t.resolve true root = .ok (.directory place))
    (hdir : t.get? (place ++ names) = some .directory)
    (h : t.resolve true (root.below names) = .ok found) : found = .directory (place ++ names) := by
  have hshort := short_of_resolve t root place names _ found hroot hdir h
  have hplace := resolve_below t root place names hroot hdir (length_le_of_resolve h) hshort
  rw [hplace] at h
  exact (Except.ok.inj h).symm

theorem resolve_false (t : Tree) (path : Path) :
    t.resolve false path = t.resolve true path ∨
      ∃ p target, t.resolve false path = .ok (.link p target) := by
  rw [resolve_eq, resolve_eq]
  split
  · exact Or.inl rfl
  · split
    · exact Or.inl rfl
    · split
      · exact Or.inl rfl
      · rcases followLinks_false t linkLimit [] path.steps with hsame | ⟨p, target, hlink⟩
        · exact Or.inl (by rw [hsame])
        · refine Or.inr ⟨p, target, ?_⟩
          rw [hlink, Path.orNullDevice_of_ne _ _ (by simp)]

theorem list_eq_ok_iff (t : Tree) (path : Path) (listing : List (FileName × Kind)) :
    t.list path = .ok listing ↔
      ∃ place, t.resolve true path = .ok (.directory place) ∧ listing = t.children place := by
  unfold list
  split
  · rename_i place h
    rw [h]
    simp [eq_comm]
  · rename_i found hother h
    rw [h]
    constructor
    · simp
    · rintro ⟨place, hplace, -⟩
      exact absurd (Except.ok.inj hplace) (hother place)
  · rename_i cause h
    rw [h]
    simp

end Tree

/-- The first listing of a walk in the three cases that the root can be in: it leads nowhere, to a
directory, or to something else. -/
theorem Walk.listRoot_eq (t : Tree) (root : Path) :
    listRoot t root =
      match t.resolve true root with
      | .error cause => .error (.unlisted [] cause)
      | .ok (.directory place) => .ok (Pending.ofListing [] (t.children place))
      | .ok _ => .error .rootNotDirectory := by
  unfold listRoot
  rcases t.resolve_false root with h | ⟨p, target, h⟩
  · rw [h]
    cases t.resolve true root with
    | error cause => rfl
    | ok found => cases found <;> rfl
  · cases t.resolve true root with
    | error cause => simp only [h]
    | ok found => cases found <;> simp only [h]

end ImportCensus
