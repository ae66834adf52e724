import ImportCensus.Proofs.SoleFile
import ImportCensus.Proofs.WalkPairs

namespace ImportCensus

namespace Lines

variable {α : Type} [DecidableEq α]

def withReturns (feed ret : α) (whole : List α) : List α :=
  whole.flatMap fun x => if x = feed then [ret, feed] else [x]

theorem withReturns_of_notMem (feed ret : α) (whole : List α) (h : feed ∉ whole) :
    withReturns feed ret whole = whole := by
  unfold withReturns
  induction whole with
  | nil => rfl
  | cons x whole ih =>
    obtain ⟨hx, hwhole⟩ := not_or.1 (List.mem_cons.not.1 h)
    rw [List.flatMap_cons, ih hwhole, if_neg (Ne.symm hx)]
    rfl

/-- The lines stay the same when every line feed gets a carriage return in front of it, if there was
none there before. -/
theorem split_withReturns (feed ret : α) (hne : ret ≠ feed) (whole : List α)
    (h : ¬[ret, feed] <:+: whole) :
    split feed ret (withReturns feed ret whole) = split feed ret whole := by
  induction whole using induction_by_lines feed with
  | last whole hfree => rw [withReturns_of_notMem feed ret whole hfree]
  | line front back hfront ih =>
    have hreturn : front.getLast? ≠ some ret := by
      intro hlast
      obtain ⟨before, rfl⟩ := List.getLast?_eq_some_iff.1 hlast
      exact h ⟨before, back, by simp⟩
    have hback : ¬[ret, feed] <:+: back := by
      intro hwithin
      exact h (hwithin.trans (List.suffix_append_of_suffix (List.suffix_cons feed back)).isInfix)
    have hfrontReturn : feed ∉ front ++ [ret] := by
      simp [hfront, Ne.symm hne]
    have hwith : withReturns feed ret (front ++ feed :: back) =
        (front ++ [ret]) ++ feed :: withReturns feed ret back := by
      have hkept := withReturns_of_notMem feed ret front hfront
      unfold withReturns at hkept ⊢
      rw [List.flatMap_append, List.flatMap_cons, hkept]
      simp
    rw [hwith, split_of_line feed ret _ _ hfrontReturn, split_of_line feed ret _ _ hfront,
      ih hback]
    simp [dropOne, hreturn]

end Lines

/-- Two trees have the same entries, but where one has a file the other one may have a file with
other contents, which are related to those of the first. -/
def SameUpTo (Related : Bytes → Bytes → Prop) (t t' : Tree) : Prop :=
  ∀ place, t'.get? place = t.get? place ∨
    ∃ data data', Related data data' ∧ t.get? place = some (.file data) ∧
      t'.get? place = some (.file data')

inductive LeadsAlike (Related : Bytes → Bytes → Prop) :
    Except Cause Found → Except Cause Found → Prop where
  | same (result : Except Cause Found) : LeadsAlike Related result result
  | file (data data' : Bytes) (h : Related data data') :
      LeadsAlike Related (.ok (.file data)) (.ok (.file data'))

section SameUpTo

variable {Related : Bytes → Bytes → Prop} {t t' : Tree}

theorem follow_of_sameUpTo (h : SameUpTo Related t t')
    (pass pass' : Place → Path → List Step → Except Cause Found)
    (hpass : ∀ place target rest,
      LeadsAlike Related (pass place target rest) (pass' place target rest))
    (place : Place) (steps : List Step) :
    LeadsAlike Related (t.follow true pass place steps) (t'.follow true pass' place steps) := by
  induction steps generalizing place with
  | nil => exact .same _
  | cons step steps ih =>
    cases step with
    | stay => exact ih place
    | up => exact ih place.dropLast
    | into n =>
      rw [Tree.follow, Tree.follow]
      by_cases hlong : nameLimit < n.length
      · rw [if_pos hlong, if_pos hlong]
        exact .same _
      · rw [if_neg hlong, if_neg hlong]
        rcases h (place ++ [n]) with hentry | ⟨data, data', hdata, hentry, hentry'⟩
        · rw [hentry]
          cases t.get? (place ++ [n]) with
          | none => exact .same _
          | some e =>
            cases e with
            | file content => exact .same _
            | directory => exact ih (place ++ [n])
            | link target =>
              rw [Bool.not_true, Bool.and_false]
              exact hpass place target steps
        · -- a file ends the way in both trees, and what it holds matters only if the way ends here
          rw [hentry, hentry']
          cases steps with
          | nil => exact .file data data' hdata
          | cons step steps => exact .same _

theorem leadsAlike_orNullDevice (path : Path) (rest : List Step) (result result' : Except Cause Found)
    (h : LeadsAlike Related result result') :
    LeadsAlike Related (path.orNullDevice rest result) (path.orNullDevice rest result') := by
  cases h with
  | same => exact .same _
  | file data data' hdata =>
    rw [Path.orNullDevice_of_ne _ _ (by simp), Path.orNullDevice_of_ne _ _ (by simp)]
    exact .file data data' hdata

theorem followLinks_of_sameUpTo (h : SameUpTo Related t t') (links : Nat) (place : Place)
    (steps : List Step) :
    LeadsAlike Related (t.followLinks true links place steps)
      (t'.followLinks true links place steps) := by
  induction links generalizing place steps with
  | zero => exact follow_of_sameUpTo h _ _ (fun _ _ _ => .same _) place steps
  | succ links ih =>
    refine follow_of_sameUpTo h _ _ ?_ place steps
    intro place target rest
    exact leadsAlike_orNullDevice target rest _ _ (ih (target.origin place) (target.steps ++ rest))

theorem resolve_of_sameUpTo (h : SameUpTo Related t t') (path : Path) :
    LeadsAlike Related (t.resolve true path) (t'.resolve true path) := by
  rw [Tree.resolve_eq, Tree.resolve_eq]
  split
  · exact .same _
  · split
    · exact .same _
    · split
      · exact .same _
      · exact leadsAlike_orNullDevice path [] _ _
          (followLinks_of_sameUpTo h linkLimit [] path.steps)

theorem children_of_sameUpTo (h : SameUpTo Related t t') (place : Place) :
    t'.children place = t.children place := by
  refine t'.children_eq_of_kinds place _ (t.ordered_children place) ?_
  intro n kind
  rw [t.mem_children_iff]
  rcases h (place ++ [n]) with hentry | ⟨data, data', -, hentry, hentry'⟩
  · rw [hentry]
  · simp [hentry, hentry', Entry.kind]

theorem isDirectory_of_sameUpTo (h : SameUpTo Related t t') (path : Path) :
    t'.isDirectory path = t.isDirectory path := by
  have hleads := resolve_of_sameUpTo h path
  unfold Tree.isDirectory
  generalize t.resolve true path = result at hleads
  generalize t'.resolve true path = result' at hleads
  cases hleads <;> rfl

theorem list_of_sameUpTo (h : SameUpTo Related t t') (path : Path) :
    t'.list path = t.list path := by
  have hleads := resolve_of_sameUpTo h path
  have hchildren : t'.children = t.children := funext (children_of_sameUpTo h)
  unfold Tree.list
  rw [hchildren]
  generalize t.resolve true path = result at hleads
  generalize t'.resolve true path = result' at hleads
  cases hleads <;> rfl

theorem listRoot_of_sameUpTo (h : SameUpTo Related t t') (root : Path) :
    Walk.listRoot t' root = Walk.listRoot t root := by
  have hleads := resolve_of_sameUpTo h root
  have hchildren : t'.children = t.children := funext (children_of_sameUpTo h)
  rw [Walk.listRoot_eq, Walk.listRoot_eq, hchildren]
  generalize t.resolve true root = result at hleads
  generalize t'.resolve true root = result' at hleads
  cases hleads <;> rfl

theorem discover_of_sameUpTo (h : SameUpTo Related t t') (root : Path) (suffix : Text) :
    t'.discover root suffix = t.discover root suffix := by
  have hvisit (p : Pending) :
      (Walk.start root suffix).visit t' p = (Walk.start root suffix).visit t p := by
    unfold Walk.visit
    dsimp only
    rw [list_of_sameUpTo h, isDirectory_of_sameUpTo h]
  have hstep : InStep t' t root root suffix Eq := by
    refine ⟨?_, ?_⟩
    · rw [listRoot_of_sameUpTo h]
      cases Walk.listRoot t root with
      | error item => exact Or.inl ⟨item, rfl, rfl⟩
      | ok listed => exact Or.inr ⟨listed, listed, rfl, rfl, List.forall₂_refl listed⟩
    · rintro p _ rfl
      rw [hvisit]
      exact ⟨rfl, List.forall₂_refl _⟩
  exact Walk.discover_of_inStep hstep

/-- A census depends on the contents of files only through their lines. -/
theorem effects_of_sameUpTo (h : SameUpTo Related t t')
    (hlines : ∀ data data', Related data data' → sourceLines data' = sourceLines data)
    (config : Config) : t'.effects config = t.effects config := by
  have hread (path : Path) : t'.readLines path = t.readLines path := by
    have hleads := resolve_of_sameUpTo h path
    unfold Tree.readLines Tree.openFile
    generalize t.resolve true path = result at hleads
    generalize t'.resolve true path = result' at hleads
    cases hleads with
    | same => rfl
    | file data data' hdata =>
      dsimp only
      rw [Tree.Opened.lines_content, Tree.Opened.lines_content, hlines data data' hdata]
  have hitem (item : Item) : Effect.ofItem t' config item = Effect.ofItem t config item := by
    unfold Effect.ofItem Effect.ofFile
    simp only [hread]
  unfold Tree.effects
  rw [discover_of_sameUpTo h]
  exact List.flatMap_congr fun item _ => hitem item

end SameUpTo

/-- Contents of a file, and the same with a carriage return in front of every line feed. There was
none in front of any of them before. -/
def GainsReturns (data data' : Bytes) : Prop :=
  ¬[0x0D, 0x0A] <:+: data ∧ data' = Lines.withReturns 0x0A 0x0D data

theorem sourceLines_of_gainsReturns (data data' : Bytes) (h : GainsReturns data data') :
    sourceLines data' = sourceLines data := by
  obtain ⟨hnone, rfl⟩ := h
  unfold sourceLines
  rw [Lines.split_withReturns 0x0A 0x0D (by decide) data hnone]

/-- Line endings make no difference. If in some files of a tree every line feed gets a carriage
return in front of it, where there was none before, then the census is the same: the same references
and counters, the same log, and the same failure if there is one. -/
theorem census_of_lineEndings (t t' : Tree) (config : Config) (h : SameUpTo GainsReturns t t') :
    t'.census config = t.census config := by
  rw [Tree.census_eq, Tree.census_eq, effects_of_sameUpTo h sourceLines_of_gainsReturns]

def feedsOnly : Bytes :=
  Utf8.encode "import a.B;\r x".toList ++ [0xE2, 0x0A] ++
    Utf8.encode "import c d;\nimport e.F;".toList

def feedsWithReturns : Bytes :=
  Utf8.encode "import a.B;\r x".toList ++ [0xE2, 0x0D, 0x0A] ++
    Utf8.encode "import c d;\r\nimport e.F;".toList

theorem sameUpTo_soleFile (Related : Bytes → Bytes → Prop) (data data' : Bytes)
    (h : Related data data') : SameUpTo Related (soleFile data) (soleFile data') := by
  intro place
  by_cases hsole : place = [soleName]
  · rw [hsole]
    exact Or.inr ⟨data, data', h, rfl, rfl⟩
  · refine Or.inl (Option.ext fun e => ?_)
    rw [get?_soleFile, get?_soleFile]
    simp [hsole]

theorem census_of_lineEndings_soleFile :
    feedsWithReturns ≠ feedsOnly ∧
      SameUpTo GainsReturns (soleFile feedsOnly) (soleFile feedsWithReturns) ∧
      (soleFile feedsWithReturns).census atTop = (soleFile feedsOnly).census atTop := by
  have hgains : GainsReturns feedsOnly feedsWithReturns := ⟨by decide +kernel, by decide +kernel⟩
  have hsame := sameUpTo_soleFile GainsReturns feedsOnly feedsWithReturns hgains
  exact ⟨by decide +kernel, hsame, census_of_lineEndings _ _ atTop hsame⟩

end ImportCensus
