import Mathlib.Data.List.Forall2
import ImportCensus.Proofs.Arguments

namespace ImportCensus.CommandLine

inductive Choice where
  | root (path : Path)
  | extension (name : Text)
  | exclude (excluded : Text)
  | switch (s : Switch)
deriving DecidableEq

namespace Choice

def flag : Choice → Flag
  | root _ => .setting .root
  | extension _ => .setting .extension
  | exclude _ => .setting .exclude
  | switch s => .switch s

def value? : Choice → Option (Setting × Bytes)
  | root path => some (.root, path)
  | extension name => some (.extension, Utf8.encode ('.' :: name))
  | exclude excluded => some (.exclude, Utf8.encode excluded)
  | switch _ => none

/-- The arguments that a choice can be written as. A value is attached to its option, or it stands
behind it unless it begins with a dash. -/
def spellings (c : Choice) : List (List Bytes) :=
  match c.value? with
  | some (s, value) =>
    let option := Utf8.encode ("--".toList ++ s.long)
    [option ++ 0x3D :: value] :: if value.head? = some 0x2D then [] else [[option, value]]
  | none => c.flag.spellings.map fun argument => [argument]

@[simp]
def root? : Choice → Option Path
  | root path => some path
  | _ => none

@[simp]
def extension? : Choice → Option Text
  | extension name => some name
  | _ => none

@[simp]
def exclude? : Choice → Option Text
  | exclude excluded => some excluded
  | _ => none

@[simp]
def switch? : Choice → Option Switch
  | switch s => some s
  | _ => none

end Choice

/-- What a command line is to ask for: settings, where they are wanted, and switches. -/
structure Selection where
  root : Option Path
  extension : Option Text
  exclude : Option Text
  skipMalformed : Bool
  verbosity : Verbosity
deriving DecidableEq

namespace Selection

def choices (q : Selection) : List Choice :=
  (q.root.map Choice.root).toList ++ (q.extension.map Choice.extension).toList ++
    (q.exclude.map Choice.exclude).toList ++
    (if q.skipMalformed then [.switch .skipMalformed] else []) ++
    (q.verbosity.switch?.map Choice.switch).toList

def options (q : Selection) : Options where
  config :=
    { root := q.root.getD Config.default.root
      extension := q.extension.getD Config.default.extension
      excludedNamespace := q.exclude.getD Config.default.excludedNamespace
      malformed := if q.skipMalformed then .skip else .abort }
  verbosity := q.verbosity

end Selection

namespace Reading

def ofChoices (cs : List Choice) : Reading where
  root := cs.findSome? Choice.root?
  extension := (cs.findSome? Choice.extension?).map fun name => '.' :: name
  exclude := cs.findSome? Choice.exclude?
  switches := cs.filterMap Choice.switch?
  waiting := none

section Spelled

variable (r : Reading)

theorem splitValue_append (name value : Bytes) (h : 0x3D ∉ name) :
    splitValue (name ++ 0x3D :: value) = (name, some value) := by
  have hname : ∀ b ∈ name, decide (b ≠ 0x3D) = true := by
    intro b hb
    rw [decide_eq_true_iff]
    rintro rfl
    exact h hb
  unfold splitValue
  rw [List.dropWhile_append_of_pos hname, List.takeWhile_append_of_pos hname]
  simp

theorem takeArgument_attached (s : Setting) (value : Bytes) :
    r.takeArgument (Utf8.encode ("--".toList ++ s.long) ++ 0x3D :: value) =
      r.settle.bind fun q => q.give s value := by
  obtain ⟨hequals, hname⟩ := ofLong?_long (.setting s)
  change r.takeArgument (0x2D :: 0x2D :: (Utf8.encode (Flag.setting s).long ++ 0x3D :: value)) = _
  rw [takeArgument, splitValue_append _ _ hequals, takeLong, Utf8.decode?_encode, Option.bind_some,
    hname]
  dsimp only
  cases r.settle <;> rfl

theorem takeArguments_apart (s : Setting) (value : Bytes) (hdash : value.head? ≠ some 0x2D) :
    [Utf8.encode ("--".toList ++ s.long), value].foldlM takeArgument r =
      r.settle.bind fun q => .ok { q with waiting := some (s, some value) } := by
  obtain ⟨long, hoption⟩ := r.takeArgument_of_spelling (.setting s)
    (Utf8.encode ("--".toList ++ s.long)) List.mem_cons_self
  have hvalue (q : Reading) : q.takeArgument value = q.takePlain value := by
    unfold takeArgument
    split
    · simp at hdash
    · simp at hdash
    · rfl
  rw [List.foldlM_cons, hoption, takeFlag]
  cases r.settle with
  | error halt => rfl
  | ok q =>
    change ({ q with waiting := some (s, none) } : Reading).takeArgument value >>= _ = _
    rw [hvalue]
    rfl

end Spelled

section Chosen

variable (done : List Choice)

theorem findSome?_of_notMem {α : Type} (select : Choice → Option α) (f : Flag)
    (hselect : ∀ c x, select c = some x → c.flag = f) (hnew : f ∉ done.map Choice.flag) :
    done.findSome? select = none := by
  rw [List.findSome?_eq_none_iff]
  intro c hc
  cases hfound : select c with
  | none => rfl
  | some x =>
    have hflag : c.flag = f := hselect c x hfound
    exact absurd (List.mem_map.2 ⟨c, hc, hflag⟩) hnew

theorem flag_of_root? (c : Choice) (path : Path) (h : c.root? = some path) :
    c.flag = .setting .root := by
  cases c <;> cases h
  rfl

theorem flag_of_extension? (c : Choice) (name : Text) (h : c.extension? = some name) :
    c.flag = .setting .extension := by
  cases c <;> cases h
  rfl

theorem flag_of_exclude? (c : Choice) (excluded : Text) (h : c.exclude? = some excluded) :
    c.flag = .setting .exclude := by
  cases c <;> cases h
  rfl

theorem give_ofChoices (c : Choice) (s : Setting) (value : Bytes)
    (hvalue : c.value? = some (s, value)) (hroot : c ≠ .root [])
    (hnew : c.flag ∉ done.map Choice.flag) :
    (ofChoices done).give s value = .ok (ofChoices (done ++ [c])) := by
  unfold ofChoices
  simp only [List.findSome?_append, List.filterMap_append]
  cases c with
  | switch s => cases hvalue
  | root path =>
    obtain ⟨rfl, rfl⟩ := Prod.mk.inj (Option.some.inj hvalue)
    have hnone := findSome?_of_notMem done Choice.root? _ flag_of_root? hnew
    have hpath : path.isEmpty = false := by
      cases path with
      | nil => exact absurd rfl hroot
      | cons b path => rfl
    simp [give, isGiven, hnone, hpath]
  | extension name =>
    obtain ⟨rfl, rfl⟩ := Prod.mk.inj (Option.some.inj hvalue)
    have hnone := findSome?_of_notMem done Choice.extension? _ flag_of_extension? hnew
    simp [give, isGiven, hnone, Utf8.decode?_encode]
  | exclude excluded =>
    obtain ⟨rfl, rfl⟩ := Prod.mk.inj (Option.some.inj hvalue)
    have hnone := findSome?_of_notMem done Choice.exclude? _ flag_of_exclude? hnew
    simp [give, isGiven, hnone, Utf8.decode?_encode]

theorem giveSwitch_ofChoices (s : Switch)
    (hnew : (Choice.switch s).flag ∉ done.map Choice.flag) :
    (ofChoices done).giveSwitch s = .ok (ofChoices (done ++ [.switch s])) := by
  rw [giveSwitch_eq_ok]
  constructor
  · intro hmem
    obtain ⟨c, hc, hswitch⟩ := List.mem_filterMap.1 hmem
    have hflag : c.flag = .switch s := by
      cases c <;> cases hswitch
      rfl
    exact hnew (List.mem_map.2 ⟨c, hc, hflag⟩)
  · simp [ofChoices, withSwitches, List.findSome?_append]

/-- A choice that is written behind others is taken up, in whatever way it is written. -/
theorem foldlM_spelling (r : Reading) (c : Choice) (piece : List Bytes)
    (hsettled : r.settle = .ok (ofChoices done)) (hpiece : piece ∈ c.spellings)
    (hroot : c ≠ .root []) (hnew : c.flag ∉ done.map Choice.flag) :
    ∃ q, piece.foldlM takeArgument r = .ok q ∧ q.settle = .ok (ofChoices (done ++ [c])) := by
  unfold Choice.spellings at hpiece
  cases hvalue : c.value? with
  | none =>
    rw [hvalue] at hpiece
    obtain ⟨argument, hargument, rfl⟩ := List.mem_map.1 hpiece
    obtain ⟨s, rfl⟩ : ∃ s, c = .switch s := by
      cases c with
      | switch s => exact ⟨s, rfl⟩
      | _ => cases hvalue
    obtain ⟨long, hflag⟩ := r.takeArgument_of_spelling (.switch s) argument hargument
    refine ⟨ofChoices (done ++ [.switch s]), ?_, rfl⟩
    rw [List.foldlM_cons, hflag, takeFlag_switch, hsettled]
    change (ofChoices done).giveSwitch s >>= _ = _
    rw [giveSwitch_ofChoices done s hnew]
    rfl
  | some found =>
    obtain ⟨s, value⟩ := found
    have hgive := give_ofChoices done c s value hvalue hroot hnew
    rw [hvalue] at hpiece
    rcases List.mem_cons.1 hpiece with rfl | hpiece
    · -- an attached value is given at once
      refine ⟨ofChoices (done ++ [c]), ?_, rfl⟩
      rw [List.foldlM_cons, takeArgument_attached, hsettled]
      change (ofChoices done).give s value >>= _ = _
      rw [hgive]
      rfl
    · -- one behind its option waits until the next option comes up
      split at hpiece
      · cases hpiece
      · rename_i hdash
        obtain rfl := List.mem_singleton.1 hpiece
        refine ⟨{ ofChoices done with waiting := some (s, some value) }, ?_, hgive⟩
        rw [takeArguments_apart r s value hdash, hsettled]
        rfl

/-- Choices with different options are taken up one after the other. -/
theorem foldlM_spellings (cs : List Choice) (pieces : List (List Bytes)) (r : Reading)
    (hsettled : r.settle = .ok (ofChoices done))
    (hpieces : List.Forall₂ (fun piece c => piece ∈ c.spellings) pieces cs)
    (hroot : .root [] ∉ cs) (hnodup : ((done ++ cs).map Choice.flag).Nodup) :
    ∃ q, pieces.flatten.foldlM takeArgument r = .ok q ∧
      q.settle = .ok (ofChoices (done ++ cs)) := by
  induction hpieces generalizing done r with
  | nil =>
    refine ⟨r, rfl, ?_⟩
    rw [List.append_nil]
    exact hsettled
  | @cons piece c pieces cs hpiece hrest ih =>
    obtain ⟨hfirst, hlater⟩ := not_or.1 (List.mem_cons.not.1 hroot)
    have hsplit : done ++ c :: cs = done ++ [c] ++ cs := by simp
    have hnew : c.flag ∉ done.map Choice.flag := by
      rw [List.map_append, List.nodup_append] at hnodup
      intro hmem
      exact hnodup.2.2 _ hmem _ (List.mem_map_of_mem List.mem_cons_self) rfl
    obtain ⟨m, hm, hmiddle⟩ :=
      foldlM_spelling done r c piece hsettled hpiece (Ne.symm hfirst) hnew
    rw [hsplit] at hnodup ⊢
    obtain ⟨q, hq, hlast⟩ := ih (done ++ [c]) m hmiddle hlater hnodup
    refine ⟨q, ?_, hlast⟩
    rw [List.flatten_cons, List.foldlM_append, hm]
    exact hq

end Chosen

end Reading

theorem doubleDash_notMem_spelling (c : Choice) (piece : List Bytes) (h : piece ∈ c.spellings) :
    doubleDash ∉ piece := by
  unfold Choice.spellings at h
  cases hvalue : c.value? with
  | none =>
    rw [hvalue] at h
    obtain ⟨argument, hargument, rfl⟩ := List.mem_map.1 h
    rintro hmem
    rw [← List.mem_singleton.1 hmem] at hargument
    exact Reading.doubleDash_notMem_spellings _ hargument
  | some found =>
    obtain ⟨s, value⟩ := found
    have hoption : Utf8.encode ("--".toList ++ s.long) ≠ doubleDash := by
      cases s <;> decide
    rw [hvalue] at h
    rcases List.mem_cons.1 h with rfl | h
    · intro hmem
      have hlength := congrArg List.length (List.mem_singleton.1 hmem)
      have hdash : doubleDash.length = 2 := rfl
      have hlong : 2 ≤ (Utf8.encode ("--".toList ++ s.long)).length := by
        cases s <;> decide
      rw [hdash, List.length_append, List.length_cons] at hlength
      omega
    · split at h
      · cases h
      · rename_i hdash
        obtain rfl := List.mem_singleton.1 h
        intro hmem
        rcases List.mem_cons.1 hmem with heq | hmem
        · exact hoption heq.symm
        · rw [← List.mem_singleton.1 hmem] at hdash
          exact hdash rfl

theorem head?_of_perm {α : Type} (l : List α) (o : Option α) (h : l.Perm o.toList) :
    l.head? = o := by
  cases o with
  | none =>
    rw [List.perm_nil.1 h]
    rfl
  | some a =>
    rw [List.perm_singleton.1 h]
    rfl

namespace Selection

variable (q : Selection)

def switches : List Switch :=
  (if q.skipMalformed then [.skipMalformed] else []) ++ q.verbosity.switch?.toList

theorem filterMap_toList {α β : Type} (o : Option α) (f : α → Choice) (select : Choice → Option β) :
    (o.map f).toList.filterMap select = (o.bind fun a => select (f a)).toList := by
  cases o with
  | none => rfl
  | some a => cases h : select (f a) <;> simp [h]

theorem filterMap_choices :
    q.choices.filterMap Choice.root? = q.root.toList ∧
      q.choices.filterMap Choice.extension? = q.extension.toList ∧
      q.choices.filterMap Choice.exclude? = q.exclude.toList ∧
      q.choices.filterMap Choice.switch? = q.switches := by
  unfold choices switches
  simp only [List.filterMap_append, filterMap_toList]
  cases q.skipMalformed <;> simp

theorem nodup_choices : (q.choices.map Choice.flag).Nodup := by
  have hone {α : Type} (o : Option α) (f : α → Choice) (x : Flag) (h : ∀ a, (f a).flag = x) :
      ((o.map f).toList.map Choice.flag).Sublist [x] := by
    cases o with
    | none => exact List.nil_sublist [x]
    | some a => simp [h]
  have hskip : ((if q.skipMalformed then [Choice.switch .skipMalformed] else []).map
      Choice.flag).Sublist [.switch .skipMalformed] := by
    cases q.skipMalformed <;> simp [Choice.flag]
  have hverbosity : ((q.verbosity.switch?.map Choice.switch).toList.map Choice.flag).Sublist
      [.switch .quiet, .switch .verbose] := by
    cases q.verbosity <;> simp [Verbosity.switch?, Choice.flag]
  -- the options stand in the order in which all of them are listed
  have hall : (q.choices.map Choice.flag).Sublist
      [.setting .root, .setting .extension, .setting .exclude, .switch .skipMalformed,
        .switch .quiet, .switch .verbose] := by
    have hroot := hone q.root Choice.root (.setting .root) fun _ => rfl
    have hextension := hone q.extension Choice.extension (.setting .extension) fun _ => rfl
    have hexclude := hone q.exclude Choice.exclude (.setting .exclude) fun _ => rfl
    unfold choices
    simp only [List.map_append]
    exact (((hroot.append hextension).append hexclude).append hskip).append hverbosity
  exact hall.nodup (by decide)

section Order

variable (order : List Choice) (horder : order.Perm q.choices)

include horder

theorem findSome?_of_perm {α : Type} (select : Choice → Option α) (o : Option α)
    (hselect : q.choices.filterMap select = o.toList) : order.findSome? select = o := by
  rw [← List.head?_filterMap]
  apply head?_of_perm
  rw [← hselect]
  exact horder.filterMap select

theorem switches_of_perm : (order.filterMap Choice.switch?).Perm q.switches := by
  rw [← q.filterMap_choices.2.2.2]
  exact horder.filterMap Choice.switch?

theorem config_of_perm : (Reading.ofChoices order).config = q.options.config := by
  obtain ⟨hroot, hextension, hexclude, -⟩ := q.filterMap_choices
  have hskip : (order.filterMap Choice.switch?).contains .skipMalformed = q.skipMalformed := by
    rw [(q.switches_of_perm order horder).contains_eq]
    unfold switches
    cases q.skipMalformed <;> cases q.verbosity <;> rfl
  have hbare : (fun name : Text => Config.bareExtension ('.' :: name)) = id := rfl
  simp only [Reading.config, Reading.ofChoices, options, hskip, Option.map_map, Function.comp_def,
    hbare, Option.map_id, id,
    q.findSome?_of_perm order horder _ _ hroot, q.findSome?_of_perm order horder _ _ hextension,
    q.findSome?_of_perm order horder _ _ hexclude]

theorem verbosities_of_perm :
    (Reading.ofChoices order).verbosities = q.verbosity.switch?.toList := by
  have hperm := (q.switches_of_perm order horder).filter fun s => s = .quiet || s = .verbose
  have hwanted : (q.switches.filter fun s => s = .quiet || s = .verbose) =
      q.verbosity.switch?.toList := by
    unfold switches
    cases q.skipMalformed <;> cases q.verbosity <;> rfl
  rw [hwanted] at hperm
  cases hswitch : q.verbosity.switch? with
  | none =>
    rw [hswitch] at hperm
    exact List.perm_nil.1 hperm
  | some s =>
    rw [hswitch] at hperm
    exact List.perm_singleton.1 hperm

/-- In whatever order the choices of a selection have been read, they come to its options. -/
theorem options_of_perm : (Reading.ofChoices order).options = .ok q.options := by
  have hverbosities := q.verbosities_of_perm order horder
  have hconfig := q.config_of_perm order horder
  cases hswitch : q.verbosity.switch? with
  | none =>
    have hnormal : q.verbosity = .normal := by
      cases hv : q.verbosity <;> rw [hv] at hswitch <;> first | rfl | cases hswitch
    rw [hswitch] at hverbosities
    rw [Reading.options_of_none _ hverbosities, hconfig, ← hnormal]
    rfl
  | some s =>
    rw [hswitch] at hverbosities
    rw [Reading.options_of_one _ s q.verbosity hswitch hverbosities, hconfig]
    rfl

end Order

end Selection

theorem doubleDash_notMem_flatten (cs : List Choice) (pieces : List (List Bytes))
    (h : List.Forall₂ (fun piece c => piece ∈ c.spellings) pieces cs) :
    doubleDash ∉ pieces.flatten := by
  induction h with
  | nil => exact List.not_mem_nil
  | @cons piece c pieces cs hpiece hrest ih =>
    rw [List.flatten_cons, List.mem_append, not_or]
    exact ⟨doubleDash_notMem_spelling c piece hpiece, ih⟩

theorem parse_of_choices (q : Selection) (order : List Choice) (pieces : List (List Bytes))
    (hroot : q.root ≠ some []) (horder : order.Perm q.choices)
    (hpieces : List.Forall₂ (fun piece c => piece ∈ c.spellings) pieces order) :
    parse pieces.flatten = .ok q.options := by
  have hnone : .root [] ∉ order := by
    intro hmem
    have hempty : [] ∈ q.choices.filterMap Choice.root? :=
      List.mem_filterMap.2 ⟨.root [], horder.subset hmem, rfl⟩
    rw [q.filterMap_choices.1, Option.mem_toList] at hempty
    exact hroot hempty
  have hnodup : (([] ++ order).map Choice.flag).Nodup :=
    (horder.map Choice.flag).nodup_iff.2 q.nodup_choices
  obtain ⟨last, hread, hsettled⟩ :=
    Reading.foldlM_spellings [] order pieces Reading.start rfl hpieces hnone hnodup
  rw [parse_eq_ok]
  refine ⟨Reading.ofChoices order, ?_, q.options_of_perm order horder⟩
  have hall := Reading.start.takeAll_append pieces.flatten []
    (doubleDash_notMem_flatten order pieces hpieces)
  rw [List.append_nil, hread] at hall
  rw [hall]
  exact hsettled

def Selection.ofOptions (o : Options) : Selection where
  root := some o.config.root
  extension := some o.config.extension
  exclude := some o.config.excludedNamespace
  skipMalformed := o.config.malformed = .skip
  verbosity := o.verbosity

theorem options_ofOptions (o : Options) : (Selection.ofOptions o).options = o := by
  obtain ⟨⟨root, extension, exclude, malformed⟩, verbosity⟩ := o
  cases malformed <;> rfl

theorem exists_spelling (c : Choice) : ∃ piece, piece ∈ c.spellings := by
  unfold Choice.spellings
  cases c.value? with
  | some found => exact ⟨_, List.mem_cons_self⟩
  | none => exact ⟨_, List.mem_map_of_mem (List.mem_cons_self)⟩

theorem exists_spellings (cs : List Choice) :
    ∃ pieces, List.Forall₂ (fun piece c => piece ∈ c.spellings) pieces cs := by
  induction cs with
  | nil => exact ⟨[], .nil⟩
  | cons c cs ih =>
    obtain ⟨piece, hpiece⟩ := exists_spelling c
    obtain ⟨pieces, hpieces⟩ := ih
    exact ⟨piece :: pieces, .cons hpiece hpieces⟩

/-- Whatever is wanted, its choices are read as what they come to, in any order and each in any of
its spellings. So every configuration that has a root can be asked for, with any verbosity. -/
theorem parse_of_spellings :
    (∀ (q : Selection) (order : List Choice) (pieces : List (List Bytes)), q.root ≠ some [] →
      order.Perm q.choices → List.Forall₂ (fun piece c => piece ∈ c.spellings) pieces order →
        parse pieces.flatten = .ok q.options) ∧
      ∀ o : Options, o.config.root ≠ [] → ∃ arguments, parse arguments = .ok o := by
  refine ⟨parse_of_choices, ?_⟩
  intro o hroot
  obtain ⟨pieces, hpieces⟩ := exists_spellings (Selection.ofOptions o).choices
  have hwanted : (Selection.ofOptions o).root ≠ some [] := fun h => hroot (Option.some.inj h)
  have hparse := parse_of_choices (Selection.ofOptions o) _ pieces hwanted (List.Perm.refl _) hpieces
  rw [options_ofOptions] at hparse
  exact ⟨pieces.flatten, hparse⟩

def oddSelection : Selection where
  root := some [0xFF, 0x3D, 0x2D]
  extension := some ".x".toList
  exclude := some "ext=a".toList
  skipMalformed := true
  verbosity := .quiet

def oddOrder : List Choice :=
  [.switch .quiet, .exclude "ext=a".toList, .root [0xFF, 0x3D, 0x2D], .switch .skipMalformed,
    .extension ".x".toList]

def oddPieces : List (List Bytes) :=
  [[Utf8.encode "-q".toList],
    [Utf8.encode "--exclude".toList, Utf8.encode "ext=a".toList],
    [Utf8.encode "--root=".toList ++ [0xFF, 0x3D, 0x2D]],
    [Utf8.encode "--skip-malformed".toList],
    [Utf8.encode "--ext".toList, Utf8.encode "..x".toList]]

theorem parse_of_spellings_oddSelection :
    oddSelection.root ≠ some [] ∧ oddOrder.Perm oddSelection.choices ∧
      List.Forall₂ (fun piece c => piece ∈ c.spellings) oddPieces oddOrder ∧
      parse oddPieces.flatten =
        .ok ⟨⟨[0xFF, 0x3D, 0x2D], ".x".toList, "ext=a".toList, .skip⟩, .quiet⟩ := by
  have hroot : oddSelection.root ≠ some [] := by decide
  have horder : oddOrder.Perm oddSelection.choices := by decide
  have hpieces : List.Forall₂ (fun piece c => piece ∈ c.spellings) oddPieces oddOrder :=
    .cons (by decide) (.cons (by decide) (.cons (by decide) (.cons (by decide)
      (.cons (by decide) .nil))))
  exact ⟨hroot, horder, hpieces,
    parse_of_spellings.1 oddSelection oddOrder oddPieces hroot horder hpieces⟩

end ImportCensus.CommandLine
