import ImportCensus.CommandLine.Options
import ImportCensus.Proofs.Decoding

namespace ImportCensus

def Verbosity.switch? : Verbosity → Option CommandLine.Switch
  | quiet => some .quiet
  | normal => none
  | verbose => some .verbose

namespace CommandLine

def doubleDash : Bytes := [0x2D, 0x2D]

def Flag.spellings (f : Flag) : List Bytes :=
  Utf8.encode ("--".toList ++ f.long) :: f.short?.toList.map fun c => Utf8.encode ['-', c]

theorem bind_eq_ok (x : Except Halt α) (f : α → Except Halt β) (b : β) :
    x.bind f = .ok b ↔ ∃ a, x = .ok a ∧ f a = .ok b := by
  cases x with
  | error halt =>
    constructor
    · intro h
      cases h
    · rintro ⟨a, ha, -⟩
      cases ha
  | ok a =>
    constructor
    · intro h
      exact ⟨a, rfl, h⟩
    · rintro ⟨a', ha, h⟩
      cases ha
      exact h

namespace Reading

section Parts

variable (r q : Reading)

theorem takeAll_cons (argument : Bytes) (rest : List Bytes) (h : argument ≠ doubleDash) :
    r.takeAll (argument :: rest) = (r.takeArgument argument).bind fun q => q.takeAll rest := by
  rw [takeAll]
  · cases r.takeArgument argument <;> rfl
  · intro hdash
    exact absurd hdash h
  · intro _ _ hdash
    exact absurd hdash h

/-- Arguments in front of which no double dash stands are read first. -/
theorem takeAll_append (front back : List Bytes) (h : doubleDash ∉ front) :
    r.takeAll (front ++ back) = (front.foldlM takeArgument r).bind fun q => q.takeAll back := by
  induction front generalizing r with
  | nil => rfl
  | cons argument front ih =>
    obtain ⟨hfirst, hrest⟩ := not_or.1 (List.mem_cons.not.1 h)
    rw [List.cons_append, takeAll_cons r _ _ (Ne.symm hfirst), List.foldlM_cons]
    cases r.takeArgument argument with
    | error halt => rfl
    | ok q => exact ih q hrest

theorem waiting_of_give (s : Setting) (value : Bytes) (h : r.give s value = .ok q) :
    q.waiting = r.waiting := by
  unfold give at h
  split at h
  · cases h
  · cases s with
    | root =>
      dsimp only at h
      split at h <;> cases h
      rfl
    | extension | exclude =>
      dsimp only at h
      split at h <;> cases h
      rfl

theorem waiting_of_settle (h : r.settle = .ok q) : q.waiting = none := by
  unfold settle at h
  split at h
  · rename_i hnone
    cases h
    exact hnone
  · cases h
  · exact waiting_of_give _ q _ _ h

theorem settle_of_settle (h : r.settle = .ok q) : q.settle = .ok q := by
  rw [settle, waiting_of_settle r q h]

theorem takeFlag_of_settle (h : r.settle = .ok q) (long : Bool) (f : Flag) :
    r.takeFlag long f = q.takeFlag long f := by
  rw [takeFlag, takeFlag, h, settle_of_settle r q h]

theorem takeLong_of_settle (h : r.settle = .ok q) (name : Bytes) (value : Option Bytes) :
    r.takeLong name value = q.takeLong name value := by
  unfold takeLong
  cases (Utf8.decode? name).bind Flag.ofLong? with
  | none => rfl
  | some f =>
    cases value with
    | none => cases f <;> exact takeFlag_of_settle r q h true _
    | some value =>
      cases f with
      | setting s =>
        dsimp only
        rw [h, settle_of_settle r q h]
      | switch s => rfl
      | help => rfl
      | version => rfl

theorem takeLetters_of_settle (h : r.settle = .ok q) (behind : Text) (letters : List (Option Char))
    (hletters : letters ≠ []) : r.takeLetters behind letters = q.takeLetters behind letters := by
  cases letters with
  | nil => exact absurd rfl hletters
  | cons letter rest =>
    cases letter with
    | none => rfl
    | some c =>
      unfold takeLetters
      cases Flag.ofShort? c with
      | none => rfl
      | some f =>
        dsimp only
        rw [takeFlag_of_settle r q h]

theorem takePlain_of_settle (h : r.settle = .ok q) (argument : Bytes) :
    r.takePlain argument = q.takePlain argument := by
  have hrefused (p : Reading) (hp : ∀ s, p.waiting ≠ some (s, none)) :
      p.takePlain argument = .error (.refused (.unknownArgument (Utf8.decode argument))) := by
    unfold takePlain
    split
    · rename_i s hwaiting
      exact absurd hwaiting (hp s)
    · rfl
  rw [hrefused r, hrefused q]
  · intro s hwaiting
    rw [waiting_of_settle r q h] at hwaiting
    cases hwaiting
  · intro s hwaiting
    rw [settle, hwaiting] at h
    cases h

theorem takeArgument_of_settle (h : r.settle = .ok q) (argument : Bytes) :
    r.takeArgument argument = q.takeArgument argument := by
  unfold takeArgument
  split
  · exact takeLong_of_settle r q h _ _
  -- no letters at all would leave the two as they are, but behind the dash there is an octet
  · apply takeLetters_of_settle r q h
    intro hnone
    exact absurd (Utf8.unitsFrom_eq_nil none _ hnone).2 (List.cons_ne_nil _ _)
  · exact takePlain_of_settle r q h _

/-- What waits can as well be settled before the arguments that are left are read. -/
theorem takeAll_of_settle (h : r.settle = .ok q) (arguments : List Bytes) :
    r.takeAll arguments = q.takeAll arguments := by
  cases arguments with
  | nil => exact h.trans (settle_of_settle r q h).symm
  | cons argument rest =>
    by_cases hdash : argument = doubleDash
    · subst hdash
      cases rest with
      | nil => exact h.trans (settle_of_settle r q h).symm
      | cons _ _ => rfl
    · rw [takeAll_cons r _ _ hdash, takeAll_cons q _ _ hdash, takeArgument_of_settle r q h]

end Parts

def withSwitches (r : Reading) (switches : List Switch) : Reading := { r with switches := switches }

def Ignores (step : Reading → Except Halt Reading) : Prop :=
  ∀ r switches, step (r.withSwitches switches) = (step r).map fun q => q.withSwitches switches

theorem ignores_give (s : Setting) (value : Bytes) : Ignores fun r => r.give s value := by
  intro r switches
  have hgiven : (r.withSwitches switches).isGiven s = r.isGiven s := by cases s <;> rfl
  dsimp only
  unfold give
  rw [hgiven]
  cases r.isGiven s with
  | true => rfl
  | false =>
    cases s with
    | root => cases value <;> rfl
    | extension | exclude => cases Utf8.decode? value <;> rfl

theorem ignores_settle : Ignores settle := by
  intro r switches
  obtain ⟨root, extension, exclude, given, waiting⟩ := r
  match waiting with
  | none => rfl
  | some (_, none) => rfl
  | some (s, some value) => exact ignores_give s value ⟨root, extension, exclude, given, none⟩ switches

theorem ignores_takePlain (argument : Bytes) : Ignores fun r => r.takePlain argument := by
  intro r switches
  obtain ⟨root, extension, exclude, given, waiting⟩ := r
  match waiting with
  | none => rfl
  | some (_, none) => rfl
  | some (_, some _) => rfl

def giveSwitch (r : Reading) (s : Switch) : Except Halt Reading :=
  if r.switches.contains s then .error (.refused (.repeated (.switch s)))
  else .ok (r.withSwitches (r.switches ++ [s]))

theorem giveSwitch_eq_ok (r q : Reading) (s : Switch) :
    r.giveSwitch s = .ok q ↔ s ∉ r.switches ∧ q = r.withSwitches (r.switches ++ [s]) := by
  unfold giveSwitch
  split
  · rename_i hgiven
    simp [List.contains_iff_mem.1 hgiven]
  · rename_i hnew
    rw [List.contains_iff_mem] at hnew
    simp [hnew, eq_comm]

theorem takeFlag_switch (r : Reading) (long : Bool) (s : Switch) :
    r.takeFlag long (.switch s) = r.settle.bind fun q => q.giveSwitch s := by
  unfold takeFlag
  cases r.settle <;> rfl

def AddsSwitch (s : Switch) (r r' : Reading) : Prop :=
  ∃ before behind, r.switches = before ++ behind ∧ r' = r.withSwitches (before ++ s :: behind)

/-- A step of the reading keeps the switches that were given. It does the same if one more was given
before, unless it gives that one itself. -/
structure Passes (s : Switch) (step : Reading → Except Halt Reading) : Prop where
  keeps : ∀ r q, step r = .ok q → r.switches ⊆ q.switches
  adds : ∀ r q r', step r = .ok q → s ∉ q.switches → AddsSwitch s r r' →
    ∃ q', step r' = .ok q' ∧ AddsSwitch s q q'

section Passes

variable {s : Switch} {step next : Reading → Except Halt Reading}

theorem passes_of_ignores (h : Ignores step) : Passes s step := by
  have hswitches (r q : Reading) (hq : step r = .ok q) : q.switches = r.switches := by
    have hsame : step r = (step r).map fun q => q.withSwitches r.switches := h r r.switches
    rw [hq] at hsame
    have hq : q.switches = (q.withSwitches r.switches).switches :=
      congrArg switches (Except.ok.inj hsame)
    exact hq
  refine ⟨?_, ?_⟩
  · intro r q hq
    rw [hswitches r q hq]
    exact List.Subset.refl _
  · rintro r q r' hq - ⟨before, behind, hsplit, rfl⟩
    refine ⟨q.withSwitches (before ++ s :: behind), ?_, before, behind, ?_, rfl⟩
    · rw [h, hq]
      rfl
    · rw [hswitches r q hq, hsplit]

theorem passes_error (halt : Halt) : Passes s fun _ => .error halt where
  keeps _ _ h := by cases h
  adds _ _ _ h := by cases h

theorem passes_of_bind (step next whole : Reading → Except Halt Reading)
    (hwhole : ∀ r, whole r = (step r).bind next) (hstep : Passes s step) (hnext : Passes s next) :
    Passes s whole := by
  have hmiddle (r q : Reading) (h : whole r = .ok q) : ∃ m, step r = .ok m ∧ next m = .ok q :=
    (bind_eq_ok _ _ _).1 ((hwhole r).symm.trans h)
  refine ⟨?_, ?_⟩
  · intro r q h
    obtain ⟨m, hm, hq⟩ := hmiddle r q h
    exact List.Subset.trans (hstep.keeps r m hm) (hnext.keeps m q hq)
  · intro r q r' h hs hadds
    obtain ⟨m, hm, hq⟩ := hmiddle r q h
    -- switches are never taken back, so one that is new in the end is new in the middle
    have hsm : s ∉ m.switches := fun hmem => hs (hnext.keeps m q hq hmem)
    obtain ⟨m', hm', hmadds⟩ := hstep.adds r m r' hm hsm hadds
    obtain ⟨q', hq', hqadds⟩ := hnext.adds m q m' hq hs hmadds
    refine ⟨q', ?_, hqadds⟩
    rw [hwhole, hm']
    exact hq'

theorem passes_giveSwitch (given : Switch) : Passes s fun r => r.giveSwitch given := by
  refine ⟨?_, ?_⟩
  · intro r q h
    rw [((r.giveSwitch_eq_ok q given).1 h).2]
    exact List.subset_append_left _ _
  · rintro r q r' h hs ⟨before, behind, hsplit, rfl⟩
    obtain ⟨hnot, rfl⟩ := (r.giveSwitch_eq_ok q given).1 h
    have hs : s ∉ r.switches ++ [given] := hs
    have hother : given ∉ before ++ s :: behind := by
      rw [hsplit] at hs hnot
      simp only [List.mem_append, List.mem_cons, List.not_mem_nil, or_false, not_or] at hs hnot ⊢
      exact ⟨hnot.1, Ne.symm hs.2, hnot.2⟩
    refine ⟨r.withSwitches (before ++ s :: (behind ++ [given])), ?_, before, behind ++ [given], ?_,
      rfl⟩
    · rw [giveSwitch_eq_ok]
      refine ⟨hother, ?_⟩
      simp [withSwitches]
    · simp [withSwitches, hsplit]

theorem passes_takeFlag (long : Bool) (f : Flag) : Passes s fun r => r.takeFlag long f := by
  have hsettle : Passes s settle := passes_of_ignores ignores_settle
  cases f with
  | setting x =>
    refine passes_of_bind settle (fun r => .ok { r with waiting := some (x, none) }) _ ?_ hsettle ?_
    · intro r
      unfold takeFlag
      cases r.settle <;> rfl
    · apply passes_of_ignores
      intro r switches
      rfl
  | switch given =>
    exact passes_of_bind settle _ _ (takeFlag_switch · long given) hsettle (passes_giveSwitch given)
  | help =>
    refine passes_of_bind settle _ _ ?_ hsettle (passes_error (.help long))
    intro r
    unfold takeFlag
    cases r.settle <;> rfl
  | version =>
    refine passes_of_bind settle _ _ ?_ hsettle (passes_error .version)
    intro r
    unfold takeFlag
    cases r.settle <;> rfl

theorem passes_takeLong (name : Bytes) (value : Option Bytes) :
    Passes s fun r => r.takeLong name value := by
  unfold takeLong
  cases (Utf8.decode? name).bind Flag.ofLong? with
  | none => exact passes_error _
  | some f =>
    cases value with
    | none => cases f <;> exact passes_takeFlag true _
    | some value =>
      cases f with
      | setting x =>
        refine passes_of_bind settle (fun r => r.give x value) _ ?_
          (passes_of_ignores ignores_settle) (passes_of_ignores (ignores_give x value))
        intro r
        cases r.settle <;> rfl
      | switch x => exact passes_error _
      | help => exact passes_error _
      | version => exact passes_error _

theorem passes_takeLetters (behind : Text) (letters : List (Option Char)) :
    Passes s fun r => r.takeLetters behind letters := by
  induction letters generalizing behind with
  | nil =>
    apply passes_of_ignores
    intro r switches
    rfl
  | cons letter rest ih =>
    cases letter with
    | none => exact passes_error _
    | some c =>
      unfold takeLetters
      cases Flag.ofShort? c with
      | none => exact passes_error _
      | some f =>
        refine passes_of_bind (fun r => r.takeFlag false f) (fun r => r.takeLetters behind.tail rest)
          _ ?_ (passes_takeFlag false f) (ih behind.tail)
        intro r
        dsimp only
        cases r.takeFlag false f <;> rfl

theorem passes_takeArgument (argument : Bytes) : Passes s fun r => r.takeArgument argument := by
  unfold takeArgument
  split
  · exact passes_takeLong _ _
  · exact passes_takeLetters _ _
  · exact passes_of_ignores (ignores_takePlain _)

theorem passes_takeAll (arguments : List Bytes) : Passes s fun r => r.takeAll arguments := by
  induction arguments with
  | nil => exact passes_of_ignores ignores_settle
  | cons argument rest ih =>
    by_cases hdash : argument = doubleDash
    · subst hdash
      cases rest with
      | nil => exact passes_of_ignores ignores_settle
      | cons argument _ => exact passes_error _
    · exact passes_of_bind _ _ _ (fun r => takeAll_cons r argument rest hdash)
        (passes_takeArgument argument) ih

end Passes

section Spellings

theorem takeLong_flag (r : Reading) (name : Text) (f : Flag) (h : Flag.ofLong? name = some f) :
    r.takeLong (Utf8.encode name) none = r.takeFlag true f := by
  unfold takeLong
  rw [Utf8.decode?_encode, Option.bind_some, h]
  cases f <;> rfl

theorem takeLetters_flag (r : Reading) (behind : Text) (c : Char) (f : Flag)
    (h : Flag.ofShort? c = some f) : r.takeLetters behind [some c] = r.takeFlag false f := by
  unfold takeLetters
  rw [h]
  dsimp only
  cases r.takeFlag false f <;> rfl

theorem mem_all (f : Flag) : f ∈ Flag.all := by
  rcases f with (_ | _ | _) | (_ | _ | _) | _ | _ <;> decide

theorem splitValue_of_notMem (data : Bytes) (h : 0x3D ∉ data) : splitValue data = (data, none) := by
  have hdrop : data.dropWhile (fun b => decide (b ≠ 0x3D)) = [] := by
    rw [List.dropWhile_eq_nil_iff]
    intro b hb
    rw [decide_eq_true_iff]
    rintro rfl
    exact h hb
  rw [splitValue, hdrop]

/-- The long names tell the options apart, and none of them holds an equals sign. -/
theorem ofLong?_long (f : Flag) : 0x3D ∉ Utf8.encode f.long ∧ Flag.ofLong? f.long = some f := by
  have hequals : ∀ f ∈ Flag.all, 0x3D ∉ Utf8.encode f.long := by decide
  refine ⟨hequals f (mem_all f), ?_⟩
  rcases f with (_ | _ | _) | (_ | _ | _) | _ | _ <;> rfl

/-- The letters tell the options apart, and each is one octet other than the dash. -/
theorem ofShort?_short (f : Flag) (c : Char) (h : c ∈ f.short?.toList) :
    ∃ b : UInt8, b ≠ 0x2D ∧ Utf8.encode ['-', c] = [0x2D, b] ∧ Utf8.units [b] = [some c] ∧
      Flag.ofShort? c = some f := by
  rcases f with (_ | _ | _) | (_ | _ | _) | _ | _
  case switch.quiet =>
    obtain rfl := List.mem_singleton.1 h
    exact ⟨0x71, by decide, rfl, rfl, rfl⟩
  case switch.verbose =>
    obtain rfl := List.mem_singleton.1 h
    exact ⟨0x76, by decide, rfl, rfl, rfl⟩
  case help =>
    obtain rfl := List.mem_singleton.1 h
    exact ⟨0x68, by decide, rfl, rfl, rfl⟩
  case version =>
    obtain rfl := List.mem_singleton.1 h
    exact ⟨0x56, by decide, rfl, rfl, rfl⟩
  all_goals cases h

theorem takeArgument_of_spelling (r : Reading) (f : Flag) (argument : Bytes)
    (h : argument ∈ f.spellings) : ∃ long, r.takeArgument argument = r.takeFlag long f := by
  rcases List.mem_cons.1 h with rfl | h
  · obtain ⟨hequals, hname⟩ := ofLong?_long f
    refine ⟨true, ?_⟩
    change r.takeArgument (0x2D :: 0x2D :: Utf8.encode f.long) = _
    rw [takeArgument, splitValue_of_notMem _ hequals]
    exact takeLong_flag r _ f hname
  · obtain ⟨c, hc, rfl⟩ := List.mem_map.1 h
    obtain ⟨b, hdash, hencode, hunits, hletter⟩ := ofShort?_short f c hc
    refine ⟨false, ?_⟩
    rw [hencode, takeArgument, hunits]
    · exact takeLetters_flag r _ c f hletter
    · exact hdash

theorem takeArgument_of_switch (r : Reading) (s : Switch) (argument : Bytes)
    (h : argument ∈ (Flag.switch s).spellings) (hwaiting : r.waiting = none)
    (hnew : s ∉ r.switches) :
    r.takeArgument argument = .ok (r.withSwitches (r.switches ++ [s])) := by
  obtain ⟨long, hflag⟩ := r.takeArgument_of_spelling (.switch s) argument h
  have hsettled : r.settle = .ok r := by rw [settle, hwaiting]
  rw [hflag, takeFlag_switch, hsettled]
  exact (r.giveSwitch_eq_ok _ s).2 ⟨hnew, rfl⟩

theorem doubleDash_notMem_spellings (f : Flag) : doubleDash ∉ f.spellings := by
  have h : ∀ f ∈ Flag.all, doubleDash ∉ f.spellings := by decide
  exact h f (mem_all f)

end Spellings

section Verbosity

def config (r : Reading) : Config where
  root := r.root.getD Config.default.root
  extension := (r.extension.map Config.bareExtension).getD Config.default.extension
  excludedNamespace := r.exclude.getD Config.default.excludedNamespace
  malformed := if r.switches.contains .skipMalformed then .skip else .abort

def verbosities (r : Reading) : List Switch :=
  r.switches.filter fun s => s = .quiet || s = .verbose

variable (r : Reading)

theorem options_of_none (h : r.verbosities = []) : r.options = .ok ⟨r.config, .normal⟩ := by
  change r.switches.filter (fun s => s = .quiet || s = .verbose) = [] at h
  rw [options, h]
  rfl

theorem options_of_one (s : Switch) (v : Verbosity) (hv : v.switch? = some s)
    (h : r.verbosities = [s]) : r.options = .ok ⟨r.config, v⟩ := by
  change r.switches.filter (fun s => s = .quiet || s = .verbose) = [s] at h
  rw [options, h]
  cases v with
  | quiet =>
    cases hv
    rfl
  | normal => cases hv
  | verbose =>
    cases hv
    rfl

theorem eq_of_switch? (s : Switch) (v : Verbosity) (hv : v.switch? = some s) :
    s = .quiet ∨ s = .verbose := by
  cases v with
  | quiet => exact Or.inl (Option.some.inj hv).symm
  | normal => cases hv
  | verbose => exact Or.inr (Option.some.inj hv).symm

theorem verbosities_of_normal (config : Config) (h : r.options = .ok ⟨config, .normal⟩) :
    r.verbosities = [] ∧ config = r.config := by
  cases hchosen : r.verbosities with
  | nil =>
    rw [r.options_of_none hchosen] at h
    cases h
    exact ⟨rfl, rfl⟩
  | cons first rest =>
    exfalso
    have hfirst : first ∈ r.verbosities := by simp [hchosen]
    have hkind : first = .quiet ∨ first = .verbose := by
      simpa [verbosities] using (List.mem_filter.1 hfirst).2
    cases rest with
    | nil =>
      rcases hkind with rfl | rfl
      · rw [r.options_of_one _ .quiet rfl hchosen] at h
        cases h
      · rw [r.options_of_one _ .verbose rfl hchosen] at h
        cases h
    | cons second rest =>
      change r.switches.filter (fun s => s = .quiet || s = .verbose) = first :: second :: rest
        at hchosen
      rw [options, hchosen] at h
      cases h

theorem notMem_of_normal (s : Switch) (v : Verbosity) (config : Config) (hv : v.switch? = some s)
    (h : r.options = .ok ⟨config, .normal⟩) : s ∉ r.switches := by
  intro hmem
  have hkind : s ∈ r.verbosities := List.mem_filter.2 ⟨hmem, by simpa using eq_of_switch? s v hv⟩
  rw [(r.verbosities_of_normal config h).1] at hkind
  exact List.not_mem_nil hkind

theorem options_of_adds (r' : Reading) (s : Switch) (v : Verbosity) (config : Config)
    (hv : v.switch? = some s) (hadds : AddsSwitch s r r')
    (h : r.options = .ok ⟨config, .normal⟩) : r'.options = .ok ⟨config, v⟩ := by
  obtain ⟨before, behind, hsplit, rfl⟩ := hadds
  obtain ⟨hnone, rfl⟩ := r.verbosities_of_normal config h
  have hs := eq_of_switch? s v hv
  have hconfig : (r.withSwitches (before ++ s :: behind)).config = r.config := by
    have hskip : (before ++ s :: behind).contains .skipMalformed =
        r.switches.contains .skipMalformed := by
      rw [hsplit]
      rcases hs with rfl | rfl <;> simp
    simp only [Reading.config, withSwitches, hskip]
  have hone : (r.withSwitches (before ++ s :: behind)).verbosities = [s] := by
    unfold verbosities at hnone ⊢
    rw [hsplit, List.filter_append, List.append_eq_nil_iff] at hnone
    dsimp only [withSwitches]
    rw [List.filter_append, hnone.1, List.filter_cons_of_pos (by simpa using hs), hnone.2]
    rfl
  rw [options_of_one _ s v hv hone, hconfig]

end Verbosity

end Reading

theorem parse_eq_ok (arguments : List Bytes) (o : Options) :
    parse arguments = .ok o ↔
      ∃ last, Reading.start.takeAll arguments = .ok last ∧ last.options = .ok o := by
  have hparse : parse arguments = (Reading.start.takeAll arguments).bind Reading.options := by
    unfold parse
    cases Reading.start.takeAll arguments <;> rfl
  rw [hparse, bind_eq_ok]

/-- A command line whose front part is accepted on its own goes on from what has been read there,
with nothing waiting. -/
theorem takeAll_of_front (front : List Bytes) (accepted : Options)
    (h : parse front = .ok accepted) (hdash : doubleDash ∉ front) :
    ∃ q : Reading, q.waiting = none ∧
      ∀ back, Reading.start.takeAll (front ++ back) = q.takeAll back := by
  have hsplit (back : List Bytes) := Reading.start.takeAll_append front back hdash
  obtain ⟨last, hfront, -⟩ := (parse_eq_ok front accepted).1 h
  have hread := (hsplit []).symm
  rw [List.append_nil, hfront, bind_eq_ok] at hread
  obtain ⟨r, hr, hsettle⟩ := hread
  refine ⟨last, Reading.waiting_of_settle r last hsettle, ?_⟩
  intro back
  rw [hsplit back, hr]
  exact Reading.takeAll_of_settle r last hsettle back

/-- Arguments with a switch added. It stands behind a part that is accepted on its own, and not
behind a double dash. -/
inductive Adds (s : Switch) : List Bytes → List Bytes → Prop
  | behind (front back : List Bytes) (added : Bytes) (accepted : Options)
      (hadded : added ∈ (Flag.switch s).spellings) (hfront : parse front = .ok accepted)
      (hdash : doubleDash ∉ front) : Adds s (front ++ back) (front ++ added :: back)

theorem adds_first (s : Switch) (arguments : List Bytes) (added : Bytes)
    (hadded : added ∈ (Flag.switch s).spellings) : Adds s arguments (added :: arguments) :=
  Adds.behind [] arguments added ⟨Config.default, .normal⟩ hadded rfl (List.not_mem_nil)

/-- A switch for the verbosity that is added to a command line without one is all that changes. -/
theorem parse_of_adds (arguments extended : List Bytes) (s : Switch) (v : Verbosity)
    (config : Config) (hv : v.switch? = some s) (hadds : Adds s arguments extended)
    (h : parse arguments = .ok ⟨config, .normal⟩) : parse extended = .ok ⟨config, v⟩ := by
  obtain ⟨front, back, added, accepted, hadded, hfront, hdash⟩ := hadds
  obtain ⟨q, hwaiting, hfrom⟩ := takeAll_of_front front accepted hfront hdash
  obtain ⟨last, hlast, hoptions⟩ := (parse_eq_ok _ _).1 h
  rw [hfrom] at hlast
  have hpasses : Reading.Passes s fun r => r.takeAll back := Reading.passes_takeAll back
  have hnew : s ∉ last.switches := last.notMem_of_normal s v config hv hoptions
  have hnow : s ∉ q.switches := fun hmem => hnew (hpasses.keeps q last hlast hmem)
  have hgiven := q.takeArgument_of_switch s added hadded hwaiting hnow
  have hadds : Reading.AddsSwitch s q (q.withSwitches (q.switches ++ [s])) :=
    ⟨q.switches, [], (List.append_nil _).symm, rfl⟩
  obtain ⟨last', hlast', hadds'⟩ := hpasses.adds q last _ hlast hnew hadds
  have hother : added ≠ doubleDash := by
    rintro rfl
    exact Reading.doubleDash_notMem_spellings _ hadded
  rw [parse_eq_ok]
  refine ⟨last', ?_, last.options_of_adds last' s v config hv hadds' hoptions⟩
  rw [hfrom, q.takeAll_cons added back hother, hgiven]
  exact hlast'

end CommandLine

end ImportCensus
