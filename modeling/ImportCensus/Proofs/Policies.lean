import Mathlib
import ImportCensus.Proofs.SoleFile
import ImportCensus.Proofs.TallyAfter

namespace ImportCensus

def Config.withPolicy (config : Config) (policy : MalformedPolicy) : Config :=
  { config with malformed := policy }

namespace Effect

def hardened : Effect → Effect
  | passOver path number text => fail (.malformedImport path number text)
  | e => e

section Levels

variable (t : Tree) (config : Config) (path : Path)

theorem ofCandidate_abort (line : SourceLine) (c : Candidate) :
    ofCandidate (config.withPolicy .abort) path line c =
      (ofCandidate (config.withPolicy .skip) path line c).hardened := by
  cases c <;> rfl

theorem ofLine_abort (line : SourceLine) :
    ofLine (config.withPolicy .abort) path line =
      (ofLine (config.withPolicy .skip) path line).map hardened := by
  have hcandidates (cs : List Candidate) :
      cs.map (ofCandidate (config.withPolicy .abort) path line) =
        (cs.map (ofCandidate (config.withPolicy .skip) path line)).map hardened := by
    rw [List.map_map]
    exact List.map_congr_left fun c _ => ofCandidate_abort config path line c
  unfold ofLine
  split
  · rw [List.map_cons, ← hcandidates]
    rfl
  · rfl

theorem ofRead_abort (read : Except Failure SourceLine) :
    ofRead (config.withPolicy .abort) path read =
      (ofRead (config.withPolicy .skip) path read).map hardened := by
  cases read with
  | ok line => exact ofLine_abort config path line
  | error failure => rfl

theorem ofFile_abort :
    ofFile t (config.withPolicy .abort) path =
      (ofFile t (config.withPolicy .skip) path).map hardened := by
  unfold ofFile
  rw [List.map_cons]
  cases t.readLines path with
  | ok reads =>
    dsimp only
    rw [List.map_flatMap, funext (ofRead_abort config path)]
    rfl
  | error failure => rfl

theorem ofItem_abort (item : Item) :
    ofItem t (config.withPolicy .abort) item =
      (ofItem t (config.withPolicy .skip) item).map hardened := by
  have hroot (policy : MalformedPolicy) : (config.withPolicy policy).root = config.root := rfl
  unfold ofItem
  rw [hroot, hroot]
  cases item.result config.root with
  | ok path => exact ofFile_abort t config path
  | error failure => rfl

end Levels

/-- Either nothing is passed over before a row fails or ends, or there is a first effect that is. -/
theorem exists_first_passOver (row : List Effect) :
    (∀ e ∈ done row, e.isPassedOver = false) ∨
      ∃ front path number text back, row = front ++ passOver path number text :: back ∧
        ∀ e ∈ front, e.failure? = none ∧ e.isPassedOver = false := by
  induction row with
  | nil => exact Or.inl (by simp [done])
  | cons e row ih =>
    cases hfailure : e.failure? with
    | some failure => exact Or.inl (by simp [done, hfailure])
    | none =>
      have hdone : done (e :: row) = e :: done row := by simp [done, hfailure]
      cases hpassed : e.isPassedOver with
      | true =>
        cases e with
        | passOver path number text => exact Or.inr ⟨[], path, number, text, row, rfl, by simp⟩
        | _ => simp [isPassedOver] at hpassed
      | false =>
        rcases ih with hnone | ⟨front, path, number, text, back, rfl, hfront⟩
        · rw [hdone]
          exact Or.inl (List.forall_mem_cons.2 ⟨hpassed, hnone⟩)
        · exact Or.inr ⟨e :: front, path, number, text, back, rfl,
            List.forall_mem_cons.2 ⟨⟨hfailure, hpassed⟩, hfront⟩⟩

theorem hardened_of_not_passedOver (e : Effect) (h : e.isPassedOver = false) : e.hardened = e := by
  cases e with
  | passOver path number text => simp [isPassedOver] at h
  | _ => rfl

theorem done_hardened (row : List Effect) (h : ∀ e ∈ done row, e.isPassedOver = false) :
    done (row.map hardened) = done row ∧
      (row.map hardened).findSome? failure? = row.findSome? failure? := by
  induction row with
  | nil => exact ⟨rfl, rfl⟩
  | cons e row ih =>
    cases hfailure : e.failure? with
    | some failure =>
      have hsame : e.hardened = e := by cases e <;> simp_all [failure?, hardened]
      rw [List.map_cons, hsame]
      simp [done, hfailure]
    | none =>
      have hdone (row : List Effect) : done (e :: row) = e :: done row := by simp [done, hfailure]
      rw [hdone] at h ⊢
      obtain ⟨hpassed, hrest⟩ := List.forall_mem_cons.1 h
      obtain ⟨hdoneRest, hfind⟩ := ih hrest
      rw [List.map_cons, hardened_of_not_passedOver e hpassed, hdone, hdoneRest,
        List.findSome?_cons, List.findSome?_cons, hfind]
      exact ⟨rfl, rfl⟩

theorem done_hardened_passOver (front back : List Effect) (path : Path) (number : Nat) (text : Text)
    (hfront : ∀ e ∈ front, e.failure? = none ∧ e.isPassedOver = false) :
    let row := front ++ passOver path number text :: back
    done (row.map hardened) = front ∧
      (row.map hardened).findSome? failure? = some (.malformedImport path number text) := by
  have hsame : front.map hardened = front := by
    rw [List.map_congr_left fun e he => hardened_of_not_passedOver e (hfront e he).2, List.map_id']
  have hgoing : ∀ e ∈ front, e.failure?.isNone = true := by
    intro e he
    rw [(hfront e he).1]
    rfl
  dsimp only
  rw [List.map_append, List.map_cons, hsame]
  constructor
  · unfold done
    rw [List.takeWhile_append_of_pos hgoing]
    simp [hardened, failure?]
  · have hnone : front.findSome? failure? = none :=
      List.findSome?_eq_none_iff.2 fun e he => (hfront e he).1
    rw [List.findSome?_append, hnone]
    rfl

theorem level_of_mem_events (row : List Effect) (h : ∀ e ∈ row, e.isPassedOver = false) :
    ∀ x ∈ row.flatMap events, x.level ≠ .warn := by
  intro x hx
  obtain ⟨e, he, hevent⟩ := List.mem_flatMap.1 hx
  have hpassed := h e he
  cases e <;> simp_all [events, isPassedOver, Event.level]

end Effect

theorem Tree.effects_abort (t : Tree) (config : Config) :
    t.effects (config.withPolicy .abort) =
      (t.effects (config.withPolicy .skip)).map Effect.hardened := by
  unfold Tree.effects
  rw [List.map_flatMap, funext (Effect.ofItem_abort t config)]
  rfl

section Census

variable (t : Tree) (config : Config)

theorem malformedSkipped_census :
    (t.census config).tally.stats.malformedSkipped =
      (Effect.done (t.effects config)).countP Effect.isPassedOver := by
  obtain ⟨-, -, -, hmalformed⟩ := t.counters_census config
  exact hmalformed

/-- If nothing is passed over, then the policy makes no difference. -/
theorem census_of_none_passedOver
    (h : ∀ e ∈ Effect.done (t.effects (config.withPolicy .skip)), e.isPassedOver = false) :
    t.census (config.withPolicy .abort) = t.census (config.withPolicy .skip) ∧
      (∀ x ∈ (t.census (config.withPolicy .skip)).log, x.level ≠ .warn) ∧
      (t.census (config.withPolicy .skip)).tally.stats.malformedSkipped = 0 := by
  obtain ⟨hdone, hfailure⟩ := Effect.done_hardened _ h
  refine ⟨?_, ?_, ?_⟩
  · rw [Tree.census_eq, Tree.census_eq, Tree.effects_abort, hdone, hfailure]
    rfl
  · obtain ⟨last, hlog, hlast, -⟩ := t.log_census (config.withPolicy .skip)
    rw [hlog]
    refine List.forall_mem_append.2 ⟨List.forall_mem_cons.2 ⟨?_, ?_⟩, hlast⟩
    · simp [Event.level]
    · exact Effect.level_of_mem_events _ h
  · rw [malformedSkipped_census, List.countP_eq_zero]
    intro e he
    rw [h e he]
    simp

/-- At the first effect that one policy passes over with a warning, the other fails, and its log ends
there. -/
theorem census_of_passOver (front back : List Effect) (path : Path) (number : Nat) (text : Text)
    (hrow : t.effects (config.withPolicy .skip) =
      front ++ .passOver path number text :: back)
    (hfront : ∀ e ∈ front, e.failure? = none ∧ e.isPassedOver = false) :
    (t.census (config.withPolicy .abort)).failure = some (.malformedImport path number text) ∧
      (∃ later, (t.census (config.withPolicy .skip)).log =
        (t.census (config.withPolicy .abort)).log ++
          .skippingMalformed path number text :: later) ∧
      (∀ x ∈ (t.census (config.withPolicy .abort)).log, x.level ≠ .warn) ∧
      (t.census (config.withPolicy .skip)).tally.stats.malformedSkipped ≠ 0 := by
  obtain ⟨hdone, hfind⟩ := Effect.done_hardened_passOver front back path number text hfront
  rw [← hrow, ← Tree.effects_abort] at hdone hfind
  have hsoft : Effect.done (t.effects (config.withPolicy .skip)) =
      front ++ .passOver path number text :: Effect.done back := by
    rw [hrow]
    unfold Effect.done
    rw [List.takeWhile_append_of_pos fun e he => by rw [(hfront e he).1]; rfl,
      List.takeWhile_cons_of_pos rfl]
  have hfailure : (t.census (config.withPolicy .abort)).failure =
      some (.malformedImport path number text) := by
    rw [Tree.failure_census, hfind]
  obtain ⟨_, hhard, -, hfailed⟩ := t.log_census (config.withPolicy .abort)
  obtain ⟨last, hlog, -, -⟩ := t.log_census (config.withPolicy .skip)
  rw [hdone, hfailed (by rw [hfailure]; rfl), List.append_nil] at hhard
  refine ⟨hfailure, ⟨(Effect.done back).flatMap Effect.events ++ last, ?_⟩, ?_, ?_⟩
  · rw [hlog, hhard, hsoft]
    simp [Effect.events, Config.withPolicy, Config.suffix]
  · rw [hhard]
    refine List.forall_mem_cons.2 ⟨by simp [Event.level], ?_⟩
    exact Effect.level_of_mem_events front fun e he => (hfront e he).2
  · rw [malformedSkipped_census, hsoft, List.countP_append, List.countP_cons]
    simp [Effect.isPassedOver]

end Census

theorem eq_of_first {α : Type} (p : α → Prop) (front front' back back' : List α) (x x' : α)
    (h : front ++ x :: back = front' ++ x' :: back') (hfront : ∀ y ∈ front, ¬p y)
    (hfront' : ∀ y ∈ front', ¬p y) (hx : p x) (hx' : p x') : front = front' ∧ x = x' := by
  induction front generalizing front' with
  | nil =>
    cases front' with
    | nil => exact ⟨rfl, (List.cons.inj h).1⟩
    | cons y front' =>
      obtain rfl := (List.cons.inj h).1
      exact absurd hx (hfront' x List.mem_cons_self)
  | cons y front ih =>
    cases front' with
    | nil =>
      obtain rfl := (List.cons.inj h).1
      exact absurd hx' (hfront y List.mem_cons_self)
    | cons y' front' =>
      obtain ⟨rfl, hrest⟩ := List.cons.inj h
      obtain ⟨rfl, hsame⟩ := ih front' hrest (List.forall_mem_cons.1 hfront).2
        (List.forall_mem_cons.1 hfront').2
      exact ⟨rfl, hsame⟩

/-- The censuses of a tree under the two policies. One succeeds exactly if the other succeeds and
passes nothing over, and then they are the same. If there is a warning, then the first one tells
where and why the other census fails, and the logs are the same up to there. Without a warning the
two are the same, however they end. -/
theorem census_by_policy (t : Tree) (config : Config) :
    let strict := t.census (config.withPolicy .abort)
    let lenient := t.census (config.withPolicy .skip)
    (strict.failure = none ↔
        lenient.failure = none ∧ lenient.tally.stats.malformedSkipped = 0) ∧
      (strict.failure = none → strict.tally = lenient.tally ∧ strict.log = lenient.log) ∧
      (∀ front warning back, lenient.log = front ++ warning :: back → warning.level = .warn →
        (∀ e ∈ front, e.level ≠ .warn) →
        ∃ path number text, strict.failure = some (.malformedImport path number text) ∧
          warning.message = "skipping malformed import: ".toList ++ text.trim ∧
          warning.fields =
            [("path".toList, .text path.normalized), ("line".toList, .number number)] ∧
          strict.log = front) ∧
      ((∀ e ∈ lenient.log, e.level ≠ .warn) →
        strict.failure = lenient.failure ∧ strict.log = lenient.log) := by
  intro strict lenient
  rcases Effect.exists_first_passOver (t.effects (config.withPolicy .skip)) with
    hnone | ⟨front, path, number, text, back, hrow, hfront⟩
  · obtain ⟨hsame, hquiet, hzero⟩ := census_of_none_passedOver t config hnone
    have heq : strict = lenient := hsame
    refine ⟨?_, ?_, ?_, ?_⟩
    · rw [heq]
      exact ⟨fun h => ⟨h, hzero⟩, fun h => h.1⟩
    · intro _
      rw [heq]
      exact ⟨rfl, rfl⟩
    · intro front warning back hlog hwarn _
      have hmem : warning ∈ lenient.log := by
        rw [hlog]
        simp
      exact absurd hwarn (hquiet warning hmem)
    · intro _
      rw [heq]
      exact ⟨rfl, rfl⟩
  · obtain ⟨hfailure, ⟨later, hlater⟩, hquiet, hpassed⟩ :=
      census_of_passOver t config front back path number text hrow hfront
    have hfailed : strict.failure ≠ none := by
      intro h
      rw [hfailure] at h
      simp at h
    refine ⟨?_, ?_, ?_, ?_⟩
    · exact ⟨fun h => absurd h hfailed, fun h => absurd h.2 hpassed⟩
    · intro h
      exact absurd h hfailed
    · intro front' warning back' hlog hwarn hfront'
      have hsplit : strict.log ++ .skippingMalformed path number text :: later =
          front' ++ warning :: back' := by
        rw [← hlog]
        exact hlater.symm
      obtain ⟨hlogs, rfl⟩ := eq_of_first (fun e => e.level = .warn) _ _ _ _ _ _ hsplit hquiet hfront'
        rfl hwarn
      exact ⟨path, number, text, hfailure, rfl, rfl, hlogs⟩
    · intro h
      have hmem : .skippingMalformed path number text ∈ lenient.log := by
        change _ ∈ (t.census (config.withPolicy .skip)).log
        rw [hlater]
        simp
      exact absurd rfl (h _ hmem)

def staticImport : Bytes :=
  Utf8.encode "import a.B;\n import static c.D;\nimport e.F;\n".toList

theorem effects_staticImport :
    (soleFile staticImport).effects (atTop.withPolicy .skip) =
      [.beginFile solePath, .countLine, .keep "a.B".toList] ++
        [.countLine, .passOver solePath 2 " import static c.D;".toList, .countLine,
          .keep "e.F".toList] := by
  rw [effects_soleFile _ _ rfl rfl]
  cbv

def plainImport : Bytes := Utf8.encode "import a.B;\nimport a.B;\n".toList

theorem effects_plainImport (policy : MalformedPolicy) :
    (soleFile plainImport).effects (atTop.withPolicy policy) =
      [.beginFile solePath, .countLine, .keep "a.B".toList, .countLine, .keep "a.B".toList] := by
  rw [effects_soleFile _ _ rfl rfl]
  cases policy <;> cbv

theorem effects_missingRoot (policy : MalformedPolicy) :
    (soleFile plainImport).effects (Config.default.withPolicy policy) =
      [.fail (.walk Config.default.root .notFound)] := by
  have hroot (policy : MalformedPolicy) :
      (Config.default.withPolicy policy).root = Config.default.root := rfl
  have hlisted : Walk.listRoot (soleFile plainImport) Config.default.root =
      .error (.unlisted [] .notFound) := rfl
  unfold Tree.effects
  rw [hroot, items_of_refused _ _ _ _ hlisted]
  rfl

theorem census_by_policy_soleFile :
    let broken := soleFile staticImport
    let plain := soleFile plainImport
    (∃ back, (broken.census (atTop.withPolicy .skip)).log =
        [.scanning selfName ".java".toList, .reading solePath] ++
          .skippingMalformed solePath 2 " import static c.D;".toList :: back) ∧
      (∃ path number text,
        (broken.census (atTop.withPolicy .abort)).failure =
            some (.malformedImport path number text) ∧
          (Event.skippingMalformed solePath 2 " import static c.D;".toList).message =
            "skipping malformed import: ".toList ++ text.trim ∧
          (Event.skippingMalformed solePath 2 " import static c.D;".toList).fields =
            [("path".toList, .text path.normalized), ("line".toList, .number number)] ∧
          (broken.census (atTop.withPolicy .abort)).log =
            [.scanning selfName ".java".toList, .reading solePath]) ∧
      (plain.census (atTop.withPolicy .abort)).failure = none ∧
      (plain.census (atTop.withPolicy .abort)).tally =
        (plain.census (atTop.withPolicy .skip)).tally ∧
      (plain.census (Config.default.withPolicy .skip)).failure =
        some (.walk Config.default.root .notFound) ∧
      (plain.census (Config.default.withPolicy .abort)).failure =
        (plain.census (Config.default.withPolicy .skip)).failure := by
  intro broken plain
  obtain ⟨-, -, hwarned, -⟩ := census_by_policy broken atTop
  obtain ⟨-, hsame, -, -⟩ := census_by_policy plain atTop
  obtain ⟨-, -, -, hquiet⟩ := census_by_policy plain Config.default
  obtain ⟨last, hlog, -, -⟩ := broken.log_census (atTop.withPolicy .skip)
  have hsplit : ∃ back, (broken.census (atTop.withPolicy .skip)).log =
      [.scanning selfName ".java".toList, .reading solePath] ++
        .skippingMalformed solePath 2 " import static c.D;".toList :: back := by
    rw [effects_staticImport] at hlog
    exact ⟨last, hlog⟩
  have hplain : (plain.census (atTop.withPolicy .abort)).failure = none := by
    rw [Tree.failure_census, effects_plainImport]
    rfl
  have hmissing : (plain.census (Config.default.withPolicy .skip)).failure =
      some (.walk Config.default.root .notFound) := by
    rw [Tree.failure_census, effects_missingRoot]
    rfl
  have hlenient : ∀ e ∈ (plain.census (Config.default.withPolicy .skip)).log, e.level ≠ .warn := by
    obtain ⟨last, hlog, -, hend⟩ := plain.log_census (Config.default.withPolicy .skip)
    rw [hlog, effects_missingRoot, hend (by rw [hmissing]; rfl)]
    simp [Effect.done, Effect.failure?, Event.level]
  refine ⟨hsplit, ?_, hplain, (hsame hplain).1, hmissing, (hquiet hlenient).1⟩
  obtain ⟨back, hsplit⟩ := hsplit
  exact hwarned _ _ back hsplit rfl (by simp [Event.level])

end ImportCensus
