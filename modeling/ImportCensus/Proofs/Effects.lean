import Mathlib.Data.List.TakeWhile
import ImportCensus.Census

/-!
A census as one row of effects. Files, lines and candidates are taken up in three loops inside each
other; all that they do to a census is a row of effects, one after the other, up to the first that
is a failure. What a census has found and what it has logged are then facts about that row.
-/

namespace ImportCensus

inductive Effect where
  | beginFile (path : Path)
  | countLine
  | keep (token : Text)
  | countExcluded
  | passOver (path : Path) (number : Nat) (text : Text)
  | fail (failure : Failure)
deriving DecidableEq

namespace Effect

def onTally : Effect → Tally → Tally
  | beginFile _, tally => tally.countFile
  | countLine, tally => tally.countLine
  | keep token, tally => tally.keep token
  | countExcluded, tally => tally.countExcluded
  | passOver _ _ _, tally => tally.countMalformed
  | fail _, tally => tally

def events : Effect → List Event
  | beginFile path => [.reading path]
  | passOver path number text => [.skippingMalformed path number text]
  | _ => []

def failure? : Effect → Option Failure
  | fail failure => some failure
  | _ => none

def token? : Effect → Option Text
  | keep token => some token
  | _ => none

def ofCandidate (config : Config) (path : Path) (line : SourceLine) : Candidate → Effect
  | .reference token => keep token
  | .excluded => countExcluded
  | .malformed =>
    match config.malformed with
    | .abort => fail (.malformedImport path line.number line.text)
    | .skip => passOver path line.number line.text

def ofLine (config : Config) (path : Path) (line : SourceLine) : List Effect :=
  if line.isImport then
    countLine :: (candidates line.text config.excludedNamespace).map (ofCandidate config path line)
  else []

def ofRead (config : Config) (path : Path) : Except Failure SourceLine → List Effect
  | .ok line => ofLine config path line
  | .error failure => [fail failure]

def ofFile (t : Tree) (config : Config) (path : Path) : List Effect :=
  beginFile path ::
    match t.readLines path with
    | .ok reads => reads.flatMap (ofRead config path)
    | .error failure => [fail failure]

theorem ofFile_of_content (t : Tree) (config : Config) (path : Path) (content : Bytes)
    (h : t.openFile path = .ok (.content content)) :
    ofFile t config path =
      beginFile path :: (sourceLines content).flatMap (ofLine config path) := by
  unfold ofFile
  rw [Tree.readLines_of_content h]
  dsimp only
  rw [List.flatMap_map]
  rfl

/-- The effects of a file depend on the tree in nothing but what the path opens. -/
theorem ofFile_of_openFile (t t' : Tree) (config : Config) (path : Path)
    (h : t'.openFile path = t.openFile path) : ofFile t' config path = ofFile t config path := by
  unfold ofFile Tree.readLines
  rw [h]

def ofItem (t : Tree) (config : Config) (item : Item) : List Effect :=
  match item.result config.root with
  | .ok path => ofFile t config path
  | .error failure => [fail failure]

theorem ofItem_file (t : Tree) (config : Config) (names : List FileName) :
    ofItem t config (.file names) = ofFile t config (config.root.below names) := rfl

/-- The effects of a row that come about: those in front of the first failure. -/
def done (effects : List Effect) : List Effect := effects.takeWhile fun e => e.failure?.isNone

theorem done_of_going (effects : List Effect) (h : ∀ e ∈ effects, e.failure? = none) :
    done effects = effects := by
  unfold done
  rw [List.takeWhile_eq_self_iff]
  intro e he
  rw [h e he]
  rfl

theorem done_append (front back : List Effect) :
    done (front ++ back) =
      if front.findSome? failure? = none then front ++ done back else done front := by
  induction front with
  | nil => rfl
  | cons e front ih =>
    cases hfailure : e.failure? with
    | some failure => simp [done, hfailure]
    | none =>
      have hdone (row : List Effect) : done (e :: row) = e :: done row := by simp [done, hfailure]
      rw [List.cons_append, hdone, hdone, ih, List.findSome?_cons, hfailure]
      dsimp only
      split <;> rfl

end Effect

def Tally.after (tally : Tally) (effects : List Effect) : Tally :=
  effects.foldl (fun tally e => e.onTally tally) tally

theorem Tally.after_append (tally : Tally) (front back : List Effect) :
    tally.after (front ++ back) = (tally.after front).after back :=
  List.foldl_append

/-- What comes about of a second row comes behind what comes about of the first, if that does not
fail. -/
theorem Tally.after_done_append (tally : Tally) (front back : List Effect) :
    tally.after (Effect.done (front ++ back)) =
      if front.findSome? Effect.failure? = none then
        (tally.after (Effect.done front)).after (Effect.done back)
      else tally.after (Effect.done front) := by
  rw [Effect.done_append]
  split
  · rename_i hgoing
    rw [Tally.after_append, Effect.done_of_going front (List.findSome?_eq_none_iff.1 hgoing)]
  · rfl

namespace Census

def take (c : Census) (e : Effect) : Census :=
  c.unlessFailed fun c => ⟨e.onTally c.tally, c.log ++ e.events, e.failure?⟩

theorem unlessFailed_of_failed (c : Census) (h : c.failure.isSome) (change : Census → Census) :
    c.unlessFailed change = c := by
  unfold unlessFailed
  rw [if_pos h]

theorem unlessFailed_of_going (c : Census) (h : c.failure = none) (change : Census → Census) :
    c.unlessFailed change = change c := by
  unfold unlessFailed
  rw [h]
  rfl

theorem foldl_take_of_failed (c : Census) (h : c.failure.isSome) (effects : List Effect) :
    effects.foldl take c = c := by
  induction effects with
  | nil => rfl
  | cons e effects ih =>
    rw [List.foldl_cons, take, unlessFailed_of_failed c h]
    exact ih

theorem take_of_going (c : Census) (h : c.failure = none) (e : Effect) :
    c.take e = ⟨e.onTally c.tally, c.log ++ e.events, e.failure?⟩ :=
  unlessFailed_of_going c h _

/-- The effects of a row come about one by one up to the first failure. -/
theorem foldl_take (c : Census) (h : c.failure = none) (effects : List Effect) :
    effects.foldl take c =
      ⟨c.tally.after (Effect.done effects), c.log ++ (Effect.done effects).flatMap Effect.events,
        effects.findSome? Effect.failure?⟩ := by
  induction effects generalizing c with
  | nil =>
    obtain ⟨tally, log, failure⟩ := c
    obtain rfl : failure = none := h
    simp [Tally.after, Effect.done]
  | cons e effects ih =>
    rw [List.foldl_cons, take_of_going c h]
    cases hf : e.failure? with
    | none =>
      rw [ih _ rfl]
      simp [Effect.done, hf, Tally.after]
    | some failure =>
      have hfail : e = .fail failure := by
        cases e <;> simp_all [Effect.failure?]
      rw [foldl_take_of_failed _ rfl, hfail, List.findSome?_cons]
      simp [Effect.done, Effect.failure?, Effect.events, Effect.onTally, Tally.after]

/-- What is done unless a census has failed is a row of effects if it is one for a census that has
not failed. -/
theorem unlessFailed_eq_foldl (c : Census) (change : Census → Census) (effects : List Effect)
    (h : c.failure = none → change c = effects.foldl take c) :
    c.unlessFailed change = effects.foldl take c := by
  cases hf : c.failure with
  | none => rw [unlessFailed_of_going c hf, h hf]
  | some failure =>
    have hfailed : c.failure.isSome := by rw [hf]; rfl
    rw [unlessFailed_of_failed c hfailed, foldl_take_of_failed c hfailed]

/-- A loop inside a loop is one loop over the effects of all its turns. -/
theorem foldl_eq_foldl_take {α : Type} (step : Census → α → Census) (effects : α → List Effect)
    (hstep : ∀ c a, step c a = (effects a).foldl take c) (c : Census) (turns : List α) :
    turns.foldl step c = (turns.flatMap effects).foldl take c := by
  induction turns generalizing c with
  | nil => rfl
  | cons a turns ih =>
    rw [List.foldl_cons, List.flatMap_cons, List.foldl_append, hstep]
    exact ih _

theorem fail_eq_foldl (c : Census) (hf : c.failure = none) (failure : Failure) :
    c.fail failure = [Effect.fail failure].foldl take c := by
  rw [List.foldl_cons, List.foldl_nil, take_of_going c hf]
  simp [fail, Effect.onTally, Effect.events, Effect.failure?]

variable (t : Tree) (config : Config) (path : Path)

theorem takeCandidate_eq (line : SourceLine) (c : Census) (candidate : Candidate) :
    c.takeCandidate config path line candidate =
      [Effect.ofCandidate config path line candidate].foldl take c := by
  apply unlessFailed_eq_foldl
  intro hf
  rw [List.foldl_cons, List.foldl_nil, take_of_going c hf]
  cases candidate with
  | reference token => simp [Effect.ofCandidate, Effect.onTally, Effect.events, Effect.failure?, hf]
  | excluded => simp [Effect.ofCandidate, Effect.onTally, Effect.events, Effect.failure?, hf]
  | malformed =>
    cases hpolicy : config.malformed <;>
      simp [Effect.ofCandidate, Effect.onTally, Effect.events, Effect.failure?, hf, hpolicy, fail,
        note]

theorem takeLine_eq (c : Census) (line : SourceLine) :
    c.takeLine config path line = (Effect.ofLine config path line).foldl take c := by
  apply unlessFailed_eq_foldl
  intro hf
  have hline : c.take .countLine = { c with tally := c.tally.countLine } := by
    rw [take_of_going c hf]
    simp [Effect.onTally, Effect.events, Effect.failure?, hf]
  unfold Effect.ofLine
  split
  · rw [List.foldl_cons, hline, List.map_eq_flatMap]
    exact foldl_eq_foldl_take _ _ (takeCandidate_eq config path line) _ _
  · rfl

theorem takeRead_eq (c : Census) (read : Except Failure SourceLine) :
    c.takeRead config path read = (Effect.ofRead config path read).foldl take c := by
  cases read with
  | ok line => exact takeLine_eq config path c line
  | error failure =>
    apply unlessFailed_eq_foldl
    intro hf
    exact fail_eq_foldl c hf failure

theorem takeFile_eq (c : Census) :
    c.takeFile t config path = (Effect.ofFile t config path).foldl take c := by
  apply unlessFailed_eq_foldl
  intro hf
  have hbegun : c.take (.beginFile path) =
      { c.note (.reading path) with tally := c.tally.countFile } := by
    rw [take_of_going c hf]
    simp [note, Effect.onTally, Effect.events, Effect.failure?, hf]
  rw [Effect.ofFile, List.foldl_cons, hbegun, Tree.readLines]
  cases t.openFile path with
  | ok opened =>
    dsimp only [takeReader]
    rw [LineReader.path_start]
    exact foldl_eq_foldl_take _ _ (takeRead_eq config path) _ (opened.lines path)
  | error cause => exact fail_eq_foldl { c.note (.reading path) with tally := _ } hf _

theorem takeItem_eq (c : Census) (item : Item) :
    c.takeItem t config item = (Effect.ofItem t config item).foldl take c := by
  apply unlessFailed_eq_foldl
  intro hf
  unfold Effect.ofItem
  cases item.result config.root with
  | ok path => exact takeFile_eq t config path c
  | error failure => exact fail_eq_foldl c hf failure

theorem failure_complete (c : Census) : c.complete.failure = c.failure := by
  unfold complete unlessFailed
  split <;> rfl

theorem log_complete (c : Census) :
    c.complete.log =
      c.log ++ if c.failure = none then [.scanComplete c.complete.tally.stats] else [] := by
  cases hf : c.failure with
  | some failure =>
    rw [complete, unlessFailed_of_failed c (by rw [hf]; rfl)]
    simp
  | none =>
    rw [complete, unlessFailed_of_going c hf]
    rfl

theorem stats_complete (c : Census) :
    c.complete.tally.stats =
      { c.tally.stats with referencesKept := c.complete.tally.stats.referencesKept } := by
  unfold complete unlessFailed
  split <;> rfl

end Census

def Tree.effects (t : Tree) (config : Config) : List Effect :=
  (t.discover config.root config.suffix).flatMap (Effect.ofItem t config)

theorem Tree.scanFile_eq (t : Tree) (config : Config) (path : Path) (tally : Tally) :
    t.scanFile config path tally =
      ⟨tally.after (Effect.done (Effect.ofFile t config path)),
        (Effect.done (Effect.ofFile t config path)).flatMap Effect.events,
        (Effect.ofFile t config path).findSome? Effect.failure?⟩ := by
  have hresume : (Census.resume tally).failure = none := rfl
  rw [Tree.scanFile, Census.takeFile_eq, Census.foldl_take _ hresume]
  rfl

/-- A census is the row of its effects, with its beginning noted before and its end after it. -/
theorem Tree.census_eq (t : Tree) (config : Config) :
    t.census config =
      Census.complete
        ⟨Tally.empty.after (Effect.done (t.effects config)),
          .scanning config.root config.suffix ::
            (Effect.done (t.effects config)).flatMap Effect.events,
          (t.effects config).findSome? Effect.failure?⟩ := by
  have hbegun : ((Census.resume Tally.empty).note
      (.scanning config.root config.suffix)).failure = none := rfl
  unfold Tree.census
  dsimp only
  rw [Census.foldl_eq_foldl_take _ _ (Census.takeItem_eq t config), Census.foldl_take _ hbegun]
  rfl

theorem Tree.failure_census (t : Tree) (config : Config) :
    (t.census config).failure = (t.effects config).findSome? Effect.failure? := by
  rw [Tree.census_eq, Census.failure_complete]

/-- The log of a census holds its beginning, what its effects add, and its end if there was no
failure. -/
theorem Tree.log_census_eq (t : Tree) (config : Config) :
    (t.census config).log =
      .scanning config.root config.suffix ::
          (Effect.done (t.effects config)).flatMap Effect.events ++
        if (t.census config).failure = none then [.scanComplete (t.census config).tally.stats]
        else [] := by
  have hend := Census.log_complete
      ⟨Tally.empty.after (Effect.done (t.effects config)),
        .scanning config.root config.suffix ::
          (Effect.done (t.effects config)).flatMap Effect.events,
        (t.effects config).findSome? Effect.failure?⟩
  rw [← Tree.census_eq, ← Tree.failure_census] at hend
  exact hend

theorem Tree.log_census (t : Tree) (config : Config) :
    ∃ last, (t.census config).log =
        .scanning config.root config.suffix ::
          (Effect.done (t.effects config)).flatMap Effect.events ++ last ∧
      (∀ e ∈ last, e.level ≠ .warn) ∧ ((t.census config).failure.isSome → last = []) := by
  refine ⟨_, t.log_census_eq config, ?_, ?_⟩
  · split <;> simp [Event.level]
  · intro hfailed
    rw [if_neg (Option.isSome_iff_ne_none.1 hfailed)]

end ImportCensus
