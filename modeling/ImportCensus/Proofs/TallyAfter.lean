import Mathlib.Data.List.Induction
import ImportCensus.Proofs.Effects

namespace ImportCensus

section FirstSeen

variable {α : Type} [BEq α] [LawfulBEq α]

theorem eraseDups_concat (l : List α) (a : α) :
    (l ++ [a]).eraseDups = if a ∈ l then l.eraseDups else l.eraseDups ++ [a] := by
  rw [List.eraseDups_append]
  split
  · rename_i h
    simp [List.removeAll, h]
  · rename_i h
    simp [List.removeAll, h, List.eraseDups_cons]

theorem nodup_eraseDups (l : List α) : l.eraseDups.Nodup := by
  induction l using List.reverseRecOn with
  | nil => simp
  | append_singleton l a ih =>
    rw [eraseDups_concat]
    split
    · exact ih
    · rename_i h
      rw [List.nodup_append]
      refine ⟨ih, by simp, ?_⟩
      intro b hb c hc hbc
      rw [List.mem_singleton] at hc
      apply h
      rw [← hc, ← hbc]
      exact List.mem_eraseDups.1 hb

theorem eraseDups_of_nodup (l : List α) (h : l.Nodup) : l.eraseDups = l := by
  induction l using List.reverseRecOn with
  | nil => simp
  | append_singleton l a ih =>
    obtain ⟨hl, -, hdisjoint⟩ := List.nodup_append.1 h
    have ha : a ∉ l := fun ha => hdisjoint a ha a (by simp) rfl
    rw [eraseDups_concat, if_neg ha, ih hl]

theorem length_eraseDups_le (l : List α) : l.eraseDups.length ≤ l.length := by
  induction l using List.reverseRecOn with
  | nil => simp
  | append_singleton l a ih =>
    rw [eraseDups_concat, List.length_append]
    split
    · omega
    · rw [List.length_append]
      omega

end FirstSeen

def References.ofTokens (tokens : List Text) : References := ⟨tokens.eraseDups, nodup_eraseDups tokens⟩

namespace Effect

def isFile : Effect → Bool
  | beginFile _ => true
  | _ => false

def isLine : Effect → Bool
  | countLine => true
  | _ => false

def isExcluded : Effect → Bool
  | countExcluded => true
  | _ => false

def isPassedOver : Effect → Bool
  | passOver _ _ _ => true
  | _ => false

end Effect

namespace Tally

variable (tally : Tally) (effects : List Effect)

theorem after_concat (e : Effect) :
    tally.after (effects ++ [e]) = e.onTally (tally.after effects) := by
  simp [after]

theorem tokens_keep (token : Text) :
    (tally.keep token).references.tokens =
      if token ∈ tally.references.tokens then tally.references.tokens
      else tally.references.tokens ++ [token] := by
  unfold keep References.contains
  split
  · rename_i h
    rw [if_pos (by simpa using h)]
  · exact References.tokens_insert tally.references token

theorem tokens_onTally (e : Effect) :
    (e.onTally tally).references.tokens =
      (tally.references.tokens ++ e.token?.toList).eraseDups := by
  have hnodup := eraseDups_of_nodup _ tally.references.nodup
  cases e with
  | keep token => rw [Effect.onTally, tokens_keep, Effect.token?, Option.toList_some,
      eraseDups_concat, hnodup]
  | _ => simp [Effect.onTally, Effect.token?, countFile, countLine, countExcluded, countMalformed,
      hnodup]

/-- The references after a row of effects are all tokens so far, each at its first appearance. -/
theorem tokens_after :
    (tally.after effects).references.tokens =
      (tally.references.tokens ++ effects.filterMap Effect.token?).eraseDups := by
  -- from the right, since the last effect meets all the tokens in front of it
  induction effects using List.reverseRecOn with
  | nil => simp [after, eraseDups_of_nodup _ tally.references.nodup]
  | append_singleton effects e ih =>
    rw [after_concat, tokens_onTally, ih, List.filterMap_append, ← List.append_assoc]
    cases ht : e.token? with
    | none => simp [ht, eraseDups_of_nodup _ (nodup_eraseDups _)]
    | some token =>
      simp only [List.filterMap_cons, ht, List.filterMap_nil, Option.toList_some]
      rw [eraseDups_concat, eraseDups_concat, eraseDups_of_nodup _ (nodup_eraseDups _)]
      simp only [List.mem_eraseDups]

theorem stats_keep (token : Text) :
    (tally.keep token).stats =
      { tally.stats with
        duplicatesDropped :=
          tally.stats.duplicatesDropped + if token ∈ tally.references.tokens then 1 else 0 } := by
  unfold keep References.contains
  split
  · rename_i h
    rw [if_pos (by simpa using h)]
  · rename_i h
    rw [if_neg (by simpa using h)]
    rfl

/-- Every counter but that of duplicates counts the effects of its kind. The references are not
counted before the end. -/
theorem counters_after :
    (tally.after effects).stats.filesScanned =
        tally.stats.filesScanned + effects.countP Effect.isFile ∧
      (tally.after effects).stats.linesMatched =
        tally.stats.linesMatched + effects.countP Effect.isLine ∧
      (tally.after effects).stats.referencesKept = tally.stats.referencesKept ∧
      (tally.after effects).stats.excluded =
        tally.stats.excluded + effects.countP Effect.isExcluded ∧
      (tally.after effects).stats.malformedSkipped =
        tally.stats.malformedSkipped + effects.countP Effect.isPassedOver := by
  induction effects using List.reverseRecOn with
  | nil => simp [after]
  | append_singleton effects e ih =>
    obtain ⟨hfiles, hlines, hkept, hexcluded, hmalformed⟩ := ih
    simp only [after_concat, List.countP_append, List.countP_singleton]
    cases e with
    | keep token =>
      simp only [Effect.onTally, stats_keep]
      simp [Effect.isFile, Effect.isLine, Effect.isExcluded, Effect.isPassedOver, hfiles, hlines,
        hkept, hexcluded, hmalformed]
    | _ =>
      simp [Effect.onTally, countFile, countLine, countExcluded, countMalformed, Effect.isFile,
        Effect.isLine, Effect.isExcluded, Effect.isPassedOver, hfiles, hlines, hkept, hexcluded,
        hmalformed, Nat.add_assoc]

/-- Every token that comes in is a new reference or a duplicate. -/
theorem duplicates_after :
    (tally.after effects).stats.duplicatesDropped + (tally.after effects).references.size =
      tally.stats.duplicatesDropped + tally.references.size +
        (effects.filterMap Effect.token?).length := by
  induction effects using List.reverseRecOn with
  | nil => simp [after]
  | append_singleton effects e ih =>
    rw [after_concat, List.filterMap_append, List.length_append]
    cases e with
    | keep token =>
      have hsize : ((tally.after effects).keep token).references.size =
          (tally.after effects).references.size +
            if token ∈ (tally.after effects).references.tokens then 0 else 1 := by
        unfold References.size
        rw [tokens_keep]
        split
        · rfl
        · simp
      have hone : ([Effect.keep token].filterMap Effect.token?).length = 1 := rfl
      rw [Effect.onTally, stats_keep, hsize, hone]
      dsimp only
      split <;> omega
    | _ =>
      simp only [Effect.onTally, Effect.token?, countFile, countLine, countExcluded,
        countMalformed, List.filterMap_cons, List.filterMap_nil, List.length_nil]
      omega

end Tally

theorem Tree.counters_census (t : Tree) (config : Config) :
    (t.census config).tally.stats.filesScanned =
        (Effect.done (t.effects config)).countP Effect.isFile ∧
      (t.census config).tally.stats.linesMatched =
        (Effect.done (t.effects config)).countP Effect.isLine ∧
      (t.census config).tally.stats.excluded =
        (Effect.done (t.effects config)).countP Effect.isExcluded ∧
      (t.census config).tally.stats.malformedSkipped =
        (Effect.done (t.effects config)).countP Effect.isPassedOver := by
  obtain ⟨hfiles, hlines, -, hexcluded, hmalformed⟩ :=
    Tally.counters_after Tally.empty (Effect.done (t.effects config))
  rw [Tree.census_eq, Census.stats_complete]
  dsimp only
  rw [hfiles, hlines, hexcluded, hmalformed]
  simp [Tally.empty, Stats.zero]

end ImportCensus
