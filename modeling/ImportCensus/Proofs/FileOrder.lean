import Mathlib
import ImportCensus.Proofs.TallyAfter
import ImportCensus.Tree.Edit

namespace ImportCensus

/-- Adds files to a tally one after the other. There is no tally if one of them fails. -/
def Tree.scanAll? (t : Tree) (config : Config) : List Path → Tally → Option Tally
  | [], tally => some tally
  | path :: paths, tally =>
    match (t.scanFile config path tally).failure with
    | none => t.scanAll? config paths (t.scanFile config path tally).tally
    | some _ => none

namespace Tally

section Perm

variable {row row' : List Effect} (tally : Tally) (h : row.Perm row')

include h

/-- The same effects in another order leave the same references in another order. -/
theorem perm_references_after :
    (tally.after row).references.tokens.Perm (tally.after row').references.tokens := by
  rw [tokens_after, tokens_after,
    List.perm_ext_iff_of_nodup (nodup_eraseDups _) (nodup_eraseDups _)]
  intro token
  rw [List.mem_eraseDups, List.mem_eraseDups]
  exact ((h.filterMap Effect.token?).append_left tally.references.tokens).mem_iff

theorem stats_after_of_perm : (tally.after row).stats = (tally.after row').stats := by
  obtain ⟨hfiles, hlines, hkept, hexcluded, hmalformed⟩ := tally.counters_after row
  obtain ⟨hfiles', hlines', hkept', hexcluded', hmalformed'⟩ := tally.counters_after row'
  have hduplicates : (tally.after row).stats.duplicatesDropped =
      (tally.after row').stats.duplicatesDropped := by
    have htokens : (row.filterMap Effect.token?).length = (row'.filterMap Effect.token?).length :=
      (h.filterMap Effect.token?).length_eq
    have hsize : (tally.after row).references.size = (tally.after row').references.size :=
      (perm_references_after tally h).length_eq
    have hall := tally.duplicates_after row
    have hall' := tally.duplicates_after row'
    omega
  rw [← h.countP_eq] at hfiles' hlines' hexcluded' hmalformed'
  cases hstats : (tally.after row).stats
  cases hstats' : (tally.after row').stats
  simp_all

end Perm

end Tally

namespace Tree

variable (t : Tree) (config : Config)

/-- Files can all be added exactly if none of their effects fails, and then all of their effects come
about. -/
theorem scanAll?_eq_some_iff (paths : List Path) (tally result : Tally) :
    t.scanAll? config paths tally = some result ↔
      (∀ e ∈ paths.flatMap (Effect.ofFile t config), e.failure? = none) ∧
        result = tally.after (paths.flatMap (Effect.ofFile t config)) := by
  induction paths generalizing tally with
  | nil => simp [scanAll?, Tally.after, eq_comm]
  | cons path paths ih =>
    rw [scanAll?, List.flatMap_cons, List.forall_mem_append, Tally.after_append, t.scanFile_eq]
    dsimp only
    cases hfailure : (Effect.ofFile t config path).findSome? Effect.failure? with
    | none =>
      have hgoing := List.findSome?_eq_none_iff.1 hfailure
      rw [Effect.done_of_going _ hgoing]
      dsimp only
      rw [ih, and_iff_right hgoing]
    | some failure =>
      have hfailed : ¬∀ e ∈ Effect.ofFile t config path, e.failure? = none := by
        intro hgoing
        rw [List.findSome?_eq_none_iff.2 hgoing] at hfailure
        simp at hfailure
      simp [hfailed]

end Tree

/-- The order of files does not matter. If some files can be added to a tally one after the other, then
they can be in any other order, and the two tallies have the same counters and the same references, in
orders of their own. -/
theorem scanAll?_of_perm (t : Tree) (config : Config) (paths paths' : List Path)
    (hperm : paths.Perm paths') (tally result : Tally)
    (h : t.scanAll? config paths tally = some result) :
    ∃ result', t.scanAll? config paths' tally = some result' ∧ result'.stats = result.stats ∧
      result'.references.tokens.Perm result.references.tokens := by
  obtain ⟨hgoing, rfl⟩ := (t.scanAll?_eq_some_iff config paths tally result).1 h
  have hrow : (paths'.flatMap (Effect.ofFile t config)).Perm
      (paths.flatMap (Effect.ofFile t config)) := hperm.symm.flatMap_right _
  have hgoing' : ∀ e ∈ paths'.flatMap (Effect.ofFile t config), e.failure? = none :=
    fun e he => hgoing e (hrow.mem_iff.1 he)
  exact ⟨_, (t.scanAll?_eq_some_iff config paths' tally _).2 ⟨hgoing', rfl⟩,
    tally.stats_after_of_perm hrow, tally.perm_references_after hrow⟩

def sharingTree : Tree :=
  Tree.ofEdits [
    .put (Utf8.encode "A".toList) (.file (Utf8.encode "import a;\nimport b;\n".toList)),
    .put (Utf8.encode "B".toList) (.file (Utf8.encode "import b;\nimport c;\n".toList))]

theorem scanAll?_of_perm_sharingTree :
    let paths := [Utf8.encode "A".toList, Utf8.encode "B".toList, Utf8.encode "A".toList]
    let paths' := [Utf8.encode "B".toList, Utf8.encode "A".toList, Utf8.encode "A".toList]
    paths.Perm paths' ∧
      ∃ result result',
        sharingTree.scanAll? Config.default paths Tally.empty = some result ∧
        sharingTree.scanAll? Config.default paths' Tally.empty = some result' ∧
        result'.stats = result.stats ∧
        result'.references.tokens.Perm result.references.tokens ∧
        result.references.tokens = ["a".toList, "b".toList, "c".toList] ∧
        result'.references.tokens = ["b".toList, "c".toList, "a".toList] := by
  intro paths paths'
  have hperm : paths.Perm paths' := List.Perm.swap _ _ _
  have hfirst : (sharingTree.scanAll? Config.default paths Tally.empty).map
      (fun result => result.references.tokens) =
        some ["a".toList, "b".toList, "c".toList] := by cbv
  have hsecond : (sharingTree.scanAll? Config.default paths' Tally.empty).map
      (fun result => result.references.tokens) =
        some ["b".toList, "c".toList, "a".toList] := by cbv
  obtain ⟨result, hresult, htokens⟩ := Option.map_eq_some_iff.1 hfirst
  obtain ⟨result', hresult', hstats, hreferences⟩ :=
    scanAll?_of_perm sharingTree Config.default paths paths' hperm Tally.empty result hresult
  rw [hresult'] at hsecond
  exact ⟨hperm, result, result', hresult, hresult', hstats, hreferences, htokens,
    Option.some.inj hsecond⟩

end ImportCensus
