import Mathlib.Data.List.Sort
import ImportCensus.Walk

namespace ImportCensus

theorem Tree.children_eq_of_kinds (t : Tree) (place : Place) (listing : Listing Kind)
    (hordered : listing.Ordered)
    (h : ∀ n kind, (n, kind) ∈ listing ↔ ∃ e, t.get? (place ++ [n]) = some e ∧ e.kind = kind) :
    t.children place = listing := by
  -- listings are in strict order, so two of them with the same members are the same
  have : Std.Irrefl fun a b : FileName × Kind => a.1 < b.1 := ⟨fun a => List.lt_irrefl a.1⟩
  have : Std.Antisymm fun a b : FileName × Kind => a.1 < b.1 :=
    ⟨fun a b hab hba => absurd (List.lt_trans hab hba) (List.lt_irrefl a.1)⟩
  refine List.Pairwise.eq_of_mem_iff (t.ordered_children place) hordered ?_
  rintro ⟨n, kind⟩
  rw [t.mem_children_iff, h]

/-- Two walks can go in step: their roots are refused for the same reason or list pairs of entries,
and the entries of a pair give the same item, if any, and lead to pairs. -/
structure InStep (t t' : Tree) (root root' : Path) (suffix : Text)
    (Paired : Pending → Pending → Prop) : Prop where
  roots : (∃ item, Walk.listRoot t root = .error item ∧ Walk.listRoot t' root' = .error item) ∨
    ∃ listed listed', Walk.listRoot t root = .ok listed ∧ Walk.listRoot t' root' = .ok listed' ∧
      List.Forall₂ Paired listed listed'
  visits : ∀ p p', Paired p p' →
    ((Walk.start root suffix).visit t p).1 = ((Walk.start root' suffix).visit t' p').1 ∧
      List.Forall₂ Paired ((Walk.start root suffix).visit t p).2
        ((Walk.start root' suffix).visit t' p').2

namespace Walk

inductive Abreast (root root' : Path) (suffix : Text) (Paired : Pending → Pending → Prop) :
    Walk → Walk → Prop where
  | start : Abreast root root' suffix Paired ⟨root, suffix, none⟩ ⟨root', suffix, none⟩
  | going (entries entries' : List Pending) (h : List.Forall₂ Paired entries entries') :
      Abreast root root' suffix Paired ⟨root, suffix, some entries⟩ ⟨root', suffix, some entries'⟩

section InStep

variable {t t' : Tree} {root root' : Path} {suffix : Text} {Paired : Pending → Pending → Prop}

/-- One step keeps two walks abreast, and both come upon the same in it. -/
theorem step?_of_abreast (h : InStep t t' root root' suffix Paired) (w w' : Walk)
    (habreast : Abreast root root' suffix Paired w w') :
    Option.Rel (fun x x' => x.1 = x'.1 ∧ Abreast root root' suffix Paired x.2 x'.2)
      (w.step? t) (w'.step? t') := by
  unfold step?
  cases habreast with
  | start =>
    dsimp only
    rcases h.roots with ⟨item, hroot, hroot'⟩ | ⟨listed, listed', hroot, hroot', hpairs⟩
    · rw [hroot, hroot']
      exact .some ⟨rfl, .going _ _ .nil⟩
    · rw [hroot, hroot']
      exact .some ⟨rfl, .going _ _ hpairs⟩
  | going entries entries' hpairs =>
    cases hpairs with
    | nil => exact .none
    | @cons p p' rest rest' hp hrest =>
      obtain ⟨hitem, hmore⟩ := h.visits p p' hp
      exact .some ⟨hitem, .going _ _ (List.rel_append hmore hrest)⟩

/-- Walks that are abreast come upon the same from there on. -/
theorem items_of_abreast (h : InStep t t' root root' suffix Paired) (w w' : Walk)
    (habreast : Abreast root root' suffix Paired w w') : w.items t = w'.items t' := by
  -- along the first walk: the second one makes each step with it, so they stay abreast
  fun_induction items t w generalizing w' with
  | case1 w hstep =>
    have hboth := step?_of_abreast h w w' habreast
    rw [hstep] at hboth
    generalize hstep' : w'.step? t' = made at hboth
    cases hboth
    rw [items, hstep']
  | case2 w item v hstep ih =>
    have hboth := step?_of_abreast h w w' habreast
    rw [hstep] at hboth
    generalize hstep' : w'.step? t' = made at hboth
    obtain @⟨-, ⟨-, v'⟩, rfl, hrest⟩ := hboth
    have hitems : w'.items t' = item :: v'.items t' := by rw [items, hstep']
    rw [hitems, ih v' hrest]
  | case3 w v hstep ih =>
    have hboth := step?_of_abreast h w w' habreast
    rw [hstep] at hboth
    generalize hstep' : w'.step? t' = made at hboth
    obtain @⟨-, ⟨-, v'⟩, rfl, hrest⟩ := hboth
    have hitems : w'.items t' = v'.items t' := by rw [items, hstep']
    rw [hitems, ih v' hrest]

/-- Walks that can go in step come upon the same. -/
theorem discover_of_inStep (h : InStep t t' root root' suffix Paired) :
    t.discover root suffix = t'.discover root' suffix :=
  items_of_abreast h _ _ .start

end InStep

end Walk

end ImportCensus
