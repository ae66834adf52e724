import ImportCensus.Tree.Node

namespace ImportCensus

structure Tree where
  listing : Listing Node
  wellFormed : (Node.directory listing).WellFormed

namespace Tree

def empty : Tree := ⟨[], Node.wellFormed_ofEntry .directory⟩

def top (t : Tree) : Node := .directory t.listing

def size (t : Tree) : Nat := t.top.size

def get? (t : Tree) (place : Place) : Option Entry := (t.top.at? place).map Node.entry

def children (t : Tree) (place : Place) : Listing Kind :=
  match t.top.at? place with
  | some node => node.listing.map fun e => (e.1, e.2.entry.kind)
  | none => []

def ofNode (node : Node) (h : node.WellFormed) : Tree where
  listing := node.listing
  wellFormed := by
    rw [Node.wellFormed_iff] at h ⊢
    exact h

def erase (t : Tree) (place : Place) : Tree :=
  ofNode (Node.erase place t.top) (Node.wellFormed_erase place t.wellFormed)

/-- The tree with an entry at a place, in directories that are made where there are none. What was
at the place or below it is gone, except below a directory that is put where a directory is. A
place that no entry can have changes nothing. -/
def insert (t : Tree) (place : Place) (entry : Entry) : Tree :=
  if h : place ≠ [] ∧ ∀ n ∈ place, isFileName n = true then
    if entry = .directory ∧ t.get? place = some .directory then t
    else
      ofNode (Node.put (.ofEntry entry) place t.top)
        (Node.wellFormed_put (Node.wellFormed_ofEntry entry) h.2 t.wellFormed)
  else t

@[simp] theorem get?_nil (t : Tree) : t.get? [] = some .directory := rfl

theorem top_ofNode {node : Node} (h : node.WellFormed) (hdir : node.entry = .directory) :
    (ofNode node h).top = node := by
  cases node with
  | file _ => simp [Node.entry] at hdir
  | link _ => simp [Node.entry] at hdir
  | directory _ => rfl

/-- Putting an entry changes nothing but what stands at its place and below, and the way to it. -/
theorem get?_insert (t : Tree) {place : Place} (hplace : place ≠ [])
    (named : ∀ n ∈ place, isFileName n = true) {entry : Entry}
    (h : ¬(entry = .directory ∧ t.get? place = some .directory)) (q : Place) :
    (t.insert place entry).get? q =
      match after? place q, after? q place with
      | some rest, _ => if rest = [] then some entry else none
      | none, some _ => some .directory
      | none, none => t.get? q := by
  obtain ⟨n, rest, rfl⟩ := List.exists_cons_of_ne_nil hplace
  unfold insert
  rw [dif_pos ⟨hplace, named⟩, if_neg h, get?, top_ofNode _ (by rfl), Node.entry_at?_put]
  cases after? (n :: rest) q with
  | none => cases after? q (n :: rest) <;> rfl
  | some behind =>
    cases behind with
    | nil => simp
    | cons m behind => simp [Node.at?_cons]

/-- Taking an entry away changes nothing but what stands at its place and below. -/
theorem get?_erase (t : Tree) {place : Place} (hplace : place ≠ []) (q : Place) :
    (t.erase place).get? q = if (after? place q).isSome then none else t.get? q := by
  unfold erase
  have hdir : (Node.erase place t.top).entry = .directory := by
    have := Node.entry_at?_erase t.top hplace []
    cases place with
    | nil => exact absurd rfl hplace
    | cons n place => simpa [after?, top, Node.entry] using this
  rw [get?, top_ofNode _ hdir, Node.entry_at?_erase t.top hplace]
  rfl

theorem ordered_children (t : Tree) (place : Place) : Listing.Ordered (t.children place) := by
  unfold children
  split
  · rename_i node h
    unfold Listing.Ordered
    rw [List.pairwise_map]
    exact (t.wellFormed place node h).1
  · exact List.Pairwise.nil

/-- A directory lists a name exactly if there is an entry at the place that the name leads to. -/
theorem mem_children_iff (t : Tree) {place : Place} {n : FileName} {k : Kind} :
    (n, k) ∈ t.children place ↔ ∃ e, t.get? (place ++ [n]) = some e ∧ e.kind = k := by
  unfold children get?
  rw [Node.at?_append]
  cases h : t.top.at? place with
  | none => simp
  | some node =>
    have ordered := (t.wellFormed place node h).1
    simp only [Option.bind_some, Node.at?_cons, List.mem_map, Prod.exists, Prod.mk.injEq]
    constructor
    · rintro ⟨m, below, hmem, rfl, rfl⟩
      rw [(Listing.mem_iff_lookup ordered).1 hmem]
      exact ⟨below.entry, rfl, rfl⟩
    · rintro ⟨e, he, rfl⟩
      cases hn : node.listing.lookup n with
      | none => simp [hn] at he
      | some below =>
        simp only [hn, Option.bind_some, Node.at?_nil, Option.map_some, Option.some.injEq] at he
        exact ⟨n, below, (Listing.mem_iff_lookup ordered).2 hn, rfl, by rw [he]⟩

theorem length_children_le (t : Tree) (place : Place) : (t.children place).length ≤ t.size := by
  unfold children
  split
  · rename_i node h
    rw [List.length_map]
    exact Nat.le_trans node.length_listing_le_size (Node.size_le_of_at? h)
  · exact Nat.zero_le _

end Tree

end ImportCensus
