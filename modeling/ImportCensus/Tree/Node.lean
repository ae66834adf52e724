import ImportCensus.Tree.Listing

namespace ImportCensus

abbrev Place := List FileName

inductive Entry where
  | file (content : Bytes)
  | link (target : Path)
  | directory
deriving DecidableEq

inductive Kind where
  | file
  | link
  | directory
deriving DecidableEq

def Entry.kind : Entry → Kind
  | .file _ => .file
  | .link _ => .link
  | .directory => .directory

def isFileName (n : FileName) : Bool :=
  !n.isEmpty && !n.contains slash && !n.contains nul && n != selfName && n != parentName

def total (numbers : List Nat) : Nat := numbers.foldr (· + ·) 0

@[simp] theorem total_nil : total [] = 0 := rfl

@[simp] theorem total_cons (n : Nat) (numbers : List Nat) :
    total (n :: numbers) = n + total numbers := rfl

theorem total_append (front back : List Nat) : total (front ++ back) = total front + total back := by
  induction front with
  | nil => simp
  | cons n front ih =>
    rw [List.cons_append, total_cons, total_cons, ih]
    omega

inductive Node where
  | file (content : Bytes)
  | link (target : Path)
  | directory (listing : List (FileName × Node))

namespace Node

def entry : Node → Entry
  | .file content => .file content
  | .link target => .link target
  | .directory _ => .directory

def ofEntry : Entry → Node
  | .file content => .file content
  | .link target => .link target
  | .directory => .directory []

def listing : Node → Listing Node
  | .directory listing => listing
  | _ => []

def at? : Node → Place → Option Node
  | node, [] => some node
  | node, n :: rest =>
    match node.listing.lookup n with
    | some below => below.at? rest
    | none => none

/-- A node with another one put at a place in it. All that was at the place or below it is gone,
and what is missing on the way is made: whatever is no directory there gives way to one. -/
def put (new : Node) : Place → Node → Node
  | [], _ => new
  | n :: rest, node =>
    .directory (node.listing.put n (put new rest ((node.listing.lookup n).getD (.directory []))))

def mapListing (f : Listing Node → Listing Node) : Node → Node
  | .directory listing => .directory (f listing)
  | node => node

def erase : Place → Node → Node
  | [], node => node
  | [n], node => node.mapListing fun listing => listing.without n
  | n :: m :: rest, node => node.mapListing fun listing => listing.change n (erase (m :: rest))

def size : Node → Nat
  | .directory listing => total (listing.map fun e => e.2.size + 1)
  | _ => 0
decreasing_by
  rename_i he
  have smaller := List.sizeOf_lt_of_mem he
  obtain ⟨n, below⟩ := e
  simp only [Prod.mk.sizeOf_spec, Node.directory.sizeOf_spec] at smaller ⊢
  omega

def WellFormed (node : Node) : Prop :=
  ∀ place below, node.at? place = some below →
    below.listing.Ordered ∧ ∀ e ∈ below.listing, isFileName e.1 = true

@[simp] theorem listing_directory (l : Listing Node) : (directory l).listing = l := rfl

@[simp] theorem at?_nil (node : Node) : node.at? [] = some node := rfl

theorem at?_cons (node : Node) (n : FileName) (place : Place) :
    node.at? (n :: place) = (node.listing.lookup n).bind fun below => below.at? place := by
  rw [at?]
  split <;> simp [*]

theorem at?_append (node : Node) (front back : Place) :
    node.at? (front ++ back) = (node.at? front).bind fun below => below.at? back := by
  induction front generalizing node with
  | nil => simp
  | cons n front ih =>
    rw [List.cons_append, at?_cons, at?_cons, Option.bind_assoc]
    congr 1
    funext below
    exact ih below

@[simp] theorem listing_ofEntry (e : Entry) : (ofEntry e).listing = [] := by
  cases e <;> rfl

@[simp] theorem entry_ofEntry (e : Entry) : (ofEntry e).entry = e := by
  cases e <;> rfl

theorem listing_mapListing {f : Listing Node → Listing Node} (hf : f [] = []) (node : Node) :
    (node.mapListing f).listing = f node.listing := by
  cases node with
  | file _ => exact hf.symm
  | link _ => exact hf.symm
  | directory listing => rfl

theorem entry_mapListing (f : Listing Node → Listing Node) (node : Node) :
    (node.mapListing f).entry = node.entry := by
  cases node <;> rfl

theorem wellFormed_iff (node : Node) :
    node.WellFormed ↔ (node.listing.Ordered ∧ ∀ e ∈ node.listing, isFileName e.1 = true) ∧
      ∀ n below, node.listing.lookup n = some below → below.WellFormed := by
  constructor
  · intro h
    refine ⟨h [] node rfl, ?_⟩
    intro n below hn place inner hinner
    refine h (n :: place) inner ?_
    rw [at?_cons, hn]
    exact hinner
  · rintro ⟨own, inside⟩ place below h
    cases place with
    | nil =>
      obtain rfl := Option.some.inj h
      exact own
    | cons n place =>
      rw [at?_cons] at h
      obtain ⟨inner, hn, hinner⟩ := Option.bind_eq_some_iff.1 h
      exact inside n inner hn place below hinner

theorem wellFormed_ofEntry (e : Entry) : (ofEntry e).WellFormed := by
  rw [wellFormed_iff]
  simp [Listing.Ordered]

theorem wellFormed_put {new : Node} (hnew : new.WellFormed) {place : Place}
    (named : ∀ n ∈ place, isFileName n = true) {node : Node} (h : node.WellFormed) :
    (put new place node).WellFormed := by
  induction place generalizing node with
  | nil => exact hnew
  | cons n place ih =>
    obtain ⟨⟨ordered, names⟩, inside⟩ := (wellFormed_iff node).1 h
    have hinner : (put new place ((node.listing.lookup n).getD (.directory []))).WellFormed := by
      refine ih (fun m hm => named m (List.mem_cons_of_mem n hm)) ?_
      cases hn : node.listing.lookup n with
      | none => exact wellFormed_ofEntry .directory
      | some below => exact inside n below hn
    rw [wellFormed_iff]
    refine ⟨⟨Listing.ordered_put n _ ordered, ?_⟩, ?_⟩
    · intro e he
      rcases Listing.mem_put he with rfl | he
      · exact named n List.mem_cons_self
      · exact names e he
    · intro m below hm
      simp only [put, listing_directory, Listing.lookup_put] at hm
      split at hm
      · obtain rfl := Option.some.inj hm
        exact hinner
      · exact inside m below hm

theorem wellFormed_erase (place : Place) {node : Node} (h : node.WellFormed) :
    (erase place node).WellFormed := by
  induction place generalizing node with
  | nil => exact h
  | cons n place ih =>
    obtain ⟨⟨ordered, names⟩, inside⟩ := (wellFormed_iff node).1 h
    rw [wellFormed_iff]
    cases place with
    | nil =>
      rw [erase, listing_mapListing (by rfl)]
      refine ⟨⟨Listing.ordered_without n ordered, ?_⟩, ?_⟩
      · intro e he
        exact names e (List.mem_filter.1 he).1
      · intro m below hm
        rw [Listing.lookup_without] at hm
        split at hm
        · simp at hm
        · exact inside m below hm
    | cons m place =>
      rw [erase, listing_mapListing (by rfl)]
      refine ⟨⟨Listing.ordered_change n _ ordered, ?_⟩, ?_⟩
      · intro e he
        obtain ⟨d, hd, rfl⟩ := List.mem_map.1 he
        exact names d hd
      · intro k below hk
        rw [Listing.lookup_change] at hk
        split at hk
        · obtain ⟨inner, hinner, rfl⟩ := Option.map_eq_some_iff.1 hk
          exact ih (inside k inner hinner)
        · exact inside k below hk

/-- Where a node was put stands that node with all that stands in it. On the way to it are
directories, and everywhere else nothing has changed. -/
theorem entry_at?_put (new node : Node) (place q : Place) :
    ((put new place node).at? q).map entry =
      match after? place q, after? q place with
      | some rest, _ => (new.at? rest).map entry
      | none, some _ => some .directory
      | none, none => (node.at? q).map entry := by
  induction place generalizing node q with
  | nil => simp [put, after?]
  | cons n place ih =>
    cases q with
    | nil => simp [put, after?, entry]
    | cons m q =>
      rw [at?_cons, at?_cons]
      simp only [put, listing_directory, Listing.lookup_put, after?]
      by_cases h : m = n
      · subst h
        rw [if_pos rfl, if_pos rfl, if_pos rfl, Option.bind_some, ih]
        cases hback : after? place q with
        | some rest => rfl
        | none =>
          cases hfront : after? q place with
          | some rest => rfl
          | none =>
            cases hinner : node.listing.lookup m with
            | some below => rfl
            | none =>
              cases q with
              | nil => simp [after?] at hfront
              | cons k q => simp [at?_cons]
      · rw [if_neg h, if_neg (Ne.symm h), if_neg h]

/-- At the place from which an entry was taken away nothing stands, nor below it, and everywhere
else nothing has changed. -/
theorem entry_at?_erase (node : Node) {place : Place} (hplace : place ≠ []) (q : Place) :
    ((erase place node).at? q).map entry =
      if (after? place q).isSome then none else (node.at? q).map entry := by
  induction place generalizing node q with
  | nil => exact absurd rfl hplace
  | cons n place ih =>
    cases q with
    | nil =>
      cases place with
      | nil => simp [erase, after?, entry_mapListing]
      | cons m place => simp [erase, after?, entry_mapListing]
    | cons k q =>
      rw [at?_cons, at?_cons]
      cases place with
      | nil =>
        rw [erase, listing_mapListing (by rfl), Listing.lookup_without]
        by_cases h : k = n
        · simp [after?, h]
        · simp [after?, h, Ne.symm h]
      | cons m place =>
        rw [erase, listing_mapListing (by rfl), Listing.lookup_change]
        by_cases h : k = n
        · subst h
          cases hinner : node.listing.lookup k with
          | none => simp [after?]
          | some below =>
            have := ih below (by simp) q
            simpa [after?] using this
        · simp [after?, h, Ne.symm h]

theorem length_listing_le_size (node : Node) : node.listing.length ≤ node.size := by
  cases node with
  | file _ => exact Nat.zero_le _
  | link _ => exact Nat.zero_le _
  | directory entries =>
    simp only [listing, size]
    induction entries with
    | nil => simp
    | cons e entries ih =>
      simp only [List.length_cons, List.map_cons, total_cons]
      omega

theorem size_le_of_at? {node below : Node} {place : Place} (h : node.at? place = some below) :
    below.size ≤ node.size := by
  induction place generalizing node with
  | nil =>
    obtain rfl := Option.some.inj h
    exact Nat.le_refl _
  | cons n place ih =>
    rw [at?_cons] at h
    obtain ⟨inner, hn, hinner⟩ := Option.bind_eq_some_iff.1 h
    refine Nat.le_trans (ih hinner) ?_
    cases node with
    | file _ => simp [listing] at hn
    | link _ => simp [listing] at hn
    | directory entries =>
      have member : (n, inner) ∈ entries := Listing.mem_of_lookup hn
      obtain ⟨front, back, rfl⟩ := List.append_of_mem member
      rw [size]
      simp only [List.map_append, List.map_cons, total_append, total_cons]
      omega

end Node

end ImportCensus
