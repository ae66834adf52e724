import ImportCensus.Failure
import ImportCensus.Tree.Resolve

/-!
The walk through a directory in search of files. A walk goes depth first and takes the entries of
a directory in the order of their names. It is lazy: a directory is listed when its turn comes,
and what the listing says of its entries is kept, so later changes of the tree are seen only where
the walk has yet to look. A walk always comes to an end, because every step into a directory makes
the path longer and paths are bounded.
-/

namespace ImportCensus

/-- What a walk comes upon, known by the names that lead to it from the root: a file, a directory
that cannot be listed, or a root that is no directory. The root itself has no names. -/
inductive Item where
  | file (names : List FileName)
  | unlisted (names : List FileName) (cause : Cause)
  | rootNotDirectory
deriving DecidableEq

def Item.result (root : Path) : Item → Except Failure Path
  | .file names => .ok (root.below names)
  | .unlisted names cause => .error (.walk (root.below names) cause)
  | .rootNotDirectory => .error (.rootNotDirectory root)

structure Pending where
  names : List FileName
  kind : Kind
deriving DecidableEq

/-- A walk under way. Before it begins it has no list of pending entries yet. -/
structure Walk where
  root : Path
  suffix : Text
  pending : Option (List Pending)
deriving DecidableEq

def Pending.ofListing (names : List FileName) (listing : List (FileName × Kind)) : List Pending :=
  listing.map fun (n, kind) => ⟨names ++ [n], kind⟩

namespace Walk

def start (root : Path) (suffix : Text) : Walk := ⟨root, suffix, none⟩

def listRoot (t : Tree) (root : Path) : Except Item (List Pending) :=
  match t.resolve false root with
  | .error cause => .error (.unlisted [] cause)
  | .ok (.file _) => .error .rootNotDirectory
  | .ok _ =>
    match t.resolve true root with
    | .error cause => .error (.unlisted [] cause)
    | .ok (.directory place) => .ok (Pending.ofListing [] (t.children place))
    | .ok _ => .error .rootNotDirectory

/-- What a step gives of the entry that is first in turn, and the entries that take its place. A
link is looked for among the files unless it leads to a directory now. -/
def visit (t : Tree) (w : Walk) (p : Pending) : Option Item × List Pending :=
  let path := w.root.below p.names
  match p.kind with
  | .directory =>
    match t.list path with
    | .ok listing => (none, Pending.ofListing p.names listing)
    | .error cause => (some (.unlisted p.names cause), [])
  | .file => (if path.hasSuffix w.suffix then some (.file p.names) else none, [])
  | .link =>
    (if path.hasSuffix w.suffix && !t.isDirectory path then some (.file p.names) else none, [])

def step? (t : Tree) (w : Walk) : Option (Option Item × Walk) :=
  match w.pending with
  | none =>
    match listRoot t w.root with
    | .ok listed => some (none, { w with pending := some listed })
    | .error item => some (some item, { w with pending := some [] })
  | some [] => none
  | some (p :: rest) =>
    some ((w.visit t p).1, { w with pending := some ((w.visit t p).2 ++ rest) })

def depthLimit : Nat := pathLimit + 2

/-- More entries than a walk can take up below one of them in a tree with a given number of entries,
if it can still go down a given number of levels. -/
def capacity (size : Nat) : Nat → Nat
  | 0 => 1
  | levels + 1 => capacity size levels * (size + 1)

def Pending.weight (size : Nat) (p : Pending) : Nat := capacity size (depthLimit - p.names.length)

def weight (t : Tree) (w : Walk) : Nat :=
  match w.pending with
  | none => capacity t.size depthLimit
  | some pending => total (pending.map (Pending.weight t.size))

theorem capacity_pos (size levels : Nat) : 0 < capacity size levels := by
  induction levels with
  | zero => exact Nat.one_pos
  | succ levels ih => exact Nat.mul_pos ih (Nat.succ_pos size)

theorem sum_weight_ofListing (size : Nat) (names : List FileName)
    (listing : List (FileName × Kind)) :
    total ((Pending.ofListing names listing).map (Pending.weight size)) =
      listing.length * capacity size (depthLimit - (names.length + 1)) := by
  induction listing with
  | nil => simp [Pending.ofListing]
  | cons e listing ih =>
    simp only [Pending.ofListing, List.map_cons, total_cons, List.length_cons, Pending.weight,
      List.length_append, List.length_nil] at ih ⊢
    rw [ih, Nat.succ_mul, Nat.add_comm]

/-- A directory weighs more than all that its listing gives. -/
theorem sum_weight_ofListing_lt {size : Nat} {names : List FileName}
    {listing : List (FileName × Kind)} (hsize : listing.length ≤ size)
    (hdepth : names.length < depthLimit) :
    total ((Pending.ofListing names listing).map (Pending.weight size)) <
      capacity size (depthLimit - names.length) := by
  rw [sum_weight_ofListing]
  obtain ⟨m, hm⟩ : ∃ m, depthLimit - names.length = m + 1 :=
    ⟨depthLimit - names.length - 1, by omega⟩
  rw [show depthLimit - (names.length + 1) = m by omega, hm, capacity, Nat.mul_comm]
  exact Nat.mul_lt_mul_of_pos_left (by omega) (capacity_pos size m)

theorem weight_pos (size : Nat) (p : Pending) : 0 < Pending.weight size p :=
  capacity_pos size _

theorem sum_weight_visit_lt (t : Tree) (w : Walk) (p : Pending) :
    total ((w.visit t p).2.map (Pending.weight t.size)) < Pending.weight t.size p := by
  unfold visit
  cases p.kind with
  | file => exact weight_pos _ p
  | link => exact weight_pos _ p
  | directory =>
    dsimp only
    split
    · rename_i listing hlist
      obtain ⟨hpath, hsize⟩ := Tree.bounds_of_list hlist
      have hnames := Path.length_le_length_below w.root p.names
      exact sum_weight_ofListing_lt hsize (by unfold depthLimit; omega)
    · exact weight_pos _ p

/-- Every step of a walk leaves less to do. -/
theorem weight_lt_of_step? {t : Tree} {w : Walk} {item : Option Item} {w' : Walk}
    (h : step? t w = some (item, w')) : weight t w' < weight t w := by
  unfold step? at h
  split at h
  · rename_i hnone
    split at h
    · rename_i listed hlisted
      simp only [Option.some.injEq, Prod.mk.injEq] at h
      obtain ⟨-, rfl⟩ := h
      simp only [weight, hnone]
      unfold listRoot at hlisted
      split at hlisted
      · simp at hlisted
      · simp at hlisted
      · split at hlisted
        · simp at hlisted
        · rename_i place _
          simp only [Except.ok.injEq] at hlisted
          subst hlisted
          exact @sum_weight_ofListing_lt _ [] _ (t.length_children_le place) (by decide)
        · simp at hlisted
    · simp only [Option.some.injEq, Prod.mk.injEq] at h
      obtain ⟨-, rfl⟩ := h
      simp only [weight, hnone, List.map_nil, total_nil]
      exact capacity_pos _ _
  · simp at h
  · rename_i p rest hsome
    simp only [Option.some.injEq, Prod.mk.injEq] at h
    obtain ⟨-, rfl⟩ := h
    simp only [weight, hsome, List.map_append, total_append, List.map_cons, total_cons]
    have := sum_weight_visit_lt t w p
    omega

def next (t : Tree) (w : Walk) : Option Item × Walk :=
  match _h : step? t w with
  | none => (none, w)
  | some (some item, w') => (some item, w')
  | some (none, w') => next t w'
termination_by weight t w
decreasing_by exact weight_lt_of_step? _h

def items (t : Tree) (w : Walk) : List Item :=
  match _h : step? t w with
  | none => []
  | some (some item, w') => item :: items t w'
  | some (none, w') => items t w'
termination_by weight t w
decreasing_by
  · exact weight_lt_of_step? _h
  · exact weight_lt_of_step? _h

end Walk

def Tree.discover (t : Tree) (root : Path) (suffix : Text) : List Item :=
  (Walk.start root suffix).items t

end ImportCensus
