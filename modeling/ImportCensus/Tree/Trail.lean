import ImportCensus.Tree.Follow

namespace ImportCensus

/-- The way to a directory: its listing, and the directories around it, the nearest first, each
with its listing and the name by which the way went on. -/
structure Trail where
  here : Listing Node
  around : List (Listing Node × FileName)

namespace Trail

def start (t : Tree) : Trail := ⟨t.listing, []⟩

def into (w : Trail) (n : FileName) (below : Listing Node) : Trail := ⟨below, (w.here, n) :: w.around⟩

def up (w : Trail) : Trail :=
  match w.around with
  | [] => w
  | (listing, _) :: rest => ⟨listing, rest⟩

def place (w : Trail) : Place := (w.around.map fun a => a.2).reverse

def follow (atLast : Bool) (pass : Trail → Path → List Step → Except Cause Found) :
    Trail → List Step → Except Cause Found
  | w, [] => .ok (.directory w.place)
  | w, .stay :: rest => follow atLast pass w rest
  | w, .up :: rest => follow atLast pass w.up rest
  | w, .into n :: rest =>
    if nameLimit < n.length then .error .nameTooLong
    else
      match w.here.lookup n with
      | none => .error .notFound
      | some (.directory below) => follow atLast pass (w.into n below) rest
      | some (.file content) => if rest.isEmpty then .ok (.file content) else .error .notDirectory
      | some (.link target) =>
        if rest.isEmpty && !atLast then .ok (.link (w.place ++ [n]) target)
        else pass w target rest

def followLinks (top : Trail) (atLast : Bool) : Nat → Trail → List Step → Except Cause Found
  | 0 => follow atLast fun _ _ _ => .error .linkLoop
  | links + 1 => follow atLast fun w target rest =>
    target.orNullDevice rest
      (followLinks top atLast links (if target.isAbsolute then top else w) (target.steps ++ rest))

inductive Leads (t : Tree) : Trail → Place → Prop where
  | start : Leads t (Trail.start t) []
  | into {w : Trail} {place : Place} {n : FileName} {below : Listing Node} (h : Leads t w place)
      (hn : w.here.lookup n = some (.directory below)) : Leads t (w.into n below) (place ++ [n])

theorem place_of_leads {t : Tree} {w : Trail} {place : Place} (h : Leads t w place) :
    w.place = place := by
  induction h with
  | start => rfl
  | into h hn ih =>
    rw [← ih]
    simp [Trail.place, Trail.into]

theorem leads_up {t : Tree} {w : Trail} {place : Place} (h : Leads t w place) :
    Leads t w.up place.dropLast := by
  cases h with
  | start => exact .start
  | into h hn =>
    rw [List.dropLast_concat]
    exact h

theorem at?_of_leads {t : Tree} {w : Trail} {place : Place} (h : Leads t w place) :
    t.top.at? place = some (.directory w.here) := by
  induction h with
  | start => rfl
  | into h hn ih =>
    rw [Node.at?_append, ih, Option.bind_some, Node.at?_cons, Node.listing_directory, hn]
    rfl

theorem get?_of_leads {t : Tree} {w : Trail} {place : Place} (h : Leads t w place)
    (n : FileName) : t.get? (place ++ [n]) = (w.here.lookup n).map Node.entry := by
  rw [Tree.get?, Node.at?_append, at?_of_leads h, Option.bind_some, Node.at?_cons,
    Node.listing_directory]
  cases w.here.lookup n <;> rfl

theorem follow_eq {t : Tree} {atLast : Bool}
    {pass : Trail → Path → List Step → Except Cause Found}
    {pass' : Place → Path → List Step → Except Cause Found}
    (hpass : ∀ w place, Leads t w place → ∀ target rest, pass w target rest = pass' place target rest)
    {w : Trail} {place : Place} (h : Leads t w place) (steps : List Step) :
    follow atLast pass w steps = t.follow atLast pass' place steps := by
  induction steps generalizing w place with
  | nil => rw [follow, Tree.follow, place_of_leads h]
  | cons step rest ih =>
    cases step with
    | stay => exact ih h
    | up => exact ih (leads_up h)
    | into n =>
      rw [follow, Tree.follow, get?_of_leads h]
      split
      · rfl
      · cases hn : w.here.lookup n with
        | none => rfl
        | some below =>
          cases below with
          | file content => rfl
          | directory below => exact ih (h.into hn)
          | link target =>
            simp only [Option.map_some, Node.entry]
            rw [place_of_leads h, hpass w place h]

/-- Along a trail, steps and links lead to where they lead by places. -/
theorem followLinks_eq {t : Tree} {atLast : Bool} (links : Nat) {w : Trail} {place : Place}
    (h : Leads t w place) (steps : List Step) :
    followLinks (Trail.start t) atLast links w steps = t.followLinks atLast links place steps := by
  induction links generalizing w place steps with
  | zero => exact follow_eq (fun _ _ _ _ _ => rfl) h steps
  | succ links ih =>
    refine follow_eq (fun w place h target rest => ?_) h steps
    have horigin : Leads t (if target.isAbsolute then Trail.start t else w) (target.origin place) := by
      unfold Path.origin
      split
      · exact .start
      · exact h
    rw [ih horigin]

end Trail

end ImportCensus
