import ImportCensus.Proofs.PathNames
import ImportCensus.Proofs.WrittenText

/-!
The suffix of a path, however the path is spelled. Anything may stand in front of the last name, and
slashes and steps that stay in place behind it; the suffix is asked of the last name alone. A name
that is text ends in a suffix just when its octets do. A name that is no text ends in nothing at all,
whatever its last octets are.
-/

namespace ImportCensus

/-- What can be the last name of a path: it stands between slashes, and it leads neither to where the
path is already nor to the parent. -/
structure IsLastName (n : FileName) : Prop where
  ne_nil : n ≠ []
  slash_notMem : slash ∉ n
  ne_selfName : n ≠ selfName
  ne_parentName : n ≠ parentName

theorem isLastName_of_isFileName (n : FileName) (h : isFileName n = true) : IsLastName n := by
  obtain ⟨hself, hparent⟩ := ordinary_of_isFileName n h
  exact ⟨ne_nil_of_isFileName n h, slash_notMem_of_isFileName n h, hself, hparent⟩

/-- The octets of a name decide: they are those of a text, and the last of them are those of the
suffix. -/
theorem endsIn_iff (n : FileName) (suffix : Text) :
    EndsIn n suffix ↔ (∃ name, n = Utf8.encode name) ∧ Utf8.encode suffix <:+ n := by
  unfold EndsIn
  simp only [Utf8.decode?_eq_some_iff]
  constructor
  · rintro ⟨name, rfl, hsuffix⟩
    exact ⟨⟨name, rfl⟩, (Utf8.encode_isSuffix_iff suffix name).2 hsuffix⟩
  · rintro ⟨⟨name, rfl⟩, hsuffix⟩
    exact ⟨name, rfl, (Utf8.encode_isSuffix_iff suffix name).1 hsuffix⟩

namespace Path

/-- A piece of a path behind the last name: a slash, or a slash and a step that stays in place. -/
inductive Trailing where
  | slash
  | stay

def Trailing.written : Trailing → Path
  | .slash => [ImportCensus.slash]
  | .stay => ImportCensus.slash :: selfName

/-- A way to write a path: the last name, below a parent that is any path at all or by itself, and
what stands behind the name without leading on. -/
structure Spelling where
  parent : Option Path
  name : FileName
  isLast : IsLastName name
  trailing : List Trailing

def Spelling.leaf (w : Spelling) : Path :=
  match w.parent with
  | some parent => parent ++ slash :: w.name
  | none => w.name

def Spelling.path (w : Spelling) : Path := w.leaf ++ w.trailing.flatMap Trailing.written

def leading (p : Path) : List FileName := p.names.filter fun n => decide (n ≠ selfName)

theorem fileName?_eq (p : Path) :
    p.fileName? = p.leading.getLast?.bind fun n => if n = parentName then none else some n := by
  unfold fileName? leading
  split
  · rename_i n hlast
    rw [hlast, Option.bind_some]
  · rename_i hlast
    rw [hlast, Option.bind_none]

theorem fileName?_of_leading (p : Path) (before : List FileName) (n : FileName)
    (h : p.leading = before ++ [n]) :
    p.fileName? = if n = parentName then none else some n := by
  rw [fileName?_eq, h, List.getLast?_concat, Option.bind_some]

theorem leading_append_slash (front back : Path) :
    leading (front ++ slash :: back) = leading front ++ leading back := by
  unfold leading
  rw [names_append_slash, List.filter_append]

theorem leading_of_notMem (n : FileName) (hn : ¬(n = [] ∨ n = selfName)) (hslash : slash ∉ n) :
    leading n = [n] := by
  obtain ⟨hne, hself⟩ := not_or.1 hn
  unfold leading
  rw [names_of_notMem n hne hslash]
  simp [hself]

theorem leading_append_written (p : Path) (piece : Trailing) :
    leading (p ++ piece.written) = leading p := by
  have hnowhere : ∀ back : Path, leading back = [] → leading (p ++ slash :: back) = leading p := by
    intro back hback
    rw [leading_append_slash, hback, List.append_nil]
  cases piece with
  | slash => exact hnowhere [] rfl
  | stay => exact hnowhere selfName (by decide)

theorem leading_append_trailing (p : Path) (trailing : List Trailing) :
    leading (p ++ trailing.flatMap Trailing.written) = leading p := by
  induction trailing generalizing p with
  | nil => rw [List.flatMap_nil, List.append_nil]
  | cons piece trailing ih =>
    rw [List.flatMap_cons, ← List.append_assoc, ih, leading_append_written]

/-- However a path is spelled, what it leads to has the last name of the spelling. -/
theorem fileName?_path (w : Spelling) : w.path.fileName? = some w.name := by
  obtain ⟨hne, hslash, hself, hparent⟩ := w.isLast
  have hname := leading_of_notMem w.name (not_or.2 ⟨hne, hself⟩) hslash
  have hleaf : ∃ before, w.leaf.leading = before ++ [w.name] := by
    unfold Spelling.leaf
    cases w.parent with
    | none => exact ⟨[], hname⟩
    | some parent => exact ⟨leading parent, by rw [leading_append_slash, hname]⟩
  obtain ⟨before, hbefore⟩ := hleaf
  have hpath : w.path.leading = before ++ [w.name] := by
    rw [Spelling.path, leading_append_trailing, hbefore]
  rw [fileName?_of_leading _ before w.name hpath, if_neg hparent]

theorem slash_notMem_or_last (p : Path) :
    slash ∉ p ∨ ∃ front n, p = front ++ slash :: n ∧ slash ∉ n := by
  by_cases hmem : slash ∈ p
  · obtain ⟨back, front, hsplit, hfree⟩ := List.eq_append_cons_of_mem (List.mem_reverse.2 hmem)
    refine Or.inr ⟨front.reverse, back.reverse, ?_, ?_⟩
    · rw [← List.reverse_reverse p, hsplit]
      simp
    · rwa [List.mem_reverse]
  · exact Or.inl hmem

/-- A piece between slashes that is no step that stays in place is the last name, if there is one. -/
theorem isLastName_of_fileName? (p : Path) (before : List FileName) (m n : FileName)
    (hleading : p.leading = before ++ [m]) (hm : ¬(m = [] ∨ m = selfName)) (hslash : slash ∉ m)
    (h : p.fileName? = some n) : IsLastName m ∧ m = n := by
  obtain ⟨hne, hself⟩ := not_or.1 hm
  rw [fileName?_of_leading p before m hleading] at h
  split at h
  · simp at h
  · rename_i hparent
    exact ⟨⟨hne, hslash, hself, hparent⟩, Option.some.inj h⟩

def Spelling.followedBy (w : Spelling) (piece : Trailing) : Spelling :=
  { w with trailing := w.trailing ++ [piece] }

theorem path_followedBy (w : Spelling) (piece : Trailing) :
    (w.followedBy piece).path = w.path ++ piece.written := by
  simp [Spelling.followedBy, Spelling.path, Spelling.leaf]

/-- Every path that leads to something with a name is a spelling of that name. -/
theorem exists_spelling_of_fileName? (p : Path) (n : FileName) (h : p.fileName? = some n) :
    ∃ w : Spelling, w.path = p ∧ w.name = n := by
  -- pieces that lead nowhere come off the end one by one, until the last name stands there
  induction hlength : p.length using Nat.strong_induction_on generalizing p with
  | _ length ih =>
    rcases slash_notMem_or_last p with hslash | ⟨front, m, rfl, hslash⟩
    · by_cases hstays : p = [] ∨ p = selfName
      · have hnone : p.fileName? = none := by
          rcases hstays with rfl | rfl <;> rfl
        rw [hnone] at h
        simp at h
      · obtain ⟨hp, rfl⟩ := isLastName_of_fileName? p [] p n
          (leading_of_notMem p hstays hslash) hstays hslash h
        exact ⟨⟨none, p, hp, []⟩, List.append_nil p, rfl⟩
    · by_cases hstays : m = [] ∨ m = selfName
      · -- the last piece leads nowhere, so the name is that of the path in front of it
        obtain ⟨piece, hpiece⟩ : ∃ piece : Trailing, slash :: m = piece.written := by
          rcases hstays with rfl | rfl
          · exact ⟨.slash, rfl⟩
          · exact ⟨.stay, rfl⟩
        rw [hpiece, fileName?_eq, leading_append_written, ← fileName?_eq] at h
        have hshorter : front.length < length := by
          rw [← hlength, List.length_append, List.length_cons]
          omega
        obtain ⟨w, rfl, rfl⟩ := ih front.length hshorter front h rfl
        exact ⟨w.followedBy piece, by rw [path_followedBy, hpiece], rfl⟩
      · have hleading : leading (front ++ slash :: m) = leading front ++ [m] := by
          rw [leading_append_slash, leading_of_notMem m hstays hslash]
        obtain ⟨hm, rfl⟩ := isLastName_of_fileName? _ _ m n hleading hstays hslash h
        exact ⟨⟨some front, m, hm, []⟩, List.append_nil _, rfl⟩

/-- The suffix of a path is that of its last name, in every spelling: the name is text, and its
octets end in those of the suffix. A path that cannot be spelled with a last name has no suffix. -/
theorem hasSuffix_by_lastName (suffix : Text) :
    (∀ w : Spelling, w.path.hasSuffix suffix = true ↔
      (∃ name, w.name = Utf8.encode name) ∧ Utf8.encode suffix <:+ w.name) ∧
    ∀ p : Path, p.hasSuffix suffix = true → ∃ w : Spelling, w.path = p := by
  constructor
  · intro w
    rw [hasSuffix_of_fileName? _ w.name suffix (fileName?_path w), endsIn_iff]
  · intro p h
    cases hname : p.fileName? with
    | none => simp [hasSuffix, hname] at h
    | some n =>
      obtain ⟨w, hw, -⟩ := exists_spelling_of_fileName? p n hname
      exact ⟨w, hw⟩

example : hasSuffix (Utf8.encode "../a.b//./Café.java/./".toList) ".java".toList = true := by decide

/-- A name that was not written in UTF-8. It ends in the octets of a suffix, and one in front of them
is damaged. -/
def damagedName : FileName := Utf8.encode "Caf".toList ++ 0xE9 :: Utf8.encode ".java".toList

theorem isLastName_damagedName : IsLastName damagedName :=
  isLastName_of_isFileName damagedName (by decide)

/-- The octets of a name alone do not decide: this one ends in those of the suffix, and its path has
not got the suffix. -/
theorem not_hasSuffix_damagedName :
    let w : Spelling := ⟨some (Utf8.encode "src".toList), damagedName, isLastName_damagedName, []⟩
    isFileName w.name = true ∧ Utf8.encode ".java".toList <:+ w.name ∧
      ¬(w.path.hasSuffix ".java".toList = true ↔ Utf8.encode ".java".toList <:+ w.name) := by
  decide

end Path

end ImportCensus
