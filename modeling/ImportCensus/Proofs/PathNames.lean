import ImportCensus.Tree.Basic
import ImportCensus.Tree.Follow
import Mathlib.Data.List.Basic

namespace ImportCensus

def EndsIn (n : FileName) (suffix : Text) : Prop :=
  ∃ name, Utf8.decode? n = some name ∧ suffix <:+ name

theorem ne_nil_of_isFileName (n : FileName) (h : isFileName n = true) : n ≠ [] := by
  rintro rfl
  simp [isFileName] at h

theorem slash_notMem_of_isFileName (n : FileName) (h : isFileName n = true) : slash ∉ n := by
  intro hmem
  simp [isFileName, hmem] at h

theorem nul_notMem_of_isFileName (n : FileName) (h : isFileName n = true) : nul ∉ n := by
  intro hmem
  simp [isFileName, hmem] at h

theorem ordinary_of_isFileName (n : FileName) (h : isFileName n = true) :
    n ≠ selfName ∧ n ≠ parentName := by
  constructor
  · rintro rfl
    revert h
    decide
  · rintro rfl
    revert h
    decide

namespace Path

theorem names_nil : names [] = [] := rfl

theorem names_append_slash (front back : Path) :
    names (front ++ slash :: back) = names front ++ names back := by
  unfold names
  rw [List.splitOnP_append_cons front back (by simp), List.filter_append]

theorem names_of_notMem (n : FileName) (hne : n ≠ []) (h : slash ∉ n) : names n = [n] := by
  unfold names
  rw [List.splitOnP_eq_singleton (decide_eq_false_of_notMem h)]
  simp [hne]

theorem names_of_isFileName (n : FileName) (h : isFileName n = true) : names n = [n] :=
  names_of_notMem n (ne_nil_of_isFileName n h) (slash_notMem_of_isFileName n h)

theorem names_intercalate (ns : List FileName) (h : ∀ n ∈ ns, isFileName n = true) :
    names (List.intercalate [slash] ns) = ns := by
  by_cases hne : ns = []
  · rw [hne]
    rfl
  · have hsplit := List.splitOn_intercalate slash
      (fun n hn => slash_notMem_of_isFileName n (h n hn)) hne
    have hsame : (fun b : UInt8 => decide (b = slash)) = fun b => b == slash := by
      funext b
      by_cases hb : b = slash <;> simp [hb]
    unfold names
    rw [hsame, ← List.splitOn_eq_splitOnP, hsplit, List.filter_eq_self]
    intro n hn
    simp [ne_nil_of_isFileName n (h n hn)]

theorem intercalate_concat (dir : List FileName) (n : FileName) (hne : dir ≠ []) :
    List.intercalate [slash] (dir ++ [n]) = List.intercalate [slash] dir ++ slash :: n := by
  induction dir with
  | nil => exact absurd rfl hne
  | cons m dir ih =>
    cases dir with
    | nil => simp
    | cons k dir =>
      have hrest := ih (List.cons_ne_nil k dir)
      rw [List.cons_append] at hrest
      rw [List.cons_append, List.cons_append, List.intercalate_cons_cons, hrest,
        List.intercalate_cons_cons, List.append_assoc, List.append_assoc, List.append_assoc]

/-- What stands between a root and the names below it: nothing or a slash. -/
def joint (root : Path) : Path := if root.isEmpty || endsInSlash root then [] else [slash]

theorem below_eq (root : Path) (ns : List FileName) (hne : ns ≠ []) :
    root.below ns = root ++ joint root ++ List.intercalate [slash] ns := by
  unfold below joint
  split
  · exact absurd rfl hne
  · split <;> simp

theorem names_joint_append (root back : Path) :
    names (root ++ joint root ++ back) = names root ++ names back := by
  unfold joint
  split
  · rename_i h
    rw [Bool.or_eq_true, List.isEmpty_iff] at h
    rw [List.append_nil]
    rcases h with rfl | h
    · rfl
    · obtain ⟨front, rfl⟩ := List.getLast?_eq_some_iff.1 (beq_iff_eq.1 h)
      rw [List.append_assoc, List.singleton_append, names_append_slash, names_append_slash,
        names_nil, List.append_nil]
  · rw [List.append_assoc, List.singleton_append, names_append_slash]

theorem names_below (root : Path) (ns : List FileName) (h : ∀ n ∈ ns, isFileName n = true) :
    (root.below ns).names = root.names ++ ns := by
  by_cases hne : ns = []
  · rw [hne, List.append_nil]
    rfl
  · rw [below_eq root ns hne, names_joint_append, names_intercalate ns h]

theorem below_injective (root : Path) (ns ms : List FileName)
    (hns : ∀ n ∈ ns, isFileName n = true) (hms : ∀ n ∈ ms, isFileName n = true)
    (h : root.below ns = root.below ms) : ns = ms := by
  have hnames := congrArg names h
  rw [names_below root ns hns, names_below root ms hms] at hnames
  exact List.append_cancel_left hnames

/-- The names in front of the last one end at a slash, if there is anything in front of it. -/
theorem below_concat (root : Path) (dir : List FileName) (n : FileName) :
    ∃ front, root.below (dir ++ [n]) = front ++ n ∧
      names (front ++ n) = names front ++ names n := by
  rw [below_eq root _ (by simp)]
  by_cases hdir : dir = []
  · refine ⟨root ++ joint root, ?_, ?_⟩
    · rw [hdir, List.nil_append, List.intercalate_singleton]
    · have hroot := names_joint_append root []
      rw [List.append_nil, names_nil, List.append_nil] at hroot
      rw [names_joint_append, hroot]
  · refine ⟨root ++ joint root ++ List.intercalate [slash] dir ++ [slash], ?_, ?_⟩
    · rw [intercalate_concat dir n hdir]
      simp
    · rw [List.append_assoc, List.singleton_append, names_append_slash, names_append_slash,
        names_nil, List.append_nil]

theorem hasSuffix_of_fileName? (p : Path) (n : FileName) (suffix : Text)
    (h : p.fileName? = some n) : p.hasSuffix suffix = true ↔ EndsIn n suffix := by
  unfold hasSuffix EndsIn
  rw [h, Option.bind_some]
  cases hdecoded : Utf8.decode? n with
  | none => simp
  | some name => simp

/-- The suffix of a path below a root is that of the last name. -/
theorem hasSuffix_below (root : Path) (dir : List FileName) (n : FileName) (suffix : Text)
    (hn : isFileName n = true) :
    (root.below (dir ++ [n])).hasSuffix suffix = true ↔ EndsIn n suffix := by
  obtain ⟨front, hpath, hnames⟩ := below_concat root dir n
  obtain ⟨hself, hparent⟩ := ordinary_of_isFileName n hn
  have hname : (root.below (dir ++ [n])).fileName? = some n := by
    unfold fileName?
    rw [hpath, hnames, names_of_isFileName n hn, List.filter_append]
    simp [hself, hparent]
  exact hasSuffix_of_fileName? _ n suffix hname

theorem below_ne_nil (root : Path) (ns : List FileName) (hroot : root ≠ []) :
    root.below ns ≠ [] := by
  by_cases hne : ns = []
  · rw [hne]
    exact hroot
  · rw [below_eq root ns hne]
    simp [hroot]

theorem nul_notMem_below (root : Path) (ns : List FileName) (hroot : nul ∉ root)
    (hns : ∀ n ∈ ns, isFileName n = true) : nul ∉ root.below ns := by
  have hnames : nul ∉ List.intercalate [slash] ns := by
    clear hroot
    induction ns with
    | nil => simp
    | cons n ns ih =>
      obtain ⟨hn, hrest⟩ := List.forall_mem_cons.1 hns
      have hfirst := nul_notMem_of_isFileName n hn
      cases ns with
      | nil => simpa using hfirst
      | cons m ns =>
        have hbehind := ih hrest
        have hslash : nul ≠ slash := by decide
        simp only [List.intercalate_cons_cons, List.mem_append, List.mem_singleton, not_or]
        exact ⟨⟨hfirst, hslash⟩, hbehind⟩
  by_cases hne : ns = []
  · rw [hne]
    exact hroot
  · have hjoint : nul ∉ joint root := by
      unfold joint
      split <;> decide
    rw [below_eq root ns hne]
    simp only [List.mem_append, not_or]
    exact ⟨⟨hroot, hjoint⟩, hnames⟩

def stepOf (n : FileName) : Step :=
  if n = selfName then .stay else if n = parentName then .up else .into n

theorem steps_eq (p : Path) :
    p.steps = p.names.map stepOf ++ if endsInSlash p then [.stay] else [] := rfl

/-- The steps of a path below a root lead along the names of the root and then into the directories
below it. -/
theorem steps_below (root : Path) (ns : List FileName) (hne : ns ≠ [])
    (h : ∀ n ∈ ns, isFileName n = true) :
    (root.below ns).steps = root.names.map stepOf ++ ns.map Step.into := by
  have hopen : endsInSlash (root.below ns) = false := by
    obtain ⟨dir, n, rfl⟩ := (List.eq_nil_or_concat' ns).resolve_left hne
    obtain ⟨front, hpath, -⟩ := below_concat root dir n
    have hn : isFileName n = true := h n (by simp)
    have hlast : slash ∉ n := slash_notMem_of_isFileName n hn
    rw [hpath, endsInSlash, beq_eq_false_iff_ne, List.getLast?_append_of_ne_nil _
      (ne_nil_of_isFileName n hn)]
    intro hslash
    exact hlast (List.mem_of_getLast? hslash)
  have hinto : ns.map stepOf = ns.map Step.into := by
    apply List.map_congr_left
    intro n hn
    obtain ⟨hself, hparent⟩ := ordinary_of_isFileName n (h n hn)
    unfold stepOf
    rw [if_neg hself, if_neg hparent]
  rw [steps_eq, names_below root ns h, hopen, List.map_append, hinto]
  simp

end Path

end ImportCensus
