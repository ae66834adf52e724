import ImportCensus.Proofs.LineByLine
import ImportCensus.Proofs.Search

namespace ImportCensus

/-- The place where the last occurrence of a text ends, and the beginning if there is none. -/
def searchEnd (t : Text) : Nat := ((occurrences t).getLast?.map Occurrence.stop).getD 0

section Statement

variable (t more : Text)

/-- A statement at the beginning of a text stays the same if the text goes on. -/
theorem statement?_append (body behind : Text) (h : statement? t = some (body, behind)) :
    statement? (t ++ more) = some (body, behind ++ more) := by
  have hbody := isBody_of_statement? t body behind h
  have hsplit : t ++ more = keyword ++ body ++ ';' :: (behind ++ more) := by
    rw [eq_of_statement? h]
    simp
  rw [hsplit]
  exact statement?_of_isBody body (behind ++ more) hbody

/-- No statement at the beginning of a text is completed by what comes behind if an occurrence ends in
the text: the first semicolon that could end the statement stands in the text too. -/
theorem statement?_append_eq_none (o : Occurrence) (ho : o ∈ occurrences t)
    (h : statement? t = none) : statement? (t ++ more) = none := by
  cases hfound : statement? (t ++ more) with
  | none => rfl
  | some found =>
    obtain ⟨body, behind⟩ := found
    have hsearch : IsSearch t 0 ((occurrences t).map Occurrence.interval) :=
      isSearch_occurrencesFrom 0 [] t rfl
    have hstatement := (hsearch.shortest _ (List.mem_map_of_mem ho)).toIsStatement
    have hroom : o.start + 9 ≤ o.stop := hstatement.room
    have hends : t[o.stop - 1]? = some ';' := hstatement.ends
    obtain ⟨hinside, -⟩ := List.getElem?_eq_some_iff.1 hends
    have hshortest := isShortest_of_statement? [] (t ++ more) body behind hfound
    have hlength : (keyword ++ body ++ [';']).length ≤ t.length := by
      have hwhole : (t ++ more)[o.stop - 1]? = some ';' := by
        rw [List.getElem?_append_left hinside, hends]
      have hlast : ¬o.stop - 1 < 7 + body.length := by
        intro hlt
        apply hshortest.shortest (o.stop - 1) _ _ hwhole
        · rw [List.length_nil]
          omega
        · rw [List.length_nil]
          omega
      have hkeyword : keyword.length = 7 := rfl
      rw [List.length_append, List.length_append, hkeyword, List.length_singleton]
      omega
    have hsplit : t ++ more = (keyword ++ body ++ [';']) ++ behind := by
      rw [eq_of_statement? hfound]
      simp
    obtain ⟨rest, rfl⟩ : keyword ++ body ++ [';'] <+: t :=
      List.prefix_of_prefix_length_le ⟨behind, hsplit.symm⟩ (List.prefix_append t more) hlength
    have hthere := statement?_of_isBody body rest (isBody_of_statement? _ _ _ hfound)
    rw [List.append_assoc, List.singleton_append, hthere] at h
    simp at h

theorem statement?_eq_none_of_keyword (h : ¬keyword <+: t) : statement? t = none := by
  cases hfound : statement? t with
  | none => rfl
  | some found =>
    obtain ⟨body, behind⟩ := found
    exfalso
    apply h
    rw [eq_of_statement? hfound, List.append_assoc]
    exact List.prefix_append keyword _

end Statement

section Search

theorem occurrencesFrom_of_no_keyword (start : Nat) (front back : Text)
    (h : ∀ i < front.length, ¬keyword <+: (front ++ back).drop i) :
    occurrencesFrom start (front ++ back) = occurrencesFrom (start + front.length) back := by
  induction front generalizing start with
  | nil => rfl
  | cons c front ih =>
    have hfirst : ¬keyword <+: c :: (front ++ back) := h 0 (Nat.succ_pos _)
    have hlater : ∀ i < front.length, ¬keyword <+: (front ++ back).drop i :=
      fun i hi => h (i + 1) (Nat.succ_lt_succ hi)
    rw [List.cons_append,
      occurrencesFrom_of_none start c _ (statement?_eq_none_of_keyword _ hfirst), ih _ hlater,
      List.length_cons, Nat.add_assoc, Nat.add_comm 1]

/-- The search in a text that goes on finds what it finds in the text alone, and it goes on behind the
last occurrence there. -/
theorem occurrencesFrom_append (start : Nat) (t : Text) :
    ∃ front rest, t = front ++ rest ∧
      start + front.length =
        ((occurrencesFrom start t).getLast?.map Occurrence.stop).getD start ∧
      ∀ more, occurrencesFrom start (t ++ more) =
        occurrencesFrom start t ++ occurrencesFrom (start + front.length) (rest ++ more) := by
  -- along the search in the text alone
  fun_induction occurrencesFrom start t with
  | case1 start => exact ⟨[], [], rfl, rfl, fun more => rfl⟩
  | case2 start c rest body behind hstatement ih =>
    obtain ⟨front, left, hbehind, hend, hmore⟩ := ih
    have hlength : start + (keyword ++ body ++ ';' :: front).length =
        Occurrence.stop ⟨start, body⟩ + front.length := by
      simp only [Occurrence.stop, List.length_append, List.length_cons]
      omega
    refine ⟨keyword ++ body ++ ';' :: front, left, ?_, ?_, ?_⟩
    · rw [eq_of_statement? hstatement, hbehind]
      simp
    · rw [hlength, hend, List.getLast?_cons, Option.map_some, Option.getD_some]
      cases (occurrencesFrom (Occurrence.stop ⟨start, body⟩) behind).getLast? <;> rfl
    · intro more
      rw [occurrencesFrom_of_statement start _ body _ (statement?_append _ more _ _ hstatement),
        hmore, hlength]
      rfl
  | case3 start c rest hstatement ih =>
    by_cases hnone : occurrencesFrom (start + 1) rest = []
    · -- nothing has been found, so nothing of the text is behind the search
      refine ⟨[], c :: rest, rfl, ?_, ?_⟩
      · rw [hnone]
        rfl
      · intro more
        rw [hnone]
        rfl
    · obtain ⟨front, left, hrest, hend, hmore⟩ := ih
      have hsome : bodies (c :: rest) ≠ [] := by
        rw [bodies_of_none c rest hstatement, ← bodies_from (start + 1)]
        simpa using hnone
      obtain ⟨o, ho⟩ : ∃ o, o ∈ occurrences (c :: rest) := by
        apply List.exists_mem_of_ne_nil
        intro hnil
        exact hsome (by rw [bodies, hnil]; rfl)
      have hlength : start + (c :: front).length = start + 1 + front.length := by
        rw [List.length_cons]
        omega
      refine ⟨c :: front, left, by rw [hrest, List.cons_append], ?_, ?_⟩
      · rw [hlength, hend, List.getLast?_eq_some_getLast hnone]
        rfl
      · intro more
        have hstays := statement?_append_eq_none (c :: rest) more o ho hstatement
        rw [List.cons_append] at hstays ⊢
        rw [occurrencesFrom_of_none start c _ hstays, hmore, hlength]

end Search

/-- The bodies of a text and of what is put behind it. Those of the text come first. Behind them stand
those of what is put behind it, if no keyword begins behind the last occurrence of the text. -/
theorem bodies_append (a b : Text) :
    bodies a <+: bodies (a ++ b) ∧
      ((∀ i, searchEnd a ≤ i → i < a.length → ¬keyword <+: (a ++ b).drop i) →
        bodies (a ++ b) = bodies a ++ bodies b) := by
  obtain ⟨front, rest, hsplit, hend, hmore⟩ := occurrencesFrom_append 0 a
  have hfront : front.length = searchEnd a := by
    rw [← Nat.zero_add front.length]
    exact hend
  have hbodies : bodies (a ++ b) = bodies a ++ bodies (rest ++ b) := by
    rw [← bodies_from 0, hmore, List.map_append, bodies_from, bodies_from]
  refine ⟨⟨bodies (rest ++ b), hbodies.symm⟩, ?_⟩
  intro hnone
  have hrest : ∀ i < rest.length, ¬keyword <+: (rest ++ b).drop i := by
    intro i hi
    have hplace := hnone (front.length + i) (by omega) (by rw [hsplit, List.length_append]; omega)
    rwa [hsplit, List.append_assoc, List.drop_append, List.drop_eq_nil_of_le (Nat.le_add_right _ _),
      Nat.add_sub_cancel_left, List.nil_append] at hplace
  rw [hbodies, ← bodies_from 0 (rest ++ b), occurrencesFrom_of_no_keyword 0 rest b hrest, bodies_from]

/-- The candidates of a text that goes on. Those of the text are not changed by what comes behind, and
new ones can only stand behind them. The candidates of two texts put together are those of the one and
then those of the other, if no keyword begins in the first text behind its last occurrence, even one
that the second text completes. -/
theorem candidates_of_joined (a b : Text) :
    candidates a [] <+: candidates (a ++ b) [] ∧
      ((∀ i, searchEnd a ≤ i → i < a.length → ¬keyword <+: (a ++ b).drop i) →
        candidates (a ++ b) [] = candidates a [] ++ candidates b []) := by
  obtain ⟨hfirst, hboth⟩ := bodies_append a b
  rw [candidates_eq_bodies, candidates_eq_bodies, candidates_eq_bodies]
  refine ⟨hfirst.map _, ?_⟩
  intro hnone
  rw [hboth hnone, List.map_append]

/-- A keyword that is left open takes up a statement behind it, so the candidates of the whole are not
those of the two texts. -/
example :
    candidates "import z;".toList [] = [.reference "z".toList] ∧
      candidates ("import x;import y".toList ++ "import z;".toList) [] =
        [.reference "x".toList, .malformed] :=
  ⟨by cbv, by cbv⟩

def brokenKeyword : Text := "import x; y impor".toList

theorem candidates_of_joined_brokenKeyword :
    let whole := brokenKeyword ++ "import z;".toList
    (∀ i, searchEnd brokenKeyword ≤ i → i < brokenKeyword.length → ¬keyword <+: whole.drop i) ∧
      candidates brokenKeyword [] <+: candidates whole [] ∧
      candidates whole [] = candidates brokenKeyword [] ++ candidates "import z;".toList [] ∧
      candidates brokenKeyword [] = [.reference "x".toList] := by
  intro whole
  obtain ⟨hfirst, hboth⟩ := candidates_of_joined brokenKeyword "import z;".toList
  have hend : searchEnd brokenKeyword = 9 := by cbv
  have hnone : ∀ i, searchEnd brokenKeyword ≤ i → i < brokenKeyword.length →
      ¬keyword <+: whole.drop i := by
    rw [hend]
    decide
  exact ⟨hnone, hfirst, hboth hnone, by cbv⟩

end ImportCensus
