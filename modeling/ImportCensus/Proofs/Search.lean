import ImportCensus.Proofs.Occurrences

/-!
The search for statements, by intervals of the text. What the search finds is pinned down without its
course: intervals that hold a statement, each as short as it can be, in order and apart, with no place
between them at which a statement of any length begins. A text has only one such row of intervals.
-/

namespace ImportCensus

/-- An interval of a text holds a statement: the keyword, then at least one character, and a semicolon
at the end, with no line feed behind the keyword. -/
structure IsStatement (t : Text) (start stop : Nat) : Prop where
  begins : t.extract start (start + 7) = keyword
  room : start + 9 ≤ stop
  ends : t[stop - 1]? = some ';'
  one_line : '\n' ∉ t.extract (start + 7) stop

/-- An interval holds a statement that could not have ended earlier: behind the first character of its
body there is no semicolon but the last one. -/
structure IsShortest (t : Text) (start stop : Nat) : Prop extends IsStatement t start stop where
  shortest : ∀ k, start + 8 ≤ k → k < stop - 1 → t[k]? ≠ some ';'

/-- The gaps that a row of intervals leaves in a text of a given length from a place on: in front of
the first interval, from each one to the next, and behind the last one. -/
def gaps (length start : Nat) : List (Nat × Nat) → List (Nat × Nat)
  | [] => [(start, length)]
  | x :: rest => (start, x.1) :: gaps length x.2 rest

/-- What a search for statements from a place on has to find: intervals that hold a statement each, as
short as can be, none of which begins before the one in front of it has ended, and in the gaps that
they leave no statement begins. -/
structure IsSearch (line : Text) (start : Nat) (found : List (Nat × Nat)) : Prop where
  shortest : ∀ x ∈ found, IsShortest line x.1 x.2
  apart : ∀ gap ∈ gaps line.length start found, gap.1 ≤ gap.2
  complete : ∀ gap ∈ gaps line.length start found, ∀ s stop, gap.1 ≤ s → s < gap.2 →
    ¬IsStatement line s stop

def Occurrence.interval (o : Occurrence) : Nat × Nat := (o.start, o.stop)

theorem extract_middle (before middle behind : Text) (start stop : Nat)
    (hstart : before.length = start) (hstop : stop = start + middle.length) :
    (before ++ (middle ++ behind)).extract start stop = middle := by
  have hlength : middle.length = stop - start := by omega
  unfold List.extract
  rw [List.drop_left' hstart]
  exact List.take_left' hlength

/-- An interval holds a statement if the text is split around a keyword, a body and a semicolon. -/
theorem isStatement_iff (line : Text) (start stop : Nat) :
    IsStatement line start stop ↔
      ∃ before body behind, line = before ++ (keyword ++ body ++ ';' :: behind) ∧
        before.length = start ∧ stop = start + 7 + body.length + 1 ∧ body ≠ [] ∧ '\n' ∉ body := by
  constructor
  · rintro ⟨hbegins, hroom, hends, hline⟩
    obtain ⟨hlast, hsemicolon⟩ := List.getElem?_eq_some_iff.1 hends
    have hbody : (line.extract (start + 7) (stop - 1)).length = stop - 1 - (start + 7) := by
      simp only [List.length_take, List.length_drop]
      omega
    refine ⟨line.take start, line.extract (start + 7) (stop - 1), line.drop stop, ?_, ?_, ?_, ?_, ?_⟩
    · have hcut (i j : Nat) (hij : i ≤ j) : line.drop i = line.extract i j ++ line.drop j := by
        have hsplit := List.take_append_drop (j - i) (line.drop i)
        rw [List.drop_drop, Nat.add_sub_cancel' hij] at hsplit
        exact hsplit.symm
      have hend : line.drop (stop - 1) = ';' :: line.drop stop := by
        rw [List.drop_eq_getElem_cons hlast, hsemicolon, Nat.sub_add_cancel (by omega)]
      calc
        line
        _ = line.take start ++ line.drop start := (List.take_append_drop start line).symm
        _ = line.take start ++ (keyword ++ line.drop (start + 7)) := by
          rw [hcut start (start + 7) (by omega), hbegins]
        _ = _ := by
          rw [hcut (start + 7) (stop - 1) (by omega), hend, List.append_assoc]
    · rw [List.length_take]
      omega
    · omega
    · intro hnil
      rw [hnil, List.length_nil] at hbody
      omega
    · intro hmem
      have hshorter : stop - 1 - (start + 7) ≤ stop - (start + 7) := by omega
      exact hline ((List.take_prefix_take_left hshorter).subset hmem)
  · rintro ⟨before, body, behind, rfl, rfl, rfl, hne, hline⟩
    have hfront : (before ++ keyword).length = before.length + 7 := by simp [keyword]
    have hpos : 0 < body.length := List.length_pos_iff.2 hne
    refine ⟨?_, by omega, ?_, ?_⟩
    · rw [List.append_assoc]
      exact extract_middle before keyword (body ++ ';' :: behind) _ _ rfl rfl
    · have hsplit : before ++ (keyword ++ body ++ ';' :: behind) =
          (before ++ keyword ++ body) ++ ';' :: behind := by simp
      have hlast : (before ++ keyword ++ body).length = before.length + 7 + body.length := by
        rw [List.length_append, hfront]
      rw [hsplit, Nat.add_sub_cancel, ← hlast, List.getElem?_append_right (Nat.le_refl _),
        Nat.sub_self]
      rfl
    · have hsplit : before ++ (keyword ++ body ++ ';' :: behind) =
          (before ++ keyword) ++ ((body ++ [';']) ++ behind) := by simp
      have hstop : before.length + 7 + body.length + 1 =
          before.length + 7 + (body ++ [';']).length := by simp; omega
      rw [hsplit, extract_middle _ _ _ _ _ hfront hstop]
      simp [hline]

/-- Where a statement is taken from a text, its interval holds one, and none that is shorter. -/
theorem isShortest_of_statement? (before t body behind : Text)
    (h : statement? t = some (body, behind)) :
    IsShortest (before ++ t) before.length (before.length + 7 + body.length + 1) := by
  obtain ⟨hne, hline, hfree⟩ := isBody_of_statement? t body behind h
  rw [eq_of_statement? h]
  have hstatement := (isStatement_iff (before ++ (keyword ++ body ++ ';' :: behind)) before.length
    (before.length + 7 + body.length + 1)).2 ⟨before, body, behind, rfl, rfl, rfl, hne, hline⟩
  refine ⟨hstatement, ?_⟩
  intro k hfirst hlast hk
  obtain ⟨c, rest, rfl⟩ := List.exists_cons_of_ne_nil hne
  have hsplit : before ++ (keyword ++ (c :: rest) ++ ';' :: behind) =
      (before ++ keyword ++ [c]) ++ (rest ++ ';' :: behind) := by simp
  have hfront : (before ++ keyword ++ [c]).length = before.length + 8 := by simp [keyword]
  rw [List.length_cons] at hlast
  rw [hsplit, List.getElem?_append_right (by omega), List.getElem?_append_left (by omega)] at hk
  exact hfree (List.mem_of_getElem? hk)

/-- A statement that a text begins with is found, and perhaps a shorter one in its place. -/
theorem statement?_ne_none (body behind : Text) (hne : body ≠ []) (hline : '\n' ∉ body) :
    statement? (keyword ++ body ++ ';' :: behind) ≠ none := by
  obtain ⟨c, rest, rfl⟩ := List.exists_cons_of_ne_nil hne
  by_cases hmem : ';' ∈ rest
  · -- the first semicolon behind the first character ends a body
    obtain ⟨front, back, rfl, hfront⟩ := List.eq_append_cons_of_mem hmem
    have hbody : IsBody (c :: front) := by
      refine ⟨List.cons_ne_nil c front, ?_, hfront⟩
      intro hnewline
      exact hline (List.mem_append_left (';' :: back) hnewline)
    have hfound := statement?_of_isBody (c :: front) (back ++ ';' :: behind) hbody
    have hsame : keyword ++ (c :: (front ++ ';' :: back)) ++ ';' :: behind =
        keyword ++ (c :: front) ++ ';' :: (back ++ ';' :: behind) := by simp
    rw [hsame, hfound]
    simp
  · rw [statement?_of_isBody (c :: rest) behind ⟨hne, hline, hmem⟩]
    simp

/-- Where no statement is taken from a text, none begins. -/
theorem not_isStatement_of_none (before t : Text) (h : statement? t = none) (stop : Nat) :
    ¬IsStatement (before ++ t) before.length stop := by
  intro hstatement
  obtain ⟨before', body, behind, hsplit, hlength, -, hne, hline⟩ :=
    (isStatement_iff _ _ _).1 hstatement
  obtain ⟨-, rfl⟩ := List.append_inj hsplit hlength.symm
  exact statement?_ne_none body behind hne hline h

theorem isSearch_nil (line : Text) (start : Nat) :
    IsSearch line start [] ↔
      start ≤ line.length ∧ ∀ s stop, start ≤ s → s < line.length → ¬IsStatement line s stop := by
  constructor
  · rintro ⟨-, hapart, hcomplete⟩
    exact ⟨hapart _ (List.mem_singleton_self _), hcomplete _ (List.mem_singleton_self _)⟩
  · rintro ⟨hstart, hnone⟩
    refine ⟨by simp, ?_, ?_⟩
    · intro gap hgap
      rwa [List.mem_singleton.1 hgap]
    · intro gap hgap
      rwa [List.mem_singleton.1 hgap]

theorem isSearch_cons (line : Text) (start : Nat) (x : Nat × Nat) (rest : List (Nat × Nat)) :
    IsSearch line start (x :: rest) ↔
      start ≤ x.1 ∧ (∀ s stop, start ≤ s → s < x.1 → ¬IsStatement line s stop) ∧
        IsShortest line x.1 x.2 ∧ IsSearch line x.2 rest := by
  constructor
  · rintro ⟨hshortest, hapart, hcomplete⟩
    obtain ⟨hx, hrest⟩ := List.forall_mem_cons.1 hshortest
    obtain ⟨hfirst, hlater⟩ := List.forall_mem_cons.1 hapart
    obtain ⟨hnone, hbehind⟩ := List.forall_mem_cons.1 hcomplete
    exact ⟨hfirst, hnone, hx, hrest, hlater, hbehind⟩
  · rintro ⟨hfirst, hnone, hx, hrest, hlater, hbehind⟩
    exact ⟨List.forall_mem_cons.2 ⟨hx, hrest⟩, List.forall_mem_cons.2 ⟨hfirst, hlater⟩,
      List.forall_mem_cons.2 ⟨hnone, hbehind⟩⟩

theorem isSearch_of_succ (line : Text) (start : Nat) (found : List (Nat × Nat))
    (h : IsSearch line (start + 1) found) (hnone : ∀ stop, ¬IsStatement line start stop) :
    IsSearch line start found := by
  have hwider (limit : Nat) (hlater : ∀ s stop, start + 1 ≤ s → s < limit → ¬IsStatement line s stop)
      (s stop : Nat) (hs : start ≤ s) (hlimit : s < limit) : ¬IsStatement line s stop := by
    rcases Nat.eq_or_lt_of_le hs with rfl | hlt
    · exact hnone stop
    · exact hlater s stop hlt hlimit
  cases found with
  | nil =>
    obtain ⟨hstart, hlater⟩ := (isSearch_nil line (start + 1)).1 h
    exact (isSearch_nil line start).2 ⟨by omega, hwider _ hlater⟩
  | cons x rest =>
    obtain ⟨hstart, hlater, hrest⟩ := (isSearch_cons line (start + 1) x rest).1 h
    exact (isSearch_cons line start x rest).2 ⟨by omega, hwider _ hlater, hrest⟩

theorem isSearch_occurrencesFrom (start : Nat) (before t : Text) (h : before.length = start) :
    IsSearch (before ++ t) start ((occurrencesFrom start t).map Occurrence.interval) := by
  -- along the search, with the text in front of it as what it has left behind
  fun_induction occurrencesFrom start t generalizing before with
  | case1 start =>
    rw [List.map_nil, isSearch_nil]
    refine ⟨by simp [h], ?_⟩
    intro s stop hs hlt
    rw [List.append_nil] at hlt
    omega
  | case2 start c rest body behind hstatement ih =>
    subst h
    have hstop : Occurrence.stop ⟨before.length, body⟩ = before.length + 7 + body.length + 1 := rfl
    have hbehind : before ++ c :: rest = (before ++ (keyword ++ body ++ [';'])) ++ behind := by
      rw [eq_of_statement? hstatement]
      simp
    have hlater := ih (before ++ (keyword ++ body ++ [';'])) (by simp [hstop, keyword]; omega)
    rw [← hbehind] at hlater
    rw [List.map_cons, isSearch_cons]
    refine ⟨Nat.le_refl _, ?_, isShortest_of_statement? before _ body behind hstatement, hlater⟩
    intro s stop hs hlt
    exact absurd hlt (Nat.not_lt.2 hs)
  | case3 start c rest hstatement ih =>
    subst h
    have hlater := ih (before ++ [c]) (by simp)
    rw [List.append_assoc, List.singleton_append] at hlater
    exact isSearch_of_succ _ _ _ hlater (not_isStatement_of_none before _ hstatement)

theorem stop_unique (line : Text) (start stop stop' : Nat) (h : IsShortest line start stop)
    (h' : IsShortest line start stop') : stop = stop' := by
  have hle (e e' : Nat) (he : IsShortest line start e) (he' : IsShortest line start e') : e' ≤ e := by
    apply Nat.le_of_not_lt
    intro hlt
    have hroom := he.room
    exact he'.shortest (e - 1) (by omega) (by omega) he.ends
  exact Nat.le_antisymm (hle stop' stop h' h) (hle stop stop' h h')

theorem start_lt_length (line : Text) (start stop : Nat) (h : IsStatement line start stop) :
    start < line.length := by
  obtain ⟨hlast, -⟩ := List.getElem?_eq_some_iff.1 h.ends
  have hroom := h.room
  omega

/-- A text has one row of intervals that a search from a place on can find. -/
theorem isSearch_unique (line : Text) (start : Nat) (found other : List (Nat × Nat))
    (h : IsSearch line start found) (h' : IsSearch line start other) : found = other := by
  induction found generalizing start other with
  | nil =>
    obtain ⟨-, hnone⟩ := (isSearch_nil line start).1 h
    cases other with
    | nil => rfl
    | cons y rest =>
      obtain ⟨hstart, -, hy, -⟩ := (isSearch_cons line start y rest).1 h'
      have hinside := start_lt_length line y.1 y.2 hy.toIsStatement
      exact absurd hy.toIsStatement (hnone y.1 y.2 hstart hinside)
  | cons x found ih =>
    obtain ⟨hstart, hnone, hx, hrest⟩ := (isSearch_cons line start x found).1 h
    cases other with
    | nil =>
      obtain ⟨-, hnone'⟩ := (isSearch_nil line start).1 h'
      have hinside := start_lt_length line x.1 x.2 hx.toIsStatement
      exact absurd hx.toIsStatement (hnone' x.1 x.2 hstart hinside)
    | cons y other =>
      obtain ⟨hstart', hnone', hy, hrest'⟩ := (isSearch_cons line start y other).1 h'
      -- neither of the two first intervals can begin in front of the other one
      have hbegin : x.1 = y.1 := by
        rcases Nat.lt_trichotomy x.1 y.1 with hlt | heq | hgt
        · exact absurd hx.toIsStatement (hnone' x.1 x.2 hstart hlt)
        · exact heq
        · exact absurd hy.toIsStatement (hnone y.1 y.2 hstart' hgt)
      have hsame : x = y := by
        refine Prod.ext hbegin ?_
        rw [← hbegin] at hy
        exact stop_unique line x.1 x.2 y.2 hx hy
      subst hsame
      rw [ih x.2 other hrest hrest']

theorem text_of_mem_occurrencesFrom (start : Nat) (before t : Text) (h : before.length = start)
    (o : Occurrence) (ho : o ∈ occurrencesFrom start t) :
    o.text = (before ++ t).extract o.start o.stop := by
  fun_induction occurrencesFrom start t generalizing before with
  | case1 start => simp at ho
  | case2 start c rest body behind hstatement ih =>
    have hsplit : c :: rest = (keyword ++ body ++ [';']) ++ behind := by
      rw [eq_of_statement? hstatement]
      simp
    rcases List.mem_cons.1 ho with rfl | ho
    · have hstop : Occurrence.stop ⟨start, body⟩ = start + (keyword ++ body ++ [';']).length := by
        simp [Occurrence.stop]
        omega
      rw [hsplit]
      exact (extract_middle before _ behind _ _ h hstop).symm
    · have hlater := ih (before ++ (keyword ++ body ++ [';']))
        (by simp [Occurrence.stop, h]; omega) ho
      rw [hlater, hsplit, List.append_assoc]
  | case3 start c rest hstatement ih =>
    have hlater := ih (before ++ [c]) (by simp [h]) ho
    rw [hlater, List.append_assoc, List.singleton_append]

/-- The occurrences of a text are what a search for statements has to find, and nothing else is: the
leftmost statements, each as short as it can be, one behind the other. Each gives one candidate, made
of the text in its interval, whatever namespace is excluded; and a text contains a statement exactly
if there are any. -/
theorem search_finds_occurrences (line : Text) :
    let found := (occurrences line).map Occurrence.interval
    (∀ other, IsSearch line 0 other ↔ other = found) ∧
      (∀ excludedNamespace, candidates line excludedNamespace = found.map fun x =>
        if isExcluded line excludedNamespace then .excluded
        else (secondWord? (line.extract x.1 x.2)).elim .malformed .reference) ∧
      (∀ excludedNamespace, (candidates line excludedNamespace).length = found.length) ∧
      (containsStatement line = true ↔ found ≠ []) := by
  intro found
  have hfound : IsSearch line 0 found := isSearch_occurrencesFrom 0 [] line rfl
  refine ⟨?_, ?_, ?_, ?_⟩
  · intro other
    constructor
    · intro hother
      exact isSearch_unique line 0 other found hother hfound
    · rintro rfl
      exact hfound
  · intro excludedNamespace
    unfold candidates found
    rw [List.map_map]
    apply List.map_congr_left
    intro o ho
    have htext : o.text = line.extract o.start o.stop :=
      text_of_mem_occurrencesFrom 0 [] line rfl o ho
    unfold Occurrence.candidate
    rw [Function.comp_apply, Occurrence.interval, ← htext]
    cases secondWord? o.text <;> rfl
  · intro excludedNamespace
    simp [candidates, found]
  · rw [containsStatement_eq]
    simp [found]

/-- A body may begin with a semicolon, and a keyword inside a body begins no statement. -/
example : (occurrences "import ;;import import a;".toList).map Occurrence.interval =
    [(0, 9), (9, 25)] := by
  cbv

end ImportCensus
