import ImportCensus.Import.Candidate

namespace ImportCensus

/-- The body of a statement: at least one character, all in one line, and no semicolon behind the
first character. -/
structure IsBody (body : Text) : Prop where
  nonempty : body ≠ []
  one_line : '\n' ∉ body
  no_semicolon : ';' ∉ body.tail

theorem toSemicolon_free (t before behind : Text) (h : toSemicolon t = some (before, behind)) :
    '\n' ∉ before ∧ ';' ∉ before := by
  induction t generalizing before with
  | nil => simp [toSemicolon] at h
  | cons c t ih =>
    unfold toSemicolon at h
    split at h
    · simp_all
    · rename_i hsemicolon
      split at h
      · simp at h
      · rename_i hnewline
        obtain ⟨⟨b, r⟩, hb, he⟩ := Option.map_eq_some_iff.1 h
        obtain ⟨rfl, rfl⟩ := Prod.mk.inj he
        obtain ⟨hline, hfree⟩ := ih b hb
        constructor
        · intro hmem
          rcases List.mem_cons.1 hmem with heq | hmem
          · exact hnewline heq.symm
          · exact hline hmem
        · intro hmem
          rcases List.mem_cons.1 hmem with heq | hmem
          · exact hsemicolon heq.symm
          · exact hfree hmem

theorem isBody_of_statement? (t body behind : Text) (h : statement? t = some (body, behind)) :
    IsBody body := by
  unfold statement? at h
  split at h
  · rename_i c rest _
    split at h
    · simp at h
    · rename_i hnewline
      obtain ⟨⟨b, r⟩, hb, he⟩ := Option.map_eq_some_iff.1 h
      obtain ⟨rfl, rfl⟩ := Prod.mk.inj he
      obtain ⟨hline, hfree⟩ := toSemicolon_free rest b r hb
      refine ⟨List.cons_ne_nil c b, ?_, hfree⟩
      intro hmem
      rcases List.mem_cons.1 hmem with heq | hmem
      · exact hnewline heq.symm
      · exact hline hmem
  · simp at h

theorem toSemicolon_of_free (before behind : Text) (hline : '\n' ∉ before) (hfree : ';' ∉ before) :
    toSemicolon (before ++ ';' :: behind) = some (before, behind) := by
  induction before with
  | nil => rfl
  | cons c before ih =>
    obtain ⟨hc, hline⟩ : '\n' ≠ c ∧ '\n' ∉ before := by simpa using hline
    obtain ⟨hsemicolon, hfree⟩ : ';' ≠ c ∧ ';' ∉ before := by simpa using hfree
    rw [List.cons_append, toSemicolon, if_neg hsemicolon.symm, if_neg hc.symm, ih hline hfree]
    rfl

theorem statement?_of_isBody (body behind : Text) (h : IsBody body) :
    statement? (keyword ++ body ++ ';' :: behind) = some (body, behind) := by
  obtain ⟨c, rest, rfl⟩ := List.exists_cons_of_ne_nil h.nonempty
  obtain ⟨hc, hline⟩ : '\n' ≠ c ∧ '\n' ∉ rest := by simpa using h.one_line
  have hkeyword : after? keyword (keyword ++ (c :: rest) ++ ';' :: behind) =
      some (c :: (rest ++ ';' :: behind)) := by
    rw [after?_eq_some_iff]
    simp
  unfold statement?
  rw [hkeyword]
  simp only [if_neg hc.symm]
  rw [toSemicolon_of_free rest behind hline h.no_semicolon]
  rfl

theorem occurrencesFrom_infix (start : Nat) (t : Text) (o : Occurrence)
    (h : o ∈ occurrencesFrom start t) : IsBody o.body ∧ o.text <:+: t := by
  fun_induction occurrencesFrom start t with
  | case1 start => simp at h
  | case2 start c rest body behind hstatement ih =>
    have hsplit := eq_of_statement? hstatement
    rcases List.mem_cons.1 h with rfl | h
    · refine ⟨isBody_of_statement? _ _ _ hstatement, [], behind, ?_⟩
      rw [hsplit]
      simp [Occurrence.text]
    · obtain ⟨hbody, hinfix⟩ := ih h
      refine ⟨hbody, hinfix.trans ?_⟩
      rw [hsplit]
      exact ⟨keyword ++ body ++ [';'], [], by simp⟩
  | case3 start c rest hstatement ih =>
    obtain ⟨hbody, hinfix⟩ := ih h
    exact ⟨hbody, hinfix.trans (List.suffix_cons c rest).isInfix⟩

/-- An occurrence is a stretch of its text, and its body has the shape of one. -/
theorem occurrence_infix (t : Text) (o : Occurrence) (h : o ∈ occurrences t) :
    IsBody o.body ∧ o.text <:+: t :=
  occurrencesFrom_infix 0 t o h

theorem containsStatement_eq (t : Text) :
    containsStatement t = !(occurrences t).isEmpty := by
  suffices h : ∀ start, containsStatement t = !(occurrencesFrom start t).isEmpty from h 0
  intro start
  fun_induction occurrencesFrom start t with
  | case1 start => rfl
  | case2 start c rest body behind hstatement _ =>
    simp [containsStatement, hstatement]
  | case3 start c rest hstatement ih =>
    simp [containsStatement, hstatement, ih]

end ImportCensus
