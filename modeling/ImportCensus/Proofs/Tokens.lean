import ImportCensus.Proofs.Occurrences

namespace ImportCensus

namespace Text

theorem words_append_cons (front back : Text) (c : Char) (h : isBlank c = true) :
    words (front ++ c :: back) = words front ++ words back := by
  unfold words
  rw [List.splitOnP_append_cons front back h, List.filter_append]

theorem words_solid (w : Text) (hne : w ≠ []) (h : ∀ c ∈ w, isBlank c = false) :
    words w = [w] := by
  unfold words
  rw [List.splitOnP_eq_singleton h]
  simp [hne]

theorem words_blanks_append (blanks t : Text) (h : ∀ c ∈ blanks, isBlank c = true) :
    words (blanks ++ t) = words t := by
  induction blanks with
  | nil => rfl
  | cons c blanks ih =>
    have hhead : words (c :: (blanks ++ t)) = words [] ++ words (blanks ++ t) :=
      words_append_cons [] (blanks ++ t) c (h c List.mem_cons_self)
    have hnil : words [] = [] := rfl
    rw [List.cons_append, hhead, hnil, List.nil_append]
    exact ih fun d hd => h d (List.mem_cons_of_mem c hd)

end Text

open Text

/-- The first word of an occurrence is its keyword, so the second is the first of its body. -/
theorem words_occurrence (o : Occurrence) :
    words o.text = "import".toList :: words (o.body ++ [';']) := by
  have hsplit : o.text = "import".toList ++ ' ' :: (o.body ++ [';']) := by
    simp [Occurrence.text, keyword]
  have hsolid : ∀ c ∈ "import".toList, isBlank c = false := by
    have hall : ("import".toList.all fun c => !isBlank c) = true := rfl
    simpa using List.all_eq_true.1 hall
  rw [hsplit, words_append_cons _ _ ' ' rfl, words_solid _ (by decide) hsolid]
  rfl

theorem semicolon_mem_tail (w : Text) (hlast : w.getLast? = some ';') (hne : w.dropLast ≠ []) :
    ';' ∈ w.tail := by
  cases w with
  | nil => simp at hlast
  | cons c w =>
    have hw : w ≠ [] := by
      rintro rfl
      exact hne rfl
    rw [List.getLast?_cons_of_ne_nil hw] at hlast
    exact List.mem_of_getLast? hlast

theorem first_blank (t : Text) :
    (∀ c ∈ t, isBlank c = false) ∨
      ∃ word c behind, t = word ++ c :: behind ∧ (∀ d ∈ word, isBlank d = false) ∧
        isBlank c = true := by
  induction t with
  | nil => exact Or.inl (by simp)
  | cons c t ih =>
    cases hc : isBlank c with
    | true => exact Or.inr ⟨[], c, t, rfl, by simp, hc⟩
    | false =>
      rcases ih with hsolid | ⟨word, d, behind, rfl, hword, hd⟩
      · exact Or.inl (List.forall_mem_cons.2 ⟨hc, hsolid⟩)
      · exact Or.inr ⟨c :: word, d, behind, rfl, List.forall_mem_cons.2 ⟨hc, hword⟩, hd⟩

/-- The blanks at the front of a text, and what stands behind them: one word, or a first word that a
blank ends. -/
theorem leading_word (t : Text) :
    ∃ blanks rest, t = blanks ++ rest ∧ (∀ c ∈ blanks, isBlank c = true) ∧
      ((∀ c ∈ rest, isBlank c = false) ∨
        ∃ word c behind, rest = word ++ c :: behind ∧ word ≠ [] ∧
          (∀ d ∈ word, isBlank d = false) ∧ isBlank c = true) := by
  induction t with
  | nil => exact ⟨[], [], rfl, by simp, Or.inl (by simp)⟩
  | cons c t ih =>
    cases hc : isBlank c with
    | true =>
      obtain ⟨blanks, rest, rfl, hblanks, hrest⟩ := ih
      exact ⟨c :: blanks, rest, rfl, List.forall_mem_cons.2 ⟨hc, hblanks⟩, hrest⟩
    | false =>
      refine ⟨[], c :: t, rfl, by simp, ?_⟩
      rcases first_blank t with hsolid | ⟨word, d, behind, rfl, hword, hd⟩
      · exact Or.inl (List.forall_mem_cons.2 ⟨hc, hsolid⟩)
      · exact Or.inr ⟨c :: word, d, behind, rfl, List.cons_ne_nil c word,
          List.forall_mem_cons.2 ⟨hc, hword⟩, hd⟩

/-- An occurrence names a token exactly if its body is a run of blanks and then that token, which
is one word. -/
theorem secondWord?_occurrence (o : Occurrence) (hbody : IsBody o.body) (token : Text) :
    secondWord? o.text = some token ↔
      ∃ blanks, o.body = blanks ++ token ∧ (∀ c ∈ blanks, isBlank c = true) ∧ token ≠ [] ∧
        ∀ c ∈ token, isBlank c = false := by
  have hsolid_end (w : Text) (h : ∀ c ∈ w, isBlank c = false) : words (w ++ [';']) = [w ++ [';']] := by
    apply words_solid
    · simp
    · intro c hc
      rcases List.mem_append.1 hc with hc | hc
      · exact h c hc
      · rw [List.mem_singleton.1 hc]
        decide
  constructor
  · intro h
    obtain ⟨blanks, rest, hsplit, hblanks, hsolid | ⟨word, c, behind, hrest, hne, hword, hc⟩⟩ :=
      leading_word o.body
    · unfold secondWord? at h
      rw [words_occurrence, hsplit, List.append_assoc, words_blanks_append _ _ hblanks,
        hsolid_end rest hsolid] at h
      simp only [List.getLast?_concat, List.dropLast_concat, true_and] at h
      split at h
      · rename_i hrest
        obtain rfl := Option.some.inj h
        exact ⟨blanks, hsplit, hblanks, hrest, hsolid⟩
      · simp at h
    · unfold secondWord? at h
      rw [words_occurrence, hsplit, hrest, List.append_assoc, words_blanks_append _ _ hblanks,
        List.append_assoc, List.cons_append, words_append_cons _ _ c hc,
        words_solid word hne hword] at h
      simp only [List.cons_append, List.nil_append] at h
      split at h
      · rename_i hends
        have hmem : ';' ∈ word.tail := semicolon_mem_tail word hends.1 hends.2
        exfalso
        apply hbody.no_semicolon
        rw [hsplit, hrest]
        cases blanks with
        | nil =>
          rw [List.nil_append, List.tail_append_of_ne_nil hne]
          exact List.mem_append_left _ hmem
        | cons b blanks =>
          rw [List.cons_append, List.tail_cons]
          exact List.mem_append_right _ (List.mem_append_left _ (List.mem_of_mem_tail hmem))
      · simp at h
  · rintro ⟨blanks, hsplit, hblanks, hne, hsolid⟩
    unfold secondWord?
    rw [words_occurrence, hsplit, List.append_assoc, words_blanks_append _ _ hblanks,
      hsolid_end token hsolid]
    simp [hne]

theorem words_ne_nil (t : Text) (c : Char) (hc : c ∈ t) (h : isBlank c = false) : words t ≠ [] := by
  obtain ⟨blanks, rest, rfl, hblanks, hrest⟩ := leading_word t
  rw [words_blanks_append _ _ hblanks]
  rcases hrest with hsolid | ⟨word, d, behind, rfl, hne, hword, hd⟩
  · have hinside : c ∈ rest := by
      rcases List.mem_append.1 hc with hblank | hinside
      · rw [hblanks c hblank] at h
        simp at h
      · exact hinside
    rw [words_solid rest (List.ne_nil_of_mem hinside) hsolid]
    simp
  · rw [words_append_cons _ _ d hd, words_solid word hne hword]
    simp

/-- The body of an occurrence names a token: it is a run of blanks, which may be empty, and then the
token, in which no blank stands. -/
def Names (body token : Text) : Prop :=
  ∃ blanks, body = blanks ++ token ∧ (∀ c ∈ blanks, isBlank c = true) ∧ token ≠ [] ∧
    ∀ c ∈ token, isBlank c = false

theorem words_of_names (o : Occurrence) (token : Text) (h : Names o.body token) :
    words o.text = ["import".toList, token ++ [';']] := by
  obtain ⟨blanks, hsplit, hblanks, -, hsolid⟩ := h
  have hclosed : ∀ c ∈ token ++ [';'], isBlank c = false := by
    refine List.forall_mem_append.2 ⟨hsolid, ?_⟩
    intro c hc
    rw [List.mem_singleton.1 hc]
    rfl
  rw [words_occurrence, hsplit, List.append_assoc, words_blanks_append _ _ hblanks,
    words_solid _ (by simp) hclosed]

theorem reference_or_malformed (o : Occurrence) :
    (∃ token, o.candidate = .reference token) ∨ o.candidate = .malformed := by
  unfold Occurrence.candidate
  cases secondWord? o.text with
  | some token => exact Or.inl ⟨token, rfl⟩
  | none => exact Or.inr rfl

theorem candidate_eq_reference_iff (o : Occurrence) (hbody : IsBody o.body) (token : Text) :
    o.candidate = .reference token ↔ Names o.body token := by
  have hword : o.candidate = .reference token ↔ secondWord? o.text = some token := by
    unfold Occurrence.candidate
    cases secondWord? o.text <;> simp
  rw [hword]
  exact secondWord?_occurrence o hbody token

/-- The candidates of a line that is not excluded, each told by the body of its occurrence: the token
that the body names if it names one, and malformed in every other case. An occurrence always has a
second word. If that is not the last one, the occurrence is malformed, even though the word itself
may end in a semicolon. -/
theorem candidates_of_open_line (line excludedNamespace : Text)
    (h : excludedNamespace = [] ∨ excludedNamespace.occursIn line = false) :
    candidates line excludedNamespace = (occurrences line).map Occurrence.candidate ∧
      ∀ o ∈ occurrences line,
        (∀ token, o.candidate = .reference token ↔ Names o.body token) ∧
        ((∀ token, ¬Names o.body token) → o.candidate = .malformed) ∧
        (∃ first second rest, words o.text = first :: second :: rest) ∧
        ∀ first second rest, words o.text = first :: second :: rest → rest ≠ [] →
          o.candidate = .malformed := by
  have hopen : isExcluded line excludedNamespace = false := by
    unfold isExcluded
    rcases h with rfl | hnone
    · rfl
    · rw [hnone, Bool.and_false]
  refine ⟨by simp [candidates, hopen], ?_⟩
  intro o ho
  obtain ⟨hbody, -⟩ := occurrence_infix line o ho
  have hnames := candidate_eq_reference_iff o hbody
  refine ⟨hnames, ?_, ?_, ?_⟩
  · intro hnone
    rcases reference_or_malformed o with ⟨token, htoken⟩ | hmalformed
    · exact absurd ((hnames token).1 htoken) (hnone token)
    · exact hmalformed
  · -- the semicolon that ends the occurrence is part of some word behind the keyword
    obtain ⟨second, rest, hrest⟩ := List.exists_cons_of_ne_nil
      (words_ne_nil (o.body ++ [';']) ';' (by simp) rfl)
    exact ⟨_, second, rest, by rw [words_occurrence, hrest]⟩
  · intro first second rest hwords hmore
    rcases reference_or_malformed o with ⟨token, htoken⟩ | hmalformed
    · rw [words_of_names o token ((hnames token).1 htoken)] at hwords
      have hlast : rest = [] := by
        simp only [List.cons.injEq] at hwords
        exact hwords.2.2.symm
      exact absurd hlast hmore
    · exact hmalformed

def oddStatements : Text :=
  "import ; a;import \t\u00A0b.C;import c\td;import  ;import ;;".toList

theorem candidates_of_open_line_oddStatements :
    ("org".toList = [] ∨ Text.occursIn "org".toList oddStatements = false) ∧
      candidates oddStatements "org".toList =
        [.malformed, .reference "b.C".toList, .malformed, .malformed, .reference ";".toList] ∧
      ∀ o ∈ occurrences oddStatements, ∀ token,
        o.candidate = .reference token ↔ Names o.body token := by
  have hopen : Text.occursIn "org".toList oddStatements = false := by decide
  obtain ⟨-, hall⟩ := candidates_of_open_line oddStatements "org".toList (Or.inr hopen)
  exact ⟨Or.inr hopen, by cbv, fun o ho => (hall o ho).1⟩

end ImportCensus
