import ImportCensus.Proofs.Decoding

namespace ImportCensus.Utf8

section Octets

-- octets that are within the bounds of their length are the octets of a character
variable (b₁ b₂ b₃ b₄ : UInt8)

theorem eq_ofNat (b : UInt8) (n : Nat) (h : b.toNat = n) : b = UInt8.ofNat n := by
  rw [← h, UInt8.ofNat_toNat]

theorem val_ofNat (n : Nat) (hvalid : n < 0xD800 ∨ 0xDFFF < n ∧ n < 0x110000) :
    (Char.ofNat n).val.toNat = n := by
  have hcode : (Char.ofNat n).toNat = n := by
    rw [Char.toNat_ofNat, if_pos hvalid]
  exact hcode

theorem exists_char_of_one (h : b₁.toNat < 0x80) : ∃ c, [b₁] = String.utf8EncodeChar c := by
  refine ⟨Char.ofNat b₁.toNat, ?_⟩
  unfold String.utf8EncodeChar
  dsimp only
  rw [val_ofNat _ (Or.inl (by omega)), if_pos (by omega), UInt8.ofNat_toNat]

theorem exists_char_of_two (hlow : 0xC2 ≤ b₁.toNat) (hhigh : b₁.toNat < 0xE0)
    (h₂ : 0x80 ≤ b₂.toNat ∧ b₂.toNat ≤ 0xBF) : ∃ c, [b₁, b₂] = String.utf8EncodeChar c := by
  obtain ⟨n, hn⟩ : ∃ n, n = (b₁.toNat - 0xC0) * 64 + (b₂.toNat - 0x80) := ⟨_, rfl⟩
  have hb₁ := eq_ofNat b₁ (n / 64 % 0x20 + 0xC0) (by omega)
  have hb₂ := eq_ofNat b₂ (n % 0x40 + 0x80) (by omega)
  refine ⟨Char.ofNat n, ?_⟩
  unfold String.utf8EncodeChar
  dsimp only
  rw [val_ofNat n (by omega), if_neg (by omega), if_pos (by omega), ← hb₁, ← hb₂]

theorem exists_char_of_three (hlow : 0xE0 ≤ b₁.toNat) (hhigh : b₁.toNat < 0xF0)
    (h₂ : (if b₁.toNat = 0xE0 then 0xA0 else 0x80) ≤ b₂.toNat ∧
      b₂.toNat ≤ if b₁.toNat = 0xED then 0x9F else 0xBF)
    (h₃ : 0x80 ≤ b₃.toNat ∧ b₃.toNat ≤ 0xBF) : ∃ c, [b₁, b₂, b₃] = String.utf8EncodeChar c := by
  obtain ⟨n, hn⟩ : ∃ n, n = ((b₁.toNat - 0xE0) * 64 + (b₂.toNat - 0x80)) * 64 +
      (b₃.toNat - 0x80) := ⟨_, rfl⟩
  -- the bounds of the second octet leave out overlong forms and surrogates
  have hcode : 0x80 ≤ b₂.toNat ∧ b₂.toNat ≤ 0xBF ∧ 0x7FF < n ∧ (n < 0xD800 ∨ 0xDFFF < n) := by
    split at h₂ <;> split at h₂ <;> omega
  have hb₁ := eq_ofNat b₁ (n / 4096 % 0x10 + 0xE0) (by omega)
  have hb₂ := eq_ofNat b₂ (n / 64 % 0x40 + 0x80) (by omega)
  have hb₃ := eq_ofNat b₃ (n % 0x40 + 0x80) (by omega)
  refine ⟨Char.ofNat n, ?_⟩
  unfold String.utf8EncodeChar
  dsimp only
  rw [val_ofNat n (by omega), if_neg (by omega), if_neg (by omega), if_pos (by omega), ← hb₁,
    ← hb₂, ← hb₃]

theorem exists_char_of_four (hlow : 0xF0 ≤ b₁.toNat) (hhigh : b₁.toNat < 0xF5)
    (h₂ : (if b₁.toNat = 0xF0 then 0x90 else 0x80) ≤ b₂.toNat ∧
      b₂.toNat ≤ if b₁.toNat = 0xF4 then 0x8F else 0xBF)
    (h₃ : 0x80 ≤ b₃.toNat ∧ b₃.toNat ≤ 0xBF) (h₄ : 0x80 ≤ b₄.toNat ∧ b₄.toNat ≤ 0xBF) :
    ∃ c, [b₁, b₂, b₃, b₄] = String.utf8EncodeChar c := by
  obtain ⟨n, hn⟩ : ∃ n, n = (((b₁.toNat - 0xF0) * 64 + (b₂.toNat - 0x80)) * 64 +
      (b₃.toNat - 0x80)) * 64 + (b₄.toNat - 0x80) := ⟨_, rfl⟩
  -- here the bounds leave out overlong forms and what is beyond the last character
  have hcode : 0x80 ≤ b₂.toNat ∧ b₂.toNat ≤ 0xBF ∧ 0xFFFF < n ∧ n < 0x110000 := by
    split at h₂ <;> split at h₂ <;> omega
  have hb₁ := eq_ofNat b₁ (n / 262144 % 0x08 + 0xF0) (by omega)
  have hb₂ := eq_ofNat b₂ (n / 4096 % 0x40 + 0x80) (by omega)
  have hb₃ := eq_ofNat b₃ (n / 64 % 0x40 + 0x80) (by omega)
  have hb₄ := eq_ofNat b₄ (n % 0x40 + 0x80) (by omega)
  refine ⟨Char.ofNat n, ?_⟩
  unfold String.utf8EncodeChar
  dsimp only
  rw [val_ofNat n (by omega), if_neg (by omega), if_neg (by omega), if_neg (by omega), ← hb₁,
    ← hb₂, ← hb₃, ← hb₄]

end Octets

/-- A begun sequence that is not damaged goes on with an octet that may come next. -/
theorem exists_next_of_whole (s : Begun) (data : Bytes) (h : none ∉ unitsFrom (some s) data) :
    ∃ b rest, data = b :: rest ∧ s.low ≤ b.toNat ∧ b.toNat ≤ s.high := by
  cases data with
  | nil => exact absurd (List.mem_singleton_self none) h
  | cons b rest =>
    have hwithin : s.low ≤ b.toNat ∧ b.toNat ≤ s.high := by
      by_contra hout
      apply h
      simp only [unitsFrom, feed, if_neg hout, List.cons_append]
      exact List.mem_cons_self
    exact ⟨b, rest, rfl, hwithin⟩

theorem exists_char_of_whole (b₁ : UInt8) (rest : Bytes) (h : none ∉ units (b₁ :: rest)) :
    ∃ c behind, b₁ :: rest = String.utf8EncodeChar c ++ behind := by
  unfold units at h
  rcases lead_ranges b₁ with hone | hstray | ⟨hlow, hhigh⟩ | ⟨hlow, hhigh⟩ | ⟨hlow, hhigh⟩
  · obtain ⟨c, hc⟩ := exists_char_of_one b₁ hone
    exact ⟨c, rest, by rw [← hc]; rfl⟩
  · have hdamaged : none ∈ unitsFrom none (b₁ :: rest) := by
      simp only [unitsFrom, feed, feedFresh, lead_of_stray b₁ hstray, List.singleton_append]
      exact List.mem_cons_self
    exact absurd hdamaged h
  · obtain ⟨s, hlead, -, -, hbelow, habove⟩ := lead_of_two b₁ hlow hhigh
    rw [unitsFrom_lead s _ _ hlead] at h
    obtain ⟨b₂, rest, rfl, h₂⟩ := exists_next_of_whole s _ h
    obtain ⟨c, hc⟩ := exists_char_of_two b₁ b₂ hlow hhigh (by omega)
    exact ⟨c, rest, by rw [← hc]; rfl⟩
  · obtain ⟨s, hlead, -, hmissing, hbelow, habove⟩ := lead_of_three b₁ hlow hhigh
    rw [unitsFrom_lead s _ _ hlead] at h
    obtain ⟨b₂, rest, rfl, h₂⟩ := exists_next_of_whole s _ h
    rw [unitsFrom_inner s _ _ h₂ (by omega)] at h
    obtain ⟨b₃, rest, rfl, h₃⟩ := exists_next_of_whole _ _ h
    rw [hbelow, habove] at h₂
    obtain ⟨c, hc⟩ := exists_char_of_three b₁ b₂ b₃ hlow hhigh h₂ h₃
    exact ⟨c, rest, by rw [← hc]; rfl⟩
  · obtain ⟨s, hlead, -, hmissing, hbelow, habove⟩ := lead_of_four b₁ hlow hhigh
    rw [unitsFrom_lead s _ _ hlead] at h
    obtain ⟨b₂, rest, rfl, h₂⟩ := exists_next_of_whole s _ h
    rw [unitsFrom_inner s _ _ h₂ (by omega)] at h
    obtain ⟨b₃, rest, rfl, h₃⟩ := exists_next_of_whole _ _ h
    rw [unitsFrom_inner _ _ _ h₃ (by dsimp only; omega)] at h
    obtain ⟨b₄, rest, rfl, h₄⟩ := exists_next_of_whole _ _ h
    rw [hbelow, habove] at h₂
    obtain ⟨c, hc⟩ := exists_char_of_four b₁ b₂ b₃ b₄ hlow hhigh h₂ h₃ h₄
    exact ⟨c, rest, by rw [← hc]; rfl⟩

theorem exists_text_of_whole (data : Bytes) (h : none ∉ units data) : ∃ t, data = encode t := by
  -- a character takes one octet or more, so the induction is on how many there are
  induction hlength : data.length using Nat.strong_induction_on generalizing data with
  | _ length ih =>
    cases data with
    | nil => exact ⟨[], rfl⟩
    | cons b rest =>
      obtain ⟨c, behind, hsplit⟩ := exists_char_of_whole b rest h
      rw [hsplit, units, unitsFrom_encodeChar, List.mem_cons, not_or] at h
      have hshorter : behind.length < length := by
        have hpos := c.utf8Size_pos
        rw [← hlength, hsplit, List.length_append, String.length_utf8EncodeChar]
        omega
      obtain ⟨t, rfl⟩ := ih behind.length hshorter behind h.2 rfl
      exact ⟨c :: t, by rw [hsplit, encode_cons]⟩

/-- Data is read as a text, with nothing damaged, just when it is what the text is written as. -/
theorem decode?_eq_some_iff (data : Bytes) (t : Text) :
    decode? data = some t ↔ data = encode t := by
  constructor
  · intro h
    unfold decode? at h
    split at h
    · rename_i hall
      have hwhole : none ∉ units data := by
        intro hnone
        simpa using List.all_eq_true.1 hall none hnone
      obtain ⟨t', rfl⟩ := exists_text_of_whole data hwhole
      rw [decode_encode, Option.some.injEq] at h
      rw [h]
    · simp at h
  · rintro rfl
    exact decode?_encode t

theorem encode_injective (s t : Text) (h : encode s = encode t) : s = t := by
  rw [← decode_encode s, h, decode_encode]

theorem isFirst_of_encode (t : Text) (b : UInt8) (rest : Bytes) (h : encode t = b :: rest) :
    b.IsUTF8FirstByte := by
  cases t with
  | nil => simp [encode] at h
  | cons c t =>
    have hpos : 0 < (String.utf8EncodeChar c).length := by
      rw [String.length_utf8EncodeChar]
      exact c.utf8Size_pos
    obtain ⟨first, inner, hchar⟩ := List.exists_cons_of_length_pos hpos
    rw [encode_cons, hchar, List.cons_append, List.cons.injEq] at h
    have hfirst : ((String.utf8EncodeChar c)[0]).IsUTF8FirstByte :=
      UInt8.isUTF8FirstByte_getElem_utf8EncodeChar.2 rfl
    simpa [hchar, h.1] using hfirst

theorem not_isFirst_of_inner (c : Char) (front back : Bytes) (b : UInt8) (hne : front ≠ [])
    (h : String.utf8EncodeChar c = front ++ b :: back) : ¬b.IsUTF8FirstByte := by
  have hlength : front.length < (String.utf8EncodeChar c).length := by
    rw [h, List.length_append, List.length_cons]
    omega
  have hinner : ¬((String.utf8EncodeChar c)[front.length]).IsUTF8FirstByte := by
    rw [UInt8.isUTF8FirstByte_getElem_utf8EncodeChar, List.length_eq_zero_iff]
    exact hne
  simpa [h] using hinner

/-- The data of a text ends in that of another just when the text ends in the other, since a text
cannot begin inside a character. -/
theorem encode_isSuffix_iff (s t : Text) : encode s <:+ encode t ↔ s <:+ t := by
  constructor
  · intro h
    induction t with
    | nil =>
      have hnil : encode s = encode [] := List.suffix_nil.1 h
      rw [encode_injective s [] hnil]
    | cons c t ih =>
      obtain ⟨front, hfront⟩ := h
      rw [encode_cons, List.append_eq_append_iff] at hfront
      rcases hfront with ⟨middle, hchar, hs⟩ | ⟨later, -, hlater⟩
      · -- what is in front of the suffix ends inside the first character or with it
        cases middle with
        | nil =>
          rw [encode_injective s t hs]
          exact List.suffix_cons c t
        | cons b middle =>
          have hstart : front = [] := by
            by_contra hne
            exact not_isFirst_of_inner c front middle b hne hchar (isFirst_of_encode s b _ hs)
          rw [hstart, List.nil_append] at hchar
          rw [← hchar, ← encode_cons] at hs
          rw [encode_injective s _ hs]
      · exact (ih ⟨later, hlater.symm⟩).trans (List.suffix_cons c t)
  · rintro ⟨front, rfl⟩
    exact ⟨encode front, (encode_append front s).symm⟩

end ImportCensus.Utf8
