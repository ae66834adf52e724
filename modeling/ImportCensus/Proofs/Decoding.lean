import Mathlib
import ImportCensus.Text.Utf8

namespace ImportCensus.Utf8

section Reading

variable (s : Begun) (b : UInt8) (rest : Bytes)

theorem unitsFrom_lead (h : lead b = .begun s) :
    unitsFrom none (b :: rest) = unitsFrom (some s) rest := by
  simp only [unitsFrom, feed, feedFresh, h, List.nil_append]

theorem unitsFrom_inner (h : s.low ≤ b.toNat ∧ b.toNat ≤ s.high) (hmissing : 1 < s.missing) :
    unitsFrom (some s) (b :: rest) =
      unitsFrom (some { bits := s.bits * 64 + (b.toNat - 0x80), missing := s.missing - 1,
                        low := 0x80, high := 0xBF }) rest := by
  have hmore : ¬s.missing ≤ 1 := by omega
  simp only [unitsFrom, feed, if_pos h, if_neg hmore, List.nil_append]

theorem unitsFrom_last (h : s.low ≤ b.toNat ∧ b.toNat ≤ s.high) (hmissing : s.missing ≤ 1) :
    unitsFrom (some s) (b :: rest) =
      some (Char.ofNat (s.bits * 64 + (b.toNat - 0x80))) :: units rest := by
  simp only [unitsFrom, feed, if_pos h, if_pos hmissing, List.singleton_append, units]

theorem lead_of_one (h : b.toNat < 0x80) : lead b = .whole (Char.ofNat b.toNat) := by
  unfold lead
  dsimp only
  rw [if_pos h]

theorem lead_of_two (hlow : 0xC2 ≤ b.toNat) (hhigh : b.toNat < 0xE0) :
    ∃ s : Begun, lead b = .begun s ∧ s.bits = b.toNat - 0xC0 ∧ s.missing = 1 ∧ s.low = 0x80 ∧
      s.high = 0xBF := by
  refine ⟨{ bits := b.toNat - 0xC0, missing := 1, low := 0x80, high := 0xBF }, ?_, rfl, rfl, rfl,
    rfl⟩
  unfold lead
  dsimp only
  rw [if_neg (by omega), if_neg (by omega), if_pos hhigh]

theorem lead_of_three (hlow : 0xE0 ≤ b.toNat) (hhigh : b.toNat < 0xF0) :
    ∃ s : Begun, lead b = .begun s ∧ s.bits = b.toNat - 0xE0 ∧ s.missing = 2 ∧
      s.low = (if b.toNat = 0xE0 then 0xA0 else 0x80) ∧
      s.high = (if b.toNat = 0xED then 0x9F else 0xBF) := by
  unfold lead
  dsimp only
  rw [if_neg (by omega), if_neg (by omega), if_neg (by omega)]
  by_cases hfirst : b.toNat = 0xE0
  · rw [if_pos hfirst]
    exact ⟨_, rfl, by simp [hfirst], rfl, by simp [hfirst], by simp [hfirst]⟩
  · rw [if_neg hfirst]
    by_cases hsurrogates : b.toNat = 0xED
    · rw [if_pos hsurrogates]
      exact ⟨_, rfl, by simp [hsurrogates], rfl, by simp [hfirst], by simp [hsurrogates]⟩
    · rw [if_neg hsurrogates, if_pos hhigh]
      exact ⟨_, rfl, rfl, rfl, by simp [hfirst], by simp [hsurrogates]⟩

theorem lead_of_four (hlow : 0xF0 ≤ b.toNat) (hhigh : b.toNat < 0xF5) :
    ∃ s : Begun, lead b = .begun s ∧ s.bits = b.toNat - 0xF0 ∧ s.missing = 3 ∧
      s.low = (if b.toNat = 0xF0 then 0x90 else 0x80) ∧
      s.high = (if b.toNat = 0xF4 then 0x8F else 0xBF) := by
  unfold lead
  dsimp only
  rw [if_neg (by omega), if_neg (by omega), if_neg (by omega), if_neg (by omega),
    if_neg (by omega), if_neg (by omega)]
  by_cases hfirst : b.toNat = 0xF0
  · rw [if_pos hfirst]
    exact ⟨_, rfl, by simp [hfirst], rfl, by simp [hfirst], by simp [hfirst]⟩
  · rw [if_neg hfirst]
    by_cases hlast : b.toNat = 0xF4
    · rw [if_neg (by omega), if_pos hlast]
      exact ⟨_, rfl, by simp [hlast], rfl, by simp [hfirst], by simp [hlast]⟩
    · rw [if_pos (by omega)]
      exact ⟨_, rfl, rfl, rfl, by simp [hfirst], by simp [hlast]⟩

theorem lead_of_stray (h : 0x80 ≤ b.toNat ∧ b.toNat < 0xC2 ∨ 0xF5 ≤ b.toNat) : lead b = .stray := by
  unfold lead
  dsimp only
  rcases h with ⟨hlow, hhigh⟩ | h
  · rw [if_neg (by omega), if_pos hhigh]
  · rw [if_neg (by omega), if_neg (by omega), if_neg (by omega), if_neg (by omega),
      if_neg (by omega), if_neg (by omega), if_neg (by omega), if_neg (by omega),
      if_neg (by omega)]

/-- The part that an octet plays at the start of a character depends on its range: it is the
character, or it is stray, or it begins a sequence of two, three or four octets. -/
theorem lead_ranges :
    b.toNat < 0x80 ∨ (0x80 ≤ b.toNat ∧ b.toNat < 0xC2 ∨ 0xF5 ≤ b.toNat) ∨
      (0xC2 ≤ b.toNat ∧ b.toNat < 0xE0) ∨ (0xE0 ≤ b.toNat ∧ b.toNat < 0xF0) ∨
      (0xF0 ≤ b.toNat ∧ b.toNat < 0xF5) := by
  omega

theorem toNat_lt_of_whole (c : Char) (h : lead b = .whole c) : b.toNat < 0x80 := by
  rcases lead_ranges b with hone | hstray | ⟨hlow, hhigh⟩ | ⟨hlow, hhigh⟩ | ⟨hlow, hhigh⟩
  · exact hone
  · simp [lead_of_stray b hstray] at h
  · obtain ⟨s, hlead, -⟩ := lead_of_two b hlow hhigh
    simp [hlead] at h
  · obtain ⟨s, hlead, -⟩ := lead_of_three b hlow hhigh
    simp [hlead] at h
  · obtain ⟨s, hlead, -⟩ := lead_of_four b hlow hhigh
    simp [hlead] at h

end Reading

section Encoded

variable (n : Nat) (rest : Bytes)

theorem unitsFrom_of_one (hhigh : n ≤ 0x7F) :
    unitsFrom none (UInt8.ofNat n :: rest) = some (Char.ofNat n) :: units rest := by
  have hb : (UInt8.ofNat n).toNat = n :=
    UInt8.toNat_ofNat_of_lt' (Nat.lt_of_le_of_lt hhigh (by decide))
  simp only [unitsFrom, feed]
  rw [feedFresh_ascii (by omega), hb]
  rfl

theorem unitsFrom_of_two (hlow : 0x7F < n) (hhigh : n ≤ 0x7FF) :
    unitsFrom none
        (UInt8.ofNat (n / 64 % 0x20 + 0xC0) :: UInt8.ofNat (n % 0x40 + 0x80) :: rest) =
      some (Char.ofNat n) :: units rest := by
  have hb₁ := UInt8.toNat_ofNat' (n := n / 64 % 0x20 + 0xC0)
  have hb₂ := UInt8.toNat_ofNat' (n := n % 0x40 + 0x80)
  obtain ⟨s, hlead, hbits, hmissing, hbelow, habove⟩ :=
    lead_of_two (UInt8.ofNat (n / 64 % 0x20 + 0xC0)) (by omega) (by omega)
  have hcode : s.bits * 64 + ((UInt8.ofNat (n % 0x40 + 0x80)).toNat - 0x80) = n := by omega
  rw [unitsFrom_lead s _ _ hlead, unitsFrom_last s _ _ (by omega) (by omega), hcode]

theorem unitsFrom_of_three (hlow : 0x7FF < n) (hhigh : n ≤ 0xFFFF)
    (hvalid : n < 0xD800 ∨ 0xDFFF < n) :
    unitsFrom none
        (UInt8.ofNat (n / 4096 % 0x10 + 0xE0) :: UInt8.ofNat (n / 64 % 0x40 + 0x80) ::
          UInt8.ofNat (n % 0x40 + 0x80) :: rest) =
      some (Char.ofNat n) :: units rest := by
  have hb₁ := UInt8.toNat_ofNat' (n := n / 4096 % 0x10 + 0xE0)
  have hb₂ := UInt8.toNat_ofNat' (n := n / 64 % 0x40 + 0x80)
  have hb₃ := UInt8.toNat_ofNat' (n := n % 0x40 + 0x80)
  obtain ⟨s, hlead, hbits, hmissing, hbelow, habove⟩ :=
    lead_of_three (UInt8.ofNat (n / 4096 % 0x10 + 0xE0)) (by omega) (by omega)
  rw [hb₁] at hbelow habove
  -- the bounds of the second octet leave out overlong forms and surrogates
  have hsecond : s.low ≤ n / 64 % 0x40 + 0x80 ∧ n / 64 % 0x40 + 0x80 ≤ s.high := by
    split at hbelow <;> split at habove <;> omega
  have hcode : (s.bits * 64 + ((UInt8.ofNat (n / 64 % 0x40 + 0x80)).toNat - 0x80)) * 64 +
      ((UInt8.ofNat (n % 0x40 + 0x80)).toNat - 0x80) = n := by omega
  rw [unitsFrom_lead s _ _ hlead, unitsFrom_inner s _ _ (by omega) (by omega),
    unitsFrom_last _ _ _ (by dsimp only; omega) (by dsimp only; omega)]
  dsimp only
  rw [hcode]

theorem unitsFrom_of_four (hlow : 0xFFFF < n) (hhigh : n < 0x110000) :
    unitsFrom none
        (UInt8.ofNat (n / 262144 % 0x08 + 0xF0) :: UInt8.ofNat (n / 4096 % 0x40 + 0x80) ::
          UInt8.ofNat (n / 64 % 0x40 + 0x80) :: UInt8.ofNat (n % 0x40 + 0x80) :: rest) =
      some (Char.ofNat n) :: units rest := by
  have hb₁ := UInt8.toNat_ofNat' (n := n / 262144 % 0x08 + 0xF0)
  have hb₂ := UInt8.toNat_ofNat' (n := n / 4096 % 0x40 + 0x80)
  have hb₃ := UInt8.toNat_ofNat' (n := n / 64 % 0x40 + 0x80)
  have hb₄ := UInt8.toNat_ofNat' (n := n % 0x40 + 0x80)
  obtain ⟨s, hlead, hbits, hmissing, hbelow, habove⟩ :=
    lead_of_four (UInt8.ofNat (n / 262144 % 0x08 + 0xF0)) (by omega) (by omega)
  rw [hb₁] at hbelow habove
  -- here the bounds leave out overlong forms and what is beyond the last character
  have hsecond : s.low ≤ n / 4096 % 0x40 + 0x80 ∧ n / 4096 % 0x40 + 0x80 ≤ s.high := by
    split at hbelow <;> split at habove <;> omega
  have hcode : ((s.bits * 64 + ((UInt8.ofNat (n / 4096 % 0x40 + 0x80)).toNat - 0x80)) * 64 +
      ((UInt8.ofNat (n / 64 % 0x40 + 0x80)).toNat - 0x80)) * 64 +
      ((UInt8.ofNat (n % 0x40 + 0x80)).toNat - 0x80) = n := by omega
  rw [unitsFrom_lead s _ _ hlead, unitsFrom_inner s _ _ (by omega) (by omega),
    unitsFrom_inner _ _ _ (by dsimp only; omega) (by dsimp only; omega),
    unitsFrom_last _ _ _ (by dsimp only; omega) (by dsimp only; omega)]
  dsimp only
  rw [hcode]

end Encoded

/-- The octets of a character are read as that character, whatever follows them. -/
theorem unitsFrom_encodeChar (c : Char) (rest : Bytes) :
    unitsFrom none (String.utf8EncodeChar c ++ rest) = some c :: units rest := by
  have hchar : Char.ofNat c.val.toNat = c := Char.ofNat_toNat c
  have hvalid : c.val.toNat < 0xD800 ∨ 0xDFFF < c.val.toNat ∧ c.val.toNat < 0x110000 := c.valid
  unfold String.utf8EncodeChar
  dsimp only
  split_ifs with hone htwo hthree
  · rw [List.singleton_append, unitsFrom_of_one _ rest hone, hchar]
  · simp only [List.cons_append, List.nil_append]
    rw [unitsFrom_of_two _ rest (by omega) htwo, hchar]
  · simp only [List.cons_append, List.nil_append]
    rw [unitsFrom_of_three _ rest (by omega) hthree (by omega), hchar]
  · simp only [List.cons_append, List.nil_append]
    rw [unitsFrom_of_four _ rest (by omega) (by omega), hchar]

theorem units_encode (t : Text) : units (encode t) = t.map some := by
  induction t with
  | nil => rfl
  | cons c t ih =>
    rw [encode_cons, units, unitsFrom_encodeChar, ih, List.map_cons]

theorem decode_encode (t : Text) : decode (encode t) = t := by
  unfold decode
  rw [units_encode, List.map_map]
  exact List.map_id t

theorem decode?_encode (t : Text) : decode? (encode t) = some t := by
  have hwhole : (units (encode t)).all Option.isSome = true := by
    rw [units_encode, List.all_map]
    simp
  rw [decode?, if_pos hwhole, decode_encode]

def Begun.Long (s : Begun) : Prop :=
  2 ≤ s.bits ∨ 2 ≤ s.missing ∧ (1 ≤ s.bits ∨ 0x90 ≤ s.low)

theorem long_of_lead (b : UInt8) (s : Begun) (h : lead b = .begun s) : s.Long := by
  unfold Begun.Long
  rcases lead_ranges b with hone | hstray | ⟨hlow, hhigh⟩ | ⟨hlow, hhigh⟩ | ⟨hlow, hhigh⟩
  · simp [lead_of_one b hone] at h
  · simp [lead_of_stray b hstray] at h
  · obtain ⟨s', hlead, hbits, -⟩ := lead_of_two b hlow hhigh
    obtain rfl : s' = s := by simpa [hlead] using h
    omega
  · obtain ⟨s', hlead, hbits, hmissing, hbelow, -⟩ := lead_of_three b hlow hhigh
    obtain rfl : s' = s := by simpa [hlead] using h
    split at hbelow <;> omega
  · obtain ⟨s', hlead, hbits, hmissing, hbelow, -⟩ := lead_of_four b hlow hhigh
    obtain rfl : s' = s := by simpa [hlead] using h
    split at hbelow <;> omega

section OneOctet

-- a code that is no character is read as the first one, which is left out here
variable (c : Char) (hpos : 0 < c.toNat) (hc : c.toNat < 0x80)

include hpos hc

theorem ofNat_ne (n : Nat) (hn : 0x80 ≤ n) : Char.ofNat n ≠ c := by
  rintro rfl
  rw [Char.toNat_ofNat] at hpos hc
  split_ifs at hpos hc
  · omega
  · omega

theorem toNat_of_feedFresh (b : UInt8) (h : some c ∈ (feedFresh b).1) : b.toNat = c.toNat := by
  by_cases hb : b.toNat < 0x80
  · rw [feedFresh_ascii hb] at h
    obtain rfl : c = Char.ofNat b.toNat := by simpa using h
    rw [Char.toNat_ofNat, if_pos (Or.inl (by omega))]
  · unfold feedFresh at h
    cases hlead : lead b with
    | whole d => exact absurd (toNat_lt_of_whole b d hlead) hb
    | begun s => simp [hlead] at h
    | stray => simp [hlead] at h

theorem toNat_of_feed (s : Option Begun) (hs : ∀ x, s = some x → x.Long) (b : UInt8)
    (h : some c ∈ (feed s b).1) : b.toNat = c.toNat := by
  cases s with
  | none => exact toNat_of_feedFresh c hpos hc b h
  | some s =>
    have hlong := hs s rfl
    unfold feed at h
    dsimp only at h
    split_ifs at h with hwithin hlast
    · -- the sequence ends here, and too high for one octet
      have hhigh : 0x80 ≤ s.bits * 64 + (b.toNat - 0x80) := by
        unfold Begun.Long at hlong
        omega
      have hchar : c = Char.ofNat (s.bits * 64 + (b.toNat - 0x80)) := by simpa using h
      exact absurd hchar.symm (ofNat_ne c hpos hc _ hhigh)
    · simp at h
    · exact toNat_of_feedFresh c hpos hc b (by simpa using h)

end OneOctet

theorem long_of_feed (s : Option Begun) (hs : ∀ x, s = some x → x.Long) (b : UInt8) (s' : Begun)
    (h : (feed s b).2 = some s') : s'.Long := by
  have hfresh (h : (feedFresh b).2 = some s') : s'.Long := by
    unfold feedFresh at h
    cases hlead : lead b with
    | whole c => simp [hlead] at h
    | stray => simp [hlead] at h
    | begun s =>
      rw [hlead] at h
      obtain rfl := Option.some.inj h
      exact long_of_lead b _ hlead
  cases s with
  | none => exact hfresh h
  | some s =>
    have hlong := hs s rfl
    unfold feed at h
    dsimp only at h
    split_ifs at h with hwithin hlast
    · have hlow := s.ascii_lt_low
      obtain rfl := Option.some.inj h
      unfold Begun.Long at hlong ⊢
      dsimp only
      omega
    · exact hfresh h

theorem octet_of_mem_unitsFrom (c : Char) (hpos : 0 < c.toNat) (hc : c.toNat < 0x80)
    (s : Option Begun) (hs : ∀ x, s = some x → x.Long) (data : Bytes)
    (h : some c ∈ unitsFrom s data) : ∃ b ∈ data, b.toNat = c.toNat := by
  induction data generalizing s with
  | nil => cases s <;> simp [unitsFrom] at h
  | cons b data ih =>
    rw [unitsFrom, List.mem_append] at h
    rcases h with h | h
    · exact ⟨b, List.mem_cons_self, toNat_of_feed c hpos hc s hs b h⟩
    · obtain ⟨b', hb', heq⟩ := ih _ (long_of_feed s hs b) h
      exact ⟨b', List.mem_cons_of_mem b hb', heq⟩

/-- A character of one octet is read only where that octet stands. -/
theorem octet_of_mem_decode (c : Char) (hpos : 0 < c.toNat) (hc : c.toNat < 0x80) (data : Bytes)
    (h : c ∈ decode data) : ∃ b ∈ data, b.toNat = c.toNat := by
  obtain ⟨u, hu, hchar⟩ := List.mem_map.1 h
  cases u with
  | none =>
    rw [Option.getD_none] at hchar
    subst hchar
    simp at hc
  | some d =>
    rw [Option.getD_some] at hchar
    subst hchar
    exact octet_of_mem_unitsFrom d hpos hc none (by simp) data hu

theorem unitsFrom_eq_nil (s : Option Begun) (data : Bytes) (h : unitsFrom s data = []) :
    s = none ∧ data = [] := by
  have hfresh (b : UInt8) (h : (feedFresh b).1 = []) : (feedFresh b).2 ≠ none := by
    unfold feedFresh at h ⊢
    cases hlead : lead b <;> simp [hlead] at h ⊢
  induction data generalizing s with
  | nil => cases s <;> simp_all [unitsFrom]
  | cons b data ih =>
    -- an octet that ends no unit leaves a begun sequence, and that one ends at the latest with the data
    rw [unitsFrom, List.append_eq_nil_iff] at h
    obtain ⟨hnow, hlater⟩ := h
    have hstate := (ih _ hlater).1
    cases s with
    | none => exact absurd hstate (hfresh b hnow)
    | some s =>
      unfold feed at hnow hstate
      dsimp only at hnow hstate
      split_ifs at hnow hstate

theorem decode_eq_nil_iff (data : Bytes) : decode data = [] ↔ data = [] := by
  constructor
  · intro h
    exact (unitsFrom_eq_nil none data (List.map_eq_nil_iff.1 h)).2
  · rintro rfl
    rfl

theorem octet_of_getLast_unitsFrom (c : Char) (hpos : 0 < c.toNat) (hc : c.toNat < 0x80)
    (s : Option Begun) (hs : ∀ x, s = some x → x.Long) (front : Bytes) (b : UInt8)
    (h : (unitsFrom s (front ++ [b])).getLast? = some (some c)) : b.toNat = c.toNat := by
  induction front generalizing s with
  | nil =>
    obtain ⟨b', hb', heq⟩ := octet_of_mem_unitsFrom c hpos hc s hs [b] (List.mem_of_getLast? h)
    rwa [List.mem_singleton.1 hb'] at heq
  | cons a front ih =>
    have hmore : unitsFrom (feed s a).2 (front ++ [b]) ≠ [] := by
      intro hnil
      simpa using (unitsFrom_eq_nil _ _ hnil).2
    rw [List.cons_append, unitsFrom, List.getLast?_append_of_ne_nil _ hmore] at h
    exact ih _ (long_of_feed s hs a) h

/-- A character of one octet is read last only if its octet stands last. -/
theorem octet_of_getLast_decode (c : Char) (hpos : 0 < c.toNat) (hc : c.toNat < 0x80)
    (front : Bytes) (b : UInt8) (h : (decode (front ++ [b])).getLast? = some c) :
    b.toNat = c.toNat := by
  rw [decode, List.getLast?_map, Option.map_eq_some_iff] at h
  obtain ⟨u, hu, hchar⟩ := h
  cases u with
  | none =>
    rw [Option.getD_none] at hchar
    subst hchar
    simp at hc
  | some d =>
    rw [Option.getD_some] at hchar
    subst hchar
    exact octet_of_getLast_unitsFrom d hpos hc none (by simp) front b hu

end ImportCensus.Utf8
