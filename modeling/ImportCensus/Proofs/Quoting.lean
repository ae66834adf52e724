import ImportCensus.Failure

namespace ImportCensus

namespace Text

def isControl (c : Char) : Bool := c.toNat < 0x20 || (0x7F ≤ c.toNat && c.toNat < 0xA0)

def digits : Text := "0123456789abcdef".toList

def names : List (Char × Char) :=
  [('0', '\x00'), ('t', '\t'), ('r', '\r'), ('n', '\n'), ('"', '"'), ('\\', '\\')]

/-- Where the reader of a quoted text is: between two characters, right behind a backslash, in front
of the brace that begins a code, or in a code that was read so far as a number. -/
inductive Place where
  | plain
  | backslash
  | brace
  | code (n : Nat)

def readFrom : Place → Text → Option Text
  | _, [] => none
  | .plain, c :: rest =>
    if c = '"' then if rest = [] then some [] else none
    else if c = '\\' then readFrom .backslash rest
    else (readFrom .plain rest).map (c :: ·)
  | .backslash, letter :: rest =>
    if letter = 'u' then readFrom .brace rest
    else (names.lookup letter).bind fun c => (readFrom .plain rest).map (c :: ·)
  | .brace, c :: rest => if c = '\x7b' then readFrom (.code 0) rest else none
  | .code n, c :: rest =>
    if c = '\x7d' then (readFrom .plain rest).map (Char.ofNat n :: ·)
    else (digits.idxOf? c).bind fun digit => readFrom (.code (16 * n + digit)) rest

def unquoted? : Text → Option Text
  | [] => none
  | c :: rest => if c = '"' then readFrom .plain rest else none

/-- The places of the double quotes in a text that are not taken by a backslash, counted from a number
on. A backslash takes the next character, unless it is taken itself. The first character of the text
may be taken by what came in front of it. -/
def bareQuotes (taken : Bool) (i : Nat) : Text → List Nat
  | [] => []
  | c :: rest =>
    let behind := bareQuotes (!taken && c = '\\') (i + 1) rest
    if !taken && c = '"' then i :: behind else behind

/-- A character is written by a letter behind a backslash, by its code, or as it is. -/
theorem escape_cases (c : Char) :
    (∃ letter, (letter, c) ∈ names ∧ escape c = ['\\', letter]) ∨
      escape c = ['\\', 'u', '\x7b'] ++ hexCode c ++ ['\x7d'] ∨
      (c ≠ '"' ∧ c ≠ '\\' ∧ isPrintable c = true ∧ escape c = [c]) := by
  -- the characters with a letter come first, since some of them are printable
  by_cases hname : c ∈ names.map Prod.snd
  · left
    simp only [names, List.map, List.mem_cons, List.not_mem_nil, or_false] at hname
    rcases hname with rfl | rfl | rfl | rfl | rfl | rfl
    · exact ⟨'0', by decide, rfl⟩
    · exact ⟨'t', by decide, rfl⟩
    · exact ⟨'r', by decide, rfl⟩
    · exact ⟨'n', by decide, rfl⟩
    · exact ⟨'"', by decide, rfl⟩
    · exact ⟨'\\', by decide, rfl⟩
  · right
    simp only [names, List.map, List.mem_cons, List.not_mem_nil, or_false, not_or] at hname
    obtain ⟨hnull, htab, hreturn, hfeed, hquote, hbackslash⟩ := hname
    unfold escape
    rw [if_neg hnull, if_neg htab, if_neg hreturn, if_neg hfeed, if_neg hquote, if_neg hbackslash]
    by_cases hcode : isExtending c || !isPrintable c
    · exact Or.inl (if_pos hcode)
    · have hprintable : isPrintable c = true := by
        simp only [Bool.or_eq_true, Bool.not_eq_true', not_or, Bool.not_eq_false] at hcode
        exact hcode.2
      exact Or.inr ⟨hquote, hbackslash, hprintable, if_neg hcode⟩

theorem digitChar_plain : ∀ digit < 16,
    digit.digitChar ≠ '"' ∧ digit.digitChar ≠ '\\' ∧ isControl digit.digitChar = false := by
  decide

theorem digitChar_read : ∀ digit < 16,
    digit.digitChar ≠ '\x7d' ∧ digits.idxOf? digit.digitChar = some digit := by
  decide

theorem names_facts : ∀ name ∈ names,
    name.1 ≠ 'u' ∧ names.lookup name.1 = some name.2 ∧ isControl name.1 = false := by
  decide

theorem isControl_of_isPrintable {c : Char} (h : isPrintable c = true) : isControl c = false := by
  have hlow : (0x0, 0x1F) ∈ unprintableRanges := List.mem_cons_self
  have hhigh : (0x7F, 0xA0) ∈ unprintableRanges := List.mem_cons_of_mem _ List.mem_cons_self
  unfold isPrintable at h
  rw [Bool.not_eq_true', List.any_eq_false] at h
  have hlow' := h _ hlow
  have hhigh' := h _ hhigh
  simp only [Bool.and_eq_true, decide_eq_true_eq, not_and, Nat.not_le] at hlow' hhigh'
  simp only [isControl, Bool.or_eq_false_iff, Bool.and_eq_false_iff, decide_eq_false_iff_not]
  omega

theorem readFrom_digit (n : Nat) {digit : Nat} (h : digit < 16) (rest : Text) :
    readFrom (.code n) (digit.digitChar :: rest) = readFrom (.code (16 * n + digit)) rest := by
  obtain ⟨hbrace, hvalue⟩ := digitChar_read digit h
  rw [readFrom, if_neg hbrace, hvalue, Option.bind_some]

/-- The digits of a code are read one by one, the highest first. -/
theorem readFrom_toDigits (n : Nat) (rest : Text) :
    readFrom (.code 0) (Nat.toDigits 16 n ++ rest) = readFrom (.code n) rest := by
  induction n using Nat.strongRecOn generalizing rest with
  | ind n ih =>
    by_cases hsmall : n < 16
    · rw [Nat.toDigits_of_lt_base hsmall, List.singleton_append, readFrom_digit 0 hsmall,
        Nat.mul_zero, Nat.zero_add]
    · have hdigit : n % 16 < 16 := Nat.mod_lt n (by decide)
      rw [Nat.toDigits_of_base_le (by decide) (by omega), List.append_assoc,
        ih (n / 16) (by omega), List.singleton_append, readFrom_digit _ hdigit, Nat.div_add_mod]

/-- Whatever comes behind it, a character is read as the one that was written. -/
theorem readFrom_escape (c : Char) (rest : Text) :
    readFrom .plain (escape c ++ rest) = (readFrom .plain rest).map (c :: ·) := by
  obtain ⟨letter, hname, hescape⟩ | hescape | ⟨hquote, hbackslash, -, hescape⟩ := escape_cases c
  · obtain ⟨hcode, hlookup, -⟩ := names_facts _ hname
    rw [hescape]
    show readFrom .backslash (letter :: rest) = _
    rw [readFrom, if_neg hcode, hlookup, Option.bind_some]
  · rw [hescape, List.append_assoc, List.append_assoc]
    calc readFrom (.code 0) (hexCode c ++ (['\x7d'] ++ rest))
        = readFrom (.code c.toNat) (['\x7d'] ++ rest) := readFrom_toDigits c.toNat _
      _ = (readFrom .plain rest).map (Char.ofNat c.toNat :: ·) := rfl
      _ = (readFrom .plain rest).map (c :: ·) := by rw [Char.ofNat_toNat]
  · rw [hescape]
    show readFrom .plain (c :: rest) = _
    rw [readFrom, if_neg hquote, if_neg hbackslash]

/-- What is read from a quoted text is the text that was quoted. -/
theorem unquoted?_quoted (t : Text) : t.quoted.unquoted? = some t := by
  have hbody : readFrom .plain (t.flatMap escape ++ ['"']) = some t := by
    induction t with
    | nil => rfl
    | cons c t ih => rw [List.flatMap_cons, List.append_assoc, readFrom_escape, ih, Option.map_some]
  exact hbody

def Plain (t : Text) : Prop := ∀ c ∈ t, c ≠ '"' ∧ c ≠ '\\' ∧ isControl c = false

theorem plain_singleton {c : Char} (hquote : c ≠ '"') (hbackslash : c ≠ '\\')
    (hcontrol : isControl c = false) : Plain [c] :=
  List.forall_mem_singleton.2 ⟨hquote, hbackslash, hcontrol⟩

theorem Plain.append {t t' : Text} (h : t.Plain) (h' : t'.Plain) : Plain (t ++ t') :=
  List.forall_mem_append.2 ⟨h, h'⟩

theorem plain_toDigits {base : Nat} (hone : 1 < base) (hbase : base ≤ 16) (n : Nat) :
    Plain (Nat.toDigits base n) := by
  -- the digits of a number are those of its quotient by the base, and one more behind them
  induction n using Nat.strongRecOn with
  | ind n ih =>
    have hsingle {digit : Nat} (h : digit < 16) : Plain [digit.digitChar] := by
      obtain ⟨hquote, hbackslash, hcontrol⟩ := digitChar_plain digit h
      exact plain_singleton hquote hbackslash hcontrol
    by_cases hsmall : n < base
    · rw [Nat.toDigits_of_lt_base hsmall]
      exact hsingle (by omega)
    · have hdigit : n % base < base := Nat.mod_lt n (by omega)
      rw [Nat.toDigits_of_base_le hone (by omega)]
      exact (ih (n / base) (Nat.div_lt_self (by omega) hone)).append (hsingle (by omega))

theorem escape_plain (c : Char) :
    Plain (escape c) ∨
      ∃ x more, escape c = ['\\', x] ++ more ∧ isControl x = false ∧ Plain more := by
  obtain ⟨letter, hname, hescape⟩ | hescape | ⟨hquote, hbackslash, hprintable, hescape⟩ :=
    escape_cases c
  · have hletter : isControl letter = false := (names_facts _ hname).2.2
    exact Or.inr ⟨letter, [], hescape, hletter, fun c hc => absurd hc List.not_mem_nil⟩
  · have hopening : Plain ['\x7b'] := plain_singleton (by decide) (by decide) rfl
    have hdigits : Plain (hexCode c) := plain_toDigits (by decide) (by decide) c.toNat
    have hclosing : Plain ['\x7d'] := plain_singleton (by decide) (by decide) rfl
    exact Or.inr ⟨'u', _, hescape, by decide, (hopening.append hdigits).append hclosing⟩
  · left
    rw [hescape]
    exact plain_singleton hquote hbackslash (isControl_of_isPrintable hprintable)

/-- Text in which the quotes, if there are any, are taken by backslashes, and which takes nothing of
what comes behind it. -/
def Inert (t : Text) : Prop :=
  ∀ i rest, bareQuotes false i (t ++ rest) = bareQuotes false (i + t.length) rest

theorem Inert.append {t t' : Text} (h : t.Inert) (h' : t'.Inert) : Inert (t ++ t') := by
  intro i rest
  rw [List.append_assoc, h, h', List.length_append, Nat.add_assoc]

theorem Plain.inert {t : Text} (h : t.Plain) : t.Inert := by
  induction t with
  | nil => exact fun i rest => rfl
  | cons c t ih =>
    obtain ⟨⟨hquote, hbackslash, -⟩, ht⟩ := List.forall_mem_cons.1 h
    have hfirst : Inert [c] := by
      intro i rest
      simp [bareQuotes, hquote, hbackslash]
    exact hfirst.append (ih ht)

theorem inert_escape (c : Char) : Inert (escape c) := by
  obtain hplain | ⟨x, more, hescape, -, hmore⟩ := escape_plain c
  · exact hplain.inert
  · have htaken : Inert ['\\', x] := by
      intro i rest
      simp [bareQuotes]
    rw [hescape]
    exact htaken.append hmore.inert

theorem inert_escaped (t : Text) : Inert (t.flatMap escape) := by
  induction t with
  | nil => exact fun i rest => rfl
  | cons c t ih =>
    rw [List.flatMap_cons]
    exact (inert_escape c).append ih

theorem isControl_of_mem_escape (c : Char) : ∀ x ∈ escape c, isControl x = false := by
  obtain hplain | ⟨x, more, hescape, hx, hmore⟩ := escape_plain c
  · exact fun y hy => (hplain y hy).2.2
  · rw [hescape, List.forall_mem_append]
    refine ⟨?_, fun y hy => (hmore y hy).2.2⟩
    intro y hy
    rw [List.mem_cons, List.mem_singleton] at hy
    rcases hy with rfl | rfl
    · decide
    · exact hx

theorem isControl_of_mem_quoted (t : Text) : ∀ x ∈ t.quoted, isControl x = false := by
  have hquote : ∀ x ∈ ['"'], isControl x = false := List.forall_mem_singleton.2 rfl
  have hbody : ∀ x ∈ t.flatMap escape, isControl x = false := by
    intro x hx
    obtain ⟨c, -, hc⟩ := List.mem_flatMap.1 hx
    exact isControl_of_mem_escape c x hc
  exact List.forall_mem_append.2 ⟨List.forall_mem_append.2 ⟨hquote, hbody⟩, hquote⟩

/-- Behind a plain text, the first quote and the last one are the only bare quotes of a quoted text. -/
theorem bareQuotes_quoted {front : Text} (h : front.Plain) (t : Text) :
    bareQuotes false 0 (front ++ t.quoted) =
      [(front ++ t.quoted).idxOf '"', (front ++ t.quoted).length - 1] := by
  have hnotMem : '"' ∉ front := fun hmem => (h '"' hmem).1 rfl
  have hfirst : (front ++ t.quoted).idxOf '"' = front.length := by
    rw [List.idxOf_append, if_neg hnotMem]
    exact Nat.zero_add _
  have hlast : (front ++ t.quoted).length - 1 = front.length + 1 + (t.flatMap escape).length := by
    simp only [quoted, List.length_append, List.length_singleton]
    omega
  rw [hfirst, hlast, h.inert]
  show bareQuotes false (0 + front.length) ('"' :: (t.flatMap escape ++ ['"'])) = _
  calc bareQuotes false (0 + front.length) ('"' :: (t.flatMap escape ++ ['"']))
      = front.length :: bareQuotes false (front.length + 1) (t.flatMap escape ++ ['"']) := by
        rw [Nat.zero_add]
        rfl
    _ = [front.length, front.length + 1 + (t.flatMap escape).length] := by
        rw [inert_escaped]
        rfl

end Text

namespace Failure

def location (line : Nat) (text : Text) : Text :=
  [':'] ++ decimal line ++ ": ".toList ++ text.quoted

def told (tail : Text) : Nat × Option Text :=
  let behind := tail.drop 1
  (Nat.ofDigitChars 10 (behind.takeWhile Char.isDigit) 0,
    Text.unquoted? ((behind.dropWhile Char.isDigit).drop 2))

theorem message_eq_location (path : Path) (line : Nat) (text : Text) :
    (malformedImport path line text).message =
      "malformed import at ".toList ++ path.shown ++ location line text := by
  unfold message location
  simp only [List.append_assoc]

theorem told_location (line : Nat) (text : Text) :
    told (location line text) = (line, some text) := by
  have hdigits : ∀ c ∈ decimal line, c.isDigit = true :=
    fun c hc => Nat.isDigit_of_mem_toDigits (by decide) (by decide) hc
  have hbehind : (location line text).drop 1 = decimal line ++ (": ".toList ++ text.quoted) :=
    List.append_assoc _ _ _
  have hnumber : ((location line text).drop 1).takeWhile Char.isDigit = decimal line := by
    rw [hbehind, List.takeWhile_append_of_pos hdigits]
    exact List.append_nil _
  have htext : ((location line text).drop 1).dropWhile Char.isDigit = ": ".toList ++ text.quoted := by
    rw [hbehind, List.dropWhile_append_of_pos hdigits]
    rfl
  show (Nat.ofDigitChars 10 (((location line text).drop 1).takeWhile Char.isDigit) 0,
    Text.unquoted? ((((location line text).drop 1).dropWhile Char.isDigit).drop 2)) = _
  rw [hnumber, htext, decimal, Nat.ofDigitChars_ten_toDigits]
  exact congrArg (Prod.mk line) text.unquoted?_quoted

theorem plain_number (line : Nat) : Text.Plain ([':'] ++ decimal line ++ ": ".toList) := by
  have hcolon : Text.Plain [':'] := Text.plain_singleton (by decide) (by decide) rfl
  have hspace : Text.Plain [' '] := Text.plain_singleton (by decide) (by decide) rfl
  have hdigits : Text.Plain (decimal line) := Text.plain_toDigits (by decide) (by decide) line
  exact (hcolon.append hdigits).append (hcolon.append hspace)

end Failure

/-- The message about a malformed import tells where it is without ambiguity. Take any path. Messages
about two places in this file are equal only if both the numbers of the lines and their texts are,
since both can be told from the end of the message behind the path, and the text can be read back from
its quoted form. In that end there is no control character, whatever the text holds, and no double
quote but the first and the last one that is not taken by a backslash. -/
theorem message_of_malformed (path : Path) (line line' : Nat) (text text' : Text) :
    ((Failure.malformedImport path line text).message =
        (Failure.malformedImport path line' text').message ↔ line = line' ∧ text = text') ∧
      text.quoted.unquoted? = some text ∧
      ∃ tail, (Failure.malformedImport path line text).message =
          "malformed import at ".toList ++ path.shown ++ tail ∧
        Failure.told tail = (line, some text) ∧
        (∀ c ∈ tail, Text.isControl c = false) ∧
        Text.bareQuotes false 0 tail = [tail.idxOf '"', tail.length - 1] := by
  refine ⟨⟨?_, ?_⟩, text.unquoted?_quoted, Failure.location line text,
    Failure.message_eq_location path line text, Failure.told_location line text, ?_, ?_⟩
  · intro h
    rw [Failure.message_eq_location, Failure.message_eq_location] at h
    have htold : (line, some text) = (line', some text') := by
      rw [← Failure.told_location, ← Failure.told_location, List.append_cancel_left h]
    simpa using htold
  · rintro ⟨rfl, rfl⟩
    rfl
  · have hnumber : ∀ c ∈ [':'] ++ decimal line ++ ": ".toList, Text.isControl c = false :=
      fun c hc => (Failure.plain_number line c hc).2.2
    exact List.forall_mem_append.2 ⟨hnumber, text.isControl_of_mem_quoted⟩
  · exact Text.bareQuotes_quoted (Failure.plain_number line) text

/-- A text that has the form of a quoted one, with an escape and a code in it. -/
example :
    let text : Text := "\"\\n\\u\x7b41\x7d\n".toList
    text.quoted = "\"\\\"\\\\n\\\\u\x7b41\x7d\\n\"".toList ∧ text.quoted.unquoted? = some text := by
  decide +kernel

end ImportCensus
