import ImportCensus.Text.Quoted
import ImportCensus.Text.Utf8

/-!
Text that may reach a terminal. A terminal takes some controls, and the sequences that they begin,
as commands and shows nothing for them. Text from outside is therefore either written with such
controls spelled out, which loses nothing, or reduced to what a terminal would show of it.
-/

namespace ImportCensus.Text

/-- How a character is written where no terminal may take it for a command: the controls that one
obeys are spelled out by their code, with two digits in ASCII and in braces above it. -/
def spellOut (c : Char) : Text :=
  if c ∈ ['\x07', '\x08', '\x0C', '\x1B', '\x7F'] then
    ['\\', 'x', Nat.digitChar (c.toNat / 16), Nat.digitChar (c.toNat % 16)]
  else if 0x80 ≤ c.toNat ∧ c.toNat ≤ 0x9F then ['\\', 'u', '\x7b'] ++ hexCode c ++ ['\x7d']
  else [c]

def spelledOut (t : Text) : Text := t.flatMap spellOut

/-- The sequence that a terminal is in the middle of. An escape begins one, and the next character
tells which kind. A control sequence ends at its first letter. A device control string has numbers
and marks in front of its data; the data, like that of other strings, goes on to a terminator,
and an operating system command goes on to a bell. -/
inductive Sequence where
  | none
  | escape
  | escapeMark
  | control
  | device
  | deviceNumbers
  | deviceMark
  | string
  | command
deriving DecidableEq

namespace Sequence

/-- The octet that ends a string. A terminal that reads octets finds it inside characters too. -/
def terminator : UInt8 := 0x9C

def step (s : Sequence) (c : Char) : Sequence :=
  if c = '\x1B' then .escape
  else if c = '\x18' ∨ c = '\x1A' then .none
  else
    match s with
    | none => .none
    | escape =>
      if c = '[' then .control
      else if c = ']' then .command
      else if c = 'P' then .device
      else if c = 'X' ∨ c = '^' ∨ c = '_' then .string
      else if ' ' ≤ c ∧ c ≤ '/' then .escapeMark
      else if '0' ≤ c ∧ c ≤ '~' then .none
      else .escape
    | escapeMark => if '0' ≤ c ∧ c ≤ '~' then .none else .escapeMark
    | control => if '@' ≤ c ∧ c ≤ '~' then .none else .control
    | device =>
      if ' ' ≤ c ∧ c ≤ '/' then .deviceMark
      else if '0' ≤ c ∧ c ≤ '?' then .deviceNumbers
      else if '@' ≤ c ∧ c ≤ '~' then .string
      else .device
    | deviceNumbers =>
      if ' ' ≤ c ∧ c ≤ '/' then .deviceMark
      else if '<' ≤ c ∧ c ≤ '~' then .string
      else .deviceNumbers
    | deviceMark => if '0' ≤ c ∧ c ≤ '~' then .string else .deviceMark
    | string => if (Utf8.encode [c]).contains terminator then .none else .string
    | command => if c = '\x07' then .none else .command

def shows (s : Sequence) (c : Char) : Bool :=
  match s with
  | none => ['\t', '\n', '\x0C', '\r'].contains c || decide (' ' ≤ c ∧ c ≠ '\x7F')
  | escape | escapeMark | control => ['\t', '\n', '\x0C', '\r'].contains c
  | device | deviceNumbers | deviceMark | string | command => false

end Sequence

/-- What a terminal shows of a text that it meets in a sequence. Once it has begun to show
characters it goes on up to the next control. If sequences resume, one into which a blank control
broke goes on there, unless a character above ASCII was shown in between; otherwise it is given
up at the blank. -/
def shownFrom (resume : Bool) (s : Sequence) (showing : Bool) : Text → Text
  | [] => []
  | c :: rest =>
    if (if showing then .none else s).shows c then
      c :: shownFrom resume (if resume && decide (c.toNat < 0x80) then s else .none) true rest
    else shownFrom resume (s.step c) false rest

def seen (t : Text) : Text := shownFrom false .none false t

def streamed (t : Text) : Text := shownFrom true .none false t

/-- Outside of a sequence, text without other controls than blank ones is shown as it is. -/
theorem shownFrom_eq_self {resume showing : Bool} {t : Text}
    (h : ∀ c ∈ t, Sequence.none.shows c = true) : shownFrom resume .none showing t = t := by
  induction t generalizing showing with
  | nil => rfl
  | cons c t ih =>
    have hc : Sequence.none.shows c = true := h c List.mem_cons_self
    have ht : ∀ d ∈ t, Sequence.none.shows d = true := fun d hd => h d (List.mem_cons_of_mem c hd)
    simp [shownFrom, hc, ih ht]

end ImportCensus.Text
