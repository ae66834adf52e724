import ImportCensus.Text.Basic

/-!
UTF-8. Reading goes octet by octet: a state holds the sequence that has been begun, and an octet
that cannot continue it closes it as damaged and is read afresh. So a damaged stretch costs one
unit for each longest piece that could still have become a character, and data may be cut wherever
no sequence is begun, which is what lets lines be cut before they are read.
-/

namespace ImportCensus.Utf8

/-- A begun sequence: the bits read so far, how many octets are missing, and the octets that may
come next. The bounds of the second octet rule out surrogates, overlong forms and codes above the
last, and no octet that is a character by itself comes next. -/
structure Begun where
  bits : Nat
  missing : Nat
  low : Nat
  high : Nat
  ascii_lt_low : 0x7F < low := by decide
deriving DecidableEq

inductive Lead where
  | whole (c : Char)
  | begun (s : Begun)
  | stray
deriving DecidableEq

def lead (b : UInt8) : Lead :=
  let n := b.toNat
  if n < 0x80 then .whole (Char.ofNat n)
  else if n < 0xC2 then .stray
  else if n < 0xE0 then .begun { bits := n - 0xC0, missing := 1, low := 0x80, high := 0xBF }
  else if n = 0xE0 then .begun { bits := 0, missing := 2, low := 0xA0, high := 0xBF }
  else if n = 0xED then .begun { bits := 0xD, missing := 2, low := 0x80, high := 0x9F }
  else if n < 0xF0 then .begun { bits := n - 0xE0, missing := 2, low := 0x80, high := 0xBF }
  else if n = 0xF0 then .begun { bits := 0, missing := 3, low := 0x90, high := 0xBF }
  else if n < 0xF4 then .begun { bits := n - 0xF0, missing := 3, low := 0x80, high := 0xBF }
  else if n = 0xF4 then .begun { bits := 4, missing := 3, low := 0x80, high := 0x8F }
  else .stray

def feedFresh (b : UInt8) : List (Option Char) × Option Begun :=
  match lead b with
  | .whole c => ([some c], none)
  | .begun s => ([], some s)
  | .stray => ([none], none)

def feed : Option Begun → UInt8 → List (Option Char) × Option Begun
  | none, b => feedFresh b
  | some s, b =>
    if s.low ≤ b.toNat ∧ b.toNat ≤ s.high then
      let bits := s.bits * 64 + (b.toNat - 0x80)
      if s.missing ≤ 1 then ([some (Char.ofNat bits)], none)
      else ([], some { bits := bits, missing := s.missing - 1, low := 0x80, high := 0xBF })
    else (none :: (feedFresh b).1, (feedFresh b).2)

def unitsFrom : Option Begun → Bytes → List (Option Char)
  | none, [] => []
  | some _, [] => [none]
  | s, b :: rest => (feed s b).1 ++ unitsFrom (feed s b).2 rest

/-- The units of data: its characters in order, and one empty unit for each damaged piece. -/
def units (data : Bytes) : List (Option Char) := unitsFrom none data

def decode (data : Bytes) : Text := (units data).map fun u => u.getD '\uFFFD'

def decode? (data : Bytes) : Option Text :=
  if (units data).all Option.isSome then some (decode data) else none

def encode (t : Text) : Bytes := t.flatMap String.utf8EncodeChar

theorem encode_cons (c : Char) (t : Text) :
    encode (c :: t) = String.utf8EncodeChar c ++ encode t :=
  List.flatMap_cons

theorem encode_append (front back : Text) : encode (front ++ back) = encode front ++ encode back :=
  List.flatMap_append

theorem feedFresh_ascii {b : UInt8} (h : b.toNat < 0x80) :
    feedFresh b = ([some (Char.ofNat b.toNat)], none) := by
  simp [feedFresh, lead, h]

/-- An octet that is a character by itself ends whatever was begun before it, so data can be cut
there: its units are those in front of the octet, the character, and those behind it. -/
theorem unitsFrom_append_cons (s : Option Begun) (front back : Bytes) {b : UInt8}
    (h : b.toNat < 0x80) :
    unitsFrom s (front ++ b :: back) =
      unitsFrom s front ++ some (Char.ofNat b.toNat) :: units back := by
  induction front generalizing s with
  | nil =>
    cases s with
    | none => simp [unitsFrom, feed, feedFresh_ascii h, units]
    | some s =>
      have hlow : ¬(s.low ≤ b.toNat ∧ b.toNat ≤ s.high) := by
        have := s.ascii_lt_low
        omega
      simp [unitsFrom, feed, hlow, feedFresh_ascii h, units]
  | cons a front ih =>
    simp only [List.cons_append, unitsFrom, ih, List.append_assoc]

theorem units_append_cons (front back : Bytes) {b : UInt8} (h : b.toNat < 0x80) :
    units (front ++ b :: back) = units front ++ some (Char.ofNat b.toNat) :: units back :=
  unitsFrom_append_cons none front back h

/-- Reading data that is cut at a character of one octet is reading the parts. -/
theorem decode_append_cons (front back : Bytes) {b : UInt8} (h : b.toNat < 0x80) :
    decode (front ++ b :: back) = decode front ++ Char.ofNat b.toNat :: decode back := by
  simp [decode, units_append_cons front back h]

end ImportCensus.Utf8
