import ImportCensus.References
import ImportCensus.Text.Utf8
import ImportCensus.Tree.Cause

namespace ImportCensus

def References.rendered (r : References) : Text := r.tokens.flatMap fun token => token ++ ['\n']

/-- A writer: what it holds, how much more it takes if it is bounded, why it refuses what does not
fit, and why it fails to pass on what it holds, if it does. -/
structure Writer where
  stored : Bytes
  room : Option Nat
  full : Cause
  flushFault : Option Cause
deriving DecidableEq

namespace Writer

def write (w : Writer) (data : Bytes) : Writer × Option Cause :=
  match w.room with
  | none => ({ w with stored := w.stored ++ data }, none)
  | some room =>
    ({ w with stored := w.stored ++ data.take room, room := some (room - data.length) },
      if room < data.length then some w.full else none)

def writeAll (w : Writer) : List Bytes → Writer × Option Cause
  | [] => (w, none)
  | piece :: rest =>
    match w.write piece with
    | (w, none) => w.writeAll rest
    | (w, some cause) => (w, some cause)

end Writer

def References.writeTo (r : References) (w : Writer) : Writer × Option Cause :=
  match w.writeAll (r.tokens.flatMap fun token => [Utf8.encode token, Utf8.encode ['\n']]) with
  | (w, none) => (w, w.flushFault)
  | (w, some cause) => (w, some cause)

end ImportCensus
