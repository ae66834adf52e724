import ImportCensus.Text.Extending
import ImportCensus.Text.Printable

namespace ImportCensus.Text

def hexCode (c : Char) : Text := Nat.toDigits 16 c.toNat

def escape (c : Char) : Text :=
  if c = '\x00' then ['\\', '0']
  else if c = '\t' then ['\\', 't']
  else if c = '\r' then ['\\', 'r']
  else if c = '\n' then ['\\', 'n']
  else if c = '"' then ['\\', '"']
  else if c = '\\' then ['\\', '\\']
  else if isExtending c || !isPrintable c then ['\\', 'u', '\x7b'] ++ hexCode c ++ ['\x7d']
  else [c]

def quoted (t : Text) : Text := ['"'] ++ t.flatMap escape ++ ['"']

end ImportCensus.Text
