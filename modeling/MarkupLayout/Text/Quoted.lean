import MarkupLayout.Text.Number
import MarkupLayout.Unicode.Extender
import MarkupLayout.Unicode.Unprintable
/-!
# Quoted texts

Two ways to write a text between double quotes so that it can be read back.  The plain form keeps
every character that can be seen and spells the others by their code point.  The JSON form escapes
only what JSON requires.
-/

namespace MarkupLayout.Text

def plainEscape (c : Char) : Text :=
  if c = '\x22' then ['\\', '\x22']
  else if c = '\\' then ['\\', '\\']
  else if c = '\n' then ['\\', 'n']
  else if c = '\t' then ['\\', 't']
  else if c = '\r' then ['\\', 'r']
  else if c = '\x00' then ['\\', '0']
  else if Unicode.isExtender c || Unicode.isUnprintable c then
    ['\\', 'u', '\x7b'] ++ ofNatHex c.toNat ++ ['\x7d']
  else [c]

def jsonEscape (c : Char) : Text :=
  if c = '\x22' then ['\\', '\x22']
  else if c = '\\' then ['\\', '\\']
  else if c = '\n' then ['\\', 'n']
  else if c = '\t' then ['\\', 't']
  else if c = '\r' then ['\\', 'r']
  else if c = '\x08' then ['\\', 'b']
  else if c = '\x0c' then ['\\', 'f']
  else if c.toNat < 0x10 then ['\\', 'u', '0', '0', '0'] ++ ofNatHex c.toNat
  else if c.toNat < 0x20 then ['\\', 'u', '0', '0'] ++ ofNatHex c.toNat
  else [c]

/-- A text between double quotes, each character written by `escape`. -/
def quotedWith (escape : Char → Text) (t : Text) : Text :=
  '\x22' :: t.flatMap escape ++ ['\x22']

def quotedPlain (t : Text) : Text :=
  quotedWith plainEscape t

def quotedJson (t : Text) : Text :=
  quotedWith jsonEscape t

end MarkupLayout.Text
