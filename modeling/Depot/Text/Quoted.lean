import Depot.Text.Hex
import Depot.Text.Unshown

/-!
# Quoted texts

A text between double quotes, with a backslash before what would end or spoil it. Two forms are in
use: that of JSON (`json`), which escapes the quote, the backslash and the characters below the
space, and the form in which messages describe a text (`described`), which names by its code point, in
braces, every character that does not stand by itself.
-/

namespace Depot.Text.Quoted

/-- One character inside a JSON string. -/
def jsonChar (c : Char) : List Char :=
  if c = '"' then ['\\', '"']
  else if c = '\\' then ['\\', '\\']
  else if c = '\x08' then ['\\', 'b']
  else if c = '\x0c' then ['\\', 'f']
  else if c = '\n' then ['\\', 'n']
  else if c = '\r' then ['\\', 'r']
  else if c = '\t' then ['\\', 't']
  else if c.toNat < 32 then '\\' :: 'u' :: '0' :: '0' :: Hex.padded 2 c.toNat
  else [c]

/-- A text as a JSON string. -/
def json (s : String) : List Char :=
  '"' :: (s.toList.flatMap jsonChar ++ ['"'])

/-- One character inside a described text. -/
def describedChar (c : Char) : List Char :=
  if c = '"' then ['\\', '"']
  else if c = '\\' then ['\\', '\\']
  else if c = '\x00' then ['\\', '0']
  else if c = '\n' then ['\\', 'n']
  else if c = '\r' then ['\\', 'r']
  else if c = '\t' then ['\\', 't']
  else if isUnshown c then ['\\', 'u', '\x7b'] ++ Hex.compact c.toNat ++ ['\x7d']
  else [c]

/-- A text as messages describe it. -/
def described (s : String) : List Char :=
  '"' :: (s.toList.flatMap describedChar ++ ['"'])

end Depot.Text.Quoted
