/-
**Quoted text.**

Text is quoted by writing it between two double quotes.  Quotes, backslashes and four control
characters are written as a backslash and one more character; any other character that would not
be seen, or that would be drawn over the one before it, is written as its code point in
hexadecimal digits; all else stands for itself.

Main definitions:

* `TreeScript.Text.Quoted.escape` — how one character is written;
* `TreeScript.Text.Quoted.encode` — how the characters of a text are written;
* `TreeScript.Text.quoted` — a text between quotes.

Which characters stand for themselves is a parameter of `escape` and `encode`, because the form of
quoted text does not depend on it.
-/

import TreeScript.Text.GraphemeExtend
import TreeScript.Text.Printable

set_option relaxedAutoImplicit false
set_option autoImplicit false

namespace TreeScript.Text

namespace Quoted

/-- The character that stands after the backslash where two characters are enough. -/
def shortEscape? (c : Char) : Option Char :=
  if c = '\x00' then some '0'
  else if c = '\t' then some 't'
  else if c = '\r' then some 'r'
  else if c = '\n' then some 'n'
  else if c = '\\' then some '\\'
  else if c = '"' then some '"'
  else none

/-- A character as its code point: hexadecimal digits in braces. -/
def hexEscape (c : Char) : List Char :=
  ['\\', 'u', '\x7b'] ++ Nat.toDigits 16 c.toNat ++ ['\x7d']

/-- How one character is written, when the characters for which `plain` holds may stand for
themselves. -/
def escape (plain : Char → Bool) (c : Char) : List Char :=
  match shortEscape? c with
  | some e => ['\\', e]
  | none => if plain c then [c] else hexEscape c

/-- How the characters of a text are written, one after the other. -/
def encode (plain : Char → Bool) (cs : List Char) : List Char := cs.flatMap (escape plain)

@[simp] theorem encode_nil (plain : Char → Bool) : encode plain [] = [] := rfl

@[simp] theorem encode_cons (plain : Char → Bool) (c : Char) (cs : List Char) :
    encode plain (c :: cs) = escape plain c ++ encode plain cs := rfl

/-- Whether a character is seen, on its own, when it stands for itself. -/
def isPlain (c : Char) : Bool := !isOverlay c && isPrintable c

end Quoted

/-- A text between quotes. -/
def quoted (s : String) : String :=
  String.ofList ('"' :: Quoted.encode Quoted.isPlain s.toList ++ ['"'])

end TreeScript.Text
