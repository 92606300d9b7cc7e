-- SUMMARY: Text between quotes, as messages and descriptions show it.
import Provenance.Text.Printable

/-!
# Quoted text

A text in messages and descriptions stands between quotes: single ones unless it holds a single
quote and no double one. The chosen quote, the backslash, line ends and the tab are escaped by a
backslash, and every other character that does not print is written by its code point.
-/
namespace Provenance.Text

def hexDigits (width n : Nat) : List Char :=
  let digits := Nat.toDigits 16 n
  List.replicate (width - digits.length) '0' ++ digits

/-- One character of a text quoted by `quote`. -/
def quotedChar (quote c : Char) : List Char :=
  if c = quote || c = '\\' then ['\\', c]
  else if c = '\n' then ['\\', 'n']
  else if c = '\r' then ['\\', 'r']
  else if c = '\t' then ['\\', 't']
  else if isPrintable c then [c]
  else if c.toNat < 0x100 then '\\' :: 'x' :: hexDigits 2 c.toNat
  else if c.toNat < 0x10000 then '\\' :: 'u' :: hexDigits 4 c.toNat
  else '\\' :: 'U' :: hexDigits 8 c.toNat

def quoteFor (s : String) : Char :=
  if s.toList.contains '\'' && !s.toList.contains '"' then '"' else '\''

def quoted (s : String) : String :=
  let quote := quoteFor s
  String.ofList (quote :: s.toList.flatMap (quotedChar quote) ++ [quote])

/-- A quoted text, or the word for a missing one. -/
def quotedOrNone : Option String → String
  | none => "None"
  | some s => quoted s

end Provenance.Text
