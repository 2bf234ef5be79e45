import Secrecy.Text.Hex
import Secrecy.Text.Printable

/-!
# Quoted text

A text is shown between apostrophes, or between double quotes when it holds an
apostrophe and no double quote.  The backslash, the enclosing mark and
everything unprintable are escaped; a code is written with two, four or eight
hexadecimal digits, whichever is the first to hold it.
-/

namespace Secrecy.Text

def apostrophe : Char := '\x27'

def doubleQuote : Char := '\x22'

def quotationMark (s : List Char) : Char :=
  if apostrophe ∈ s ∧ doubleQuote ∉ s then doubleQuote else apostrophe

def escapedCode (c : Char) : List Char :=
  if c.toNat < 0x100 then '\\' :: 'x' :: hexDigits 2 c.toNat
  else if c.toNat < 0x10000 then '\\' :: 'u' :: hexDigits 4 c.toNat
  else '\\' :: 'U' :: hexDigits 8 c.toNat

def quotedChar (mark c : Char) : List Char :=
  if c = mark ∨ c = '\\' then ['\\', c]
  else if c = '\n' then ['\\', 'n']
  else if c = '\r' then ['\\', 'r']
  else if c = '\t' then ['\\', 't']
  else if isPrintable c then [c]
  else escapedCode c

def quoted (s : String) : String :=
  let mark := quotationMark s.toList
  String.ofList (mark :: s.toList.flatMap (quotedChar mark) ++ [mark])

end Secrecy.Text
