import Secrecy.Text.Hex

/-!
# Arguments of a command line

The words of a command line are handed over as octets.  An octet that is part of
no character is kept as it is, so an argument need not be a text.
-/

namespace Secrecy.Command

inductive Piece where
  | char (c : Char)
  | octet (code : UInt8)
  deriving DecidableEq, Repr

abbrev Argument := List Piece

def Piece.char? : Piece → Option Char
  | .char c => some c
  | .octet _ => none

def Piece.shown : Piece → List Char
  | .char c => [c]
  | .octet code =>
      '\\' :: 'u' :: 'd' :: 'c' :: Text.hexDigits 2 code.toNat

namespace Argument

def ofText (text : String) : Argument := text.toList.map .char

/-- An argument is a text if it consists of characters. -/
def text? (argument : Argument) : Option String :=
  if argument.all (·.char?.isSome) then
    some (String.ofList (argument.filterMap Piece.char?))
  else none

/-- The argument in a message, where it may hold anything. -/
def shown (argument : Argument) : String :=
  String.ofList (argument.flatMap Piece.shown)

end Argument

end Secrecy.Command
