/-!
# Emphasis on a terminal

Emphasised text is bold and may have a colour.  The control sequences surround
the text; switched off, the text stays as it is.
-/

namespace Secrecy.Text

inductive Colour where
  | red
  | green
  | yellow
  | blue
  | cyan
  deriving DecidableEq, Repr

def Colour.code : Colour → String
  | .red => "31"
  | .green => "32"
  | .yellow => "33"
  | .blue => "34"
  | .cyan => "36"

def controlSequence (code : String) : String := "\x1b[" ++ code ++ "m"

def emphasised (enabled : Bool) (colour : Option Colour) (s : String) :
    String :=
  if enabled then
    let tint :=
      match colour with
      | none => ""
      | some colour => controlSequence colour.code
    controlSequence "1" ++ tint ++ s ++ controlSequence "0"
  else s

@[simp] theorem emphasised_false (colour : Option Colour) (s : String) :
    emphasised false colour s = s := rfl

end Secrecy.Text
