/-!
# Symbolic forms

A form is a symbol or a list of forms in parentheses.  In a symbol a backslash
stands before every character that would otherwise end or change it.
-/

namespace Secrecy

inductive Form where
  | symbol (name : String)
  | list (items : List Form)
  deriving Repr

namespace Form

def symbols (names : List String) : List Form := names.map .symbol

/-- A list that opens with a symbol. -/
def headed (head : String) (items : List Form) : Form :=
  .list (.symbol head :: items)

def reserved : List Char :=
  ['\\', '\x27', '\x60', '\x22', '(', ')', '[', ']', ',', '?', ';', '#', ' ']

def escapedChar (c : Char) : List Char :=
  if c ∈ reserved then ['\\', c] else [c]

def escaped (name : String) : String :=
  String.ofList (name.toList.flatMap escapedChar)

mutual

def render : Form → String
  | .symbol name => escaped name
  | .list items => "(" ++ String.intercalate " " (renderItems items) ++ ")"

def renderItems : List Form → List String
  | [] => []
  | item :: items => render item :: renderItems items

end

end Form

end Secrecy
