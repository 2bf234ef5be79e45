import Secrecy.Text.Hex

/-!
# JSON documents

Members keep the order in which they are given.  The written form is pure
ASCII: quotes, backslashes and control characters are escaped, and everything
past `~` is written as UTF-16 units.  A document is laid out on one line, or
with every item on a line of its own, indented by its depth.
-/

namespace Secrecy

inductive Json where
  | null
  | bool (value : Bool)
  | int (value : Int)
  | str (value : String)
  | arr (items : List Json)
  | obj (members : List (String × Json))
  deriving Repr

namespace Json

def strings (values : List String) : Json := .arr (values.map .str)

def ofOption {α : Type} (write : α → Json) : Option α → Json
  | none => .null
  | some value => write value

/-! ## Strings -/

def utf16Unit (unit : Nat) : List Char := '\\' :: 'u' :: Text.hexDigits 4 unit

def escapedChar (c : Char) : List Char :=
  let n := c.toNat
  if c = '\x22' ∨ c = '\\' then ['\\', c]
  else if c = '\n' then ['\\', 'n']
  else if c = '\r' then ['\\', 'r']
  else if c = '\t' then ['\\', 't']
  else if c = '\x08' then ['\\', 'b']
  else if c = '\x0c' then ['\\', 'f']
  else if 0x20 ≤ n ∧ n ≤ 0x7E then [c]
  else if n < 0x10000 then utf16Unit n
  else
    utf16Unit (0xD800 + (n - 0x10000) / 0x400) ++
      utf16Unit (0xDC00 + (n - 0x10000) % 0x400)

def writtenString (s : String) : String :=
  String.ofList ('\x22' :: s.toList.flatMap escapedChar ++ ['\x22'])

/-! ## Layout -/

/-- Without an indent a document stays on one line. -/
abbrev Indent := Option Nat

def lineStart (indent : Indent) (depth : Nat) : String :=
  match indent with
  | none => ""
  | some width => "\n" ++ String.ofList (List.replicate (width * depth) ' ')

def separator (indent : Indent) (depth : Nat) : String :=
  match indent with
  | none => ", "
  | some _ => "," ++ lineStart indent depth

def enclosed (indent : Indent) (depth : Nat) (opening closing : String)
    (items : List String) : String :=
  if items.isEmpty then opening ++ closing
  else
    opening ++ lineStart indent (depth + 1) ++
      String.intercalate (separator indent (depth + 1)) items ++
      lineStart indent depth ++ closing

mutual

def written (indent : Indent) (depth : Nat) : Json → String
  | .null => "null"
  | .bool value => if value then "true" else "false"
  | .int value => toString value
  | .str value => writtenString value
  | .arr items =>
      enclosed indent depth "[" "]" (writtenItems indent (depth + 1) items)
  | .obj members =>
      enclosed indent depth "\x7b" "\x7d"
        (writtenMembers indent (depth + 1) members)

def writtenItems (indent : Indent) (depth : Nat) : List Json → List String
  | [] => []
  | item :: items =>
      written indent depth item :: writtenItems indent depth items

def writtenMembers (indent : Indent) (depth : Nat) :
    List (String × Json) → List String
  | [] => []
  | (name, value) :: members =>
      (writtenString name ++ ": " ++ written indent depth value) ::
        writtenMembers indent depth members

end

def render (indent : Indent) (document : Json) : String :=
  written indent 0 document

end Json

end Secrecy
