/-!
# The DOT language

As much of it as a sequence chart needs: nodes in a grid, groups of nodes on
one rank, and edges between nodes.  Labels are quoted, so that they may hold
any text.
-/

namespace Secrecy.Dot

/-- The head of a column, or the point where a column meets a row. -/
inductive Node where
  | head (column : Nat)
  | point (column row : Nat)
  deriving DecidableEq, Repr

def Node.id : Node → String
  | .head column => "hdr_" ++ toString column
  | .point column row => "pt_" ++ toString column ++ "_" ++ toString row

inductive Statement where
  | setting (text : String)
  | title (text : String)
  | box (node : Node) (label : String)
  | dot (node : Node)
  | sameRank (nodes : List Node)
  | guide (source target : Node)
  | arrow (source target : Node) (label : String)
  deriving DecidableEq, Repr

def escapedChar (c : Char) : List Char :=
  if c = '\\' ∨ c = '\x22' then ['\\', c] else [c]

def escaped (s : String) : String :=
  String.ofList (s.toList.flatMap escapedChar)

def quoted (s : String) : String := "\"" ++ escaped s ++ "\""

def edge (source target : Node) : String := source.id ++ " -> " ++ target.id

def Statement.text : Statement → String
  | .setting text => text ++ ";"
  | .title text => "label=" ++ quoted text ++ ";"
  | .box node label =>
      node.id ++ " [label=" ++ quoted label ++ ", shape=box, style=rounded];"
  | .dot node =>
      node.id ++ " [label=\"\", shape=point, width=0.02, height=0.02];"
  | .sameRank nodes =>
      "\x7b rank=same; " ++ String.intercalate " " (nodes.map Node.id) ++
        " \x7d"
  | .guide source target => edge source target ++ " [style=invis];"
  | .arrow source target label =>
      edge source target ++ " [label=" ++ quoted label ++
        ", constraint=false];"

def digraph (name : String) (statements : List Statement) : String :=
  String.intercalate "\n"
    (("digraph " ++ name ++ " \x7b") ::
      (statements.map fun statement => "  " ++ statement.text) ++
      ["\x7d"]) ++ "\n"

end Secrecy.Dot
