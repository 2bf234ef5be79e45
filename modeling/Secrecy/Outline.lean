/-!
# Outlines

A labelled tree drawn with one line per node.  Before a node's connector stands
one column for each of its ancestors: a rule while that ancestor has further
siblings, blank once it was the last.
-/

namespace Secrecy

inductive Outline where
  | node (label : String) (children : List Outline)
  deriving Repr

namespace Outline

def connector (last : Bool) : String := if last then "└─ " else "├─ "

def column (last : Bool) : String := if last then "   " else "│  "

mutual

def linesUnder (margin : String) (last : Bool) : Outline → List String
  | .node label children =>
      (margin ++ connector last ++ label) ::
        childLines (margin ++ column last) children

def childLines (margin : String) : List Outline → List String
  | [] => []
  | child :: rest =>
      linesUnder margin rest.isEmpty child ++ childLines margin rest

end

/-- The root is drawn as a last child. -/
def lines (outline : Outline) : List String := outline.linesUnder "" true

def draw (outline : Outline) : String :=
  String.intercalate "\n" outline.lines ++ "\n"

end Outline

end Secrecy
