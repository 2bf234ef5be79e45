import Secrecy.Grammar.Declaration
import Secrecy.Scope.Resolution
import Secrecy.Text.Emphasis
import Secrecy.Text.Lines

/-!
# Protocol texts and what is wrong with them

A text is first read by the grammar and then, unless the check is waived, by
the rules of scope.  Faults of both kinds have a message and a line, and are
shown together with the line that they are about.
-/

namespace Secrecy

inductive Fault where
  | grammar (fault : GrammarFault)
  | scope (fault : ScopeFault)
  deriving DecidableEq, Repr

namespace Fault

def message : Fault → String
  | .grammar fault => fault.message
  | .scope fault => fault.message

def line : Fault → Int
  | .grammar fault => fault.line
  | .scope fault => fault.line

def phase : Fault → String
  | .grammar _ => "syntax"
  | .scope _ => "semantic"

def inBrief (fault : Fault) : String :=
  "line " ++ toString fault.line ++ ": " ++ fault.message

/-- The line of a text that a fault is about, if the text has that line. -/
def quotedLine? (fault : Fault) (text : String) : Option String :=
  if fault.line < 1 then none
  else (Text.linesOf text)[fault.line.toNat - 1]?

def quotation (colour : Bool) (line : Int) (quote : String) : String :=
  let gutter := toString line
  let rule := Text.emphasised colour (some .blue) "|"
  String.ofList (List.replicate gutter.length ' ') ++ " " ++ rule ++ "\n" ++
    Text.emphasised colour (some .blue) gutter ++ " " ++ rule ++ " " ++
    quote ++ "\n"

def diagnostic (fault : Fault) (text : Option String) (colour : Bool) :
    String :=
  Text.emphasised colour (some .red) (fault.phase ++ " error") ++ ": " ++
    fault.inBrief ++ "\n" ++
    match text.bind fault.quotedLine? with
    | none => ""
    | some quote => quotation colour fault.line quote

end Fault

namespace Protocol

def validated (check : Bool) (protocol : Protocol) : Except Fault Protocol :=
  if check then protocol.checked.mapError .scope else .ok protocol

def ofSource (text : String) (check : Bool) : Except Fault Protocol := do
  let protocol ← (ofText text).mapError Fault.grammar
  protocol.validated check

def ofTokenSource? (tokens : List Token) (check : Bool) :
    Option (Except Fault Protocol) :=
  (ofTokens? tokens).map fun read => do
    let protocol ← read.mapError Fault.grammar
    protocol.validated check

end Protocol

end Secrecy
