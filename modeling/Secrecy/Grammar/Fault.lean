import Secrecy.Protocol.Label
import Secrecy.Token

/-!
# Faults against the grammar

Reading stops at the first fault.  A fault says what was wanted where, and its
message names the tokens on either side of the gap.
-/

namespace Secrecy

namespace Grammar

/-- What may stand at a place in a protocol. -/
inductive Expected where
  | keyword (word : Keyword)
  | operator (symbol : Operator)
  | roleName
  | keyName
  | ownerRole
  | sender
  | receiver
  | expression
  | signingKey
  | verificationKey
  | secretTerm
  | keyOrLater
  | messageOrLater
  | assertionOrEnd
  deriving DecidableEq, Repr

def Expected.text : Expected → String
  | .keyword word => "'" ++ word.text ++ "'"
  | .operator symbol => "'" ++ symbol.text ++ "'"
  | .roleName => "role name"
  | .keyName => "key name"
  | .ownerRole => "owner role"
  | .sender => "sender"
  | .receiver => "receiver"
  | .expression => "expression"
  | .signingKey => "signing key"
  | .verificationKey => "verification key"
  | .secretTerm => "secret term"
  | .keyOrLater => "key declaration, message, 'assert' or end of input"
  | .messageOrLater => "message, 'assert' or end of input"
  | .assertionOrEnd => "'assert' or end of input"

def depthLimit : Nat := 100

end Grammar

inductive GrammarFault where
  | unexpected (wanted : Grammar.Expected) (before : Option Token)
      (found : Token)
  | tooDeep (line : Int)
  | compoundKey (constructor : Token) (key : Expr) (line : Int)
  deriving DecidableEq, Repr

namespace GrammarFault

def line : GrammarFault → Int
  | .unexpected _ _ found => found.line
  | .tooDeep line => line
  | .compoundKey _ _ line => line

def describeBefore : Option Token → String
  | none => "start of input"
  | some token => token.describe

def message : GrammarFault → String
  | .unexpected wanted before found =>
      "expected " ++ wanted.text ++ " after " ++ describeBefore before ++
        ", found " ++ found.describe
  | .tooDeep _ =>
      "expression nested too deeply (more than " ++
        toString Grammar.depthLimit ++ " levels)"
  | .compoundKey constructor key _ =>
      "expected key identifier after '" ++ constructor.text ++ "(', found " ++
        key.label

end GrammarFault

end Secrecy
