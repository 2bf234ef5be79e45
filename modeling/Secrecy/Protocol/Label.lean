import Secrecy.Protocol

/-!
# Labels

The text of an expression in the notation itself.  Concatenation groups to the
left, so only a concatenation on the right needs parentheses.
-/

namespace Secrecy

def commaSeparated (items : List String) : String :=
  String.intercalate ", " items

def applied (function : String) (arguments : List String) : String :=
  function ++ "(" ++ commaSeparated arguments ++ ")"

namespace Expr

def label : Expr → String
  | .name identifier => identifier.name
  | .concat left right _ =>
      left.label ++ " || " ++
        (if right.isConcat then "(" ++ right.label ++ ")" else right.label)
  | .enc key message _ => applied "Enc" [key.name, message.label]
  | .mac key message _ => applied "Mac" [key.name, message.label]
  | .hash inner _ => applied "H" [inner.label]
  | .sign key message _ => applied "Sign" [key.name, message.label]
  | .verify key message signature _ =>
      applied "Verify" [key.name, message.label, signature.label]
  | .assign target value _ => target.name ++ " = " ++ value.label

end Expr

def Assertion.label (assertion : Assertion) : String :=
  let claim := applied "secret" [assertion.term.name]
  match assertion.permittedNames with
  | none => claim
  | some names => claim ++ " for " ++ commaSeparated names

end Secrecy
