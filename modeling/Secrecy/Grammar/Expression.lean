import Secrecy.Grammar.Cursor

/-!
# Reading expressions

    expression ::= term ("||" term)*
    term       ::= "Enc" "(" expression "," expression ")"
                 | "Mac" "(" expression "," expression ")"
                 | "Sign" "(" name "," expression ")"
                 | "Verify" "(" name "," expression "," expression ")"
                 | "H" "(" expression ")"
                 | name

The key of `Enc` and `Mac` is read as an expression and must turn out to be a
name.  Every expression and every `||` opens a level for what follows it; the
levels that are left bound the recursion.

No other bound is modelled.  How many calls a machine can nest is left out, here
and wherever a tree is gone through: a tree of many levels that the limit lets
pass is shown, resolved and analysed like any other.
-/

namespace Secrecy.Grammar

def tooDeep (line : Int) : Reader Expr := fun _ => .error (.tooDeep line)

def keyOf (constructor : Token) (line : Int) : Expr → Reader Identifier
  | .name identifier => return identifier
  | key => fun _ => .error (.compoundKey constructor key line)

def keyedArguments (constructor : Token) (inner : Reader Expr) :
    Reader (Identifier × Expr) := do
  let _ ← operator .leftParen
  let line := (← peek).line
  let key ← keyOf constructor line (← inner)
  let _ ← operator .comma
  let message ← inner
  let _ ← operator .rightParen
  return (key, message)

def term (inner : Reader Expr) : Reader Expr := do
  let head ← peek
  match head.kind with
  | .name => return .name (← identifier .expression)
  | .keyword .enc =>
      let head ← advance
      let (key, message) ← keyedArguments head inner
      return .enc key message head.line
  | .keyword .mac =>
      let head ← advance
      let (key, message) ← keyedArguments head inner
      return .mac key message head.line
  | .keyword .sign =>
      let head ← advance
      let _ ← operator .leftParen
      let key ← identifier .signingKey
      let _ ← operator .comma
      let message ← inner
      let _ ← operator .rightParen
      return .sign key message head.line
  | .keyword .verify =>
      let head ← advance
      let _ ← operator .leftParen
      let key ← identifier .verificationKey
      let _ ← operator .comma
      let message ← inner
      let _ ← operator .comma
      let signature ← inner
      let _ ← operator .rightParen
      return .verify key message signature head.line
  | .keyword .hash =>
      let head ← advance
      let _ ← operator .leftParen
      let argument ← inner
      let _ ← operator .rightParen
      return .hash argument head.line
  | _ => refuse .expression

def atBars : Reader Bool := do return (← peek).kind = .operator .bars

mutual

/-- An expression that may open `levels` levels. -/
def expressionWithin : Nat → Reader Expr
  | 0 => do tooDeep (← peek).line
  | levels + 1 => do
      let left ← term (expressionWithin levels)
      chainWithin levels left

/-- The rest of a concatenation, grouped to the left. -/
def chainWithin : Nat → Expr → Reader Expr
  | 0, left => do
      if ← atBars then tooDeep (← advance).line else return left
  | levels + 1, left => do
      if ← atBars then
        let _ ← advance
        let right ← term (expressionWithin levels)
        chainWithin levels (.concat left right left.line)
      else return left

end

def expression : Reader Expr := expressionWithin depthLimit

/-- A name before an equals sign makes the body an assignment. -/
def body : Reader Expr := do
  if (← peek).kind = .name ∧ (← peekSecond).kind = .operator .equals then
    let target ← identifier .expression
    let _ ← advance
    let value ← expression
    return .assign target value target.line
  else expression

end Secrecy.Grammar
