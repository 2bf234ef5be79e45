import Secrecy.Grammar.Declaration
import Secrecy.Proofs.Grammar.Reading

/-!
# The notation as a grammar

Which token lists stand for which protocols.  A node has the line of the token
that it begins with.  Concatenation is given left-recursively, as it groups;
`TailOf` tells the same words in the order in which they are read.
-/

namespace Secrecy

/-! ## Depth -/

namespace Expr

/-- The operands of a concatenation.  Anything else is its own only operand. -/
def operands : Expr → List Expr
  | .concat left right _ => left.operands ++ [right]
  | e => [e]

/--
The levels an expression takes while it is read.  The `i`th operand of a
concatenation, counted from 0, lies below `i` levels of its own.
-/
def depth : Expr → Nat
  | .name _ => 1
  | .concat left right _ =>
      max left.depth (left.operands.length + right.depth)
  | .enc _ message _ | .mac _ message _ | .sign _ message _ =>
      message.depth + 1
  | .hash inner _ => inner.depth + 1
  | .verify _ message signature _ => max message.depth signature.depth + 1
  | .assign _ value _ => value.depth

theorem depth_pos (e : Expr) : 0 < e.depth := by
  induction e with
  | name => simp [depth]
  | concat left right line ihLeft ihRight =>
      exact Nat.lt_of_lt_of_le ihLeft (Nat.le_max_left _ _)
  | assign target value line ih => exact ih
  | _ => simp [depth]

end Expr

namespace Grammar

/-! ## Expressions -/

mutual

inductive TermOf : List Token → Expr → Prop where
  | name {token : Token} (kind : token.kind = .name) :
      TermOf [token] (.name token.identifier)
  | enc {head : Token} {tokens : List Token} {key : Identifier}
      {message : Expr} (kind : head.kind = .keyword .enc)
      (arguments : ArgumentsOf tokens key message) :
      TermOf (head :: tokens) (.enc key message head.line)
  | mac {head : Token} {tokens : List Token} {key : Identifier}
      {message : Expr} (kind : head.kind = .keyword .mac)
      (arguments : ArgumentsOf tokens key message) :
      TermOf (head :: tokens) (.mac key message head.line)
  | sign {head : Token} {tokens : List Token} {key : Identifier}
      {message : Expr} (kind : head.kind = .keyword .sign)
      (arguments : ArgumentsOf tokens key message) :
      TermOf (head :: tokens) (.sign key message head.line)
  | verify {head opened key comma comma' closing : Token}
      {tokens tokens' : List Token} {message signature : Expr}
      (kind : head.kind = .keyword .verify)
      (isOpened : opened.kind = .operator .leftParen)
      (isKey : key.kind = .name) (isComma : comma.kind = .operator .comma)
      (messageOf : ExprOf tokens message)
      (isComma' : comma'.kind = .operator .comma)
      (signatureOf : ExprOf tokens' signature)
      (isClosing : closing.kind = .operator .rightParen) :
      TermOf
        (head :: opened :: key :: comma ::
          (tokens ++ comma' :: (tokens' ++ [closing])))
        (.verify key.identifier message signature head.line)
  | hash {head opened closing : Token} {tokens : List Token} {inner : Expr}
      (kind : head.kind = .keyword .hash)
      (isOpened : opened.kind = .operator .leftParen)
      (innerOf : ExprOf tokens inner)
      (isClosing : closing.kind = .operator .rightParen) :
      TermOf (head :: opened :: (tokens ++ [closing])) (.hash inner head.line)

inductive ArgumentsOf : List Token → Identifier → Expr → Prop where
  | intro {opened key comma closing : Token} {tokens : List Token}
      {message : Expr} (isOpened : opened.kind = .operator .leftParen)
      (isKey : key.kind = .name) (isComma : comma.kind = .operator .comma)
      (messageOf : ExprOf tokens message)
      (isClosing : closing.kind = .operator .rightParen) :
      ArgumentsOf (opened :: key :: comma :: (tokens ++ [closing]))
        key.identifier message

inductive ExprOf : List Token → Expr → Prop where
  | term {tokens : List Token} {e : Expr} (term : TermOf tokens e) :
      ExprOf tokens e
  | concat {tokens tokens' : List Token} {bars : Token} {left right : Expr}
      (leftOf : ExprOf tokens left) (isBars : bars.kind = .operator .bars)
      (rightOf : TermOf tokens' right) :
      ExprOf (tokens ++ bars :: tokens') (.concat left right left.line)

end

inductive TailOf : Expr → List Token → Expr → Prop where
  | done (left : Expr) : TailOf left [] left
  | more {left right e : Expr} {bars : Token} {tokens others : List Token}
      (isBars : bars.kind = .operator .bars) (rightOf : TermOf tokens right)
      (rest : TailOf (.concat left right left.line) others e) :
      TailOf left (bars :: (tokens ++ others)) e

theorem TailOf.concat {left right e : Expr} {bars : Token}
    {tokens tokens' : List Token} (tail : TailOf left tokens e)
    (isBars : bars.kind = .operator .bars) (rightOf : TermOf tokens' right) :
    TailOf left (tokens ++ bars :: tokens') (.concat e right e.line) := by
  induction tail with
  | done left => simpa using TailOf.more isBars rightOf (.done _)
  | more isBars' rightOf' rest ih =>
      simpa using TailOf.more isBars' rightOf' ih

theorem ExprOf.append_tail {left e : Expr} {tokens others : List Token}
    (leftOf : ExprOf tokens left) (tail : TailOf left others e) :
    ExprOf (tokens ++ others) e := by
  induction tail generalizing tokens with
  | done left => simpa using leftOf
  | more isBars rightOf rest ih =>
      simpa using ih (.concat leftOf isBars rightOf)

theorem exprOf_iff {tokens : List Token} {e : Expr} :
    ExprOf tokens e ↔
      ∃ first others left, tokens = first ++ others ∧ TermOf first left ∧
        TailOf left others e := by
  constructor
  · intro h
    cases h with
    | term term => exact ⟨tokens, [], e, by simp, term, .done e⟩
    | concat leftOf isBars rightOf =>
        obtain ⟨first, others, left, rfl, term, tail⟩ := exprOf_iff.mp leftOf
        exact ⟨first, _, left, by simp, term, tail.concat isBars rightOf⟩
  · rintro ⟨first, others, left, rfl, term, tail⟩
    exact (ExprOf.term term).append_tail tail

/-- Only the body of a message may be an assignment. -/
inductive BodyOf : List Token → Expr → Prop where
  | expression {tokens : List Token} {e : Expr} (exprOf : ExprOf tokens e)
      (shallow : e.depth ≤ depthLimit) : BodyOf tokens e
  | assign {target equals : Token} {tokens : List Token} {value : Expr}
      (isTarget : target.kind = .name)
      (isEquals : equals.kind = .operator .equals)
      (valueOf : ExprOf tokens value) (shallow : value.depth ≤ depthLimit) :
      BodyOf (target :: equals :: tokens)
        (.assign target.identifier value target.line)

/-! ## Declarations -/

inductive NextNameOf : List Token → Identifier → Prop where
  | intro {comma name : Token} (isComma : comma.kind = .operator .comma)
      (isName : name.kind = .name) : NextNameOf [comma, name] name.identifier

inductive NamesOf : List Token → List Identifier → Prop where
  | intro {first : Token} {tokens : List Token} {others : List Identifier}
      (isFirst : first.kind = .name)
      (othersOf : ManyOf NextNameOf tokens others) :
      NamesOf (first :: tokens) (first.identifier :: others)

inductive RolesOf : List Token → RoleSet → Prop where
  | intro {head colon : Token} {tokens : List Token}
      {members : List Identifier} (isHead : head.kind = .keyword .roles)
      (isColon : colon.kind = .operator .colon)
      (membersOf : NamesOf tokens members) :
      RolesOf (head :: colon :: tokens) ⟨members, head.line⟩

inductive OwnersOf : KeyKind → List Token → List Identifier → Prop where
  | shared {tokens : List Token} {owners : List Identifier}
      (ownersOf : NamesOf tokens owners) :
      OwnersOf .sharedKey tokens owners
  | single {kind : KeyKind} {owner : Token} (unshared : kind ≠ .sharedKey)
      (isOwner : owner.kind = .name) :
      OwnersOf kind [owner] [owner.identifier]

inductive KeyOf : List Token → KeyDecl → Prop where
  | intro {head name forWhom : Token} {tokens : List Token} {kind : KeyKind}
      {owners : List Identifier} (isHead : keyKind? head.kind = some kind)
      (isName : name.kind = .name)
      (isForWhom : forWhom.kind = .keyword .forWhom)
      (ownersOf : OwnersOf kind tokens owners) :
      KeyOf (head :: name :: forWhom :: tokens)
        ⟨kind, name.identifier, owners, head.line⟩

inductive MessageOf : List Token → Message → Prop where
  | intro {sender arrow receiver colon : Token} {tokens : List Token}
      {body : Expr} (isSender : sender.kind = .name)
      (isArrow : arrow.kind = .operator .arrow)
      (isReceiver : receiver.kind = .name)
      (isColon : colon.kind = .operator .colon) (bodyOf : BodyOf tokens body) :
      MessageOf (sender :: arrow :: receiver :: colon :: tokens)
        ⟨sender.identifier, receiver.identifier, body, sender.line⟩

inductive PermittedOf :
    List Token → Option (List Identifier) → Prop where
  | none : PermittedOf [] none
  | some {forWhom : Token} {tokens : List Token} {names : List Identifier}
      (isForWhom : forWhom.kind = .keyword .forWhom)
      (namesOf : NamesOf tokens names) :
      PermittedOf (forWhom :: tokens) (some names)

inductive AssertionOf : List Token → Assertion → Prop where
  | intro {head secret opened term closing : Token} {tokens : List Token}
      {permitted : Option (List Identifier)}
      (isHead : head.kind = .keyword .assertion)
      (isSecret : secret.kind = .keyword .secret)
      (isOpened : opened.kind = .operator .leftParen)
      (isTerm : term.kind = .name)
      (isClosing : closing.kind = .operator .rightParen)
      (permittedOf : PermittedOf tokens permitted) :
      AssertionOf (head :: secret :: opened :: term :: closing :: tokens)
        ⟨term.identifier, permitted, head.line⟩

inductive ProtocolOf : List Token → Protocol → Prop where
  | intro {ofRoles ofKeys ofMessages ofAssertions : List Token}
      {roles : RoleSet} {keys : List KeyDecl} {messages : List Message}
      {assertions : List Assertion} (rolesOf : RolesOf ofRoles roles)
      (keysOf : ManyOf KeyOf ofKeys keys)
      (messagesOf : ManyOf MessageOf ofMessages messages)
      (assertionsOf : ManyOf AssertionOf ofAssertions assertions) :
      ProtocolOf (ofRoles ++ (ofKeys ++ (ofMessages ++ ofAssertions)))
        ⟨roles, keys, messages, assertions⟩

end Grammar

end Secrecy
