import Secrecy.Proofs.Grammar.Derivation

/-!
# Identifiers are name tokens

A protocol has the identifiers that its tokens stand for, lines included, in the
order in which they are written.
-/

namespace Secrecy

def Token.identifiers (tokens : List Token) : List Identifier :=
  tokens.filterMap fun token =>
    if token.kind = .name then some token.identifier else none

/-- The identifiers of an expression as they are written, a target first. -/
def Expr.written : Expr → List Identifier
  | .name identifier => [identifier]
  | .concat left right _ => left.written ++ right.written
  | .enc key message _ | .mac key message _ | .sign key message _ =>
      key :: message.written
  | .hash inner _ => inner.written
  | .verify key message signature _ =>
      key :: (message.written ++ signature.written)
  | .assign target value _ => target :: value.written

def KeyDecl.identifiers (key : KeyDecl) : List Identifier :=
  key.name :: key.owners

def Message.identifiers (message : Message) : List Identifier :=
  message.sender :: message.receiver :: message.body.written

def Assertion.identifiers (assertion : Assertion) : List Identifier :=
  assertion.term :: assertion.permitted.getD []

def Protocol.identifiers (p : Protocol) : List Identifier :=
  p.roles.members ++ p.keys.flatMap KeyDecl.identifiers ++
    p.messages.flatMap Message.identifiers ++
    p.assertions.flatMap Assertion.identifiers

namespace Token

variable {token : Token} {tokens others : List Token}

theorem mem_identifiers {identifier : Identifier} :
    identifier ∈ identifiers tokens ↔
      ∃ token ∈ tokens, token.kind = .name ∧ token.identifier = identifier := by
  simp [identifiers]

@[simp] theorem identifiers_nil : identifiers [] = [] := rfl

@[simp] theorem identifiers_append :
    identifiers (tokens ++ others) = identifiers tokens ++ identifiers others :=
  List.filterMap_append

theorem identifiers_name (isName : token.kind = .name) :
    identifiers (token :: tokens) = token.identifier :: identifiers tokens := by
  simp [identifiers, isName]

theorem identifiers_other (other : token.kind ≠ .name) :
    identifiers (token :: tokens) = identifiers tokens := by
  simp [identifiers, other]

theorem identifiers_keyword {word : Keyword} (isWord : token.kind = .keyword word) :
    identifiers (token :: tokens) = identifiers tokens :=
  identifiers_other (by simp [isWord])

theorem identifiers_operator {symbol : Operator}
    (isSymbol : token.kind = .operator symbol) :
    identifiers (token :: tokens) = identifiers tokens :=
  identifiers_other (by simp [isSymbol])

end Token

namespace Grammar

open Token

/-! ## Expressions -/

mutual

theorem TermOf.identifiers_eq {tokens : List Token} {e : Expr}
    (h : TermOf tokens e) : identifiers tokens = e.written := by
  match h with
  | .name kind => exact identifiers_name kind
  | .enc kind arguments | .mac kind arguments | .sign kind arguments =>
      rw [identifiers_keyword kind, arguments.identifiers_eq, Expr.written]
  | .verify kind isOpened isKey isComma messageOf isComma' signatureOf
      isClosing =>
      rw [identifiers_keyword kind, identifiers_operator isOpened,
        identifiers_name isKey, identifiers_operator isComma, identifiers_append,
        identifiers_operator isComma', identifiers_append,
        identifiers_operator isClosing, messageOf.identifiers_eq,
        signatureOf.identifiers_eq, identifiers_nil, List.append_nil,
        Expr.written]
  | .hash kind isOpened innerOf isClosing =>
      rw [identifiers_keyword kind, identifiers_operator isOpened,
        identifiers_append, identifiers_operator isClosing,
        innerOf.identifiers_eq, identifiers_nil, List.append_nil, Expr.written]

theorem ArgumentsOf.identifiers_eq {tokens : List Token} {key : Identifier}
    {message : Expr} (h : ArgumentsOf tokens key message) :
    identifiers tokens = key :: message.written := by
  match h with
  | .intro isOpened isKey isComma messageOf isClosing =>
      rw [identifiers_operator isOpened, identifiers_name isKey,
        identifiers_operator isComma, identifiers_append,
        identifiers_operator isClosing, messageOf.identifiers_eq,
        identifiers_nil, List.append_nil]

theorem ExprOf.identifiers_eq {tokens : List Token} {e : Expr}
    (h : ExprOf tokens e) : identifiers tokens = e.written := by
  match h with
  | .term term => exact term.identifiers_eq
  | .concat leftOf isBars rightOf =>
      rw [identifiers_append, identifiers_operator isBars,
        leftOf.identifiers_eq, rightOf.identifiers_eq, Expr.written]

end

theorem BodyOf.identifiers_eq {tokens : List Token} {e : Expr}
    (h : BodyOf tokens e) : identifiers tokens = e.written := by
  cases h with
  | expression exprOf => exact exprOf.identifiers_eq
  | assign isTarget isEquals valueOf =>
      rw [identifiers_name isTarget, identifiers_operator isEquals,
        valueOf.identifiers_eq, Expr.written]

/-! ## Declarations -/

theorem ManyOf.identifiers_eq {α : Type} {Word : List Token → α → Prop}
    {named : α → List Identifier} {tokens : List Token} {items : List α}
    (h : ManyOf Word tokens items)
    (each : ∀ {tokens : List Token} {a : α}, Word tokens a →
      identifiers tokens = named a) :
    identifiers tokens = items.flatMap named := by
  induction h with
  | nil => rfl
  | cons word rest ih =>
      rw [identifiers_append, each word, ih, List.flatMap_cons]

theorem NextNameOf.identifiers_eq {tokens : List Token} {name : Identifier}
    (h : NextNameOf tokens name) : identifiers tokens = [name] := by
  cases h with
  | intro isComma isName =>
      rw [identifiers_operator isComma, identifiers_name isName, identifiers_nil]

theorem NamesOf.identifiers_eq {tokens : List Token} {names : List Identifier}
    (h : NamesOf tokens names) : identifiers tokens = names := by
  cases h with
  | intro isFirst othersOf =>
      rw [identifiers_name isFirst,
        othersOf.identifiers_eq NextNameOf.identifiers_eq, List.flatMap_singleton']

theorem RolesOf.identifiers_eq {tokens : List Token} {roles : RoleSet}
    (h : RolesOf tokens roles) : identifiers tokens = roles.members := by
  cases h with
  | intro isHead isColon membersOf =>
      rw [identifiers_keyword isHead, identifiers_operator isColon,
        membersOf.identifiers_eq]

theorem OwnersOf.identifiers_eq {kind : KeyKind} {tokens : List Token}
    {owners : List Identifier} (h : OwnersOf kind tokens owners) :
    identifiers tokens = owners := by
  cases h with
  | shared ownersOf => exact ownersOf.identifiers_eq
  | single unshared isOwner => rw [identifiers_name isOwner, identifiers_nil]

theorem KeyOf.identifiers_eq {tokens : List Token} {key : KeyDecl}
    (h : KeyOf tokens key) : identifiers tokens = key.identifiers := by
  cases h with
  | @intro head _ _ _ _ _ isHead isName isForWhom ownersOf =>
      have unnamed : head.kind ≠ .name := by
        intro named
        rw [named] at isHead
        cases isHead
      rw [identifiers_other unnamed, identifiers_name isName,
        identifiers_keyword isForWhom, ownersOf.identifiers_eq,
        KeyDecl.identifiers]

theorem MessageOf.identifiers_eq {tokens : List Token} {message : Message}
    (h : MessageOf tokens message) :
    identifiers tokens = message.identifiers := by
  cases h with
  | intro isSender isArrow isReceiver isColon bodyOf =>
      rw [identifiers_name isSender, identifiers_operator isArrow,
        identifiers_name isReceiver, identifiers_operator isColon,
        bodyOf.identifiers_eq, Message.identifiers]

theorem PermittedOf.identifiers_eq {tokens : List Token}
    {permitted : Option (List Identifier)} (h : PermittedOf tokens permitted) :
    identifiers tokens = permitted.getD [] := by
  cases h with
  | none => rfl
  | some isForWhom namesOf =>
      rw [identifiers_keyword isForWhom, namesOf.identifiers_eq, Option.getD_some]

theorem AssertionOf.identifiers_eq {tokens : List Token} {assertion : Assertion}
    (h : AssertionOf tokens assertion) :
    identifiers tokens = assertion.identifiers := by
  cases h with
  | intro isHead isSecret isOpened isTerm isClosing permittedOf =>
      rw [identifiers_keyword isHead, identifiers_keyword isSecret,
        identifiers_operator isOpened, identifiers_name isTerm,
        identifiers_operator isClosing, permittedOf.identifiers_eq,
        Assertion.identifiers]

theorem ProtocolOf.identifiers_eq {tokens : List Token} {p : Protocol}
    (h : ProtocolOf tokens p) : identifiers tokens = p.identifiers := by
  cases h with
  | intro rolesOf keysOf messagesOf assertionsOf =>
      simp only [identifiers_append, rolesOf.identifiers_eq,
        keysOf.identifiers_eq KeyOf.identifiers_eq,
        messagesOf.identifiers_eq MessageOf.identifiers_eq,
        assertionsOf.identifiers_eq AssertionOf.identifiers_eq,
        Protocol.identifiers, List.append_assoc]

end Grammar

end Secrecy
