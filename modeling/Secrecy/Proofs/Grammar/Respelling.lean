import Secrecy.Proofs.Grammar.Parsing
import Secrecy.Proofs.Protocol.Renaming

/-!
# Names spelt otherwise

The grammar does not look at the spelling of names.  If the names of a token
list are spelt otherwise, it stands for the protocol that it stood for, renamed.
-/

namespace Secrecy

/-- A name spelt otherwise.  No other token changes. -/
def Token.respell (r : String → String) (token : Token) : Token :=
  { token with text := if token.kind = .name then r token.text else token.text }

variable {r : String → String}

namespace Token

@[simp] theorem kind_respell (token : Token) :
    (token.respell r).kind = token.kind :=
  rfl

theorem identifier_respell {token : Token} (isName : token.kind = .name) :
    (token.respell r).identifier = token.identifier.rename r := by
  simp [respell, identifier, Identifier.rename, isName]

theorem respell_respell {g : String → String}
    (undoes : Function.LeftInverse g r) (token : Token) :
    (token.respell r).respell g = token := by
  obtain ⟨kind, text, line⟩ := token
  by_cases isName : kind = .name
  · simp [respell, isName, undoes text]
  · simp [respell, isName]

end Token

@[simp] theorem Expr.line_rename (e : Expr) : (e.rename r).line = e.line := by
  cases e <;> rfl

@[simp] theorem Expr.length_operands_rename (e : Expr) :
    (e.rename r).operands.length = e.operands.length := by
  induction e with
  | concat left right line ihLeft => simp [rename, operands, ihLeft]
  | _ => rfl

@[simp] theorem Expr.depth_rename (e : Expr) : (e.rename r).depth = e.depth := by
  induction e with
  | name => rfl
  | concat left right line ihLeft ihRight =>
      simp [rename, depth, ihLeft, ihRight]
  | enc _ _ _ ih | mac _ _ _ ih | sign _ _ _ ih | hash _ _ ih
  | assign _ _ _ ih => simp [rename, depth, ih]
  | verify key message signature line ihMessage ihSignature =>
      simp [rename, depth, ihMessage, ihSignature]

namespace Grammar

open Token

variable {tokens : List Token}

/-! ## Expressions -/

mutual

theorem TermOf.respell {tokens : List Token} {e : Expr} (h : TermOf tokens e) :
    TermOf (tokens.map (Token.respell r)) (e.rename r) := by
  match h with
  | .name isName =>
      rw [Expr.rename, ← identifier_respell isName]
      exact .name isName
  | .enc isHead arguments => exact .enc isHead arguments.respell
  | .mac isHead arguments => exact .mac isHead arguments.respell
  | .sign isHead arguments => exact .sign isHead arguments.respell
  | .verify isHead isOpened isKey isComma messageOf isComma' signatureOf
      isClosing =>
      simp only [Expr.rename, ← identifier_respell isKey, List.map_cons,
        List.map_append]
      exact .verify isHead isOpened isKey isComma messageOf.respell isComma'
        signatureOf.respell isClosing
  | .hash isHead isOpened innerOf isClosing =>
      simp only [Expr.rename, List.map_cons, List.map_append]
      exact .hash isHead isOpened innerOf.respell isClosing

theorem ArgumentsOf.respell {tokens : List Token} {key : Identifier}
    {message : Expr} (h : ArgumentsOf tokens key message) :
    ArgumentsOf (tokens.map (Token.respell r)) (key.rename r)
      (message.rename r) := by
  match h with
  | .intro isOpened isKey isComma messageOf isClosing =>
      simp only [← identifier_respell isKey, List.map_cons, List.map_append]
      exact .intro isOpened isKey isComma messageOf.respell isClosing

theorem ExprOf.respell {tokens : List Token} {e : Expr} (h : ExprOf tokens e) :
    ExprOf (tokens.map (Token.respell r)) (e.rename r) := by
  match h with
  | .term word => exact .term word.respell
  | .concat leftOf isBars rightOf =>
      have isBars' := (kind_respell (r := r) _).trans isBars
      simpa [Expr.rename] using leftOf.respell.concat isBars' rightOf.respell

end

theorem BodyOf.respell {e : Expr} (h : BodyOf tokens e) :
    BodyOf (tokens.map (Token.respell r)) (e.rename r) := by
  cases h with
  | expression exprOf shallow =>
      exact .expression exprOf.respell (by rwa [Expr.depth_rename])
  | assign isTarget isEquals valueOf shallow =>
      simp only [Expr.rename, ← identifier_respell isTarget, List.map_cons]
      exact .assign isTarget isEquals valueOf.respell
        (by rwa [Expr.depth_rename])

/-! ## Declarations -/

theorem NextNameOf.respell {name : Identifier} (h : NextNameOf tokens name) :
    NextNameOf (tokens.map (Token.respell r)) (name.rename r) := by
  cases h with
  | intro isComma isName =>
      rw [← identifier_respell isName]
      exact .intro isComma isName

theorem ManyOf.respell {α : Type} {Word : List Token → α → Prop} {f : α → α}
    {items : List α} (h : ManyOf Word tokens items)
    (each : ∀ {tokens : List Token} {a : α}, Word tokens a →
      Word (tokens.map (Token.respell r)) (f a)) :
    ManyOf Word (tokens.map (Token.respell r)) (items.map f) := by
  induction h with
  | nil => exact .nil
  | cons word _ ih =>
      rw [List.map_append]
      exact .cons (each word) ih

theorem NamesOf.respell {names : List Identifier} (h : NamesOf tokens names) :
    NamesOf (tokens.map (Token.respell r))
      (names.map (Identifier.rename r)) := by
  cases h with
  | intro isFirst othersOf =>
      rw [List.map_cons, List.map_cons, ← identifier_respell isFirst]
      exact .intro isFirst (othersOf.respell NextNameOf.respell)

theorem RolesOf.respell {roles : RoleSet} (h : RolesOf tokens roles) :
    RolesOf (tokens.map (Token.respell r)) (roles.rename r) := by
  cases h with
  | intro isHead isColon membersOf =>
      exact .intro isHead isColon membersOf.respell

theorem OwnersOf.respell {kind : KeyKind} {owners : List Identifier}
    (h : OwnersOf kind tokens owners) :
    OwnersOf kind (tokens.map (Token.respell r))
      (owners.map (Identifier.rename r)) := by
  cases h with
  | shared ownersOf => exact .shared ownersOf.respell
  | single unshared isOwner =>
      rw [List.map_singleton, List.map_singleton, ← identifier_respell isOwner]
      exact .single unshared isOwner

theorem KeyOf.respell {key : KeyDecl} (h : KeyOf tokens key) :
    KeyOf (tokens.map (Token.respell r)) (key.rename r) := by
  cases h with
  | intro isHead isName isForWhom ownersOf =>
      simp only [KeyDecl.rename, ← identifier_respell isName, List.map_cons]
      exact .intro isHead isName isForWhom ownersOf.respell

theorem MessageOf.respell {message : Message} (h : MessageOf tokens message) :
    MessageOf (tokens.map (Token.respell r)) (message.rename r) := by
  cases h with
  | intro isSender isArrow isReceiver isColon bodyOf =>
      simp only [Message.rename, ← identifier_respell isSender,
        ← identifier_respell isReceiver, List.map_cons]
      exact .intro isSender isArrow isReceiver isColon bodyOf.respell

theorem PermittedOf.respell {permitted : Option (List Identifier)}
    (h : PermittedOf tokens permitted) :
    PermittedOf (tokens.map (Token.respell r))
      (permitted.map (·.map (Identifier.rename r))) := by
  cases h with
  | none => exact .none
  | some isForWhom namesOf => exact .some isForWhom namesOf.respell

theorem AssertionOf.respell {assertion : Assertion}
    (h : AssertionOf tokens assertion) :
    AssertionOf (tokens.map (Token.respell r)) (assertion.rename r) := by
  cases h with
  | intro isHead isSecret isOpened isTerm isClosing permittedOf =>
      simp only [Assertion.rename, ← identifier_respell isTerm, List.map_cons]
      exact .intro isHead isSecret isOpened isTerm isClosing
        permittedOf.respell

theorem ProtocolOf.respell {p : Protocol} (h : ProtocolOf tokens p) :
    ProtocolOf (tokens.map (Token.respell r)) (p.rename r) := by
  cases h with
  | intro rolesOf keysOf messagesOf assertionsOf =>
      simp only [List.map_append]
      exact .intro rolesOf.respell (keysOf.respell KeyOf.respell)
        (messagesOf.respell MessageOf.respell)
        (assertionsOf.respell AssertionOf.respell)

/-! ## Token lists -/

theorem ofTokens?_respell {p : Protocol}
    (h : Protocol.ofTokens? tokens = some (.ok p)) :
    Protocol.ofTokens? (tokens.map (Token.respell r)) =
      some (.ok (p.rename r)) := by
  obtain ⟨⟨last, isLast, stops⟩, word⟩ := ofTokens?_eq_ok.mp h
  refine ofTokens?_eq_ok.mpr ⟨⟨last.respell r, ?_, stops⟩, ?_⟩
  · rw [List.getLast?_map, Option.mem_def.mp isLast]
    rfl
  · rw [List.takeWhile_map]
    exact word.respell

end Grammar

end Secrecy
