import Secrecy.Grammar.Declaration
import Secrecy.Proofs.Protocol.Layout
import Secrecy.Proofs.Token.Lexing

/-!
# Reading without lines

Lines are copied from tokens to identifiers, nodes and faults, and no reader
looks at them on the way.  So a reader comes to the same outcome, but for lines,
at a cursor whose tokens have forgotten theirs.
-/

namespace Secrecy

def Token.forgetLine (token : Token) : Token := { token with line := 0 }

@[simp] theorem Token.describe_forgetLine (token : Token) :
    token.forgetLine.describe = token.describe :=
  rfl

namespace GrammarFault

def forgetLines : GrammarFault → GrammarFault
  | .unexpected wanted before found =>
      .unexpected wanted (before.map Token.forgetLine) found.forgetLine
  | .tooDeep _ => .tooDeep 0
  | .compoundKey constructor key _ =>
      .compoundKey constructor.forgetLine key.forgetLines 0

@[simp] theorem message_forgetLines (fault : GrammarFault) :
    fault.forgetLines.message = fault.message := by
  unfold forgetLines message
  cases fault with
  | unexpected wanted before found => cases before <;> simp [describeBefore]
  | tooDeep line => simp only
  | compoundKey constructor key line => simp [Token.forgetLine]

end GrammarFault

namespace Grammar

variable {α β γ δ : Type}

def Cursor.forgetLines (cursor : Cursor) : Cursor :=
  ⟨cursor.before.map Token.forgetLine, cursor.ahead.map Token.forgetLine,
    cursor.stop.forgetLine⟩

def forgetOutcome (forget : α → β) :
    Except GrammarFault (α × Cursor) → Except GrammarFault (β × Cursor)
  | .ok (a, cursor) => .ok (forget a, cursor.forgetLines)
  | .error fault => .error fault.forgetLines

/-- What `item` comes to but for lines, `blind` does where there are none. -/
def Forgets (forget : α → β) (item : Reader α) (blind : Reader β) : Prop :=
  ∀ cursor, blind cursor.forgetLines = forgetOutcome forget (item cursor)

/-! ## Single steps -/

theorem Forgets.bind {forget : α → β} {forget' : γ → δ} {item : Reader α}
    {blind : Reader β} {next : α → Reader γ} {next' : β → Reader δ}
    (h : Forgets forget item blind)
    (h' : ∀ a, Forgets forget' (next a) (next' (forget a))) :
    Forgets forget' (item >>= next) (blind >>= next') := by
  intro cursor
  have unfolded : (blind >>= next') cursor.forgetLines =
      blind cursor.forgetLines >>= fun found => next' found.1 found.2 := rfl
  have unfolded' : (item >>= next) cursor =
      item cursor >>= fun found => next found.1 found.2 := rfl
  rw [unfolded, unfolded', h cursor]
  cases item cursor with
  | error fault => rfl
  | ok found => exact h' found.1 found.2

theorem forgets_pure {forget : α → β} (a : α) :
    Forgets forget (pure a) (pure (forget a)) :=
  fun _ => rfl

theorem peek_forgetLines (cursor : Cursor) :
    cursor.forgetLines.peek = cursor.peek.forgetLine := by
  simp [Cursor.peek, Cursor.forgetLines, List.headD_eq_head?_getD]

theorem peekSecond_forgetLines (cursor : Cursor) :
    cursor.forgetLines.peekSecond = cursor.peekSecond.forgetLine := by
  simp [Cursor.peekSecond, Cursor.forgetLines, List.headD_eq_head?_getD]

theorem advance_forgetLines (cursor : Cursor) :
    cursor.forgetLines.advance = cursor.advance.forgetLines := by
  obtain ⟨before, ahead, stop⟩ := cursor
  cases ahead <;> rfl

theorem forgets_peek : Forgets Token.forgetLine peek peek := by
  intro cursor
  rw [peek, peek_forgetLines]
  rfl

theorem forgets_peekSecond :
    Forgets Token.forgetLine peekSecond peekSecond := by
  intro cursor
  rw [peekSecond, peekSecond_forgetLines]
  rfl

theorem forgets_advance : Forgets Token.forgetLine advance advance := by
  intro cursor
  rw [advance, peek_forgetLines, advance_forgetLines]
  rfl

theorem forgets_refuse {forget : α → β} (wanted : Expected) :
    Forgets forget (refuse wanted) (refuse wanted) := by
  intro cursor
  rw [refuse, peek_forgetLines]
  rfl

theorem Forgets.ite {forget : α → β} {item other : Reader α}
    {blind blind' : Reader β} (chosen : Prop) [Decidable chosen]
    (h : Forgets forget item blind) (h' : Forgets forget other blind') :
    Forgets forget (if chosen then item else other)
      (if chosen then blind else blind') := by
  split
  · exact h
  · exact h'

theorem forgets_expect (kind : Token.Kind) (wanted : Expected) :
    Forgets Token.forgetLine (expect kind wanted) (expect kind wanted) :=
  forgets_peek.bind fun token =>
    .ite (token.kind = kind) forgets_advance (forgets_refuse wanted)

theorem forgets_keyword (word : Keyword) :
    Forgets Token.forgetLine (keyword word) (keyword word) :=
  forgets_expect _ _

theorem forgets_operator (symbol : Operator) :
    Forgets Token.forgetLine (operator symbol) (operator symbol) :=
  forgets_expect _ _

theorem forgets_identifier (wanted : Expected) :
    Forgets Identifier.forgetLines (identifier wanted) (identifier wanted) :=
  (forgets_expect .name wanted).bind fun token =>
    forgets_pure (⟨token.text, token.line⟩ : Identifier)

/-! ## Rows -/

structure ForgetsEach (forget : α → α)
    (opens : Token → Option (Reader α)) : Prop where
  alike (token : Token) : opens token.forgetLine = opens token
  item {token : Token} {item : Reader α} (h : opens token = some item) :
    Forgets forget item item

theorem forgets_repeated {forget : α → α} {opens : Token → Option (Reader α)}
    (each : ForgetsEach forget opens) (bound : Nat) :
    Forgets (List.map forget) (repeated opens bound)
      (repeated opens bound) := by
  induction bound with
  | zero => exact forgets_pure []
  | succ bound ih =>
      refine forgets_peek.bind fun token => ?_
      rw [each.alike]
      cases found : opens token with
      | none => exact forgets_pure []
      | some item =>
          exact (each.item found).bind fun first =>
            ih.bind fun others => forgets_pure (first :: others)

theorem forgets_many {forget : α → α} {opens : Token → Option (Reader α)}
    (each : ForgetsEach forget opens) :
    Forgets (List.map forget) (many opens) (many opens) := by
  intro cursor
  have same : cursor.forgetLines.ahead.length = cursor.ahead.length :=
    List.length_map _
  rw [many, same]
  exact forgets_repeated each _ cursor

theorem forgetsEach_onKind {forget : α → α} {item : Reader α}
    (kind : Token.Kind) (h : Forgets forget item item) :
    ForgetsEach forget (onKind kind item) where
  alike token := rfl
  item found := by
    unfold onKind at found
    split at found
    · cases found
      exact h
    · cases found

theorem forgets_identifierList (wanted : Expected) :
    Forgets (List.map Identifier.forgetLines) (identifierList wanted)
      (identifierList wanted) := by
  have next : Forgets Identifier.forgetLines
      (advance >>= fun _ => identifier wanted)
      (advance >>= fun _ => identifier wanted) :=
    forgets_advance.bind fun _ => forgets_identifier wanted
  exact (forgets_identifier wanted).bind fun first =>
    (forgets_many (forgetsEach_onKind _ next)).bind fun others =>
      forgets_pure (first :: others)

/-! ## Expressions -/

theorem forgets_tooDeep (line : Int) :
    Forgets Expr.forgetLines (tooDeep line) (tooDeep 0) :=
  fun _ => rfl

theorem forgets_keyOf (constructor : Token) (line : Int) (key : Expr) :
    Forgets Identifier.forgetLines (keyOf constructor line key)
      (keyOf constructor.forgetLine 0 key.forgetLines) := by
  cases key with
  | name key => exact forgets_pure key
  | _ => exact fun _ => rfl

variable {inner : Reader Expr}

theorem forgets_keyedArguments (constructor : Token)
    (h : Forgets Expr.forgetLines inner inner) :
    Forgets (Prod.map Identifier.forgetLines Expr.forgetLines)
      (keyedArguments constructor inner)
      (keyedArguments constructor.forgetLine inner) :=
  (forgets_operator _).bind fun _ => forgets_peek.bind fun head =>
    h.bind fun key => (forgets_keyOf constructor head.line key).bind fun key =>
      (forgets_operator _).bind fun _ => h.bind fun message =>
        (forgets_operator _).bind fun _ => forgets_pure (key, message)

theorem forgets_term (h : Forgets Expr.forgetLines inner inner) :
    Forgets Expr.forgetLines (term inner) (term inner) := by
  refine forgets_peek.bind fun head => ?_
  -- The kind alone decides what is read, and a kind has no line.
  have same : head.forgetLine.kind = head.kind := rfl
  simp only [same]
  split
  · exact (forgets_identifier _).bind fun name => forgets_pure (Expr.name name)
  · exact forgets_advance.bind fun head =>
      (forgets_keyedArguments head h).bind fun found =>
        forgets_pure (Expr.enc found.1 found.2 head.line)
  · exact forgets_advance.bind fun head =>
      (forgets_keyedArguments head h).bind fun found =>
        forgets_pure (Expr.mac found.1 found.2 head.line)
  · exact forgets_advance.bind fun head =>
      (forgets_operator _).bind fun _ => (forgets_identifier _).bind fun key =>
        (forgets_operator _).bind fun _ => h.bind fun message =>
          (forgets_operator _).bind fun _ =>
            forgets_pure (Expr.sign key message head.line)
  · exact forgets_advance.bind fun head =>
      (forgets_operator _).bind fun _ => (forgets_identifier _).bind fun key =>
        (forgets_operator _).bind fun _ => h.bind fun message =>
          (forgets_operator _).bind fun _ => h.bind fun signature =>
            (forgets_operator _).bind fun _ =>
              forgets_pure (Expr.verify key message signature head.line)
  · exact forgets_advance.bind fun head =>
      (forgets_operator _).bind fun _ => h.bind fun argument =>
        (forgets_operator _).bind fun _ =>
          forgets_pure (Expr.hash argument head.line)
  · exact forgets_refuse _

theorem forgets_atBars : Forgets id atBars atBars :=
  forgets_peek.bind fun head =>
    forgets_pure (decide (head.kind = .operator .bars))

theorem forgets_within (levels : Nat) :
    Forgets Expr.forgetLines (expressionWithin levels)
        (expressionWithin levels) ∧
      ∀ left, Forgets Expr.forgetLines (chainWithin levels left)
        (chainWithin levels left.forgetLines) := by
  -- On the levels, for both readers at once: each calls the other below.
  induction levels with
  | zero =>
      constructor
      · rw [expressionWithin]
        exact forgets_peek.bind fun head => forgets_tooDeep head.line
      · intro left
        rw [chainWithin, chainWithin]
        exact forgets_atBars.bind fun bars => .ite (bars = true)
          (forgets_advance.bind fun head => forgets_tooDeep head.line)
          (forgets_pure left)
  | succ levels ih =>
      obtain ⟨within, chain⟩ := ih
      constructor
      · rw [expressionWithin]
        exact (forgets_term within).bind chain
      · intro left
        rw [chainWithin, chainWithin]
        refine forgets_atBars.bind fun bars => .ite (bars = true)
          (forgets_advance.bind fun _ => (forgets_term within).bind
            fun right => ?_) (forgets_pure left)
        rw [Expr.line_forgetLines]
        exact chain (.concat left right left.line)

theorem forgets_expression :
    Forgets Expr.forgetLines expression expression :=
  (forgets_within depthLimit).1

theorem forgets_body : Forgets Expr.forgetLines body body :=
  forgets_peek.bind fun head => forgets_peekSecond.bind fun second =>
    .ite (head.kind = .name ∧ second.kind = .operator .equals)
      ((forgets_identifier _).bind fun target =>
        forgets_advance.bind fun _ => forgets_expression.bind fun value =>
          forgets_pure (Expr.assign target value target.line))
      forgets_expression

/-! ## Declarations -/

theorem forgets_roleSet : Forgets RoleSet.forgetLines roleSet roleSet :=
  (forgets_keyword _).bind fun head => (forgets_operator _).bind fun _ =>
    (forgets_identifierList _).bind fun members =>
      forgets_pure (⟨members, head.line⟩ : RoleSet)

theorem forgets_owners (kind : KeyKind) :
    Forgets (List.map Identifier.forgetLines) (owners kind) (owners kind) := by
  have single : Forgets (List.map Identifier.forgetLines)
      (do return [← identifier .ownerRole])
      (do return [← identifier .ownerRole]) :=
    (forgets_identifier _).bind fun owner => forgets_pure [owner]
  cases kind with
  | sharedKey => exact forgets_identifierList _
  | publicKey | privateKey => exact single

theorem forgets_keyDecl (kind : KeyKind) :
    Forgets KeyDecl.forgetLines (keyDecl kind) (keyDecl kind) :=
  forgets_advance.bind fun head => (forgets_identifier _).bind fun name =>
    (forgets_keyword _).bind fun _ => (forgets_owners kind).bind fun owners =>
      forgets_pure (⟨kind, name, owners, head.line⟩ : KeyDecl)

theorem forgetsEach_keyDecl :
    ForgetsEach KeyDecl.forgetLines
      (fun token => (keyKind? token.kind).map keyDecl) where
  alike token := rfl
  item found := by
    obtain ⟨kind, -, rfl⟩ := Option.map_eq_some_iff.mp found
    exact forgets_keyDecl kind

theorem forgets_message : Forgets Message.forgetLines message message :=
  (forgets_identifier _).bind fun sender => (forgets_operator _).bind fun _ =>
    (forgets_identifier _).bind fun receiver =>
      (forgets_operator _).bind fun _ => forgets_body.bind fun body =>
        forgets_pure (⟨sender, receiver, body, sender.line⟩ : Message)

theorem forgets_permitted :
    Forgets (Option.map (List.map Identifier.forgetLines)) permitted
      permitted :=
  forgets_peek.bind fun head => .ite (head.kind = .keyword .forWhom)
    (forgets_advance.bind fun _ => (forgets_identifierList _).bind fun names =>
      forgets_pure (some names))
    (forgets_pure none)

theorem forgets_assertion :
    Forgets Assertion.forgetLines assertion assertion :=
  forgets_advance.bind fun head => (forgets_keyword _).bind fun _ =>
    (forgets_operator _).bind fun _ => (forgets_identifier _).bind fun term =>
      (forgets_operator _).bind fun _ => forgets_permitted.bind fun permitted =>
        forgets_pure (⟨term, permitted, head.line⟩ : Assertion)

theorem forgets_protocol : Forgets Protocol.forgetLines protocol protocol := by
  refine forgets_roleSet.bind fun roles =>
    (forgets_many forgetsEach_keyDecl).bind fun keys =>
      (forgets_many (forgetsEach_onKind _ forgets_message)).bind
        fun messages =>
          (forgets_many (forgetsEach_onKind _ forgets_assertion)).bind
            fun assertions => ?_
  -- The end is told by what there is before it, not by where that stands.
  have wanted : openEnd (messages.map Message.forgetLines)
      (assertions.map Assertion.forgetLines) = openEnd messages assertions := by
    simp [openEnd]
  rw [wanted]
  exact (forgets_expect _ _).bind fun _ =>
    forgets_pure (⟨roles, keys, messages, assertions⟩ : Protocol)

end Grammar

open Grammar

theorem Protocol.read_forgetLines (cursor : Cursor) :
    read cursor.forgetLines =
      ((read cursor).map forgetLines).mapError GrammarFault.forgetLines := by
  rw [read, forgets_protocol cursor, read]
  cases Grammar.protocol cursor <;> rfl

theorem Grammar.Cursor.ofText_forgetLines {text text' : String}
    (same : (Token.tokenise text).map Token.shape =
      (Token.tokenise text').map Token.shape) :
    (Cursor.ofText text).forgetLines = (Cursor.ofText text').forgetLines := by
  rw [Token.map_shape_tokenise, Token.map_shape_tokenise,
    List.append_left_inj] at same
  have blind (s : List Char) : (Token.scan 1 s).map Token.forgetLine =
      (Token.shapes s).map fun shape => ⟨shape.1, shape.2, 0⟩ := by
    rw [Token.shapes, List.map_map]
    rfl
  rw [Cursor.forgetLines, Cursor.forgetLines, ofText, ofText, blind, same,
    ← blind]
  rfl

/-- Texts with the same tokens, but for their lines, are read alike. -/
theorem Protocol.ofText_alike {text text' : String}
    (same : (Token.tokenise text).map Token.shape =
      (Token.tokenise text').map Token.shape) :
    ((ofText text).map forgetLines).mapError GrammarFault.forgetLines =
      ((ofText text').map forgetLines).mapError GrammarFault.forgetLines := by
  rw [ofText, ofText, ← read_forgetLines, Cursor.ofText_forgetLines same,
    read_forgetLines]

end Secrecy
