import Secrecy.Grammar.Declaration
import Secrecy.Proofs.Grammar.Derivation
import Secrecy.Proofs.Protocol.Layout

/-!
# Yields

The yield of a protocol is the notation it stands for: of a name the text
counts, of any other token the kind alone.  Only some protocols can be written
down at all.  They are the grammatical ones, and layout plays no part in that.
-/

namespace Secrecy

inductive Terminal where
  | keyword (word : Keyword)
  | operator (symbol : Operator)
  | name (text : String)
  | stop
  deriving DecidableEq, Repr

def Token.terminal (token : Token) : Terminal :=
  match token.kind with
  | .keyword word => .keyword word
  | .operator symbol => .operator symbol
  | .name => .name token.text
  | .stop => .stop

namespace Terminal

def token : Terminal → Token
  | .keyword word => ⟨.keyword word, word.text, 0⟩
  | .operator symbol => ⟨.operator symbol, symbol.text, 0⟩
  | .name text => ⟨.name, text, 0⟩
  | .stop => ⟨.stop, "", 0⟩

@[simp] theorem terminal_token (terminal : Terminal) :
    terminal.token.terminal = terminal := by
  cases terminal <;> rfl

@[simp] theorem map_terminal_token (terminals : List Terminal) :
    (terminals.map token).map Token.terminal = terminals := by
  rw [List.map_map]
  exact List.map_id'' terminal_token terminals

def applied (word : Keyword) (arguments : List Terminal) : List Terminal :=
  .keyword word :: .operator .leftParen ::
    (arguments ++ [.operator .rightParen])

end Terminal

namespace Token

variable {token : Token}

theorem terminal_eq_keyword {word : Keyword} :
    token.terminal = .keyword word ↔ token.kind = .keyword word := by
  unfold terminal
  split <;> simp_all

theorem terminal_eq_operator {symbol : Operator} :
    token.terminal = .operator symbol ↔ token.kind = .operator symbol := by
  unfold terminal
  split <;> simp_all

theorem terminal_eq_stop : token.terminal = .stop ↔ token.kind = .stop := by
  unfold terminal
  split <;> simp_all

theorem terminal_eq_name {text : String} :
    token.terminal = .name text ↔ token.kind = .name ∧ token.text = text := by
  unfold terminal
  split <;> simp_all

end Token

/-! ## What a protocol is written as -/

def Expr.yield : Expr → List Terminal
  | .name identifier => [.name identifier.name]
  | .concat left right _ => left.yield ++ .operator .bars :: right.yield
  | .enc key message _ =>
      Terminal.applied .enc (.name key.name :: .operator .comma :: message.yield)
  | .mac key message _ =>
      Terminal.applied .mac (.name key.name :: .operator .comma :: message.yield)
  | .hash inner _ => Terminal.applied .hash inner.yield
  | .sign key message _ =>
      Terminal.applied .sign (.name key.name :: .operator .comma :: message.yield)
  | .verify key message signature _ =>
      Terminal.applied .verify (.name key.name :: .operator .comma ::
        (message.yield ++ .operator .comma :: signature.yield))
  | .assign target value _ =>
      .name target.name :: .operator .equals :: value.yield

def Identifier.listYield : List Identifier → List Terminal
  | [] => []
  | first :: others =>
      .name first.name ::
        others.flatMap fun other => [.operator .comma, .name other.name]

def RoleSet.yield (roles : RoleSet) : List Terminal :=
  .keyword .roles :: .operator .colon :: Identifier.listYield roles.members

def KeyKind.word : KeyKind → Keyword
  | .sharedKey => .sharedKey
  | .publicKey => .publicKey
  | .privateKey => .privateKey

def KeyDecl.yield (key : KeyDecl) : List Terminal :=
  .keyword key.kind.word :: .name key.name.name :: .keyword .forWhom ::
    Identifier.listYield key.owners

def Message.yield (message : Message) : List Terminal :=
  .name message.sender.name :: .operator .arrow ::
    .name message.receiver.name :: .operator .colon :: message.body.yield

def Identifier.permittedYield : Option (List Identifier) → List Terminal
  | none => []
  | some names => .keyword .forWhom :: listYield names

def Assertion.yield (assertion : Assertion) : List Terminal :=
  .keyword .assertion ::
    (Terminal.applied .secret [.name assertion.term.name] ++
      Identifier.permittedYield assertion.permitted)

def Protocol.yield (protocol : Protocol) : List Terminal :=
  protocol.roles.yield ++ (protocol.keys.flatMap KeyDecl.yield ++
    (protocol.messages.flatMap Message.yield ++
      protocol.assertions.flatMap Assertion.yield))

/-! The end of input is no part of the notation. -/

theorem Expr.stop_notMem_yield (e : Expr) : Terminal.stop ∉ e.yield := by
  induction e with
  | name => simp [yield]
  | concat left right line ihLeft ihRight => simp [yield, ihLeft, ihRight]
  | enc _ _ _ ih | mac _ _ _ ih | sign _ _ _ ih | hash _ _ ih
  | assign _ _ _ ih =>
      simp [yield, Terminal.applied, ih]
  | verify key message signature line ihMessage ihSignature =>
      simp [yield, Terminal.applied, ihMessage, ihSignature]

theorem Identifier.stop_notMem_listYield (names : List Identifier) :
    Terminal.stop ∉ listYield names := by
  cases names <;> simp [listYield]

theorem Identifier.stop_notMem_permittedYield
    (permitted : Option (List Identifier)) :
    Terminal.stop ∉ permittedYield permitted := by
  cases permitted <;> simp [permittedYield, stop_notMem_listYield]

theorem Protocol.stop_notMem_yield (p : Protocol) :
    Terminal.stop ∉ p.yield := by
  simp [yield, RoleSet.yield, KeyDecl.yield, Message.yield, Assertion.yield,
    Terminal.applied, Identifier.stop_notMem_listYield,
    Identifier.stop_notMem_permittedYield, Expr.stop_notMem_yield]

/-! ## What can be written down -/

/-- Concatenation groups to the left, and nothing is assigned. -/
def Expr.Grouped : Expr → Prop
  | .name _ => True
  | .concat left right _ =>
      left.Grouped ∧ right.Grouped ∧ right.isConcat = false
  | .enc _ message _ | .mac _ message _ | .sign _ message _ =>
      message.Grouped
  | .hash inner _ => inner.Grouped
  | .verify _ message signature _ => message.Grouped ∧ signature.Grouped
  | .assign .. => False

def Expr.GroupedBody : Expr → Prop
  | .assign _ value _ => value.Grouped
  | e => e.Grouped

theorem Expr.Grouped.groupedBody {e : Expr} (grouped : e.Grouped) :
    e.GroupedBody := by
  cases e with
  | assign => exact grouped.elim
  | _ => exact grouped

structure KeyDecl.Owned (key : KeyDecl) : Prop where
  nonempty : key.owners ≠ []
  single : key.kind ≠ .sharedKey → key.owners.length = 1

structure Message.Writable (message : Message) : Prop where
  grouped : message.body.GroupedBody
  shallow : message.body.depth ≤ Grammar.depthLimit

structure Protocol.Grammatical (protocol : Protocol) : Prop where
  roles : protocol.roles.members ≠ []
  keys : ∀ key ∈ protocol.keys, key.Owned
  messages : ∀ message ∈ protocol.messages, message.Writable
  permitted : ∀ assertion ∈ protocol.assertions, assertion.permitted ≠ some []

/-! Whether a protocol can be written down is decided by looking at it. -/

def Expr.decideGrouped : (e : Expr) → Decidable e.Grouped
  | .name _ => isTrue trivial
  | .concat left right _ =>
      have := left.decideGrouped
      have := right.decideGrouped
      inferInstanceAs (Decidable
        (left.Grouped ∧ right.Grouped ∧ right.isConcat = false))
  | .enc _ message _ | .mac _ message _ | .sign _ message _ =>
      message.decideGrouped
  | .hash inner _ => inner.decideGrouped
  | .verify _ message signature _ =>
      have := message.decideGrouped
      have := signature.decideGrouped
      inferInstanceAs (Decidable (message.Grouped ∧ signature.Grouped))
  | .assign .. => isFalse id

instance : DecidablePred Expr.Grouped := Expr.decideGrouped

instance : DecidablePred Expr.GroupedBody
  | .assign _ value _ => inferInstanceAs (Decidable value.Grouped)
  | .name _ | .concat .. | .enc .. | .mac .. | .hash .. | .sign ..
  | .verify .. => Expr.decideGrouped _

instance : DecidablePred KeyDecl.Owned := fun key =>
  decidable_of_iff
    (key.owners ≠ [] ∧ (key.kind ≠ .sharedKey → key.owners.length = 1))
    ⟨fun ⟨owned, single⟩ => ⟨owned, single⟩,
      fun ⟨owned, single⟩ => ⟨owned, single⟩⟩

instance : DecidablePred Message.Writable := fun message =>
  decidable_of_iff
    (message.body.GroupedBody ∧ message.body.depth ≤ Grammar.depthLimit)
    ⟨fun ⟨grouped, shallow⟩ => ⟨grouped, shallow⟩,
      fun ⟨grouped, shallow⟩ => ⟨grouped, shallow⟩⟩

instance : DecidablePred Protocol.Grammatical := fun p =>
  decidable_of_iff
    (p.roles.members ≠ [] ∧ (∀ key ∈ p.keys, key.Owned) ∧
      (∀ message ∈ p.messages, message.Writable) ∧
      ∀ assertion ∈ p.assertions, assertion.permitted ≠ some [])
    ⟨fun ⟨roles, keys, messages, permitted⟩ =>
        ⟨roles, keys, messages, permitted⟩,
      fun ⟨roles, keys, messages, permitted⟩ =>
        ⟨roles, keys, messages, permitted⟩⟩

/-! ## Layout -/

namespace Expr

@[simp] theorem yield_forgetLines (e : Expr) :
    e.forgetLines.yield = e.yield := by
  induction e with
  | name => rfl
  | concat left right line ihLeft ihRight =>
      simp [forgetLines, yield, ihLeft, ihRight]
  | enc key message line ih | mac key message line ih
  | sign key message line ih =>
      simp [forgetLines, yield, ih, Identifier.forgetLines]
  | hash inner line ih => simp [forgetLines, yield, ih]
  | verify key message signature line ihMessage ihSignature =>
      simp [forgetLines, yield, ihMessage, ihSignature, Identifier.forgetLines]
  | assign target value line ih =>
      simp [forgetLines, yield, ih, Identifier.forgetLines]

@[simp] theorem length_operands_forgetLines (e : Expr) :
    e.forgetLines.operands.length = e.operands.length := by
  induction e with
  | concat left right line ih => simp [forgetLines, operands, ih]
  | _ => rfl

@[simp] theorem depth_forgetLines (e : Expr) :
    e.forgetLines.depth = e.depth := by
  induction e with
  | name => rfl
  | concat left right line ihLeft ihRight =>
      simp [forgetLines, depth, ihLeft, ihRight]
  | enc _ _ _ ih | mac _ _ _ ih | sign _ _ _ ih | hash _ _ ih
  | assign _ _ _ ih =>
      simp [forgetLines, depth, ih]
  | verify key message signature line ihMessage ihSignature =>
      simp [forgetLines, depth, ihMessage, ihSignature]

@[simp] theorem grouped_forgetLines (e : Expr) :
    e.forgetLines.Grouped ↔ e.Grouped := by
  induction e with
  | name | assign => rfl
  | concat left right line ihLeft ihRight =>
      simp [forgetLines, Grouped, ihLeft, ihRight]
  | enc _ _ _ ih | mac _ _ _ ih | sign _ _ _ ih | hash _ _ ih => exact ih
  | verify key message signature line ihMessage ihSignature =>
      exact and_congr ihMessage ihSignature

@[simp] theorem groupedBody_forgetLines (e : Expr) :
    e.forgetLines.GroupedBody ↔ e.GroupedBody := by
  cases e with
  | assign target value line => exact grouped_forgetLines value
  | _ => exact grouped_forgetLines _

end Expr

@[simp] theorem Identifier.listYield_forgetLines (names : List Identifier) :
    listYield (names.map forgetLines) = listYield names := by
  cases names with
  | nil => rfl
  | cons first others => simp [listYield, forgetLines, List.flatMap_map]

@[simp] theorem KeyDecl.yield_forgetLines (key : KeyDecl) :
    key.forgetLines.yield = key.yield := by
  simp [yield, forgetLines, Identifier.forgetLines]

@[simp] theorem Message.yield_forgetLines (message : Message) :
    message.forgetLines.yield = message.yield := by
  simp [yield, forgetLines, Identifier.forgetLines]

@[simp] theorem Assertion.yield_forgetLines (assertion : Assertion) :
    assertion.forgetLines.yield = assertion.yield := by
  obtain ⟨term, permitted, line⟩ := assertion
  cases permitted <;>
    simp [yield, forgetLines, Identifier.forgetLines,
      Identifier.permittedYield]

theorem KeyDecl.owned_forgetLines (key : KeyDecl) :
    key.forgetLines.Owned ↔ key.Owned := by
  have owners : (key.owners.map Identifier.forgetLines).length =
      key.owners.length := List.length_map _
  constructor
  · rintro ⟨nonempty, single⟩
    exact ⟨by simpa [forgetLines] using nonempty, fun kind =>
      owners ▸ single kind⟩
  · rintro ⟨nonempty, single⟩
    exact ⟨by simpa [forgetLines] using nonempty, fun kind =>
      owners.trans (single kind)⟩

theorem Message.writable_forgetLines (message : Message) :
    message.forgetLines.Writable ↔ message.Writable := by
  constructor
  · rintro ⟨grouped, shallow⟩
    exact ⟨message.body.groupedBody_forgetLines.mp grouped,
      message.body.depth_forgetLines ▸ shallow⟩
  · rintro ⟨grouped, shallow⟩
    exact ⟨message.body.groupedBody_forgetLines.mpr grouped,
      message.body.depth_forgetLines.symm ▸ shallow⟩

theorem Assertion.permitted_forgetLines (assertion : Assertion) :
    assertion.forgetLines.permitted ≠ some [] ↔
      assertion.permitted ≠ some [] := by
  simp [forgetLines]

namespace Protocol

@[simp] theorem yield_forgetLines (p : Protocol) :
    p.forgetLines.yield = p.yield := by
  simp [yield, forgetLines, RoleSet.yield, RoleSet.forgetLines,
    List.flatMap_map]

theorem grammatical_forgetLines (p : Protocol) :
    p.forgetLines.Grammatical ↔ p.Grammatical := by
  have keys : (∀ key ∈ p.forgetLines.keys, key.Owned) ↔
      ∀ key ∈ p.keys, key.Owned := by
    simp [forgetLines, KeyDecl.owned_forgetLines]
  have messages : (∀ message ∈ p.forgetLines.messages, message.Writable) ↔
      ∀ message ∈ p.messages, message.Writable := by
    simp [forgetLines, Message.writable_forgetLines]
  have permitted :
      (∀ assertion ∈ p.forgetLines.assertions,
        assertion.permitted ≠ some []) ↔
      ∀ assertion ∈ p.assertions, assertion.permitted ≠ some [] := by
    simp [forgetLines, Assertion.permitted_forgetLines]
  have roles : p.forgetLines.roles.members ≠ [] ↔ p.roles.members ≠ [] := by
    simp [forgetLines, RoleSet.forgetLines]
  constructor
  · rintro ⟨hasRoles, owned, writable, named⟩
    exact ⟨roles.mp hasRoles, keys.mp owned, messages.mp writable,
      permitted.mp named⟩
  · rintro ⟨hasRoles, owned, writable, named⟩
    exact ⟨roles.mpr hasRoles, keys.mpr owned, messages.mpr writable,
      permitted.mpr named⟩

theorem Alike.yield_eq {p q : Protocol} (h : p.Alike q) :
    p.yield = q.yield := by
  rw [← yield_forgetLines p, h, yield_forgetLines]

theorem Alike.grammatical {p q : Protocol} (h : p.Alike q) :
    p.Grammatical ↔ q.Grammatical := by
  rw [← grammatical_forgetLines p, h, grammatical_forgetLines]

end Protocol

end Secrecy
