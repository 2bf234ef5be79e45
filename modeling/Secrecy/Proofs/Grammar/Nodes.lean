import Secrecy.Proofs.Grammar.Parsing

/-!
# Where nodes are written

The nodes of a protocol are all its parts that have a line of their own.  A
node stands in its protocol behind a row of terminals, and the tokens behind
those that spell them are the ones it was read from.  The first of these tells
its line.
-/

namespace Secrecy.Grammar

/-! ## Nodes -/

inductive Node where
  | roles (set : RoleSet)
  | key (decl : KeyDecl)
  | message (sent : Message)
  | assertion (secret : Assertion)
  | expr (e : Expr)
  | identifier (name : Identifier)

namespace Node

def line : Node → Int
  | .roles set => set.line
  | .key decl => decl.line
  | .message sent => sent.line
  | .assertion secret => secret.line
  | .expr e => e.line
  | .identifier name => name.line

def yield : Node → List Terminal
  | .roles set => set.yield
  | .key decl => decl.yield
  | .message sent => sent.yield
  | .assertion secret => secret.yield
  | .expr e => e.yield
  | .identifier name => [.name name.name]

def row (between before : List Terminal) :
    List Node → List (List Terminal × Node)
  | [] => []
  | node :: nodes =>
      (before, node) :: row between (before ++ node.yield ++ between) nodes

def names (before : List Terminal) (listed : List Identifier) :
    List (List Terminal × Node) :=
  row [.operator .comma] before (listed.map .identifier)

def arguments (word : Keyword) (nodes : List Node) :
    List (List Terminal × Node) :=
  row [.operator .comma] [.keyword word, .operator .leftParen] nodes

end Node

def operandNodes : Expr → List (List Terminal × Node)
  | .name identifier => [([], .identifier identifier)]
  | .concat left right _ =>
      Node.row [.operator .bars] [] [.expr left, .expr right]
  | .enc key message _ =>
      Node.arguments .enc [.identifier key, .expr message]
  | .mac key message _ =>
      Node.arguments .mac [.identifier key, .expr message]
  | .hash inner _ => Node.arguments .hash [.expr inner]
  | .sign key message _ =>
      Node.arguments .sign [.identifier key, .expr message]
  | .verify key message signature _ =>
      Node.arguments .verify
        [.identifier key, .expr message, .expr signature]
  | .assign target value _ =>
      Node.row [.operator .equals] [] [.identifier target, .expr value]

namespace Node

/-- The nodes right below one, each with what the one begins with before it. -/
def children : Node → List (List Terminal × Node)
  | .roles set => names [.keyword .roles, .operator .colon] set.members
  | .key decl =>
      ([.keyword decl.kind.word], .identifier decl.name) ::
        names [.keyword decl.kind.word, .name decl.name.name, .keyword .forWhom]
          decl.owners
  | .message sent =>
      [([], .identifier sent.sender),
        ([.name sent.sender.name, .operator .arrow],
          .identifier sent.receiver),
        ([.name sent.sender.name, .operator .arrow, .name sent.receiver.name,
          .operator .colon], .expr sent.body)]
  | .assertion secret =>
      ([.keyword .assertion, .keyword .secret, .operator .leftParen],
          .identifier secret.term) ::
        names [.keyword .assertion, .keyword .secret, .operator .leftParen,
          .name secret.term.name, .operator .rightParen, .keyword .forWhom]
          (secret.permitted.getD [])
  | .expr e => operandNodes e
  | .identifier _ => []

/-- A node at any depth, with all that is written before it on the way down. -/
inductive Has : Node → List Terminal → Node → Prop where
  | itself (node : Node) : Has node [] node
  | inside {node child found : Node} {before within : List Terminal}
      (mem : (before, child) ∈ node.children) (rest : Has child within found) :
      Has node (before ++ within) found

end Node

/-! ## Words -/

inductive NodeOf : List Token → Node → Prop where
  | roles {tokens : List Token} {set : RoleSet} (word : RolesOf tokens set) :
      NodeOf tokens (.roles set)
  | key {tokens : List Token} {decl : KeyDecl} (word : KeyOf tokens decl) :
      NodeOf tokens (.key decl)
  | message {tokens : List Token} {sent : Message}
      (word : MessageOf tokens sent) : NodeOf tokens (.message sent)
  | assertion {tokens : List Token} {secret : Assertion}
      (word : AssertionOf tokens secret) : NodeOf tokens (.assertion secret)
  | expr {tokens : List Token} {e : Expr} (word : ExprOf tokens e) :
      NodeOf tokens (.expr e)
  | assigned {target equals : Token} {tokens : List Token} {value : Expr}
      (isTarget : target.kind = .name)
      (isEquals : equals.kind = .operator .equals)
      (valueOf : ExprOf tokens value) :
      NodeOf (target :: equals :: tokens)
        (.expr (.assign target.identifier value target.line))
  | identifier {token : Token} (isName : token.kind = .name) :
      NodeOf [token] (.identifier token.identifier)

theorem BodyOf.node {tokens : List Token} {e : Expr} (word : BodyOf tokens e) :
    NodeOf tokens (.expr e) := by
  cases word with
  | expression exprOf => exact .expr exprOf
  | assign isTarget isEquals valueOf =>
      exact .assigned isTarget isEquals valueOf

theorem NodeOf.spells {tokens : List Token} {node : Node}
    (h : NodeOf tokens node) : tokens.map Token.terminal = node.yield := by
  cases h with
  | roles word => exact word.spells.1
  | key word => exact word.spells.1
  | message word => exact word.spells.1
  | assertion word => exact word.spells.1
  | expr word => exact word.spells.1
  | assigned isTarget isEquals valueOf =>
      simp [Token.terminal, isTarget, isEquals, Node.yield, Expr.yield,
        Token.identifier, valueOf.spells.1]
  | identifier isName =>
      simp [Token.terminal, isName, Node.yield, Token.identifier]

theorem TermOf.first {tokens : List Token} {e : Expr} (h : TermOf tokens e) :
    ∃ first rest, tokens = first :: rest ∧ e.line = first.line := by
  cases h <;> exact ⟨_, _, rfl, rfl⟩

/-- However long a chain grows, it keeps the line of the operand it began with. -/
theorem TailOf.line_eq {left e : Expr} {tokens : List Token}
    (tail : TailOf left tokens e) : e.line = left.line := by
  induction tail with
  | done => rfl
  | more _ _ _ ih => exact ih

theorem ExprOf.first {tokens : List Token} {e : Expr} (h : ExprOf tokens e) :
    ∃ first rest, tokens = first :: rest ∧ e.line = first.line := by
  obtain ⟨own, others, left, rfl, leftOf, tail⟩ := exprOf_iff.mp h
  obtain ⟨first, rest, rfl, same⟩ := leftOf.first
  exact ⟨first, rest ++ others, rfl, tail.line_eq.trans same⟩

theorem NodeOf.first {tokens : List Token} {node : Node}
    (h : NodeOf tokens node) :
    ∃ first rest, tokens = first :: rest ∧ node.line = first.line := by
  cases h with
  | expr word => exact word.first
  | roles word | key word | message word | assertion word =>
      cases word
      exact ⟨_, _, rfl, rfl⟩
  | assigned | identifier => exact ⟨_, _, rfl, rfl⟩

/-! ## Places -/

/-- A node read from some of the tokens, where those before show `before`. -/
def NodeAt (tokens : List Token) (before : List Terminal) (node : Node) :
    Prop :=
  ∃ early own late, tokens = early ++ (own ++ late) ∧
    early.map Token.terminal = before ∧ NodeOf own node

section Places

variable {tokens : List Token} {before : List Terminal} {node : Node}

theorem NodeOf.nodeAt (word : NodeOf tokens node) : NodeAt tokens [] node :=
  ⟨[], tokens, [], by simp, rfl, word⟩

theorem NodeAt.before_append (h : NodeAt tokens before node)
    (late : List Token) : NodeAt (tokens ++ late) before node := by
  obtain ⟨early, own, rest, rfl, shown, word⟩ := h
  exact ⟨early, own, rest ++ late, by simp, shown, word⟩

theorem NodeAt.behind (h : NodeAt tokens before node) (early : List Token) :
    NodeAt (early ++ tokens) (early.map Token.terminal ++ before) node := by
  obtain ⟨rest, own, late, rfl, rfl, word⟩ := h
  exact ⟨early ++ rest, own, late, by simp, by simp, word⟩

theorem NodeAt.inside {child : Node} {within : List Terminal}
    (outer : NodeAt tokens before child)
    (inner : ∀ {own : List Token}, NodeOf own child → NodeAt own within node) :
    NodeAt tokens (before ++ within) node := by
  obtain ⟨early, own, late, rfl, rfl, word⟩ := outer
  exact ((inner word).before_append late).behind early

def NodeBehind (between : List Terminal) (tokens : List Token) (node : Node) :
    Prop :=
  ∃ parting own, tokens = parting ++ own ∧
    parting.map Token.terminal = between ∧ NodeOf own node

theorem NodeOf.nodeBehind (word : NodeOf tokens node) :
    NodeBehind [] tokens node :=
  ⟨[], tokens, rfl, rfl, word⟩

theorem nodeBehind_operator {symbol : Operator} {parting : Token}
    (isSymbol : parting.kind = .operator symbol) (word : NodeOf tokens node) :
    NodeBehind [.operator symbol] (parting :: tokens) node :=
  ⟨[parting], tokens, rfl, by simp [Token.terminal, isSymbol], word⟩

theorem nodeAt_of_mem_row (lead : List Token) {first rest : List Token}
    {between : List Terminal} {head found : Node} {nodes : List Node}
    (firstOf : NodeOf first head)
    (others : ManyOf (NodeBehind between) rest nodes)
    (mem : (before, found) ∈
      Node.row between (lead.map Token.terminal) (head :: nodes)) :
    NodeAt (lead ++ (first ++ rest)) before found := by
  induction others generalizing lead first head with
  | nil =>
      obtain ⟨rfl, rfl⟩ : before = lead.map Token.terminal ∧ found = head := by
        simpa [Node.row] using mem
      exact ⟨lead, first, [], rfl, rfl, firstOf⟩
  | cons word _ ih =>
      rcases List.mem_cons.mp mem with here | later
      · obtain ⟨rfl, rfl⟩ := Prod.mk.inj here
        exact ⟨lead, first, _, rfl, rfl, firstOf⟩
      · obtain ⟨parting, own, rfl, rfl, wordOf⟩ := word
        -- What comes before the rest of the row grows by a node and a parting.
        have shown : lead.map Token.terminal ++ head.yield ++
            parting.map Token.terminal =
              (lead ++ (first ++ parting)).map Token.terminal := by
          simp [firstOf.spells]
        rw [shown] at later
        simpa using ih _ wordOf later

/-! ## One level down -/

theorem ManyOf.map {α β : Type} {Word : List Token → α → Prop}
    {Other : List Token → β → Prop} {f : α → β} {items : List α}
    (h : ManyOf Word tokens items)
    (each : ∀ {tokens : List Token} {a : α}, Word tokens a →
      Other tokens (f a)) : ManyOf Other tokens (items.map f) := by
  induction h with
  | nil => exact .nil
  | cons word _ ih => exact .cons (each word) ih

theorem ManyOf.append {α : Type} {Word : List Token → α → Prop}
    {others : List Token} {as bs : List α} (h : ManyOf Word tokens as)
    (h' : ManyOf Word others bs) :
    ManyOf Word (tokens ++ others) (as ++ bs) := by
  induction h with
  | nil => exact h'
  | cons word _ ih => simpa using ManyOf.cons word ih

theorem NextNameOf.nodeBehind {name : Identifier}
    (h : NextNameOf tokens name) :
    NodeBehind [.operator .comma] tokens (.identifier name) := by
  cases h with
  | intro isComma isName =>
      exact nodeBehind_operator isComma (.identifier isName)

theorem NamesOf.nodeAt {names : List Identifier} (h : NamesOf tokens names)
    (lead : List Token)
    (mem : (before, node) ∈ Node.names (lead.map Token.terminal) names) :
    NodeAt (lead ++ tokens) before node := by
  cases h with
  | intro isFirst othersOf =>
      exact nodeAt_of_mem_row lead (.identifier isFirst)
        (othersOf.map NextNameOf.nodeBehind) mem

theorem nodeAt_of_mem_arguments {word : Keyword} {head opened closing : Token}
    {first rest : List Token} {argument : Node} {others : List Node}
    (isHead : head.kind = .keyword word)
    (isOpened : opened.kind = .operator .leftParen)
    (firstOf : NodeOf first argument)
    (othersOf : ManyOf (NodeBehind [.operator .comma]) rest others)
    (mem : (before, node) ∈ Node.arguments word (argument :: others)) :
    NodeAt (head :: opened :: (first ++ rest ++ [closing])) before node := by
  have shown : [Terminal.keyword word, .operator .leftParen] =
      [head, opened].map Token.terminal := by
    simp [Token.terminal, isHead, isOpened]
  rw [Node.arguments, shown] at mem
  simpa using
    (nodeAt_of_mem_row _ firstOf othersOf mem).before_append [closing]

theorem ArgumentsOf.nodeAt {word : Keyword} {head : Token} {key : Identifier}
    {message : Expr} (isHead : head.kind = .keyword word)
    (h : ArgumentsOf tokens key message)
    (mem : (before, node) ∈
      Node.arguments word [.identifier key, .expr message]) :
    NodeAt (head :: tokens) before node := by
  cases h with
  | intro isOpened isKey isComma messageOf isClosing =>
      have others := ManyOf.cons
        (nodeBehind_operator isComma (.expr messageOf)) .nil
      simpa using nodeAt_of_mem_arguments isHead isOpened
        (.identifier isKey) others mem

theorem TermOf.nodeAt {e : Expr} (h : TermOf tokens e)
    (mem : (before, node) ∈ operandNodes e) : NodeAt tokens before node := by
  cases h with
  | name isName =>
      obtain ⟨rfl, rfl⟩ := Prod.mk.inj (List.mem_singleton.mp mem)
      exact (NodeOf.identifier isName).nodeAt
  | enc isHead argumentsOf | mac isHead argumentsOf
  | sign isHead argumentsOf => exact argumentsOf.nodeAt isHead mem
  | hash isHead isOpened innerOf =>
      simpa using nodeAt_of_mem_arguments isHead isOpened (.expr innerOf)
        .nil mem
  | verify isHead isOpened isKey isComma messageOf isComma' signatureOf =>
      have others := ManyOf.cons
        (nodeBehind_operator isComma (.expr messageOf))
        (.cons (nodeBehind_operator isComma' (.expr signatureOf)) .nil)
      simpa using nodeAt_of_mem_arguments isHead isOpened
        (.identifier isKey) others mem

theorem ExprOf.nodeAt {e : Expr} (h : ExprOf tokens e)
    (mem : (before, node) ∈ operandNodes e) : NodeAt tokens before node := by
  cases h with
  | term word => exact word.nodeAt mem
  | concat leftOf isBars rightOf =>
      have others := ManyOf.cons
        (nodeBehind_operator isBars (.expr (.term rightOf))) .nil
      simpa using
        nodeAt_of_mem_row [] (.expr leftOf) others mem

theorem RolesOf.nodeAt {set : RoleSet} (h : RolesOf tokens set)
    (mem : (before, node) ∈ (Node.roles set).children) :
    NodeAt tokens before node := by
  cases h with
  | @intro head colon _ _ isHead isColon membersOf =>
      apply membersOf.nodeAt [head, colon]
      simpa [Node.children, Token.terminal, isHead, isColon] using mem

theorem OwnersOf.nodeAt {kind : KeyKind} {owners : List Identifier}
    (h : OwnersOf kind tokens owners) (lead : List Token)
    (mem : (before, node) ∈ Node.names (lead.map Token.terminal) owners) :
    NodeAt (lead ++ tokens) before node := by
  cases h with
  | shared ownersOf => exact ownersOf.nodeAt lead mem
  | single unshared isOwner =>
      exact nodeAt_of_mem_row lead (.identifier isOwner) .nil mem

theorem KeyOf.nodeAt {decl : KeyDecl} (h : KeyOf tokens decl)
    (mem : (before, node) ∈ (Node.key decl).children) :
    NodeAt tokens before node := by
  cases h with
  | @intro head name forWhom _ _ _ isHead isName isForWhom ownersOf =>
      have isHead := keyKind_eq_some.mp isHead
      rcases List.mem_cons.mp mem with here | later
      · obtain ⟨rfl, rfl⟩ := Prod.mk.inj here
        exact ⟨[head], [name], _, rfl, by simp [Token.terminal, isHead],
          .identifier isName⟩
      · apply ownersOf.nodeAt [head, name, forWhom]
        simpa [Token.terminal, isHead, isName, isForWhom, Token.identifier]
          using later

theorem MessageOf.nodeAt {sent : Message} (h : MessageOf tokens sent)
    (mem : (before, node) ∈ (Node.message sent).children) :
    NodeAt tokens before node := by
  cases h with
  | @intro sender arrow receiver colon tokens _ isSender isArrow isReceiver
      isColon bodyOf =>
      simp only [Node.children, List.mem_cons, List.not_mem_nil, or_false,
        Prod.mk.injEq] at mem
      rcases mem with ⟨rfl, rfl⟩ | ⟨rfl, rfl⟩ | ⟨rfl, rfl⟩
      · exact ⟨[], [sender], _, rfl, rfl, .identifier isSender⟩
      · refine ⟨[sender, arrow], [receiver], _, rfl, ?_,
          .identifier isReceiver⟩
        simp [Token.terminal, isSender, isArrow, Token.identifier]
      · refine ⟨[sender, arrow, receiver, colon], tokens, [], by simp, ?_,
          bodyOf.node⟩
        simp [Token.terminal, isSender, isArrow, isReceiver, isColon,
          Token.identifier]

theorem PermittedOf.nodeAt {permitted : Option (List Identifier)}
    (h : PermittedOf tokens permitted) (lead : List Token)
    (mem : (before, node) ∈
      Node.names (lead.map Token.terminal ++ [.keyword .forWhom])
        (permitted.getD [])) : NodeAt (lead ++ tokens) before node := by
  cases h with
  | none => cases mem
  | @some forWhom _ _ isForWhom namesOf =>
      have shown : lead.map Token.terminal ++ [.keyword .forWhom] =
          (lead ++ [forWhom]).map Token.terminal := by
        simp [Token.terminal, isForWhom]
      rw [shown] at mem
      simpa using namesOf.nodeAt _ mem

theorem AssertionOf.nodeAt {secret : Assertion} (h : AssertionOf tokens secret)
    (mem : (before, node) ∈ (Node.assertion secret).children) :
    NodeAt tokens before node := by
  cases h with
  | @intro head secret opened term closing _ _ isHead isSecret isOpened isTerm
      isClosing permittedOf =>
      rcases List.mem_cons.mp mem with here | later
      · obtain ⟨rfl, rfl⟩ := Prod.mk.inj here
        refine ⟨[head, secret, opened], [term], _, rfl, ?_,
          .identifier isTerm⟩
        simp [Token.terminal, isHead, isSecret, isOpened]
      · apply permittedOf.nodeAt [head, secret, opened, term, closing]
        simpa [Token.terminal, isHead, isSecret, isOpened, isTerm, isClosing,
          Token.identifier] using later

theorem NodeOf.nodeAt_of_mem_children {parent : Node}
    (h : NodeOf tokens parent) (mem : (before, node) ∈ parent.children) :
    NodeAt tokens before node := by
  cases h with
  | expr word => exact word.nodeAt mem
  | assigned isTarget isEquals valueOf =>
      have others := ManyOf.cons
        (nodeBehind_operator isEquals (.expr valueOf)) .nil
      simpa using
        nodeAt_of_mem_row [] (.identifier isTarget) others mem
  | identifier => cases mem
  | roles word => exact word.nodeAt mem
  | key word => exact word.nodeAt mem
  | message word => exact word.nodeAt mem
  | assertion word => exact word.nodeAt mem

/-! ## All levels -/

theorem NodeOf.nodeAt_of_has {parent : Node} (h : NodeOf tokens parent)
    (has : parent.Has before node) : NodeAt tokens before node := by
  -- On the way down the tokens shrink to those of the child.
  induction has generalizing tokens with
  | itself => exact h.nodeAt
  | inside mem _ ih => exact (h.nodeAt_of_mem_children mem).inside ih

end Places

end Secrecy.Grammar

namespace Secrecy.Protocol

open Grammar

def sections (p : Protocol) : List Node :=
  p.keys.map .key ++ (p.messages.map .message ++ p.assertions.map .assertion)

def Has (p : Protocol) (before : List Terminal) (node : Node) : Prop :=
  ∃ early part within,
    (early, part) ∈ Node.row [] [] (.roles p.roles :: p.sections) ∧
      part.Has within node ∧ before = early ++ within

variable {tokens : List Token} {p : Protocol}

theorem nodeAt_of_has {before : List Terminal} {node : Node}
    (h : ProtocolOf tokens p) (has : p.Has before node) :
    NodeAt tokens before node := by
  obtain ⟨early, part, within, mem, has, rfl⟩ := has
  have whole : NodeAt tokens early part := by
    cases h with
    | intro rolesOf keysOf messagesOf assertionsOf =>
        have keys := keysOf.map fun word => (NodeOf.key word).nodeBehind
        have messages :=
          messagesOf.map fun word => (NodeOf.message word).nodeBehind
        have assertions :=
          assertionsOf.map fun word => (NodeOf.assertion word).nodeBehind
        have later := keys.append (messages.append assertions)
        exact nodeAt_of_mem_row [] (.roles rolesOf) later mem
  exact whole.inside fun word => word.nodeAt_of_has has

end Secrecy.Protocol
