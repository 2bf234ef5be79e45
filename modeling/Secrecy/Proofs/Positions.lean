import Mathlib.Data.List.Basic
import Secrecy.Proofs.Grammar.Nodes
import Secrecy.Proofs.Scope.Culprits

/-!
# Lines of nodes and of faults

A node has the line of the first of the tokens that it was read from.  Every
identifier of a protocol is such a node, and a fault of scope shows at one of
them: it has the line of a token that is the name its message complains about.
-/

namespace Secrecy

open Grammar

/-! ## Identifiers are nodes -/

namespace Grammar.Node

variable {node child found : Node} {nodes : List Node}
  {before between : List Terminal} {identifier : Identifier}

theorem exists_mem_row (between before : List Terminal) (mem : node ∈ nodes) :
    ∃ early, (early, node) ∈ row between before nodes := by
  induction nodes generalizing before with
  | nil => cases mem
  | cons first rest ih =>
      rcases List.mem_cons.mp mem with rfl | later
      · exact ⟨before, List.mem_cons_self⟩
      · obtain ⟨early, mem⟩ := ih _ later
        exact ⟨early, List.mem_cons_of_mem _ mem⟩

theorem exists_has_of_child (mem : (before, child) ∈ node.children)
    (below : ∃ within, child.Has within found) :
    ∃ within, node.Has within found := by
  obtain ⟨within, has⟩ := below
  exact ⟨_, .inside mem has⟩

theorem exists_has_of_row (rowed : node.children = row between before nodes)
    (mem : child ∈ nodes) (below : ∃ within, child.Has within found) :
    ∃ within, node.Has within found := by
  obtain ⟨early, mem⟩ := exists_mem_row between before mem
  exact exists_has_of_child (rowed ▸ mem) below

theorem exists_has_itself (node : Node) : ∃ within, node.Has within node :=
  ⟨[], .itself node⟩

theorem exists_has_of_mem_written {e : Expr} (mem : identifier ∈ e.written) :
    ∃ within, (Node.expr e).Has within (.identifier identifier) := by
  induction e with
  | name named =>
      obtain rfl := List.mem_singleton.mp mem
      exact exists_has_of_child List.mem_cons_self (exists_has_itself _)
  | concat left right line ihLeft ihRight =>
      rcases List.mem_append.mp mem with left | right
      · exact exists_has_of_row rfl (by simp) (ihLeft left)
      · exact exists_has_of_row rfl (by simp) (ihRight right)
  | enc key message line ih | mac key message line ih
  | sign key message line ih | assign target value line ih =>
      rcases List.mem_cons.mp mem with rfl | later
      · exact exists_has_of_row rfl List.mem_cons_self (exists_has_itself _)
      · exact exists_has_of_row rfl (by simp) (ih later)
  | hash inner line ih => exact exists_has_of_row rfl (by simp) (ih mem)
  | verify key message signature line ihMessage ihSignature =>
      rcases List.mem_cons.mp mem with rfl | later
      · exact exists_has_of_row rfl List.mem_cons_self (exists_has_itself _)
      rcases List.mem_append.mp later with message | signature
      · exact exists_has_of_row rfl (by simp) (ihMessage message)
      · exact exists_has_of_row rfl (by simp) (ihSignature signature)

theorem exists_mem_names {listed : List Identifier} (before : List Terminal)
    (mem : identifier ∈ listed) :
    ∃ early, (early, .identifier identifier) ∈ names before listed :=
  exists_mem_row _ before (List.mem_map_of_mem mem)

def identifiers : Node → List Identifier
  | .roles set => set.members
  | .key decl => decl.identifiers
  | .message sent => sent.identifiers
  | .assertion secret => secret.identifiers
  | .expr e => e.written
  | .identifier name => [name]

theorem exists_has_of_mem_identifiers (mem : identifier ∈ node.identifiers) :
    ∃ within, node.Has within (.identifier identifier) := by
  cases node with
  | roles set =>
      obtain ⟨early, mem⟩ := exists_mem_names _ mem
      exact exists_has_of_child mem (exists_has_itself _)
  | key decl =>
      rcases List.mem_cons.mp mem with rfl | owner
      · exact exists_has_of_child List.mem_cons_self (exists_has_itself _)
      · obtain ⟨early, mem⟩ := exists_mem_names _ owner
        exact exists_has_of_child (List.mem_cons_of_mem _ mem)
          (exists_has_itself _)
  | message sent =>
      rcases List.mem_cons.mp mem with rfl | later
      · exact exists_has_of_child List.mem_cons_self (exists_has_itself _)
      rcases List.mem_cons.mp later with rfl | body
      · exact exists_has_of_child (List.mem_cons_of_mem _ List.mem_cons_self)
          (exists_has_itself _)
      · exact exists_has_of_child
          (List.mem_cons_of_mem _ (List.mem_cons_of_mem _ List.mem_cons_self))
          (exists_has_of_mem_written body)
  | assertion secret =>
      rcases List.mem_cons.mp mem with rfl | permitted
      · exact exists_has_of_child List.mem_cons_self (exists_has_itself _)
      · obtain ⟨early, mem⟩ := exists_mem_names _ permitted
        exact exists_has_of_child (List.mem_cons_of_mem _ mem)
          (exists_has_itself _)
  | expr e => exact exists_has_of_mem_written mem
  | identifier name =>
      obtain rfl := List.mem_singleton.mp mem
      exact exists_has_itself _

end Grammar.Node

namespace Protocol

variable {tokens : List Token} {p : Protocol}

theorem identifiers_eq_flatMap (p : Protocol) :
    p.identifiers = (.roles p.roles :: p.sections).flatMap Node.identifiers := by
  simp [identifiers, sections, Node.identifiers, List.flatMap_map]

theorem exists_has_of_mem_identifiers {identifier : Identifier}
    (mem : identifier ∈ p.identifiers) :
    ∃ before, p.Has before (.identifier identifier) := by
  rw [identifiers_eq_flatMap] at mem
  obtain ⟨part, isPart, mem⟩ := List.mem_flatMap.mp mem
  obtain ⟨early, found⟩ := Node.exists_mem_row [] [] isPart
  obtain ⟨within, has⟩ := Node.exists_has_of_mem_identifiers mem
  exact ⟨_, early, part, within, found, has, rfl⟩

end Protocol

/-! ## Faults -/

/-- What a message names first is what the fault shows at. -/
theorem ScopeFault.message_eq (fault : ScopeFault) :
    ∃ opening closing : String,
      fault.message = opening ++ named fault.culprit.name ++ closing ∧
        '\'' ∉ opening.toList := by
  -- The equations of `message` are costly to derive, its body is not.
  delta message
  cases fault with
  | duplicateRole role first =>
      refine ⟨"duplicate role ",
        " (first declared on line " ++ toString first.line ++ ")", ?_, by simp⟩
      simp only [culprit, String.append_assoc]
  | keyConflict key existing =>
      refine ⟨"key ", " conflicts with " ++ existing.kind.word ++
        " declared on line " ++ toString existing.line, ?_, by simp⟩
      simp only [culprit, String.append_assoc]
  | foreignOwner owner key =>
      refine ⟨"owner ", " of key " ++ named key ++ " is not a declared role",
        ?_, by simp⟩
      simp only [culprit, String.append_assoc]
  | foreignEndpoint endpoint who =>
      refine ⟨endpoint.word ++ " ", " is not a declared role", rfl, ?_⟩
      cases endpoint <;> simp [Endpoint.word]
  | undeclaredKey key constructor =>
      refine ⟨"undeclared key ", " used in " ++ constructor ++ "(...)", ?_,
        by simp⟩
      simp only [culprit, String.append_assoc]
  | roleAsKey key constructor =>
      refine ⟨"role ", " cannot be used as a key in " ++ constructor ++
        "(...)", ?_, by simp⟩
      simp only [culprit, String.append_assoc]
  | rebound target existing =>
      refine ⟨"cannot assign to ", ": already bound as " ++
        existing.kind.word ++ " (line " ++ toString existing.line ++ ")", ?_,
        by simp⟩
      simp only [culprit, String.append_assoc]
  | unknownTerm term =>
      refine ⟨"secrecy assertion on undeclared identifier ", "", ?_, by simp⟩
      simp only [culprit, String.append_empty]
  | foreignPermitted role =>
      refine ⟨"", " in 'for' list is not a declared role", ?_, by simp⟩
      simp only [culprit, String.empty_append]

namespace Protocol

variable {tokens : List Token} {p : Protocol}

theorem protocolOf_of_ofTokens? (accepted : ofTokens? tokens = some (.ok p)) :
    ∃ words rest, tokens = words ++ rest ∧ ProtocolOf words p :=
  ⟨_, _, List.takeWhile_append_dropWhile.symm,
    (ofTokens?_eq_ok.mp accepted).2⟩

theorem line_of_has (accepted : ofTokens? tokens = some (.ok p))
    {before : List Terminal} {node : Node} (has : p.Has before node) :
    ∃ (early : List Token) (first : Token) (own late : List Token),
      tokens = early ++ (first :: own) ++ late ∧
      early.map Token.terminal = before ∧
      (first :: own).map Token.terminal = node.yield ∧
      node.line = first.line := by
  obtain ⟨words, rest, rfl, word⟩ := protocolOf_of_ofTokens? accepted
  obtain ⟨early, own, late, rfl, shown, nodeOf⟩ := nodeAt_of_has word has
  obtain ⟨first, others, rfl, same⟩ := nodeOf.first
  exact ⟨early, first, others, late ++ rest, by simp, shown, nodeOf.spells,
    same⟩

theorem line_of_fault (accepted : ofTokens? tokens = some (.ok p))
    {fault : ScopeFault} (faulty : p.checked = .error fault) :
    ∃ (early : List Token) (token : Token) (late : List Token),
      tokens = early ++ token :: late ∧
      p.Has (early.map Token.terminal) (.identifier fault.culprit) ∧
      token.kind = .name ∧ token.text = fault.culprit.name ∧
      token.line = fault.line := by
  have unscoped : p.scope = .error fault := by
    rcases Outcome.bind_eq_error.mp faulty with unscoped | ⟨_, _, ⟨⟩⟩
    exact unscoped
  obtain ⟨before, has⟩ :=
    exists_has_of_mem_identifiers (culprit_of_scope unscoped)
  obtain ⟨early, token, own, late, rfl, rfl, spelt, same⟩ :=
    line_of_has accepted has
  obtain ⟨shown, rfl⟩ : token.terminal = .name fault.culprit.name ∧ own = [] := by
    simpa [Node.yield] using spelt
  obtain ⟨isName, text⟩ := Token.terminal_eq_name.mp shown
  exact ⟨early, token, late, by simp, has, isName, text, same.symm⟩

/--
A node has the line of its first token, whichever place it takes, and a fault
of scope that of the token which is the name it complains about.
-/
theorem ofTokens_lines (accepted : ofTokens? tokens = some (.ok p)) :
    (∀ before node, p.Has before node →
      ∃ (early : List Token) (first : Token) (own late : List Token),
        tokens = early ++ (first :: own) ++ late ∧
        early.map Token.terminal = before ∧
        (first :: own).map Token.terminal = node.yield ∧
        node.line = first.line) ∧
    ∀ fault, p.checked = .error fault →
      ∃ (early : List Token) (token : Token) (late : List Token),
        tokens = early ++ token :: late ∧
        p.Has (early.map Token.terminal) (.identifier fault.culprit) ∧
        token.kind = .name ∧ token.text = fault.culprit.name ∧
        token.line = fault.line ∧
        ∃ opening closing : String,
          fault.message = opening ++ ScopeFault.named token.text ++ closing ∧
            '\'' ∉ opening.toList := by
  refine ⟨fun before node has => line_of_has accepted has,
    fun fault faulty => ?_⟩
  obtain ⟨early, token, late, rfl, has, isName, text, same⟩ :=
    line_of_fault accepted faulty
  refine ⟨early, token, late, rfl, has, isName, text, same, ?_⟩
  rw [text]
  exact fault.message_eq

def chainTokens : List Token :=
  [⟨.keyword .roles, "roles", 1⟩, ⟨.operator .colon, ":", 1⟩, ⟨.name, "A", 1⟩,
    ⟨.operator .comma, ",", 1⟩, ⟨.name, "B", 2⟩,
    ⟨.name, "A", 3⟩, ⟨.operator .arrow, "->", 3⟩, ⟨.name, "B", 3⟩,
    ⟨.operator .colon, ":", 3⟩, ⟨.name, "x", 4⟩,
    ⟨.operator .bars, "||", 4⟩, ⟨.name, "y", 5⟩,
    ⟨.operator .bars, "||", 5⟩, ⟨.keyword .enc, "Enc", 6⟩,
    ⟨.operator .leftParen, "(", 6⟩, ⟨.name, "k", 7⟩,
    ⟨.operator .comma, ",", 7⟩, ⟨.name, "z", 8⟩,
    ⟨.operator .rightParen, ")", 8⟩, ⟨.stop, "", 9⟩]

def chain : Expr :=
  .concat (.concat (.name ⟨"x", 4⟩) (.name ⟨"y", 5⟩) 4)
    (.enc ⟨"k", 7⟩ (.name ⟨"z", 8⟩) 6) 4

def chained : Protocol :=
  ⟨⟨[⟨"A", 1⟩, ⟨"B", 2⟩], 1⟩, [], [⟨⟨"A", 3⟩, ⟨"B", 3⟩, chain, 3⟩], []⟩

theorem has_chain : ∃ before, chained.Has before (.expr chain) := by
  let sent : Message := ⟨⟨"A", 3⟩, ⟨"B", 3⟩, chain, 3⟩
  have isPart : Node.message sent ∈ .roles chained.roles :: chained.sections :=
    List.mem_cons_of_mem _ List.mem_cons_self
  have below : ∃ within, (Node.message sent).Has within (.expr chain) :=
    Node.exists_has_of_child
      (List.mem_cons_of_mem _ (List.mem_cons_of_mem _ List.mem_cons_self))
      (Node.exists_has_itself _)
  obtain ⟨early, mem⟩ := Node.exists_mem_row [] [] isPart
  obtain ⟨within, has⟩ := below
  exact ⟨_, early, _, within, mem, has, rfl⟩

theorem ofTokens_lines_chained :
    ofTokens? chainTokens = some (.ok chained) ∧
      (∃ (before : List Terminal) (early : List Token) (first : Token)
          (own late : List Token), chained.Has before (.expr chain) ∧
        chainTokens = early ++ (first :: own) ++ late ∧
        early.map Token.terminal = before ∧ chain.line = first.line) ∧
      ∃ fault, chained.checked = .error fault ∧
        ∃ (early : List Token) (token : Token) (late : List Token),
          chainTokens = early ++ token :: late ∧
          token.kind = .name ∧ token.text = "k" ∧ token.line = 7 := by
  have accepted : ofTokens? chainTokens = some (.ok chained) := by
    decide +kernel
  have faulty : chained.checked = .error (.undeclaredKey ⟨"k", 7⟩ "Enc") := by
    decide +kernel
  obtain ⟨nodes, faults⟩ := ofTokens_lines accepted
  obtain ⟨before, has⟩ := has_chain
  obtain ⟨early, first, own, late, same, shown, -, line⟩ := nodes _ _ has
  obtain ⟨early', token, late', same', -, isName, text, line', -⟩ :=
    faults _ faulty
  exact ⟨accepted, ⟨before, early, first, own, late, has, same, shown, line⟩, _,
    faulty, early', token, late', same', isName, text, line'⟩

end Protocol

end Secrecy
