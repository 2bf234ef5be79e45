import Secrecy.Proofs.Grammar.Yield

/-!
# Derivations spell yields

What is derived from a token list is grammatical and has the list for its
yield.  Conversely a token list that shows the yield of something grammatical
derives it, up to the lines that only the tokens know.
-/

namespace Secrecy.Grammar

/-! ## Expressions -/

mutual

theorem TermOf.spells {tokens : List Token} {e : Expr}
    (h : TermOf tokens e) :
    tokens.map Token.terminal = e.yield ∧ e.Grouped ∧
      e.isConcat = false := by
  match h with
  | .name kind =>
      exact ⟨by simp [Token.terminal, kind, Expr.yield, Token.identifier],
        trivial, rfl⟩
  | .enc kind arguments =>
      obtain ⟨spelt, grouped⟩ := arguments.spells
      exact ⟨by simp [Token.terminal, kind, Expr.yield, spelt,
        Terminal.applied], grouped, rfl⟩
  | .mac kind arguments =>
      obtain ⟨spelt, grouped⟩ := arguments.spells
      exact ⟨by simp [Token.terminal, kind, Expr.yield, spelt,
        Terminal.applied], grouped, rfl⟩
  | .sign kind arguments =>
      obtain ⟨spelt, grouped⟩ := arguments.spells
      exact ⟨by simp [Token.terminal, kind, Expr.yield, spelt,
        Terminal.applied], grouped, rfl⟩
  | .verify kind isOpened isKey isComma messageOf isComma' signatureOf
      isClosing =>
      obtain ⟨spelt, grouped⟩ := messageOf.spells
      obtain ⟨spelt', grouped'⟩ := signatureOf.spells
      refine ⟨?_, ⟨grouped, grouped'⟩, rfl⟩
      simp [Token.terminal, kind, isOpened, isKey, isComma, isComma',
        isClosing, Expr.yield, Terminal.applied, Token.identifier, spelt,
        spelt']
  | .hash kind isOpened innerOf isClosing =>
      obtain ⟨spelt, grouped⟩ := innerOf.spells
      refine ⟨?_, grouped, rfl⟩
      simp [Token.terminal, kind, isOpened, isClosing, Expr.yield,
        Terminal.applied, spelt]

theorem ArgumentsOf.spells {tokens : List Token} {key : Identifier}
    {message : Expr} (h : ArgumentsOf tokens key message) :
    tokens.map Token.terminal =
        .operator .leftParen :: .name key.name :: .operator .comma ::
          (message.yield ++ [.operator .rightParen]) ∧
      message.Grouped := by
  match h with
  | .intro isOpened isKey isComma messageOf isClosing =>
      obtain ⟨spelt, grouped⟩ := messageOf.spells
      refine ⟨?_, grouped⟩
      simp [Token.terminal, isOpened, isKey, isComma, isClosing,
        Token.identifier, spelt]

theorem ExprOf.spells {tokens : List Token} {e : Expr}
    (h : ExprOf tokens e) :
    tokens.map Token.terminal = e.yield ∧ e.Grouped := by
  match h with
  | .term term =>
      obtain ⟨spelt, grouped, -⟩ := term.spells
      exact ⟨spelt, grouped⟩
  | .concat leftOf isBars rightOf =>
      obtain ⟨spelt, grouped⟩ := leftOf.spells
      obtain ⟨spelt', grouped', single⟩ := rightOf.spells
      refine ⟨?_, grouped, grouped', single⟩
      simp [Token.terminal, isBars, Expr.yield, spelt, spelt']

end

theorem identifier_alike {token : Token} {identifier : Identifier}
    (h : token.terminal = .name identifier.name) :
    token.kind = .name ∧
      token.identifier.forgetLines = identifier.forgetLines := by
  obtain ⟨kind, text⟩ := Token.terminal_eq_name.mp h
  exact ⟨kind, by simp [Identifier.forgetLines, Token.identifier, text]⟩

/--
Derivable but for the lines.  A concatenation is no term, but anything else is.
-/
def Derives (tokens : List Token) (e : Expr) : Prop :=
  ∃ q, ExprOf tokens q ∧ q.forgetLines = e.forgetLines ∧
    (e.isConcat = false → TermOf tokens q)

theorem argumentsOf_of_yield {tokens : List Token} {word : Keyword}
    {key : Identifier} {message : Expr}
    (derives : ∀ {tokens : List Token},
      tokens.map Token.terminal = message.yield → Derives tokens message)
    (h : tokens.map Token.terminal =
      Terminal.applied word
        (.name key.name :: .operator .comma :: message.yield)) :
    ∃ head others key' q, tokens = head :: others ∧
      head.kind = .keyword word ∧ ArgumentsOf others key' q ∧
      key'.forgetLines = key.forgetLines ∧
      q.forgetLines = message.forgetLines := by
  simp only [Terminal.applied, List.cons_append, List.map_eq_cons_iff,
    List.map_eq_append_iff, List.map_eq_nil_iff] at h
  obtain ⟨head, _, rfl, isHead, opened, _, rfl, isOpened, name, _, rfl, isName,
    comma, _, rfl, isComma, ofMessage, _, rfl, spelt, closing, _, rfl,
    isClosing, rfl⟩ := h
  obtain ⟨q, messageOf, alike, -⟩ := derives spelt
  obtain ⟨isName, same⟩ := identifier_alike isName
  exact ⟨head, _, name.identifier, q, rfl,
    Token.terminal_eq_keyword.mp isHead,
    .intro (Token.terminal_eq_operator.mp isOpened) isName
      (Token.terminal_eq_operator.mp isComma) messageOf
      (Token.terminal_eq_operator.mp isClosing), same, alike⟩

theorem derives_of_yield {e : Expr} (grouped : e.Grouped)
    {tokens : List Token} (h : tokens.map Token.terminal = e.yield) :
    Derives tokens e := by
  induction e generalizing tokens with
  | name identifier =>
      simp only [Expr.yield, List.map_eq_cons_iff, List.map_eq_nil_iff] at h
      obtain ⟨token, _, rfl, isName, rfl⟩ := h
      obtain ⟨isName, same⟩ := identifier_alike isName
      refine ⟨.name token.identifier, .term (.name isName), ?_,
        fun _ => .name isName⟩
      simp [Expr.forgetLines, same]
  | concat left right line ihLeft ihRight =>
      obtain ⟨groupedLeft, groupedRight, single⟩ := grouped
      simp only [Expr.yield, List.map_eq_cons_iff, List.map_eq_append_iff] at h
      obtain ⟨ofLeft, _, rfl, spelt, bars, ofRight, rfl, isBars, spelt'⟩ := h
      obtain ⟨left', leftOf, alike, -⟩ := ihLeft groupedLeft spelt
      obtain ⟨right', -, alike', rightOf⟩ := ihRight groupedRight spelt'
      refine ⟨.concat left' right' left'.line,
        .concat leftOf (Token.terminal_eq_operator.mp isBars)
          (rightOf single), ?_, fun single => by cases single⟩
      simp [Expr.forgetLines, alike, alike']
  | enc key message line ih =>
      obtain ⟨head, _, key', q, rfl, isHead, arguments, same, alike⟩ :=
        argumentsOf_of_yield (ih grouped) h
      have term := TermOf.enc isHead arguments
      refine ⟨_, .term term, ?_, fun _ => term⟩
      simp [Expr.forgetLines, same, alike]
  | mac key message line ih =>
      obtain ⟨head, _, key', q, rfl, isHead, arguments, same, alike⟩ :=
        argumentsOf_of_yield (ih grouped) h
      have term := TermOf.mac isHead arguments
      refine ⟨_, .term term, ?_, fun _ => term⟩
      simp [Expr.forgetLines, same, alike]
  | sign key message line ih =>
      obtain ⟨head, _, key', q, rfl, isHead, arguments, same, alike⟩ :=
        argumentsOf_of_yield (ih grouped) h
      have term := TermOf.sign isHead arguments
      refine ⟨_, .term term, ?_, fun _ => term⟩
      simp [Expr.forgetLines, same, alike]
  | hash inner line ih =>
      simp only [Expr.yield, Terminal.applied, List.map_eq_cons_iff,
        List.map_eq_append_iff, List.map_eq_nil_iff] at h
      obtain ⟨head, _, rfl, isHead, opened, _, rfl, isOpened, ofInner, _, rfl,
        spelt, closing, _, rfl, isClosing, rfl⟩ := h
      obtain ⟨q, innerOf, alike, -⟩ := ih grouped spelt
      have term := TermOf.hash (Token.terminal_eq_keyword.mp isHead)
        (Token.terminal_eq_operator.mp isOpened) innerOf
        (Token.terminal_eq_operator.mp isClosing)
      refine ⟨_, .term term, ?_, fun _ => term⟩
      simp [Expr.forgetLines, alike]
  | verify key message signature line ihMessage ihSignature =>
      simp only [Expr.yield, Terminal.applied, List.cons_append,
        List.append_assoc, List.map_eq_cons_iff, List.map_eq_append_iff,
        List.map_eq_nil_iff] at h
      obtain ⟨head, _, rfl, isHead, opened, _, rfl, isOpened, name, _, rfl,
        isName, comma, _, rfl, isComma, ofMessage, _, rfl, spelt, comma', _,
        rfl, isComma', ofSignature, _, rfl, spelt', closing, _, rfl, isClosing,
        rfl⟩ := h
      obtain ⟨q, messageOf, alike, -⟩ := ihMessage grouped.1 spelt
      obtain ⟨q', signatureOf, alike', -⟩ := ihSignature grouped.2 spelt'
      obtain ⟨isName, same⟩ := identifier_alike isName
      have term := TermOf.verify (Token.terminal_eq_keyword.mp isHead)
        (Token.terminal_eq_operator.mp isOpened) isName
        (Token.terminal_eq_operator.mp isComma) messageOf
        (Token.terminal_eq_operator.mp isComma') signatureOf
        (Token.terminal_eq_operator.mp isClosing)
      refine ⟨_, .term term, ?_, fun _ => term⟩
      simp [Expr.forgetLines, same, alike, alike']
  | assign => cases grouped

/-! ## Bodies -/

theorem BodyOf.spells {tokens : List Token} {e : Expr} (h : BodyOf tokens e) :
    tokens.map Token.terminal = e.yield ∧ e.GroupedBody ∧
      e.depth ≤ depthLimit := by
  cases h with
  | expression exprOf shallow =>
      obtain ⟨spelt, grouped⟩ := exprOf.spells
      refine ⟨spelt, ?_, shallow⟩
      cases e with
      | assign => cases grouped
      | _ => exact grouped
  | assign isTarget isEquals valueOf shallow =>
      obtain ⟨spelt, grouped⟩ := valueOf.spells
      refine ⟨?_, grouped, shallow⟩
      simp [Token.terminal, isTarget, isEquals, Expr.yield, Token.identifier,
        spelt]

theorem bodyOf_of_yield {e : Expr} {tokens : List Token}
    (grouped : e.GroupedBody) (shallow : e.depth ≤ depthLimit)
    (h : tokens.map Token.terminal = e.yield) :
    ∃ q, BodyOf tokens q ∧ q.forgetLines = e.forgetLines := by
  have depth {q e : Expr} (alike : q.forgetLines = e.forgetLines) :
      q.depth = e.depth := by
    rw [← q.depth_forgetLines, alike, e.depth_forgetLines]
  have plain (grouped : e.Grouped) :
      ∃ q, BodyOf tokens q ∧ q.forgetLines = e.forgetLines := by
    obtain ⟨q, exprOf, alike, -⟩ := derives_of_yield grouped h
    exact ⟨q, .expression exprOf (depth alike ▸ shallow), alike⟩
  cases e with
  | assign target value line =>
      simp only [Expr.yield, List.map_eq_cons_iff] at h
      obtain ⟨name, _, rfl, isName, equals, _, rfl, isEquals, spelt⟩ := h
      obtain ⟨q, valueOf, alike, -⟩ := derives_of_yield grouped spelt
      obtain ⟨isName, same⟩ := identifier_alike isName
      refine ⟨_, .assign isName (Token.terminal_eq_operator.mp isEquals)
        valueOf (depth alike ▸ shallow), ?_⟩
      simp [Expr.forgetLines, same, alike]
  | _ => exact plain grouped

/-! ## Rows -/

theorem ManyOf.spells {α : Type} {Word : List Token → α → Prop}
    {yield : α → List Terminal} {Good : α → Prop} {tokens : List Token}
    {items : List α} (h : ManyOf Word tokens items)
    (each : ∀ {tokens : List Token} {a : α}, Word tokens a →
      tokens.map Token.terminal = yield a ∧ Good a) :
    tokens.map Token.terminal = items.flatMap yield ∧
      ∀ a ∈ items, Good a := by
  induction h with
  | nil => simp
  | cons word rest ih =>
      obtain ⟨spelt, good⟩ := each word
      rw [List.map_append, List.flatMap_cons, spelt, ih.1,
        List.forall_mem_cons]
      exact ⟨rfl, good, ih.2⟩

theorem manyOf_of_yield {α : Type} {Word : List Token → α → Prop}
    {yield : α → List Terminal} {forget : α → α} {items : List α}
    {tokens : List Token}
    (each : ∀ a ∈ items, ∀ {tokens : List Token},
      tokens.map Token.terminal = yield a →
      ∃ b, Word tokens b ∧ forget b = forget a)
    (h : tokens.map Token.terminal = items.flatMap yield) :
    ∃ others, ManyOf Word tokens others ∧
      others.map forget = items.map forget := by
  induction items generalizing tokens with
  | nil =>
      obtain rfl := List.map_eq_nil_iff.mp h
      exact ⟨[], .nil, rfl⟩
  | cons a as ih =>
      rw [List.flatMap_cons, List.map_eq_append_iff] at h
      obtain ⟨first, rest, rfl, spelt, spelt'⟩ := h
      obtain ⟨b, word, same⟩ := each a List.mem_cons_self spelt
      obtain ⟨bs, words, same'⟩ :=
        ih (fun c mem => each c (List.mem_cons_of_mem _ mem)) spelt'
      exact ⟨b :: bs, .cons word words, by simp [same, same']⟩

/-! ## Declarations -/

theorem NamesOf.spells {tokens : List Token} {names : List Identifier}
    (h : NamesOf tokens names) :
    tokens.map Token.terminal = Identifier.listYield names ∧ names ≠ [] := by
  cases h with
  | intro isFirst othersOf =>
      refine ⟨?_, List.cons_ne_nil _ _⟩
      have each {tokens : List Token} {other : Identifier}
          (word : NextNameOf tokens other) :
          tokens.map Token.terminal =
              [.operator .comma, .name other.name] ∧ True := by
        cases word with
        | intro isComma isName =>
            simp [Token.terminal, isComma, isName, Token.identifier]
      have spelt := (othersOf.spells each).1
      simp [Token.terminal, isFirst, Identifier.listYield, Token.identifier,
        spelt]

theorem namesOf_of_yield {names : List Identifier} {tokens : List Token}
    (nonempty : names ≠ [])
    (h : tokens.map Token.terminal = Identifier.listYield names) :
    ∃ others, NamesOf tokens others ∧
      others.map Identifier.forgetLines =
        names.map Identifier.forgetLines := by
  cases names with
  | nil => exact absurd rfl nonempty
  | cons first rest =>
      obtain ⟨token, _, rfl, isName, spelt⟩ := List.map_eq_cons_iff.mp h
      obtain ⟨isName, same⟩ := identifier_alike isName
      have each : ∀ other ∈ rest, ∀ {tokens : List Token},
          tokens.map Token.terminal =
            [.operator .comma, .name other.name] →
          ∃ name, NextNameOf tokens name ∧
            name.forgetLines = other.forgetLines := by
        intro other _ tokens h
        simp only [List.map_eq_cons_iff, List.map_eq_nil_iff] at h
        obtain ⟨comma, _, rfl, isComma, token, _, rfl, isName, rfl⟩ := h
        obtain ⟨isName, same⟩ := identifier_alike isName
        exact ⟨token.identifier,
          .intro (Token.terminal_eq_operator.mp isComma) isName, same⟩
      obtain ⟨others, othersOf, same'⟩ := manyOf_of_yield each spelt
      exact ⟨_, .intro isName othersOf, by simp [same, same']⟩

theorem RolesOf.spells {tokens : List Token} {roles : RoleSet}
    (h : RolesOf tokens roles) :
    tokens.map Token.terminal = roles.yield ∧ roles.members ≠ [] := by
  cases h with
  | intro isHead isColon membersOf =>
      obtain ⟨spelt, nonempty⟩ := membersOf.spells
      refine ⟨?_, nonempty⟩
      simp [Token.terminal, isHead, isColon, RoleSet.yield, spelt]

theorem rolesOf_of_yield {roles : RoleSet} {tokens : List Token}
    (nonempty : roles.members ≠ [])
    (h : tokens.map Token.terminal = roles.yield) :
    ∃ q, RolesOf tokens q ∧ q.forgetLines = roles.forgetLines := by
  simp only [RoleSet.yield, List.map_eq_cons_iff] at h
  obtain ⟨head, _, rfl, isHead, colon, _, rfl, isColon, spelt⟩ := h
  obtain ⟨members, membersOf, same⟩ := namesOf_of_yield nonempty spelt
  refine ⟨_, .intro (Token.terminal_eq_keyword.mp isHead)
    (Token.terminal_eq_operator.mp isColon) membersOf, ?_⟩
  simp [RoleSet.forgetLines, same]

theorem keyKind_eq_some {kind : KeyKind} {found : Token.Kind} :
    keyKind? found = some kind ↔ found = .keyword kind.word := by
  constructor
  · intro h
    unfold keyKind? at h
    split at h <;> cases h <;> rfl
  · rintro rfl
    cases kind <;> rfl

theorem KeyOf.spells {tokens : List Token} {key : KeyDecl}
    (h : KeyOf tokens key) :
    tokens.map Token.terminal = key.yield ∧ key.Owned := by
  cases h with
  | intro isHead isName isForWhom ownersOf =>
      have isHead := keyKind_eq_some.mp isHead
      cases ownersOf with
      | shared ownersOf =>
          obtain ⟨spelt, nonempty⟩ := ownersOf.spells
          refine ⟨?_, nonempty, fun unshared => absurd rfl unshared⟩
          simp [Token.terminal, isHead, isName, isForWhom, KeyDecl.yield,
            Token.identifier, spelt]
      | single unshared isOwner =>
          refine ⟨?_, List.cons_ne_nil _ _, fun _ => rfl⟩
          simp [Token.terminal, isHead, isName, isForWhom, isOwner,
            KeyDecl.yield, Token.identifier, Identifier.listYield]

theorem ownersOf_of_yield {key : KeyDecl} {tokens : List Token}
    (owned : key.Owned)
    (h : tokens.map Token.terminal = Identifier.listYield key.owners) :
    ∃ owners, OwnersOf key.kind tokens owners ∧
      owners.map Identifier.forgetLines =
        key.owners.map Identifier.forgetLines := by
  by_cases shared : key.kind = .sharedKey
  · obtain ⟨owners, ownersOf, same⟩ := namesOf_of_yield owned.nonempty h
    exact ⟨owners, shared ▸ .shared ownersOf, same⟩
  · obtain ⟨owner, only⟩ := List.length_eq_one_iff.mp (owned.single shared)
    rw [only] at h ⊢
    simp only [Identifier.listYield, List.flatMap_nil, List.map_eq_cons_iff,
      List.map_eq_nil_iff] at h
    obtain ⟨token, _, rfl, isName, rfl⟩ := h
    obtain ⟨isName, same⟩ := identifier_alike isName
    exact ⟨_, .single shared isName, by simp [same]⟩

theorem keyOf_of_yield {key : KeyDecl} {tokens : List Token}
    (owned : key.Owned) (h : tokens.map Token.terminal = key.yield) :
    ∃ q, KeyOf tokens q ∧ q.forgetLines = key.forgetLines := by
  simp only [KeyDecl.yield, List.map_eq_cons_iff] at h
  obtain ⟨head, _, rfl, isHead, name, _, rfl, isName, forWhom, _, rfl,
    isForWhom, spelt⟩ := h
  obtain ⟨owners, ownersOf, same⟩ := ownersOf_of_yield owned spelt
  obtain ⟨isName, same'⟩ := identifier_alike isName
  have isHead := keyKind_eq_some.mpr (Token.terminal_eq_keyword.mp isHead)
  refine ⟨_, .intro isHead isName (Token.terminal_eq_keyword.mp isForWhom)
    ownersOf, ?_⟩
  simp [KeyDecl.forgetLines, same, same']

/-! ## Messages and assertions -/

theorem MessageOf.spells {tokens : List Token} {message : Message}
    (h : MessageOf tokens message) :
    tokens.map Token.terminal = message.yield ∧ message.Writable := by
  cases h with
  | intro isSender isArrow isReceiver isColon bodyOf =>
      obtain ⟨spelt, grouped, shallow⟩ := bodyOf.spells
      refine ⟨?_, grouped, shallow⟩
      simp [Token.terminal, isSender, isArrow, isReceiver, isColon,
        Message.yield, Token.identifier, spelt]

theorem messageOf_of_yield {message : Message} {tokens : List Token}
    (writable : message.Writable)
    (h : tokens.map Token.terminal = message.yield) :
    ∃ q, MessageOf tokens q ∧ q.forgetLines = message.forgetLines := by
  simp only [Message.yield, List.map_eq_cons_iff] at h
  obtain ⟨sender, _, rfl, isSender, arrow, _, rfl, isArrow, receiver, _, rfl,
    isReceiver, colon, _, rfl, isColon, spelt⟩ := h
  obtain ⟨body, bodyOf, alike⟩ :=
    bodyOf_of_yield writable.grouped writable.shallow spelt
  obtain ⟨isSender, sameSender⟩ := identifier_alike isSender
  obtain ⟨isReceiver, sameReceiver⟩ := identifier_alike isReceiver
  refine ⟨_, .intro isSender (Token.terminal_eq_operator.mp isArrow) isReceiver
    (Token.terminal_eq_operator.mp isColon) bodyOf, ?_⟩
  simp [Message.forgetLines, sameSender, sameReceiver, alike]

theorem AssertionOf.spells {tokens : List Token} {assertion : Assertion}
    (h : AssertionOf tokens assertion) :
    tokens.map Token.terminal = assertion.yield ∧
      assertion.permitted ≠ some [] := by
  cases h with
  | intro isHead isSecret isOpened isTerm isClosing permittedOf =>
      cases permittedOf with
      | none =>
          refine ⟨?_, nofun⟩
          simp [Token.terminal, isHead, isSecret, isOpened, isTerm, isClosing,
            Assertion.yield, Identifier.permittedYield, Terminal.applied,
            Token.identifier]
      | some isForWhom namesOf =>
          obtain ⟨spelt, nonempty⟩ := namesOf.spells
          refine ⟨?_, by simpa using nonempty⟩
          simp [Token.terminal, isHead, isSecret, isOpened, isTerm, isClosing,
            isForWhom, Assertion.yield, Identifier.permittedYield,
            Terminal.applied, Token.identifier, spelt]

theorem permittedOf_of_yield {permitted : Option (List Identifier)}
    {tokens : List Token} (named : permitted ≠ some [])
    (h : tokens.map Token.terminal = Identifier.permittedYield permitted) :
    ∃ q, PermittedOf tokens q ∧
      q.map (·.map Identifier.forgetLines) =
        permitted.map (·.map Identifier.forgetLines) := by
  cases permitted with
  | none =>
      obtain rfl := List.map_eq_nil_iff.mp h
      exact ⟨none, .none, rfl⟩
  | some names =>
      obtain ⟨forWhom, _, rfl, isForWhom, spelt⟩ := List.map_eq_cons_iff.mp h
      obtain ⟨others, namesOf, same⟩ :=
        namesOf_of_yield (fun empty => named (congrArg some empty)) spelt
      exact ⟨_, .some (Token.terminal_eq_keyword.mp isForWhom) namesOf,
        by simp [same]⟩

theorem assertionOf_of_yield {assertion : Assertion} {tokens : List Token}
    (named : assertion.permitted ≠ some [])
    (h : tokens.map Token.terminal = assertion.yield) :
    ∃ q, AssertionOf tokens q ∧ q.forgetLines = assertion.forgetLines := by
  simp only [Assertion.yield, Terminal.applied, List.cons_append,
    List.nil_append, List.map_eq_cons_iff] at h
  obtain ⟨head, _, rfl, isHead, secret, _, rfl, isSecret, opened, _, rfl,
    isOpened, term, _, rfl, isTerm, closing, _, rfl, isClosing, spelt⟩ := h
  obtain ⟨permitted, permittedOf, same⟩ := permittedOf_of_yield named spelt
  obtain ⟨isTerm, same'⟩ := identifier_alike isTerm
  refine ⟨_, .intro (Token.terminal_eq_keyword.mp isHead)
    (Token.terminal_eq_keyword.mp isSecret)
    (Token.terminal_eq_operator.mp isOpened) isTerm
    (Token.terminal_eq_operator.mp isClosing) permittedOf, ?_⟩
  simp [Assertion.forgetLines, same, same']

/-! ## Protocols -/

theorem ProtocolOf.spells {tokens : List Token} {p : Protocol}
    (h : ProtocolOf tokens p) :
    tokens.map Token.terminal = p.yield ∧ p.Grammatical := by
  cases h with
  | intro rolesOf keysOf messagesOf assertionsOf =>
      obtain ⟨speltRoles, roles⟩ := rolesOf.spells
      obtain ⟨speltKeys, keys⟩ := keysOf.spells KeyOf.spells
      obtain ⟨speltMessages, messages⟩ := messagesOf.spells MessageOf.spells
      obtain ⟨speltAssertions, permitted⟩ :=
        assertionsOf.spells AssertionOf.spells
      refine ⟨?_, roles, keys, messages, permitted⟩
      simp only [List.map_append, speltRoles, speltKeys, speltMessages,
        speltAssertions, Protocol.yield]

theorem protocolOf_of_yield {p : Protocol} {tokens : List Token}
    (grammatical : p.Grammatical)
    (h : tokens.map Token.terminal = p.yield) :
    ∃ q, ProtocolOf tokens q ∧ q.Alike p := by
  simp only [Protocol.yield, List.map_eq_append_iff] at h
  obtain ⟨ofRoles, _, rfl, speltRoles, ofKeys, _, rfl, speltKeys, ofMessages,
    ofAssertions, rfl, speltMessages, speltAssertions⟩ := h
  obtain ⟨roles, rolesOf, sameRoles⟩ :=
    rolesOf_of_yield grammatical.roles speltRoles
  obtain ⟨keys, keysOf, sameKeys⟩ :=
    manyOf_of_yield
      (fun key mem _ => keyOf_of_yield (grammatical.keys key mem)) speltKeys
  obtain ⟨messages, messagesOf, sameMessages⟩ :=
    manyOf_of_yield (fun message mem _ =>
      messageOf_of_yield (grammatical.messages message mem)) speltMessages
  obtain ⟨assertions, assertionsOf, sameAssertions⟩ :=
    manyOf_of_yield (fun assertion mem _ =>
      assertionOf_of_yield (grammatical.permitted assertion mem))
      speltAssertions
  refine ⟨_, .intro rolesOf keysOf messagesOf assertionsOf, ?_⟩
  unfold Protocol.Alike Protocol.forgetLines
  rw [sameRoles, sameKeys, sameMessages, sameAssertions]

end Secrecy.Grammar
