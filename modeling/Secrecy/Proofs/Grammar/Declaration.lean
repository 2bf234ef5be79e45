import Secrecy.Proofs.Grammar.Expression

/-!
# Protocols are read as derived

No separator stands between the parts of a protocol.  Each is told to be at its
end by the kind of the token that follows it.
-/

namespace Secrecy.Grammar

open Cursor

variable {start finish : Cursor}

/-! ## Lists of names -/

def NameOf (tokens : List Token) (name : Identifier) : Prop :=
  ∃ token, tokens = [token] ∧ token.kind = .name ∧ name = token.identifier

theorem reads_identifier {wanted : Expected} (closed : start.Closed) :
    Reads start (identifier wanted) NameOf Anything := by
  constructor
  · intro name finish h
    rw [← bind_pure (identifier wanted)] at h
    obtain ⟨token, _, isName, passes, -, h⟩ := identifier_bind closed h
    obtain ⟨rfl, rfl⟩ := pure_eq_ok.mp h
    exact ⟨[token], ⟨token, rfl, isName, rfl⟩, passes, trivial⟩
  · rintro _ _ finish ⟨token, rfl, isName, rfl⟩ passes -
    rw [← bind_pure (identifier wanted)]
    exact identifier_step closed isName passes fun _ => pure_of_nil

section OnKind

variable {α : Type} {kind : Token.Kind} {item : Reader α}
  {Word : List Token → α → Prop} {After : α → Token → Prop}

def AfterRow (kind : Token.Kind) (After : α → Token → Prop) (items : List α)
    (token : Token) : Prop :=
  token.kind ≠ kind ∧ ∀ a ∈ items.getLast?, After a token

theorem reads_row (other : kind ≠ .stop)
    (reads : ∀ {start : Cursor}, start.Closed → start.peek.kind = kind →
      Reads start item Word After)
    (begins : ∀ {tokens : List Token} {a : α}, Word tokens a →
      ∃ token rest, tokens = token :: rest ∧ token.kind = kind)
    (after : ∀ {a : α} {token : Token}, token.kind = kind → After a token)
    (closed : start.Closed) :
    Reads start (many (onKind kind item)) (ManyOf Word)
      (AfterRow kind After) := by
  have same {items : List α} {token : Token} :
      AfterMany (onKind kind item) After items token ↔
        AfterRow kind After items token :=
    and_congr_left' onKind_eq_none
  have opening : Opening (onKind kind item) Word After := by
    refine ⟨?_, ?_, ?_⟩
    · intro start item' closed opens
      have opened : (onKind kind item start.peek).isSome := by
        rw [opens]
        rfl
      have found : start.peek.kind = kind := isSome_onKind.mp opened
      rw [onKind, if_pos found, Option.some.injEq] at opens
      exact opens ▸ reads closed found
    · intro tokens a word
      obtain ⟨token, rest, same, found⟩ := begins word
      exact ⟨token, rest, same, isSome_onKind.mpr found⟩
    · intro a token opened
      exact after (isSome_onKind.mp opened)
  have row := reads_many opening
    (fun token stops => onKind_eq_none.mpr (stops ▸ other.symm)) closed
  constructor
  · intro items finish h
    obtain ⟨tokens, words, passes, ends⟩ := row.sound h
    exact ⟨tokens, words, passes, same.mp ends⟩
  · intro tokens items finish words passes ends
    exact row.complete words passes (same.mpr ends)

end OnKind

def NotComma {α : Type} (_ : α) (token : Token) : Prop :=
  token.kind ≠ .operator .comma

theorem reads_nextName {wanted : Expected} (closed : start.Closed)
    (comma : start.peek.kind = .operator .comma) :
    Reads start (do
      let _ ← advance
      identifier wanted) NextNameOf Anything := by
  constructor
  · intro name finish h
    obtain ⟨_, passComma, closed, h⟩ := advance_bind closed (by simp [comma]) h
    obtain ⟨_, ⟨token, rfl, isName, rfl⟩, passName, -⟩ :=
      (reads_identifier closed).sound h
    exact ⟨_, .intro comma isName, passComma.cons passName, trivial⟩
  · rintro _ _ finish ⟨isComma, isName⟩ passes -
    refine advance_step closed (by simp [isComma]) passes
      fun closed passes => ?_
    exact (reads_identifier closed).complete ⟨_, rfl, isName, rfl⟩ passes
      trivial

theorem reads_identifierList {wanted : Expected} (closed : start.Closed) :
    Reads start (identifierList wanted) NamesOf NotComma := by
  have others {start : Cursor} (closed : start.Closed) :
      Reads start (many (onKind (.operator .comma) do
        let _ ← advance
        identifier wanted)) (ManyOf NextNameOf)
        (AfterRow (.operator .comma) Anything) := by
    refine reads_row (by simp) reads_nextName ?_ ?_ closed
    · rintro _ _ ⟨isComma, _⟩
      exact ⟨_, _, rfl, isComma⟩
    · intro _ _ _
      trivial
  constructor
  · intro names finish h
    obtain ⟨first, _, isFirst, passFirst, closed, h⟩ := identifier_bind closed h
    obtain ⟨names, tokens, _, othersOf, passOthers, ⟨notComma, -⟩, -, h⟩ :=
      (others closed).bind closed h
    obtain ⟨rfl, rfl⟩ := pure_eq_ok.mp h
    exact ⟨_, .intro isFirst othersOf, passFirst.cons passOthers,
      notComma⟩
  · rintro _ _ finish ⟨isFirst, othersOf⟩ passes notComma
    refine identifier_step closed isFirst passes fun closed passes => ?_
    exact bind_of_ok ((others closed).complete othersOf passes
      ⟨notComma, fun _ _ => trivial⟩)

theorem reads_roleSet (closed : start.Closed) :
    Reads start roleSet RolesOf NotComma := by
  constructor
  · intro roles finish h
    obtain ⟨head, _, isHead, passHead, closed, h⟩ := keyword_bind closed h
    obtain ⟨colon, _, isColon, passColon, closed, h⟩ := operator_bind closed h
    obtain ⟨members, tokens, _, membersOf, passMembers, notComma, -, h⟩ :=
      (reads_identifierList closed).bind closed h
    obtain ⟨rfl, rfl⟩ := pure_eq_ok.mp h
    exact ⟨_, .intro isHead isColon membersOf,
      passHead.cons (passColon.cons passMembers), notComma⟩
  · rintro _ _ finish ⟨isHead, isColon, membersOf⟩ passes notComma
    refine keyword_step closed isHead passes fun closed passes => ?_
    refine operator_step closed isColon passes fun closed passes => ?_
    exact bind_of_ok
      ((reads_identifierList closed).complete membersOf passes notComma)

/-! ## Keys -/

/-- The owners of a shared key go on as long as commas do. -/
def AfterOwners (kind : KeyKind) (token : Token) : Prop :=
  kind = .sharedKey → token.kind ≠ .operator .comma

theorem reads_owners (kind : KeyKind) (closed : start.Closed) :
    Reads start (owners kind) (OwnersOf kind)
      (fun _ => AfterOwners kind) := by
  by_cases shared : kind = .sharedKey
  · subst shared
    have reads : Reads start (owners .sharedKey) NamesOf NotComma :=
      reads_identifierList closed
    constructor
    · intro names finish h
      obtain ⟨tokens, ownersOf, passes, notComma⟩ := reads.sound h
      exact ⟨tokens, .shared ownersOf, passes, fun _ => notComma⟩
    · intro tokens names finish word passes after
      cases word with
      | shared ownersOf => exact reads.complete ownersOf passes (after rfl)
      | single unshared => exact absurd rfl unshared
  · have unfolded : owners kind = do return [← identifier .ownerRole] := by
      cases kind with
      | sharedKey => exact absurd rfl shared
      | publicKey | privateKey => rfl
    rw [unfolded]
    constructor
    · intro names finish h
      obtain ⟨owner, _, isOwner, passes, -, h⟩ := identifier_bind closed h
      obtain ⟨rfl, rfl⟩ := pure_eq_ok.mp h
      exact ⟨_, .single shared isOwner, passes, fun same => absurd same shared⟩
    · intro tokens names finish word passes _
      cases word with
      | shared => exact absurd rfl shared
      | single _ isOwner =>
          exact identifier_step closed isOwner passes fun _ => pure_of_nil

def AfterKey (key : KeyDecl) : Token → Prop := AfterOwners key.kind

theorem reads_keyDecl {kind : KeyKind} (closed : start.Closed)
    (found : keyKind? start.peek.kind = some kind) :
    Reads start (keyDecl kind) KeyOf AfterKey := by
  have more : start.peek.kind ≠ .stop := by
    intro stops
    rw [stops] at found
    cases found
  constructor
  · intro key finish h
    obtain ⟨_, passHead, closed, h⟩ := advance_bind closed more h
    obtain ⟨name, _, isName, passName, closed, h⟩ := identifier_bind closed h
    obtain ⟨forWhom, _, isForWhom, passFor, closed, h⟩ := keyword_bind closed h
    obtain ⟨owners, tokens, _, ownersOf, passOwners, after, -, h⟩ :=
      (reads_owners kind closed).bind closed h
    obtain ⟨rfl, rfl⟩ := pure_eq_ok.mp h
    exact ⟨_, .intro found isName isForWhom ownersOf,
      passHead.cons (passName.cons (passFor.cons passOwners)), after⟩
  · rintro _ _ finish ⟨isHead, isName, isForWhom, ownersOf⟩ passes after
    obtain rfl := passes.peek
    obtain rfl := Option.some.inj (found.symm.trans isHead)
    refine advance_step closed more passes fun closed passes => ?_
    refine identifier_step closed isName passes fun closed passes => ?_
    refine keyword_step closed isForWhom passes fun closed passes => ?_
    exact bind_of_ok ((reads_owners kind closed).complete ownersOf passes after)

def keyOpening (token : Token) : Option (Reader KeyDecl) :=
  (keyKind? token.kind).map keyDecl

theorem KeyOf.begins {tokens : List Token} {key : KeyDecl}
    (h : KeyOf tokens key) :
    ∃ token rest, tokens = token :: rest ∧
      (keyKind? token.kind).isSome := by
  cases h with
  | intro isHead => exact ⟨_, _, rfl, by simp [isHead]⟩

theorem keyOpening_eq_none {token : Token} :
    keyOpening token = none ↔ keyKind? token.kind = none :=
  Option.map_eq_none_iff

theorem opening_keys : Opening keyOpening KeyOf AfterKey where
  reads := by
    intro start item closed opens
    obtain ⟨kind, found, rfl⟩ := Option.map_eq_some_iff.mp opens
    exact reads_keyDecl closed found
  word := by
    intro tokens key word
    obtain ⟨token, rest, same, begins⟩ := word.begins
    exact ⟨token, rest, same, by rwa [keyOpening, Option.isSome_map]⟩
  after := by
    intro key token opened _ comma
    rw [keyOpening, comma] at opened
    cases opened

/-! ## Messages -/

def AfterMessage (message : Message) : Token → Prop := AfterBody message.body

theorem reads_message (closed : start.Closed) :
    Reads start message MessageOf AfterMessage := by
  constructor
  · intro message finish h
    obtain ⟨sender, _, isSender, passSender, closed, h⟩ :=
      identifier_bind closed h
    obtain ⟨arrow, _, isArrow, passArrow, closed, h⟩ := operator_bind closed h
    obtain ⟨receiver, _, isReceiver, passReceiver, closed, h⟩ :=
      identifier_bind closed h
    obtain ⟨colon, _, isColon, passColon, closed, h⟩ := operator_bind closed h
    obtain ⟨body, tokens, _, bodyOf, passBody, after, -, h⟩ :=
      (reads_body closed).bind closed h
    obtain ⟨rfl, rfl⟩ := pure_eq_ok.mp h
    exact ⟨_, .intro isSender isArrow isReceiver isColon bodyOf,
      passSender.cons (passArrow.cons
        (passReceiver.cons (passColon.cons passBody))), after⟩
  · rintro _ _ finish ⟨isSender, isArrow, isReceiver, isColon, bodyOf⟩ passes
      after
    refine identifier_step closed isSender passes fun closed passes => ?_
    refine operator_step closed isArrow passes fun closed passes => ?_
    refine identifier_step closed isReceiver passes fun closed passes => ?_
    refine operator_step closed isColon passes fun closed passes => ?_
    exact bind_of_ok ((reads_body closed).complete bodyOf passes after)

theorem MessageOf.begins {tokens : List Token} {message : Message}
    (h : MessageOf tokens message) :
    ∃ token rest, tokens = token :: rest ∧ token.kind = .name := by
  cases h with
  | intro isSender => exact ⟨_, _, rfl, isSender⟩

theorem reads_messages (closed : start.Closed) :
    Reads start (many (onKind .name message)) (ManyOf MessageOf)
      (AfterRow .name AfterMessage) := by
  refine reads_row (by simp) (fun closed _ => reads_message closed)
    MessageOf.begins ?_ closed
  intro _ _ isName
  simp [AfterMessage, AfterBody, isName]

/-! ## Assertions -/

def AfterPermitted (permitted : Option (List Identifier)) (token : Token) :
    Prop :=
  match permitted with
  | none => token.kind ≠ .keyword .forWhom
  | some _ => token.kind ≠ .operator .comma

theorem reads_permitted (closed : start.Closed) :
    Reads start permitted PermittedOf AfterPermitted := by
  have unfolded : permitted start =
      (if start.peek.kind = .keyword .forWhom then do
        let _ ← advance
        return some (← identifierList .roleName)
      else return none : Reader (Option (List Identifier))) start := rfl
  by_cases limited : start.peek.kind = .keyword .forWhom
  · rw [if_pos limited] at unfolded
    constructor
    · intro permitted finish h
      rw [unfolded] at h
      obtain ⟨_, passFor, closed, h⟩ :=
        advance_bind closed (by simp [limited]) h
      obtain ⟨names, tokens, _, namesOf, passNames, notComma, -, h⟩ :=
        (reads_identifierList closed).bind closed h
      obtain ⟨rfl, rfl⟩ := pure_eq_ok.mp h
      exact ⟨_, .some limited namesOf, passFor.cons passNames, notComma⟩
    · intro tokens permitted finish word passes after
      rw [unfolded]
      cases word with
      | none =>
          rw [passes.eq_of_nil] at after
          exact absurd limited after
      | some isForWhom namesOf =>
          refine advance_step closed (by simp [isForWhom]) passes
            fun closed passes => ?_
          exact bind_of_ok
            ((reads_identifierList closed).complete namesOf passes after)
  · rw [if_neg limited] at unfolded
    constructor
    · intro permitted finish h
      rw [unfolded] at h
      obtain ⟨rfl, rfl⟩ := pure_eq_ok.mp h
      exact ⟨[], .none, .nil _, limited⟩
    · intro tokens permitted finish word passes _
      rw [unfolded]
      cases word with
      | none => exact pure_of_nil passes
      | some isForWhom => exact absurd (passes.peek ▸ isForWhom) limited

def AfterAssertion (assertion : Assertion) : Token → Prop :=
  AfterPermitted assertion.permitted

theorem reads_assertion (closed : start.Closed)
    (asserts : start.peek.kind = .keyword .assertion) :
    Reads start assertion AssertionOf AfterAssertion := by
  have more : start.peek.kind ≠ .stop := by simp [asserts]
  constructor
  · intro assertion finish h
    obtain ⟨_, passHead, closed, h⟩ := advance_bind closed more h
    obtain ⟨secret, _, isSecret, passSecret, closed, h⟩ :=
      keyword_bind closed h
    obtain ⟨opened, _, isOpened, passOpened, closed, h⟩ :=
      operator_bind closed h
    obtain ⟨term, _, isTerm, passTerm, closed, h⟩ := identifier_bind closed h
    obtain ⟨closing, _, isClosing, passClosing, closed, h⟩ :=
      operator_bind closed h
    obtain ⟨permitted, tokens, _, permittedOf, passPermitted, after, -, h⟩ :=
      (reads_permitted closed).bind closed h
    obtain ⟨rfl, rfl⟩ := pure_eq_ok.mp h
    exact ⟨_, .intro asserts isSecret isOpened isTerm isClosing permittedOf,
      passHead.cons (passSecret.cons (passOpened.cons
        (passTerm.cons (passClosing.cons passPermitted)))), after⟩
  · rintro _ _ finish ⟨isHead, isSecret, isOpened, isTerm, isClosing,
      permittedOf⟩ passes after
    refine advance_step closed (by simp [isHead]) passes
      fun closed passes => ?_
    refine keyword_step closed isSecret passes fun closed passes => ?_
    refine operator_step closed isOpened passes fun closed passes => ?_
    refine identifier_step closed isTerm passes fun closed passes => ?_
    refine operator_step closed isClosing passes fun closed passes => ?_
    exact bind_of_ok
      ((reads_permitted closed).complete permittedOf passes after)

theorem AssertionOf.begins {tokens : List Token} {assertion : Assertion}
    (h : AssertionOf tokens assertion) :
    ∃ token rest, tokens = token :: rest ∧
      token.kind = .keyword .assertion := by
  cases h with
  | intro isHead => exact ⟨_, _, rfl, isHead⟩

theorem afterPermitted_of_kind {permitted : Option (List Identifier)}
    {token : Token} {kind : Token.Kind} (h : token.kind = kind)
    (notFor : kind ≠ .keyword .forWhom) (notComma : kind ≠ .operator .comma) :
    AfterPermitted permitted token := by
  rw [← h] at notFor notComma
  cases permitted with
  | none => exact notFor
  | some => exact notComma

theorem reads_assertions (closed : start.Closed) :
    Reads start (many (onKind (.keyword .assertion) assertion))
      (ManyOf AssertionOf)
      (AfterRow (.keyword .assertion) AfterAssertion) := by
  refine reads_row (by simp) reads_assertion AssertionOf.begins ?_ closed
  intro assertion _ isAssertion
  exact afterPermitted_of_kind isAssertion (by decide) (by decide)

/-! ## Protocols -/

theorem expect_stop_bind {β : Type} {wanted : Expected}
    {next : Token → Reader β} {b : β} :
    (expect .stop wanted >>= next) start = .ok (b, finish) ↔
      start.peek.kind = .stop ∧
        next start.peek start.advance = .ok (b, finish) := by
  have unfolded : (expect .stop wanted >>= next) start =
      ((if start.peek.kind = .stop then advance else refuse wanted) >>= next)
        start := rfl
  rw [unfolded]
  by_cases stops : start.peek.kind = .stop
  · rw [if_pos stops]
    exact (and_iff_right stops).symm
  · rw [if_neg stops]
    constructor
    · intro h
      cases h
    · rintro ⟨stops', -⟩
      exact absurd stops' stops

theorem ManyOf.peek {α : Type} {Word : List Token → α → Prop}
    {tokens others : List Token} {items : List α}
    (words : ManyOf Word tokens items) (Opens : Token.Kind → Prop)
    (begins : ∀ {tokens : List Token} {a : α}, Word tokens a →
      ∃ token rest, tokens = token :: rest ∧ Opens token.kind)
    (passes : start.Passes (tokens ++ others) finish) :
    Opens start.peek.kind ∨ start.Passes others finish := by
  cases words with
  | nil => exact .inr passes
  | cons word rest =>
      obtain ⟨token, more, rfl, opens⟩ := begins word
      exact .inl (passes.peek ▸ opens)

/-!
What follows a part is what begins a later one, unless there is none.
-/

section Parts

variable {ofKeys ofMessages ofAssertions : List Token} {keys : List KeyDecl}
  {messages : List Message} {assertions : List Assertion}
  (keysOf : ManyOf KeyOf ofKeys keys)
  (messagesOf : ManyOf MessageOf ofMessages messages)
  (assertionsOf : ManyOf AssertionOf ofAssertions assertions)
  (stops : finish.peek.kind = .stop)

include assertionsOf stops

theorem peek_assertions (passes : start.Passes ofAssertions finish) :
    start.peek.kind = .keyword .assertion ∨ start.peek.kind = .stop := by
  rw [← List.append_nil ofAssertions] at passes
  rcases assertionsOf.peek (· = .keyword .assertion) AssertionOf.begins passes
    with opens | passes
  · exact .inl opens
  · rw [passes.eq_of_nil] at stops
    exact .inr stops

include messagesOf

theorem peek_messages
    (passes : start.Passes (ofMessages ++ ofAssertions) finish) :
    start.peek.kind = .name ∨ start.peek.kind = .keyword .assertion ∨
      start.peek.kind = .stop := by
  rcases messagesOf.peek (· = .name) MessageOf.begins passes with
    opens | passes
  · exact .inl opens
  · exact .inr (peek_assertions assertionsOf stops passes)

include keysOf

theorem peek_keys
    (passes : start.Passes (ofKeys ++ (ofMessages ++ ofAssertions)) finish) :
    (keyKind? start.peek.kind).isSome ∨ start.peek.kind = .name ∨
      start.peek.kind = .keyword .assertion ∨ start.peek.kind = .stop := by
  rcases keysOf.peek (fun kind => (keyKind? kind).isSome) KeyOf.begins passes
    with opens | passes
  · exact .inl opens
  · exact .inr (peek_messages messagesOf assertionsOf stops passes)

end Parts

theorem keyOpening_of_stop (token : Token) (stops : token.kind = .stop) :
    keyOpening token = none := by
  rw [keyOpening_eq_none, stops]
  rfl

theorem protocol_sound {p : Protocol} (closed : start.Closed)
    (h : protocol start = .ok (p, finish)) :
    ∃ tokens middle, ProtocolOf tokens p ∧ start.Passes tokens middle ∧
      middle.peek.kind = .stop := by
  obtain ⟨roles, ofRoles, _, rolesOf, passRoles, -, closed, h⟩ :=
    (reads_roleSet closed).bind closed h
  obtain ⟨keys, ofKeys, _, keysOf, passKeys, -, closed, h⟩ :=
    (reads_many opening_keys keyOpening_of_stop closed).bind closed h
  obtain ⟨messages, ofMessages, _, messagesOf, passMessages, -, closed, h⟩ :=
    (reads_messages closed).bind closed h
  obtain ⟨assertions, ofAssertions, middle, assertionsOf, passAssertions, -,
    closed, h⟩ := (reads_assertions closed).bind closed h
  obtain ⟨stops, h⟩ := expect_stop_bind.mp h
  obtain ⟨rfl, -⟩ := pure_eq_ok.mp h
  exact ⟨_, middle, .intro rolesOf keysOf messagesOf assertionsOf,
    passRoles.append (passKeys.append (passMessages.append passAssertions)),
    stops⟩

theorem protocol_complete {p : Protocol} {tokens : List Token}
    (closed : start.Closed) (word : ProtocolOf tokens p)
    (passes : start.Passes tokens finish) (stops : finish.peek.kind = .stop) :
    protocol start = .ok (p, finish.advance) := by
  obtain ⟨rolesOf, keysOf, messagesOf, assertionsOf⟩ := word
  refine (reads_roleSet closed).step closed rolesOf passes
    (fun passes comma => ?_) fun closed passes => ?_
  · rcases peek_keys keysOf messagesOf assertionsOf stops passes with
      kind | kind | kind | kind <;> simp [comma, keyKind?] at kind
  refine (reads_many opening_keys keyOpening_of_stop closed).step closed keysOf
    passes (fun passes => ?_) fun closed passes => ?_
  · have follows := peek_messages messagesOf assertionsOf stops passes
    refine ⟨keyOpening_eq_none.mpr ?_, fun _ _ _ comma => ?_⟩
    · rcases follows with kind | kind | kind <;> rw [kind] <;> rfl
    · simp [comma] at follows
  refine (reads_messages closed).step closed messagesOf passes
    (fun passes => ?_) fun closed passes => ?_
  · have follows := peek_assertions assertionsOf stops passes
    refine ⟨fun name => ?_, fun _ _ => ⟨fun bars => ?_, fun _ equals => ?_⟩⟩
    · simp [name] at follows
    · simp [bars] at follows
    · simp [equals] at follows
  have ends (assertions : List Assertion) :
      AfterRow (.keyword .assertion) AfterAssertion assertions finish.peek :=
    ⟨by simp [stops], fun _ _ =>
      afterPermitted_of_kind stops (by decide) (by decide)⟩
  rw [bind_of_ok ((reads_assertions closed).complete assertionsOf passes
    (ends _))]
  exact expect_stop_bind.mpr ⟨stops, rfl⟩

theorem read_eq_ok {cursor : Cursor} {p : Protocol} (closed : cursor.Closed)
    (plain : ∀ token ∈ cursor.ahead, token.kind ≠ .stop) :
    Protocol.read cursor = .ok p ↔ ProtocolOf cursor.ahead p := by
  have read : Protocol.read cursor = .ok p ↔
      ∃ finish, protocol cursor = .ok (p, finish) := by
    unfold Protocol.read
    cases protocol cursor with
    | error fault =>
        constructor
        · intro h
          cases h
        · rintro ⟨_, h⟩
          cases h
    | ok found =>
        constructor
        · intro h
          cases h
          exact ⟨found.2, rfl⟩
        · rintro ⟨finish, h⟩
          cases h
          rfl
  rw [read]
  constructor
  · rintro ⟨finish, h⟩
    obtain ⟨tokens, middle, word, passes, stops⟩ := protocol_sound closed h
    cases found : middle.ahead with
    | nil =>
        have ahead := passes.ahead
        rw [found, List.append_nil] at ahead
        exact ahead ▸ word
    | cons token rest =>
        have mem : token ∈ cursor.ahead := by
          rw [passes.ahead, found]
          simp
        have peek : middle.peek = token := by simp [Cursor.peek, found]
        exact absurd (peek ▸ stops) (plain token mem)
  · intro word
    exact ⟨_, protocol_complete closed word (passes_all cursor) closed⟩

end Secrecy.Grammar
