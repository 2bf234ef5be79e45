import Secrecy.Proofs.Grammar.Declaration
import Secrecy.Proofs.Grammar.Viability
import Secrecy.Proofs.Grammar.Yield

/-!
# Refused tokens

All readers track the notation, so a token that is refused could not have come
where it stands, while all before it could have gone on to a sentence.  The
limit on depth and the rule for keys have faults of their own; until one of
them shows, they leave no trace in what is refused.
-/

namespace Secrecy.Grammar

open Cursor Computability
open Phrase hiding expression body roles key message permitted assertion
  protocol

variable {start : Cursor} {after : Language Token.Kind}

/-! ## Lists of names -/

theorem tracks_identifierList {wanted : Expected} (closed : start.Closed)
    (productive : Productive after)
    (notComma : ∀ rest, .operator .comma :: rest ∉ after) :
    Tracks start (identifierList wanted) (names * after) after := by
  rw [names, mul_assoc]
  apply (tracks_identifier closed (by simp [productive])).bind closed
  intro first start closed
  refine Tracks.bind closed (?_ : Tracks start _ _ after)
    fun _ => tracks_pure
  apply tracks_row (by simp) _ notComma productive _ closed
  · intro word mem
    rw [mul_assoc] at mem
    obtain ⟨rest, same, -⟩ := mem_one_mul.mp mem
    exact ⟨rest, same⟩
  · intro start closed isComma
    rw [mul_assoc]
    apply (tracks_advance closed isComma (by simp)).bind closed
    intro _ start closed
    exact tracks_identifier closed (by simp [productive])

/-! ## Assertions -/

/-- What may still come once the messages have begun to end. -/
def assertionsOn : Language Token.Kind := Phrase.assertion∗ * one .stop

theorem cons_mem_assertionsOn {first : Token.Kind} {rest : List Token.Kind}
    (mem : first :: rest ∈ assertionsOn) :
    first = .keyword .assertion ∨ first = .stop := by
  rw [assertionsOn, mem_kstar_mul, cons_mem_one, Phrase.assertion, mul_assoc,
    cons_mem_one_mul] at mem
  exact mem.symm.imp And.left And.left

theorem productive_assertionsOn : Productive assertionsOn := by
  simp [assertionsOn]

theorem tracks_permitted (closed : start.Closed) (productive : Productive after)
    (notComma : ∀ rest, .operator .comma :: rest ∉ after)
    (notFor : ∀ rest, .keyword .forWhom :: rest ∉ after) :
    Tracks start permitted (Phrase.permitted * after) after := by
  have unfolded : permitted start =
      (if start.peek.kind = .keyword .forWhom then do
        let _ ← advance
        return some (← identifierList .roleName)
      else return none : Reader (Option (List Identifier))) start := rfl
  have either {kinds : List Token.Kind} :
      kinds ∈ Phrase.permitted * after ↔
        kinds ∈ after ∨ kinds ∈ word .forWhom * (names * after) := by
    rw [Phrase.permitted, mem_add_mul, one_mul, mul_assoc]
  refine Tracks.congr ?_ unfolded
  split
  · next limited =>
      have behind (rest : List Token.Kind) :
          .keyword .forWhom :: rest ∈ Phrase.permitted * after ↔
            rest ∈ names * after := by
        rw [either, cons_mem_one_mul]
        simp [notFor]
      apply tracks_advance_bind closed limited (by simp) behind
      intro start closed
      exact (tracks_identifierList closed productive notComma).bind closed
        fun _ => tracks_pure
  · next unlimited =>
      apply tracks_pure.widen
      · intro kinds mem
        exact either.mpr (.inl mem)
      · intro rest mem
        apply (either.mp mem).resolve_right
        simp [unlimited]

theorem tracks_assertion (closed : start.Closed)
    (asserts : start.peek.kind = .keyword .assertion)
    (productive : Productive after)
    (notComma : ∀ rest, .operator .comma :: rest ∉ after)
    (notFor : ∀ rest, .keyword .forWhom :: rest ∉ after) :
    Tracks start assertion (Phrase.assertion * after) after := by
  simp only [Phrase.assertion, Phrase.applied, mul_assoc]
  apply (tracks_advance closed asserts (by simp)).bind closed
  intro _ start closed
  apply (tracks_keyword closed (by simp [productive])).bind closed
  intro _ start closed
  apply tracks_firstName closed (by simp [productive])
  intro _ start closed
  exact (tracks_permitted closed productive notComma notFor).bind closed
    fun _ => tracks_pure

theorem tracks_assertions (closed : start.Closed) :
    Tracks start (many (onKind (.keyword .assertion) assertion)) assertionsOn
      (one .stop) := by
  apply tracks_row (by simp) _ (by simp) productive_one _ closed
  · intro kinds mem
    rw [Phrase.assertion, mul_assoc] at mem
    obtain ⟨rest, same, -⟩ := mem_one_mul.mp mem
    exact ⟨rest, same⟩
  · intro start closed asserts
    have others {kind : Token.Kind} (other : kind ≠ .keyword .assertion)
        (more : kind ≠ .stop) (rest : List Token.Kind) :
        kind :: rest ∉ Phrase.assertion∗ * one .stop :=
      fun mem => (cons_mem_assertionsOn mem).elim other more
    exact tracks_assertion closed asserts productive_assertionsOn
      (others (by simp) (by simp)) (others (by simp) (by simp))

/-! ## Messages -/

def messagesOn : Language Token.Kind := Phrase.message∗ * assertionsOn

theorem cons_mem_messagesOn {first : Token.Kind} {rest : List Token.Kind}
    (mem : first :: rest ∈ messagesOn) :
    first = .name ∨ first :: rest ∈ assertionsOn := by
  rw [messagesOn, mem_kstar_mul, Phrase.message, mul_assoc,
    cons_mem_one_mul] at mem
  exact mem.symm.imp_left And.left

theorem operator_cons_notMem_messagesOn {symbol : Operator}
    {rest : List Token.Kind} : .operator symbol :: rest ∉ messagesOn := by
  intro mem
  rcases cons_mem_messagesOn mem with named | mem
  · cases named
  · cases cons_mem_assertionsOn mem <;> contradiction

theorem productive_messagesOn : Productive messagesOn := by
  simp [messagesOn, productive_assertionsOn]

theorem tracks_message (closed : start.Closed) :
    Tracks start message (Phrase.message * messagesOn) messagesOn := by
  have productive := productive_messagesOn
  simp only [Phrase.message, mul_assoc]
  apply (tracks_identifier closed (by simp [productive])).bind closed
  intro _ start closed
  apply (tracks_operator closed (by simp [productive])).bind closed
  intro _ start closed
  apply (tracks_identifier closed (by simp [productive])).bind closed
  intro _ start closed
  apply (tracks_operator closed (by simp [productive])).bind closed
  intro _ start closed
  apply Tracks.bind closed _ fun _ => tracks_pure
  apply tracks_body closed productive
  · intro rest
    exact operator_cons_notMem_messagesOn
  · intro rest
    exact operator_cons_notMem_messagesOn

theorem tracks_messages (closed : start.Closed) :
    Tracks start (many (onKind .name message)) messagesOn assertionsOn := by
  apply tracks_row (by simp) _ _ productive_assertionsOn _ closed
  · intro kinds mem
    rw [Phrase.message, mul_assoc] at mem
    obtain ⟨rest, same, -⟩ := mem_one_mul.mp mem
    exact ⟨rest, same⟩
  · intro rest mem
    cases cons_mem_assertionsOn mem <;> contradiction
  · intro start closed _
    exact tracks_message closed

/-! ## Keys -/

def keysOn : Language Token.Kind := Phrase.key∗ * messagesOn

def ownersOver : KeyKind → Language Token.Kind
  | .sharedKey => names
  | .publicKey | .privateKey => name

theorem cons_mem_key_mul {first : Token.Kind} {rest : List Token.Kind} :
    first :: rest ∈ Phrase.key * after ↔
      ∃ kind, keyKind? first = some kind ∧
        rest ∈ name * (word .forWhom * (ownersOver kind * after)) := by
  simp only [Phrase.key, mem_add_mul, mul_assoc, cons_mem_one_mul]
  cases first with
  | keyword word => cases word <;> simp [keyKind?, ownersOver]
  | _ => simp [keyKind?]

theorem nil_notMem_key_mul : [] ∉ Phrase.key * after := by
  simp only [Phrase.key, mem_add_mul, mul_assoc, nil_notMem_one_mul, or_self,
    not_false_eq_true]

theorem productive_ownersOver (kind : KeyKind) :
    Productive (ownersOver kind) := by
  cases kind <;> simp [ownersOver]

theorem operator_cons_notMem_keysOn {symbol : Operator}
    {rest : List Token.Kind} : .operator symbol :: rest ∉ keysOn := by
  intro mem
  rw [keysOn, mem_kstar_mul, cons_mem_key_mul] at mem
  rcases mem with mem | ⟨_, found, -⟩
  · exact operator_cons_notMem_messagesOn mem
  · cases found

theorem productive_keysOn : Productive keysOn := by
  simp [keysOn, productive_messagesOn]

theorem tracks_owners (kind : KeyKind) (closed : start.Closed) :
    Tracks start (owners kind) (ownersOver kind * keysOn) keysOn := by
  cases kind with
  | sharedKey =>
      exact tracks_identifierList closed productive_keysOn
        fun _ => operator_cons_notMem_keysOn
  | publicKey | privateKey =>
      exact (tracks_identifier closed productive_keysOn).bind closed
        fun _ => tracks_pure

theorem tracks_keyDecl {kind : KeyKind} (closed : start.Closed)
    (found : keyKind? start.peek.kind = some kind) :
    Tracks start (keyDecl kind) (Phrase.key * keysOn) keysOn := by
  have more : start.peek.kind ≠ .stop := by
    intro stops
    rw [stops] at found
    cases found
  have behind (rest : List Token.Kind) :
      start.peek.kind :: rest ∈ Phrase.key * keysOn ↔
        rest ∈ name * (word .forWhom * (ownersOver kind * keysOn)) := by
    rw [cons_mem_key_mul, found]
    simp
  have productive := productive_keysOn
  have productive' := productive_ownersOver kind
  apply tracks_advance_bind closed rfl more behind
  intro start closed
  apply (tracks_identifier closed
    (by simp [productive, productive'])).bind closed
  intro _ start closed
  apply (tracks_keyword closed
    (by simp [productive, productive'])).bind closed
  intro _ start closed
  exact (tracks_owners kind closed).bind closed fun _ => tracks_pure

theorem tracks_keys (closed : start.Closed) :
    Tracks start (many keyOpening) keysOn messagesOn := by
  apply tracks_many _ productive_messagesOn _ closed
  · constructor
    · intro token stops
      rw [keyOpening_eq_none, stops]
      rfl
    · intro kinds mem
      cases kinds with
      | nil => exact absurd mem nil_notMem_key_mul
      | cons kind rest =>
          obtain ⟨_, found, -⟩ := cons_mem_key_mul.mp mem
          refine ⟨kind, rest, rfl, ?_⟩
          rintro token rfl
          simp [keyOpening, found]
    · intro token rest opened mem
      rw [keyOpening, Option.isSome_map] at opened
      rcases cons_mem_messagesOn mem with named | mem
      · simp [named, keyKind?] at opened
      · rcases cons_mem_assertionsOn mem with asserts | stops
        · simp [asserts, keyKind?] at opened
        · simp [stops, keyKind?] at opened
  · intro start item closed opens
    obtain ⟨kind, found, rfl⟩ := Option.map_eq_some_iff.mp opens
    exact tracks_keyDecl closed found

/-! ## Protocols -/

theorem tracks_roleSet (closed : start.Closed) :
    Tracks start roleSet (Phrase.roles * keysOn) keysOn := by
  have productive := productive_keysOn
  simp only [Phrase.roles, mul_assoc]
  apply (tracks_keyword closed (by simp [productive])).bind closed
  intro _ start closed
  apply (tracks_operator closed (by simp [productive])).bind closed
  intro _ start closed
  apply Tracks.bind closed _ fun _ => tracks_pure
  exact tracks_identifierList closed productive
    fun _ => operator_cons_notMem_keysOn

theorem tracks_end {wanted : Expected}
    (plain : ∀ token ∈ start.ahead, token.kind ≠ .stop) :
    Tracks start (expect .stop wanted) (one .stop) (one .stop) := by
  have unfolded : expect .stop wanted start =
      (if start.peek.kind = .stop then advance else refuse wanted) start := rfl
  refine Tracks.congr ?_ unfolded
  split
  · next stops =>
      have stays : start.advance = start := by
        obtain ⟨before, ahead, stop⟩ := start
        cases ahead with
        | nil => rfl
        | cons token rest => exact absurd stops (plain token (by simp))
      constructor
      · intro token finish reads
        obtain rfl : start.advance = finish := by
          cases reads
          rfl
        rw [stays]
        exact ⟨[], .nil _, fun _ => id, fun _ => id⟩
      · exact nofun
      · exact nofun
  · next other =>
      apply tracks_refuse productive_one
      simp [other]

theorem Cursor.Passes.plain {finish : Cursor} {tokens : List Token}
    (passes : start.Passes tokens finish)
    (plain : ∀ token ∈ start.ahead, token.kind ≠ .stop) :
    ∀ token ∈ finish.ahead, token.kind ≠ .stop := by
  intro token mem
  apply plain
  rw [passes.ahead]
  exact List.mem_append_right _ mem

theorem protocol_mul : Phrase.protocol * one .stop = Phrase.roles * keysOn := by
  simp only [Phrase.protocol, keysOn, messagesOn, assertionsOn, mul_assoc]

theorem tracks_protocol (closed : start.Closed)
    (plain : ∀ token ∈ start.ahead, token.kind ≠ .stop) :
    Tracks start protocol (Phrase.protocol * one .stop) (one .stop) := by
  rw [protocol_mul]
  apply (tracks_roleSet closed).bind_passing
  intro roles start tokens passRoles _
  have closed := passRoles.closed closed
  have plain := passRoles.plain plain
  apply (tracks_keys closed).bind_passing
  intro keys start tokens passKeys _
  have closed := passKeys.closed closed
  have plain := passKeys.plain plain
  apply (tracks_messages closed).bind_passing
  intro messages start tokens passMessages _
  have closed := passMessages.closed closed
  have plain := passMessages.plain plain
  apply (tracks_assertions closed).bind_passing
  intro assertions start tokens passAssertions _
  have closed := passAssertions.closed closed
  have plain := passAssertions.plain plain
  exact (tracks_end plain).bind closed fun _ => tracks_pure

/-! ## Token lists -/

/-- A cursor on a token list has ahead all that stands before the first end. -/
structure Cursor.Begins (cursor : Cursor) (tokens : List Token) : Prop where
  closed : cursor.Closed
  plain : ∀ token ∈ cursor.ahead, token.kind ≠ .stop
  before : cursor.before = none
  tokens : ∃ rest, tokens = cursor.ahead ++ cursor.stop :: rest

theorem begins_of_ofTokens? {tokens : List Token} {cursor : Cursor}
    (h : Cursor.ofTokens? tokens = some cursor) : cursor.Begins tokens := by
  unfold Cursor.ofTokens? at h
  split at h
  · cases h
  · next last isLast =>
      split at h
      · next stops =>
          have closed : (tokens.find? (·.kind = .stop)).isSome :=
            List.find?_isSome.mpr
              ⟨last, List.mem_of_getLast? isLast, by simpa using stops⟩
          obtain ⟨first, found⟩ := Option.isSome_iff_exists.mp closed
          obtain ⟨isStop, words, rest, rfl, plain⟩ :=
            List.find?_eq_some_iff_append.mp found
          have isStop : first.kind = .stop := by simpa using isStop
          have ahead : (words ++ first :: rest).takeWhile (·.kind ≠ .stop) =
              words := by
            rw [List.takeWhile_append_of_pos (by simpa using plain)]
            simp [isStop]
          rw [found, ahead, Option.getD_some] at h
          obtain rfl := Option.some.inj h
          exact ⟨isStop, by simpa using plain, rfl, rest, rfl⟩
      · cases h

end Secrecy.Grammar

namespace Secrecy.Protocol

open Grammar

theorem sentence_of_accepted {tokens : List Token} {p : Protocol}
    (accepted : ofTokens? tokens = some (.ok p)) :
    ∃ (words : List Token) (stop : Token) (rest : List Token),
      tokens = words ++ stop :: rest ∧
        kindsOf words ++ [.stop] ∈ Phrase.protocol * Phrase.one .stop := by
  obtain ⟨cursor, opened, read⟩ := Option.map_eq_some_iff.mp accepted
  obtain ⟨closed, plain, -, rest, same⟩ := begins_of_ofTokens? opened
  have word := (read_eq_ok closed plain).mp read
  obtain ⟨tokens, passes, leaves⟩ := (tracks_protocol closed plain).goesOn
    (protocol_complete closed word (Cursor.passes_all cursor) closed)
  obtain rfl : cursor.ahead = tokens := by
    have ahead := passes.ahead
    rwa [Cursor.advance, List.append_nil] at ahead
  exact ⟨cursor.ahead, cursor.stop, rest, same, leaves.continues _ rfl⟩

theorem eq_error_of_read {cursor : Cursor} {fault : GrammarFault}
    (rejected : read cursor = .error fault) :
    Grammar.protocol cursor = .error fault := by
  unfold read at rejected
  cases outcome : Grammar.protocol cursor with
  | ok found =>
      rw [outcome] at rejected
      cases rejected
  | error fault' =>
      rw [outcome] at rejected
      cases rejected
      rfl

theorem exists_token_of_read {cursor : Cursor} {fault : GrammarFault}
    (closed : cursor.Closed)
    (plain : ∀ token ∈ cursor.ahead, token.kind ≠ .stop)
    (rejected : read cursor = .error fault) :
    ∃ token ∈ cursor.onward, fault.StandsAt token :=
  (tracks_protocol closed plain).stands (eq_error_of_read rejected)

/--
The first token that no sentence goes on with is the one that is refused, and
the message describes it and the one before it.
-/
theorem pinpoints_fault {tokens : List Token} {fault : GrammarFault}
    (faulty : ofTokens? tokens = some (.error fault))
    (shallow : ∀ line, fault ≠ .tooDeep line)
    (keyed : ∀ constructor key line,
      fault ≠ .compoundKey constructor key line) :
    ∃ (wanted : Expected) (passed : List Token) (found : Token)
      (rest : List Token),
      tokens = passed ++ found :: rest ∧
      Phrase.Viable (kindsOf passed) ∧
      ¬ Phrase.Viable (kindsOf (passed ++ [found])) ∧
      fault.line = found.line ∧
      fault.message = "expected " ++ wanted.text ++ " after " ++
        GrammarFault.describeBefore passed.getLast? ++ ", found " ++
        found.describe := by
  obtain ⟨cursor, opened, read⟩ := Option.map_eq_some_iff.mp faulty
  obtain ⟨closed, plain, before, others, same⟩ := begins_of_ofTokens? opened
  have refuses := eq_error_of_read read
  cases fault with
  | tooDeep line => exact absurd rfl (shallow line)
  | compoundKey constructor key line =>
      exact absurd rfl (keyed constructor key line)
  | unexpected wanted last found =>
      obtain ⟨passed, finish, passes, rfl, rfl, viable, dead⟩ :=
        (tracks_protocol closed plain).stops refuses
      have isLast : finish.before = passed.getLast? := by
        rw [passes.before, before, Option.or_none]
      obtain ⟨rest, ahead⟩ : ∃ rest,
          finish.ahead ++ cursor.stop :: others = finish.peek :: rest := by
        unfold Cursor.peek
        rw [passes.stop]
        cases finish.ahead with
        | nil => exact ⟨others, rfl⟩
        | cons token rest => exact ⟨rest ++ cursor.stop :: others, rfl⟩
      refine ⟨wanted, passed, finish.peek, rest, ?_, viable, ?_, rfl, ?_⟩
      · rw [same, passes.ahead, List.append_assoc, ahead]
      · rintro ⟨more, mem⟩
        apply dead more
        simpa [kindsOf] using mem
      · rw [← isLast]
        rfl

def hollowTokens : List Token :=
  [Terminal.keyword .roles, .operator .colon, .name "A", .operator .comma,
    .name "B", .name "A", .operator .arrow, .name "B", .operator .colon,
    .keyword .enc, .operator .leftParen, .name "k", .operator .comma,
    .keyword .hash, .operator .leftParen, .operator .rightParen,
    .operator .rightParen, .stop].map Terminal.token

theorem pinpoints_fault_hollow :
    ∃ fault, ofTokens? hollowTokens = some (.error fault) ∧
      fault.message = "expected expression after '(', found ')'" ∧
      ∃ (wanted : Expected) (passed : List Token) (found : Token)
        (rest : List Token),
        hollowTokens = passed ++ found :: rest ∧
        Phrase.Viable (kindsOf passed) ∧
        ¬ Phrase.Viable (kindsOf (passed ++ [found])) ∧
        fault.line = found.line ∧
        fault.message = "expected " ++ wanted.text ++ " after " ++
          GrammarFault.describeBefore passed.getLast? ++ ", found " ++
          found.describe := by
  have faulty : ofTokens? hollowTokens = some (.error (.unexpected .expression
      (some (Terminal.operator .leftParen).token)
      (Terminal.operator .rightParen).token)) := by
    decide +kernel
  exact ⟨_, faulty, rfl, pinpoints_fault faulty nofun nofun⟩

end Secrecy.Protocol
