import Secrecy.Grammar.Cursor
import Secrecy.Proofs.Outcome

/-!
# What readers pass over

A reader is judged by the tokens between the cursors before and after it.
Cursors are closed by an end of input, so that a token of any other kind is
always there to be passed.
-/

namespace Secrecy

def Token.identifier (token : Token) : Identifier := ⟨token.text, token.line⟩

end Secrecy

namespace Secrecy.Grammar

variable {α β : Type}

namespace Cursor

def Closed (cursor : Cursor) : Prop := cursor.stop.kind = .stop

/-- The tokens that lie between two cursors. -/
structure Passes (start : Cursor) (tokens : List Token) (finish : Cursor) :
    Prop where
  ahead : start.ahead = tokens ++ finish.ahead
  stop : finish.stop = start.stop
  before : finish.before = tokens.getLast?.or start.before

namespace Passes

variable {start middle finish : Cursor} {tokens : List Token}

theorem nil (cursor : Cursor) : Passes cursor [] cursor := ⟨rfl, rfl, rfl⟩

theorem eq_of_nil (h : Passes start [] finish) : finish = start := by
  obtain ⟨ahead, stop, before⟩ := h
  cases start
  cases finish
  simp_all

theorem append {others : List Token} (h : Passes start tokens middle)
    (h' : Passes middle others finish) :
    Passes start (tokens ++ others) finish := by
  refine ⟨?_, h'.stop.trans h.stop, ?_⟩
  · rw [h.ahead, h'.ahead, List.append_assoc]
  · rw [h'.before, h.before, List.getLast?_append, Option.or_assoc]

theorem cons {token : Token} (h : Passes start [token] middle)
    (h' : Passes middle tokens finish) :
    Passes start (token :: tokens) finish :=
  h.append h'

theorem split {others : List Token}
    (h : Passes start (tokens ++ others) finish) :
    ∃ middle, Passes start tokens middle ∧ Passes middle others finish := by
  refine ⟨⟨tokens.getLast?.or start.before, others ++ finish.ahead,
    start.stop⟩, ⟨?_, rfl, rfl⟩, rfl, h.stop, ?_⟩
  · rw [h.ahead, List.append_assoc]
  · rw [h.before, List.getLast?_append, Option.or_assoc]

theorem uncons {token : Token} (h : Passes start (token :: tokens) finish) :
    ∃ middle, Passes start [token] middle ∧ Passes middle tokens finish :=
  split h

theorem closed (h : Passes start tokens finish) (closed : start.Closed) :
    finish.Closed := by
  unfold Closed
  rw [h.stop]
  exact closed

theorem peek {token : Token} (h : Passes start (token :: tokens) finish) :
    start.peek = token := by
  simp [Cursor.peek, h.ahead]

theorem peekSecond {first second : Token}
    (h : Passes start (first :: second :: tokens) finish) :
    start.peekSecond = second := by
  simp [Cursor.peekSecond, h.ahead]

theorem peekSecond_eq_peek {token : Token}
    (h : Passes start [token] finish) : start.peekSecond = finish.peek := by
  have ahead : start.ahead = token :: finish.ahead := by simpa using h.ahead
  simp [Cursor.peekSecond, Cursor.peek, ahead, h.stop]

theorem length (h : Passes start tokens finish) :
    start.ahead.length = tokens.length + finish.ahead.length := by
  rw [h.ahead, List.length_append]

theorem advance {token : Token} (h : Passes start [token] finish) :
    start.advance = finish := by
  have ahead : start.ahead = token :: finish.ahead := by simpa using h.ahead
  have before : finish.before = some token := by simpa using h.before
  have stop := h.stop
  cases finish
  simp_all [Cursor.advance]

end Passes

theorem passes_all (cursor : Cursor) :
    Passes cursor cursor.ahead
      ⟨cursor.ahead.getLast?.or cursor.before, [], cursor.stop⟩ :=
  ⟨by simp, rfl, rfl⟩

theorem passes_advance {cursor : Cursor} (closed : cursor.Closed)
    (more : cursor.peek.kind ≠ .stop) :
    Passes cursor [cursor.peek] cursor.advance := by
  obtain ⟨before, ahead, stop⟩ := cursor
  cases ahead with
  | nil => exact absurd closed more
  | cons token rest => exact ⟨rfl, rfl, rfl⟩

end Cursor

open Cursor

/-! ## Single steps -/

theorem bind_eq_ok {first : Reader α} {next : α → Reader β}
    {start finish : Cursor} {b : β} :
    (first >>= next) start = .ok (b, finish) ↔
      ∃ a middle, first start = .ok (a, middle) ∧
        next a middle = .ok (b, finish) := by
  have unfolded : (first >>= next) start =
      first start >>= fun found => next found.1 found.2 := rfl
  rw [unfolded, Outcome.bind_eq_ok]
  constructor
  · rintro ⟨⟨a, middle⟩, h, h'⟩
    exact ⟨a, middle, h, h'⟩
  · rintro ⟨a, middle, h, h'⟩
    exact ⟨(a, middle), h, h'⟩

theorem bind_eq_error {first : Reader α} {next : α → Reader β}
    {start : Cursor} {fault : GrammarFault} :
    (first >>= next) start = .error fault ↔
      first start = .error fault ∨
        ∃ a middle, first start = .ok (a, middle) ∧
          next a middle = .error fault := by
  have unfolded : (first >>= next) start =
      first start >>= fun found => next found.1 found.2 := rfl
  rw [unfolded, Outcome.bind_eq_error]
  simp

theorem pure_eq_ok {a b : α} {start finish : Cursor} :
    (pure a : Reader α) start = .ok (b, finish) ↔ b = a ∧ finish = start := by
  constructor
  · intro h
    cases h
    exact ⟨rfl, rfl⟩
  · rintro ⟨rfl, rfl⟩
    rfl

theorem peek_bind {next : Token → Reader β} {start : Cursor} :
    (peek >>= next) start = next start.peek start :=
  rfl

theorem advance_eq_ok {token : Token} {start finish : Cursor}
    (closed : start.Closed) (more : start.peek.kind ≠ .stop) :
    advance start = .ok (token, finish) ↔ start.Passes [token] finish := by
  have passes := passes_advance closed more
  constructor
  · intro h
    cases h
    exact passes
  · intro h
    rw [advance, h.advance, h.peek]

theorem expect_eq_ok {kind : Token.Kind} {wanted : Expected} {token : Token}
    {start finish : Cursor} (closed : start.Closed) (more : kind ≠ .stop) :
    expect kind wanted start = .ok (token, finish) ↔
      start.Passes [token] finish ∧ token.kind = kind := by
  have unfolded : expect kind wanted start =
      (if start.peek.kind = kind then advance else refuse wanted) start := rfl
  rw [unfolded]
  by_cases found : start.peek.kind = kind
  · rw [if_pos found, advance_eq_ok closed (found ▸ more)]
    constructor
    · intro h
      exact ⟨h, h.peek ▸ found⟩
    · exact And.left
  · rw [if_neg found]
    constructor
    · intro h
      cases h
    · rintro ⟨h, rfl⟩
      exact absurd (congrArg Token.kind h.peek) found

theorem bind_of_ok {first : Reader α} {next : α → Reader β}
    {start middle : Cursor} {a : α} (h : first start = .ok (a, middle)) :
    (first >>= next) start = next a middle := by
  have unfolded : (first >>= next) start =
      first start >>= fun found => next found.1 found.2 := rfl
  rw [unfolded, h]
  rfl

theorem pure_of_nil {a : α} {start finish : Cursor}
    (passes : start.Passes [] finish) :
    (pure a : Reader α) start = .ok (a, finish) := by
  rw [passes.eq_of_nil]
  rfl

/-! ## Sequences of steps

Each step comes in two forms.  A reader that came to its end has passed the
token; and one that has the token ahead of it goes on behind the token.
-/

section Steps

variable {start finish : Cursor} {token : Token} {tokens : List Token} {b : β}
  {outcome : Except GrammarFault (β × Cursor)}

theorem expect_bind {kind : Token.Kind} {wanted : Expected}
    {next : Token → Reader β} (closed : start.Closed) (more : kind ≠ .stop)
    (h : (expect kind wanted >>= next) start = .ok (b, finish)) :
    ∃ token middle, token.kind = kind ∧ start.Passes [token] middle ∧
      middle.Closed ∧ next token middle = .ok (b, finish) := by
  obtain ⟨token, middle, first, rest⟩ := bind_eq_ok.mp h
  obtain ⟨passes, found⟩ := (expect_eq_ok closed more).mp first
  exact ⟨token, middle, found, passes, passes.closed closed, rest⟩

theorem expect_step {kind : Token.Kind} {wanted : Expected}
    {next : Token → Reader β} (closed : start.Closed) (more : kind ≠ .stop)
    (found : token.kind = kind) (passes : start.Passes (token :: tokens) finish)
    (rest : ∀ {middle : Cursor}, middle.Closed →
      middle.Passes tokens finish → next token middle = outcome) :
    (expect kind wanted >>= next) start = outcome := by
  obtain ⟨middle, first, others⟩ := passes.uncons
  rw [bind_of_ok ((expect_eq_ok closed more).mpr ⟨first, found⟩)]
  exact rest (first.closed closed) others

theorem keyword_bind {word : Keyword} {next : Token → Reader β}
    (closed : start.Closed)
    (h : (keyword word >>= next) start = .ok (b, finish)) :
    ∃ token middle, token.kind = .keyword word ∧
      start.Passes [token] middle ∧ middle.Closed ∧
      next token middle = .ok (b, finish) :=
  expect_bind closed (by simp) h

theorem keyword_step {word : Keyword} {next : Token → Reader β}
    (closed : start.Closed) (found : token.kind = .keyword word)
    (passes : start.Passes (token :: tokens) finish)
    (rest : ∀ {middle : Cursor}, middle.Closed →
      middle.Passes tokens finish → next token middle = outcome) :
    (keyword word >>= next) start = outcome :=
  expect_step closed (by simp) found passes rest

theorem operator_bind {symbol : Operator} {next : Token → Reader β}
    (closed : start.Closed)
    (h : (operator symbol >>= next) start = .ok (b, finish)) :
    ∃ token middle, token.kind = .operator symbol ∧
      start.Passes [token] middle ∧ middle.Closed ∧
      next token middle = .ok (b, finish) :=
  expect_bind closed (by simp) h

theorem operator_step {symbol : Operator} {next : Token → Reader β}
    (closed : start.Closed) (found : token.kind = .operator symbol)
    (passes : start.Passes (token :: tokens) finish)
    (rest : ∀ {middle : Cursor}, middle.Closed →
      middle.Passes tokens finish → next token middle = outcome) :
    (operator symbol >>= next) start = outcome :=
  expect_step closed (by simp) found passes rest

theorem identifier_eq {wanted : Expected} {next : Identifier → Reader β} :
    identifier wanted >>= next =
      expect .name wanted >>= fun token => next token.identifier := by
  simp only [identifier, bind_assoc, pure_bind, Token.identifier]

theorem identifier_bind {wanted : Expected} {next : Identifier → Reader β}
    (closed : start.Closed)
    (h : (identifier wanted >>= next) start = .ok (b, finish)) :
    ∃ token middle, token.kind = .name ∧ start.Passes [token] middle ∧
      middle.Closed ∧ next token.identifier middle = .ok (b, finish) := by
  rw [identifier_eq] at h
  exact expect_bind closed (by simp) h

theorem identifier_step {wanted : Expected} {next : Identifier → Reader β}
    (closed : start.Closed) (found : token.kind = .name)
    (passes : start.Passes (token :: tokens) finish)
    (rest : ∀ {middle : Cursor}, middle.Closed →
      middle.Passes tokens finish → next token.identifier middle = outcome) :
    (identifier wanted >>= next) start = outcome := by
  rw [identifier_eq]
  exact expect_step closed (by simp) found passes rest

theorem advance_bind {next : Token → Reader β} (closed : start.Closed)
    (more : start.peek.kind ≠ .stop)
    (h : (advance >>= next) start = .ok (b, finish)) :
    ∃ middle, start.Passes [start.peek] middle ∧ middle.Closed ∧
      next start.peek middle = .ok (b, finish) := by
  obtain ⟨token, middle, first, rest⟩ := bind_eq_ok.mp h
  have passes := (advance_eq_ok closed more).mp first
  obtain rfl : start.peek = token := passes.peek
  exact ⟨middle, passes, passes.closed closed, rest⟩

theorem advance_step {next : Token → Reader β} (closed : start.Closed)
    (more : token.kind ≠ .stop)
    (passes : start.Passes (token :: tokens) finish)
    (rest : ∀ {middle : Cursor}, middle.Closed →
      middle.Passes tokens finish → next token middle = outcome) :
    (advance >>= next) start = outcome := by
  obtain ⟨middle, first, others⟩ := passes.uncons
  have more' : start.peek.kind ≠ .stop := by rwa [first.peek]
  rw [bind_of_ok ((advance_eq_ok closed more').mpr first)]
  exact rest (first.closed closed) others

end Steps

end Secrecy.Grammar
