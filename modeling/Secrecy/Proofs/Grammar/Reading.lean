import Secrecy.Proofs.Grammar.Passing

/-!
# Languages of readers

A reader reads a language if it passes over nothing but words of that language,
each with its value, and passes over every such word that is followed by a
token which cannot be mistaken for a part of it.
-/

namespace Secrecy.Grammar

variable {α β : Type}

/-- What a reader does at a cursor, told by the words of a language. -/
structure Reads (start : Cursor) (item : Reader α)
    (Word : List Token → α → Prop) (After : α → Token → Prop) : Prop where
  sound : ∀ {a : α} {finish : Cursor}, item start = .ok (a, finish) →
    ∃ tokens, Word tokens a ∧ start.Passes tokens finish ∧ After a finish.peek
  complete : ∀ {tokens : List Token} {a : α} {finish : Cursor},
    Word tokens a → start.Passes tokens finish → After a finish.peek →
    item start = .ok (a, finish)

section Words

variable {start finish : Cursor} {item : Reader α}
  {Word : List Token → α → Prop} {After : α → Token → Prop}

theorem Reads.bind {next : α → Reader β} {b : β}
    (reads : Reads start item Word After) (closed : start.Closed)
    (h : (item >>= next) start = .ok (b, finish)) :
    ∃ a tokens middle, Word tokens a ∧ start.Passes tokens middle ∧
      After a middle.peek ∧ middle.Closed ∧
      next a middle = .ok (b, finish) := by
  obtain ⟨a, middle, first, rest⟩ := bind_eq_ok.mp h
  obtain ⟨tokens, word, passes, after⟩ := reads.sound first
  exact ⟨a, tokens, middle, word, passes, after, passes.closed closed, rest⟩

theorem Reads.step {next : α → Reader β} {a : α} {tokens others : List Token}
    {outcome : Except GrammarFault (β × Cursor)}
    (reads : Reads start item Word After) (closed : start.Closed)
    (word : Word tokens a) (passes : start.Passes (tokens ++ others) finish)
    (after : ∀ {middle : Cursor}, middle.Passes others finish →
      After a middle.peek)
    (rest : ∀ {middle : Cursor}, middle.Closed →
      middle.Passes others finish → next a middle = outcome) :
    (item >>= next) start = outcome := by
  obtain ⟨middle, first, passes'⟩ := passes.split
  rw [bind_of_ok (reads.complete word first (after passes'))]
  exact rest (first.closed closed) passes'

end Words

inductive ManyOf (Word : List Token → α → Prop) :
    List Token → List α → Prop where
  | nil : ManyOf Word [] []
  | cons {first others : List Token} {a : α} {as : List α}
      (word : Word first a) (rest : ManyOf Word others as) :
      ManyOf Word (first ++ others) (a :: as)

/--
Items can be read in a row if the tokens that open one cannot be mistaken for a
part of the one before.
-/
structure Opening (opens : Token → Option (Reader α))
    (Word : List Token → α → Prop) (After : α → Token → Prop) : Prop where
  reads : ∀ {start : Cursor} {item : Reader α}, start.Closed →
    opens start.peek = some item → Reads start item Word After
  word : ∀ {tokens : List Token} {a : α}, Word tokens a →
    ∃ token rest, tokens = token :: rest ∧ (opens token).isSome
  after : ∀ {a : α} {token : Token}, (opens token).isSome → After a token

def AfterMany (opens : Token → Option (Reader α)) (After : α → Token → Prop)
    (items : List α) (token : Token) : Prop :=
  opens token = none ∧ ∀ a ∈ items.getLast?, After a token

theorem AfterMany.of_cons {opens : Token → Option (Reader α)}
    {After : α → Token → Prop} {a : α} {as : List α} {token : Token}
    (h : AfterMany opens After (a :: as) token) :
    AfterMany opens After as token := by
  refine ⟨h.1, fun last mem => h.2 last ?_⟩
  cases as with
  | nil => cases mem
  | cons b bs => simpa using mem

section Many

variable {opens : Token → Option (Reader α)} {Word : List Token → α → Prop}
  {After : α → Token → Prop}

theorem after_last {start finish : Cursor} {tokens : List Token} {a : α}
    {as : List α} (opening : Opening opens Word After)
    (words : ManyOf Word tokens as) (passes : start.Passes tokens finish) :
    AfterMany opens After (a :: as) finish.peek ↔
      After a start.peek ∧ AfterMany opens After as finish.peek := by
  cases words with
  | nil =>
      rw [passes.eq_of_nil]
      constructor
      · intro h
        exact ⟨h.2 a rfl, h.of_cons⟩
      · rintro ⟨after, nothing, -⟩
        refine ⟨nothing, fun last mem => ?_⟩
        obtain rfl : a = last := by simpa using mem
        exact after
  | cons word rest =>
      obtain ⟨token, others, rfl, opened⟩ := opening.word word
      have peek : start.peek = token := passes.peek
      constructor
      · intro h
        exact ⟨opening.after (peek ▸ opened), h.of_cons⟩
      · rintro ⟨-, nothing, ends⟩
        refine ⟨nothing, fun last mem => ends last ?_⟩
        simpa using mem

theorem reads_repeated_of_none {start : Cursor} {bound : Nat}
    (opening : Opening opens Word After) (nothing : opens start.peek = none) :
    Reads start (repeated opens bound) (ManyOf Word)
      (AfterMany opens After) := by
  have stays : repeated opens bound start = .ok ([], start) := by
    cases bound with
    | zero => rfl
    | succ bound =>
        rw [repeated, peek_bind, nothing]
        rfl
  constructor
  · intro items finish h
    rw [stays] at h
    cases h
    exact ⟨[], .nil, .nil _, nothing, by simp⟩
  · intro tokens items finish words passes _
    cases words with
    | nil =>
        obtain rfl := passes.eq_of_nil
        exact stays
    | cons word rest =>
        obtain ⟨token, others, rfl, opened⟩ := opening.word word
        have peek : start.peek = token := passes.peek
        simp [← peek, nothing] at opened

theorem reads_repeated_of_some {start : Cursor} {bound : Nat}
    {item : Reader α} (opening : Opening opens Word After)
    (found : opens start.peek = some item)
    (others : ∀ {tokens : List Token} {a : α} {middle : Cursor},
      Word tokens a → start.Passes tokens middle →
      Reads middle (repeated opens bound) (ManyOf Word)
        (AfterMany opens After))
    (closed : start.Closed) :
    Reads start (repeated opens (bound + 1)) (ManyOf Word)
      (AfterMany opens After) := by
  have reads := opening.reads closed found
  constructor
  · intro items finish h
    rw [repeated, peek_bind, found] at h
    obtain ⟨a, first, middle, word, passes, after, -, h⟩ :=
      reads.bind closed h
    obtain ⟨as, last, h, stays⟩ := bind_eq_ok.mp h
    obtain ⟨rfl, rfl⟩ := pure_eq_ok.mp stays
    obtain ⟨rest, words, passes', ends⟩ := (others word passes).sound h
    exact ⟨first ++ rest, .cons word words, passes.append passes',
      (after_last opening words passes').mpr ⟨after, ends⟩⟩
  · intro tokens items finish words passes ends
    cases words with
    | nil =>
        obtain rfl := passes.eq_of_nil
        rw [ends.1] at found
        cases found
    | cons word words =>
        obtain ⟨middle, first, rest⟩ := passes.split
        obtain ⟨after, ends⟩ := (after_last opening words rest).mp ends
        have read := reads.complete word first after
        have readOthers := (others word first).complete words rest ends
        rw [repeated, peek_bind, found]
        apply (bind_of_ok read).trans
        exact bind_of_ok readOthers

theorem reads_repeated {start : Cursor} {bound : Nat}
    (opening : Opening opens Word After)
    (stops : ∀ token : Token, token.kind = .stop → opens token = none)
    (closed : start.Closed) (enough : start.ahead.length ≤ bound) :
    Reads start (repeated opens bound) (ManyOf Word)
      (AfterMany opens After) := by
  induction bound generalizing start with
  | zero =>
      have empty : start.ahead = [] := by simpa using enough
      have atStop : start.peek = start.stop := by simp [Cursor.peek, empty]
      apply reads_repeated_of_none opening
      exact stops _ (atStop ▸ closed)
  | succ bound ih =>
      cases found : opens start.peek with
      | none => exact reads_repeated_of_none opening found
      | some item =>
          refine reads_repeated_of_some opening found ?_ closed
          intro tokens a middle word passes
          apply ih (passes.closed closed)
          obtain ⟨token, others, rfl, -⟩ := opening.word word
          have length := passes.length
          rw [List.length_cons] at length
          omega

theorem reads_many {start : Cursor} (opening : Opening opens Word After)
    (stops : ∀ token : Token, token.kind = .stop → opens token = none)
    (closed : start.Closed) :
    Reads start (many opens) (ManyOf Word) (AfterMany opens After) := by
  have reads := reads_repeated opening stops closed (Nat.le_refl _)
  exact ⟨reads.sound, reads.complete⟩

end Many

end Secrecy.Grammar
