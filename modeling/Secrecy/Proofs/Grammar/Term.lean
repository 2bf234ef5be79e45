import Secrecy.Proofs.Grammar.Derivation

/-!
# Terms are read as derived

A reader that may open `n` levels reads the expressions of depth up to `n`; if
the arguments of a term are read so, the term may have one level more.
-/

namespace Secrecy.Grammar

open Cursor

variable {β : Type} {start finish : Cursor}

def ExprWithin (levels : Nat) (tokens : List Token) (e : Expr) : Prop :=
  ExprOf tokens e ∧ e.depth ≤ levels

def TermWithin (levels : Nat) (tokens : List Token) (e : Expr) : Prop :=
  TermOf tokens e ∧ e.depth ≤ levels

def ArgumentsWithin (levels : Nat) (tokens : List Token)
    (arguments : Identifier × Expr) : Prop :=
  ArgumentsOf tokens arguments.1 arguments.2 ∧ arguments.2.depth ≤ levels

/-- After a term that is complete, anything may follow. -/
def Anything {α : Type} (_ : α) (_ : Token) : Prop := True

def NotBars {α : Type} (_ : α) (token : Token) : Prop :=
  token.kind ≠ .operator .bars

def ReadsWithin (levels : Nat) (item : Reader Expr) : Prop :=
  ∀ ⦃start : Cursor⦄, start.Closed →
    Reads start item (ExprWithin levels) NotBars

/-! ## Arguments -/

section Arguments

variable {levels : Nat} {inner : Reader Expr} {symbol : Operator}
  {next : Expr → Reader β} (reads : ReadsWithin levels inner)
  (closed : start.Closed)

include reads closed

theorem argument_bind {b : β}
    (h : (inner >>= fun e => operator symbol >>= fun _ => next e) start =
      .ok (b, finish)) :
    ∃ e tokens mark middle, ExprWithin levels tokens e ∧
      mark.kind = .operator symbol ∧ start.Passes (tokens ++ [mark]) middle ∧
      middle.Closed ∧ next e middle = .ok (b, finish) := by
  obtain ⟨e, tokens, _, word, passes, -, closed, h⟩ :=
    (reads closed).bind closed h
  obtain ⟨mark, middle, isMark, passMark, closed, h⟩ := operator_bind closed h
  exact ⟨e, tokens, mark, middle, word, isMark, passes.append passMark,
    closed, h⟩

theorem argument_step {e : Expr} {tokens others : List Token} {mark : Token}
    {outcome : Except GrammarFault (β × Cursor)} (other : symbol ≠ .bars)
    (word : ExprWithin levels tokens e) (isMark : mark.kind = .operator symbol)
    (passes : start.Passes (tokens ++ mark :: others) finish)
    (rest : ∀ {middle : Cursor}, middle.Closed →
      middle.Passes others finish → next e middle = outcome) :
    (inner >>= fun e => operator symbol >>= fun _ => next e) start =
      outcome := by
  have after {middle : Cursor} (passes : middle.Passes (mark :: others) finish) :
      NotBars e middle.peek := by
    intro bars
    rw [passes.peek, isMark] at bars
    cases bars
    exact other rfl
  refine (reads closed).step closed word passes after fun closed passes => ?_
  exact operator_step closed isMark passes rest

end Arguments

theorem keyOf_bind {constructor : Token} {line : Int} {e : Expr}
    {next : Identifier → Reader β} {b : β} :
    (keyOf constructor line e >>= next) start = .ok (b, finish) ↔
      ∃ key, e = .name key ∧ next key start = .ok (b, finish) := by
  cases e with
  | name key =>
      constructor
      · intro h
        exact ⟨key, rfl, h⟩
      · rintro ⟨_, ⟨⟩, h⟩
        exact h
  | _ =>
      constructor
      · intro h
        cases h
      · rintro ⟨_, ⟨⟩, _⟩

theorem exprOf_name {tokens : List Token} {key : Identifier} :
    ExprOf tokens (.name key) ↔
      ∃ token, tokens = [token] ∧ token.kind = .name ∧
        key = token.identifier := by
  constructor
  · intro h
    cases h with
    | term term =>
        cases term with
        | name kind => exact ⟨_, rfl, kind, rfl⟩
  · rintro ⟨token, rfl, kind, rfl⟩
    exact .term (.name kind)

section Terms

variable {levels : Nat} {inner : Reader Expr}

theorem reads_arguments (constructor : Token)
    (reads : ReadsWithin levels inner) (closed : start.Closed) :
    Reads start (keyedArguments constructor inner) (ArgumentsWithin levels)
      Anything := by
  constructor
  · rintro ⟨key, message⟩ finish h
    obtain ⟨opened, _, isOpened, passOpened, closed, h⟩ :=
      operator_bind closed h
    rw [peek_bind] at h
    obtain ⟨_, ofKey, _, ⟨isExpr, -⟩, passKey, -, closed, h⟩ :=
      (reads closed).bind closed h
    obtain ⟨_, rfl, rest⟩ := keyOf_bind.mp h
    obtain ⟨name, rfl, isName, rfl⟩ := exprOf_name.mp isExpr
    obtain ⟨comma, _, isComma, passComma, closed, h⟩ :=
      operator_bind closed rest
    obtain ⟨_, tokens, closing, _, ⟨messageOf, shallow⟩, isClosing,
      passMessage, -, h⟩ := argument_bind reads closed h
    obtain ⟨⟨⟩, rfl⟩ := pure_eq_ok.mp h
    exact ⟨_, ⟨.intro isOpened isName isComma messageOf isClosing, shallow⟩,
      passOpened.cons (passKey.cons (passComma.cons passMessage)), trivial⟩
  · rintro _ ⟨_, message⟩ finish ⟨word, shallow⟩ passes -
    obtain ⟨isOpened, isKey, isComma, messageOf, isClosing⟩ := word
    -- The key is read as an expression, so it needs a level of its own.
    have room : 1 ≤ levels := Nat.le_trans message.depth_pos shallow
    refine operator_step closed isOpened passes fun closed passes => ?_
    rw [peek_bind]
    refine (reads closed).step closed ⟨.term (.name isKey), room⟩ passes
      (fun passes => ?_) fun closed passes => ?_
    · simp [NotBars, passes.peek, isComma]
    refine keyOf_bind.mpr ⟨_, rfl, ?_⟩
    refine operator_step closed isComma passes fun closed passes => ?_
    exact argument_step reads closed (by decide) ⟨messageOf, shallow⟩ isClosing
      passes fun _ => pure_of_nil

def signedArguments (inner : Reader Expr) : Reader (Identifier × Expr) := do
  let _ ← operator .leftParen
  let key ← identifier .signingKey
  let _ ← operator .comma
  let message ← inner
  let _ ← operator .rightParen
  return (key, message)

theorem reads_signedArguments
    (reads : ReadsWithin levels inner) (closed : start.Closed) :
    Reads start (signedArguments inner) (ArgumentsWithin levels) Anything := by
  constructor
  · rintro ⟨key, message⟩ finish h
    obtain ⟨opened, _, isOpened, passOpened, closed, h⟩ :=
      operator_bind closed h
    obtain ⟨name, _, isName, passName, closed, h⟩ := identifier_bind closed h
    obtain ⟨comma, _, isComma, passComma, closed, h⟩ := operator_bind closed h
    obtain ⟨_, tokens, closing, _, ⟨messageOf, shallow⟩, isClosing,
      passMessage, -, h⟩ := argument_bind reads closed h
    obtain ⟨⟨⟩, rfl⟩ := pure_eq_ok.mp h
    exact ⟨_, ⟨.intro isOpened isName isComma messageOf isClosing, shallow⟩,
      passOpened.cons (passName.cons (passComma.cons passMessage)), trivial⟩
  · rintro _ ⟨_, message⟩ finish ⟨word, shallow⟩ passes -
    obtain ⟨isOpened, isKey, isComma, messageOf, isClosing⟩ := word
    refine operator_step closed isOpened passes fun closed passes => ?_
    refine identifier_step closed isKey passes fun closed passes => ?_
    refine operator_step closed isComma passes fun closed passes => ?_
    exact argument_step reads closed (by decide) ⟨messageOf, shallow⟩ isClosing
      passes fun _ => pure_of_nil

/-! ## Terms -/

theorem applied_eq_ok (build : Identifier → Expr → Int → Expr) {e : Expr}
    {arguments : Token → Reader (Identifier × Expr)}
    (reads : ∀ {start : Cursor} (head : Token), start.Closed →
      Reads start (arguments head) (ArgumentsWithin levels) Anything)
    (closed : start.Closed) (more : start.peek.kind ≠ .stop) :
    (do
      let head ← advance
      let (key, message) ← arguments head
      return build key message head.line : Reader Expr) start =
        .ok (e, finish) ↔
      ∃ tokens key message, ArgumentsWithin levels tokens (key, message) ∧
        start.Passes (start.peek :: tokens) finish ∧
        e = build key message start.peek.line := by
  constructor
  · intro h
    obtain ⟨_, passHead, closed, h⟩ := advance_bind closed more h
    obtain ⟨⟨key, message⟩, tokens, _, word, passes, -, -, h⟩ :=
      (reads _ closed).bind closed h
    obtain ⟨rfl, rfl⟩ := pure_eq_ok.mp h
    exact ⟨tokens, key, message, word, passHead.cons passes, rfl⟩
  · rintro ⟨tokens, key, message, word, passes, rfl⟩
    refine advance_step closed more passes fun closed passes => ?_
    exact bind_of_ok ((reads _ closed).complete word passes trivial)

theorem term_sound {e : Expr}
    (reads : ReadsWithin levels inner) (closed : start.Closed)
    (h : term inner start = .ok (e, finish)) :
    ∃ tokens, TermWithin (levels + 1) tokens e ∧
      start.Passes tokens finish := by
  have keyed {start : Cursor} (head : Token) (closed : start.Closed) :=
    reads_arguments head reads closed
  have signed {start : Cursor} (_ : Token) (closed : start.Closed) :=
    reads_signedArguments reads closed
  rw [term, peek_bind] at h
  cases kind : start.peek.kind with
  | name =>
      rw [kind] at h
      obtain ⟨token, _, isName, passes, -, h⟩ := identifier_bind closed h
      obtain ⟨rfl, rfl⟩ := pure_eq_ok.mp h
      exact ⟨_, ⟨.name isName, by simp [Expr.depth]⟩, passes⟩
  | keyword word =>
      rw [kind] at h
      cases word with
      | enc =>
          obtain ⟨_, _, _, ⟨word, shallow⟩, passes, rfl⟩ :=
            (applied_eq_ok .enc keyed closed (by simp [kind])).mp h
          exact ⟨_, ⟨.enc kind word, Nat.succ_le_succ shallow⟩, passes⟩
      | mac =>
          obtain ⟨_, _, _, ⟨word, shallow⟩, passes, rfl⟩ :=
            (applied_eq_ok .mac keyed closed (by simp [kind])).mp h
          exact ⟨_, ⟨.mac kind word, Nat.succ_le_succ shallow⟩, passes⟩
      | sign =>
          have more : start.peek.kind ≠ .stop := by simp [kind]
          have h : (do
              let head ← advance
              let (key, message) ← signedArguments inner
              return .sign key message head.line : Reader Expr) start =
                .ok (e, finish) := by
            simpa only [signedArguments, bind_assoc, pure_bind] using h
          obtain ⟨_, _, _, ⟨word, shallow⟩, passes, rfl⟩ :=
            (applied_eq_ok .sign signed closed more).mp h
          exact ⟨_, ⟨.sign kind word, Nat.succ_le_succ shallow⟩, passes⟩
      | verify =>
          obtain ⟨_, passHead, closed, h⟩ :=
            advance_bind closed (by simp [kind]) h
          obtain ⟨_, _, isOpened, passOpened, closed, h⟩ :=
            operator_bind closed h
          obtain ⟨_, _, isKey, passKey, closed, h⟩ := identifier_bind closed h
          obtain ⟨_, _, isComma, passComma, closed, h⟩ := operator_bind closed h
          obtain ⟨_, _, _, _, ⟨messageOf, shallow⟩, isComma', passMessage,
            closed, h⟩ := argument_bind reads closed h
          obtain ⟨_, _, _, _, ⟨signatureOf, shallow'⟩, isClosing,
            passSignature, -, h⟩ := argument_bind reads closed h
          obtain ⟨rfl, rfl⟩ := pure_eq_ok.mp h
          have passes := passHead.cons (passOpened.cons (passKey.cons
            (passComma.cons (passMessage.append passSignature))))
          rw [List.append_assoc] at passes
          exact ⟨_, ⟨.verify kind isOpened isKey isComma messageOf isComma'
              signatureOf isClosing,
            Nat.succ_le_succ (Nat.max_le.mpr ⟨shallow, shallow'⟩)⟩, passes⟩
      | hash =>
          obtain ⟨_, passHead, closed, h⟩ :=
            advance_bind closed (by simp [kind]) h
          obtain ⟨_, _, isOpened, passOpened, closed, h⟩ :=
            operator_bind closed h
          obtain ⟨_, _, _, _, ⟨innerOf, shallow⟩, isClosing, passInner, -,
            h⟩ := argument_bind reads closed h
          obtain ⟨rfl, rfl⟩ := pure_eq_ok.mp h
          exact ⟨_, ⟨.hash kind isOpened innerOf isClosing,
            Nat.succ_le_succ shallow⟩,
            passHead.cons (passOpened.cons passInner)⟩
      | _ => cases h
  | operator symbol =>
      rw [kind] at h
      cases h
  | stop =>
      rw [kind] at h
      cases h

theorem term_complete {e : Expr} {tokens : List Token}
    (reads : ReadsWithin levels inner) (closed : start.Closed)
    (word : TermWithin (levels + 1) tokens e)
    (passes : start.Passes tokens finish) :
    term inner start = .ok (e, finish) := by
  have keyed {start : Cursor} (head : Token) (closed : start.Closed) :=
    reads_arguments head reads closed
  have signed {start : Cursor} (_ : Token) (closed : start.Closed) :=
    reads_signedArguments reads closed
  obtain ⟨word, shallow⟩ := word
  rw [term, peek_bind]
  cases word with
  | name kind =>
      rw [passes.peek, kind]
      exact identifier_step closed kind passes fun _ => pure_of_nil
  | enc kind arguments =>
      obtain rfl := passes.peek
      rw [kind]
      exact (applied_eq_ok .enc keyed closed (by simp [kind])).mpr
        ⟨_, _, _, ⟨arguments, Nat.le_of_succ_le_succ shallow⟩, passes, rfl⟩
  | mac kind arguments =>
      obtain rfl := passes.peek
      rw [kind]
      exact (applied_eq_ok .mac keyed closed (by simp [kind])).mpr
        ⟨_, _, _, ⟨arguments, Nat.le_of_succ_le_succ shallow⟩, passes, rfl⟩
  | sign kind arguments =>
      obtain rfl := passes.peek
      rw [kind]
      have read := (applied_eq_ok .sign signed closed (by simp [kind])).mpr
        ⟨_, _, _, ⟨arguments, Nat.le_of_succ_le_succ shallow⟩, passes, rfl⟩
      simpa only [signedArguments, bind_assoc, pure_bind] using read
  | verify kind isOpened isKey isComma messageOf isComma' signatureOf
      isClosing =>
      rw [passes.peek, kind]
      have shallow := Nat.max_le.mp (Nat.le_of_succ_le_succ shallow)
      refine advance_step closed (by simp [kind]) passes
        fun closed passes => ?_
      refine operator_step closed isOpened passes fun closed passes => ?_
      refine identifier_step closed isKey passes fun closed passes => ?_
      refine operator_step closed isComma passes fun closed passes => ?_
      refine argument_step reads closed (by decide) ⟨messageOf, shallow.1⟩
        isComma' passes fun closed passes => ?_
      exact argument_step reads closed (by decide) ⟨signatureOf, shallow.2⟩
        isClosing passes fun _ => pure_of_nil
  | hash kind isOpened innerOf isClosing =>
      rw [passes.peek, kind]
      refine advance_step closed (by simp [kind]) passes
        fun closed passes => ?_
      refine operator_step closed isOpened passes fun closed passes => ?_
      exact argument_step reads closed (by decide)
        ⟨innerOf, Nat.le_of_succ_le_succ shallow⟩ isClosing passes
        fun _ => pure_of_nil

theorem reads_term
    (reads : ReadsWithin levels inner) (closed : start.Closed) :
    Reads start (term inner) (TermWithin (levels + 1)) Anything := by
  constructor
  · intro e finish h
    obtain ⟨tokens, word, passes⟩ := term_sound reads closed h
    exact ⟨tokens, word, passes, trivial⟩
  · intro tokens e finish word passes _
    exact term_complete reads closed word passes

end Terms

end Secrecy.Grammar
