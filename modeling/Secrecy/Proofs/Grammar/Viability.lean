import Secrecy.Proofs.Grammar.Expression
import Secrecy.Proofs.Grammar.Tracking

/-!
# Expressions track the notation

Every kind of token that a term may begin with leaves a language of its own
behind it.  A name at the beginning of a body leaves two, and the token after
it tells them apart.  What follows an expression must not begin with bars.
-/

namespace Secrecy.Grammar

open Cursor Computability
open Phrase hiding expression body message assertion protocol

variable {start : Cursor} {after : Language Token.Kind}

/-! ## Terms -/

/-- A reader of expressions, whatever may follow, as long as it is no bars. -/
def TracksExpressions (inner : Reader Expr) : Prop :=
  ∀ ⦃start : Cursor⦄ ⦃after : Language Token.Kind⦄, start.Closed →
    Productive after → (∀ rest, .operator .bars :: rest ∉ after) →
    Tracks start inner (Phrase.expression * after) after

section Terms

variable {inner : Reader Expr}

theorem tracks_argument {β : Type} {symbol : Operator} {next : Expr → Reader β}
    {between : Language Token.Kind} (tracks : TracksExpressions inner)
    (closed : start.Closed) (productive : Productive between)
    (other : symbol ≠ .bars)
    (rest : ∀ {e : Expr} {middle : Cursor}, middle.Closed →
      Tracks middle (next e) between after) :
    Tracks start (inner >>= fun e => operator symbol >>= fun _ => next e)
      (Phrase.expression * (Phrase.symbol symbol * between)) after := by
  apply (tracks closed (by simp [productive]) ?_).bind closed
  · intro e middle closed
    exact (tracks_operator closed productive).bind closed rest
  · simp [other.symm]

theorem tracks_tooDeep {before : Language Token.Kind} :
    Tracks start (tooDeep start.peek.line) before after := by
  constructor
  · exact nofun
  · exact nofun
  · intro fault fails
    cases fails
    exact ⟨start.peek, start.peek_mem_onward, rfl⟩

/-- A key has its line from the token with which it begins. -/
theorem tracks_key {before : Language Token.Kind} {constructor : Token}
    (h : Tracks start inner before after) :
    Tracks start (inner >>= keyOf constructor start.peek.line) before after := by
  have read {e : Expr} {key : Identifier} {middle finish : Cursor}
      (isKey : keyOf constructor start.peek.line e middle =
        .ok (key, finish)) : middle = finish := by
    cases e <;> cases isKey
    rfl
  constructor
  · intro key finish reads
    obtain ⟨e, middle, first, isKey⟩ := bind_eq_ok.mp reads
    obtain rfl := read isKey
    exact h.goesOn first
  · intro wanted last found refuses
    rcases bind_eq_error.mp refuses with here | ⟨e, middle, -, later⟩
    · exact h.stops here
    · cases e <;> cases later
  · intro fault fails
    -- What is no name is complained about with the line where it begins.
    rcases bind_eq_error.mp fails with here | ⟨e, middle, -, later⟩
    · exact h.stands here
    · cases e <;> cases later <;>
        exact ⟨start.peek, start.peek_mem_onward, rfl⟩

theorem tracks_keyedArguments {constructor : Token}
    (tracks : TracksExpressions inner) (closed : start.Closed)
    (productive : Productive after) :
    Tracks start (keyedArguments constructor inner)
      (symbol .leftParen * (Phrase.expression * (symbol .comma *
        (Phrase.expression * (symbol .rightParen * after))))) after := by
  apply (tracks_operator closed (by simp [productive])).bind closed
  intro _ start closed
  apply Tracks.peek_bind
  rw [← bind_assoc]
  apply (tracks_key (tracks closed (by simp [productive]) (by simp))).bind closed
  intro _ start closed
  apply (tracks_operator closed (by simp [productive])).bind closed
  intro _ start closed
  exact tracks_argument tracks closed productive (by simp)
    fun _ => tracks_pure

def behindHead (arguments after : Language Token.Kind) :
    Token.Kind → Language Token.Kind
  | .keyword .enc | .keyword .mac =>
      symbol .leftParen * (arguments * (symbol .comma *
        (arguments * (symbol .rightParen * after))))
  | .keyword .sign =>
      symbol .leftParen * (name * (symbol .comma *
        (arguments * (symbol .rightParen * after))))
  | .keyword .verify =>
      symbol .leftParen * (name * (symbol .comma * (arguments *
        (symbol .comma * (arguments * (symbol .rightParen * after))))))
  | .keyword .hash =>
      symbol .leftParen * (arguments * (symbol .rightParen * after))
  | .name => after
  | _ => 0

theorem cons_mem_termOver_mul {arguments : Language Token.Kind}
    {first : Token.Kind} {rest : List Token.Kind} :
    first :: rest ∈ termOver arguments * after ↔
      rest ∈ behindHead arguments after first := by
  simp only [termOver, Phrase.applied, mem_add_mul, mul_assoc,
    cons_mem_one_mul]
  cases first with
  | keyword word => cases word <;> simp [behindHead]
  | _ => simp [behindHead]

theorem tracks_term (tracks : TracksExpressions inner) (closed : start.Closed)
    (productive : Productive after) :
    Tracks start (term inner) (termOver Phrase.expression * after) after := by
  have behind {kind : Token.Kind} (rest : List Token.Kind) :
      kind :: rest ∈ termOver Phrase.expression * after ↔
        rest ∈ behindHead Phrase.expression after kind :=
    cons_mem_termOver_mul
  have refused (nothing :
      behindHead Phrase.expression after start.peek.kind = 0) :
      Tracks start (refuse .expression : Reader Expr)
        (termOver Phrase.expression * after) after := by
    apply tracks_refuse
    · simp [productive]
    · intro rest mem
      rw [behind, nothing] at mem
      exact mem
  apply Tracks.peek_bind
  cases kind : start.peek.kind with
  | name =>
      apply tracks_identifier_bind closed kind (leaves_of_cons behind)
      exact fun _ _ => tracks_pure
  | keyword word =>
      cases word with
      | enc | mac =>
          apply tracks_advance_bind closed kind (by simp) behind
          intro start closed
          exact (tracks_keyedArguments tracks closed productive).bind closed
            fun _ => tracks_pure
      | sign =>
          apply tracks_advance_bind closed kind (by simp) behind
          intro start closed
          apply tracks_firstName closed (by simp [productive])
          intro _ start closed
          exact tracks_argument tracks closed productive (by simp)
            fun _ => tracks_pure
      | verify =>
          apply tracks_advance_bind closed kind (by simp) behind
          intro start closed
          apply tracks_firstName closed (by simp [productive])
          intro _ start closed
          apply tracks_argument tracks closed (by simp [productive]) (by simp)
          intro _ start closed
          exact tracks_argument tracks closed productive (by simp)
            fun _ => tracks_pure
      | hash =>
          apply tracks_advance_bind closed kind (by simp) behind
          intro start closed
          apply (tracks_operator closed (by simp [productive])).bind closed
          intro _ start closed
          exact tracks_argument tracks closed productive (by simp)
            fun _ => tracks_pure
      | _ =>
          apply refused
          rw [kind]
          rfl
  | operator symbol =>
      apply refused
      rw [kind]
      rfl
  | stop =>
      apply refused
      rw [kind]
      rfl

end Terms

/-! ## Expressions -/

def tailOver (after : Language Token.Kind) : Language Token.Kind :=
  (symbol .bars * termOver Phrase.expression)∗ * after

theorem cons_mem_tailOver {first : Token.Kind} {rest : List Token.Kind} :
    first :: rest ∈ tailOver after ↔ first :: rest ∈ after ∨
      first = .operator .bars ∧
        rest ∈ termOver Phrase.expression * tailOver after := by
  rw [tailOver, mem_kstar_mul, mul_assoc, cons_mem_one_mul]

theorem tracks_chain_of_notBars {levels : Nat} {left : Expr}
    (notBars : start.peek.kind ≠ .operator .bars) :
    Tracks start (chainWithin levels left) (tailOver after) after := by
  have stays : Tracks start (pure left : Reader Expr) (tailOver after)
      after := by
    apply tracks_pure.widen
    · intro word mem
      exact mem_kstar_mul.mpr (.inl mem)
    · intro rest mem
      simpa [cons_mem_tailOver, notBars] using mem
  apply stays.congr
  cases levels with
  | zero => rw [chainWithin, notBars_bind notBars]
  | succ levels => rw [chainWithin, notBars_bind notBars]

theorem tracks_chain {levels : Nat} {left : Expr}
    (operands : ∀ n < levels, TracksExpressions (expressionWithin n))
    (closed : start.Closed) (productive : Productive after)
    (notBars : ∀ rest, .operator .bars :: rest ∉ after) :
    Tracks start (chainWithin levels left) (tailOver after) after := by
  induction levels generalizing left start with
  | zero =>
      by_cases bars : start.peek.kind = .operator .bars
      · have unfolded : chainWithin 0 left start =
            (do tooDeep (← advance).line : Reader Expr) start := by
          rw [chainWithin, atBars_bind bars]
        exact tracks_tooDeep.congr unfolded
      · exact tracks_chain_of_notBars bars
  | succ levels ih =>
      by_cases bars : start.peek.kind = .operator .bars
      · have unfolded : chainWithin (levels + 1) left start =
            (do
              let _ ← advance
              let right ← term (expressionWithin levels)
              chainWithin levels (.concat left right left.line) :
                Reader Expr) start := by
          rw [chainWithin, atBars_bind bars]
        have behind (rest : List Token.Kind) :
            .operator .bars :: rest ∈ tailOver after ↔
              rest ∈ termOver Phrase.expression * tailOver after := by
          simp [cons_mem_tailOver, notBars]
        refine Tracks.congr ?_ unfolded
        apply tracks_advance_bind closed bars (by simp) behind
        intro start closed
        have operand := operands levels (Nat.lt_succ_self _)
        apply (tracks_term operand closed (by simp [tailOver, productive])).bind
          closed
        intro right start closed
        exact ih (fun n less => operands n (Nat.lt_succ_of_lt less)) closed
      · exact tracks_chain_of_notBars bars

theorem expression_mul_eq :
    Phrase.expression * after =
      termOver Phrase.expression * tailOver after :=
  Phrase.expression_mul

theorem tracks_expressionWithin (levels : Nat) :
    TracksExpressions (expressionWithin levels) := by
  induction levels using Nat.strongRecOn with
  | ind levels ih =>
      intro start after closed productive notBars
      cases levels with
      | zero => exact tracks_tooDeep.peek_bind
      | succ levels =>
          have operand := ih levels (Nat.lt_succ_self _)
          rw [expressionWithin, expression_mul_eq]
          apply (tracks_term operand closed
            (by simp [tailOver, productive])).bind closed
          intro left start closed
          exact tracks_chain (fun n less => ih n (Nat.lt_succ_of_lt less))
            closed productive notBars

theorem tracks_expression : TracksExpressions expression :=
  tracks_expressionWithin depthLimit

/-! ## Bodies -/

theorem name_cons_mem_body {rest : List Token.Kind} :
    .name :: rest ∈ Phrase.body * after ↔
      rest ∈ symbol .equals * (Phrase.expression * after) ∨
        rest ∈ tailOver after := by
  have lone : .name :: rest ∈ Phrase.expression * after ↔
      rest ∈ tailOver after := by
    rw [expression_mul_eq, cons_mem_termOver_mul]
    rfl
  rw [Phrase.body, mem_add_mul, lone, mul_assoc, cons_mem_one_mul, mul_assoc,
    and_iff_right rfl]

section Bodies

variable (closed : start.Closed) (productive : Productive after)
  (notBars : ∀ rest, .operator .bars :: rest ∉ after)
  (notEquals : ∀ rest, .operator .equals :: rest ∉ after)

include closed productive notBars notEquals

theorem tracks_assignment (assigns : Assigns start) :
    Tracks start (do
      let target ← identifier .expression
      let _ ← advance
      let value ← expression
      return .assign target value target.line : Reader Expr)
      (Phrase.body * after) after := by
  have leaves : Leaves (Phrase.body * after) [.name] start.peekSecond.kind
      (symbol .equals * (Phrase.expression * after)) := by
    constructor
    · intro rest mem
      exact name_cons_mem_body.mpr (.inl mem)
    · intro rest mem
      apply (name_cons_mem_body.mp mem).resolve_right
      simp [cons_mem_tailOver, assigns.2, notEquals]
  apply tracks_identifier_bind closed assigns.1 leaves
  intro middle closed second
  have isEquals : middle.peek.kind = .operator .equals := second ▸ assigns.2
  have behind (rest : List Token.Kind) :
      .operator .equals :: rest ∈
          symbol .equals * (Phrase.expression * after) ↔
        rest ∈ Phrase.expression * after := by
    simp
  apply tracks_advance_bind closed isEquals (by simp) behind
  intro middle closed
  exact (tracks_expression closed productive notBars).bind closed
    fun _ => tracks_pure

omit notEquals in
theorem tracks_lone (isName : start.peek.kind = .name)
    (other : start.peekSecond.kind ≠ .operator .equals) (levels : Nat) :
    Tracks start (expressionWithin levels) (Phrase.body * after) after := by
  cases levels with
  | zero => exact tracks_tooDeep.peek_bind
  | succ levels =>
      have leaves : Leaves (Phrase.body * after) [.name]
          start.peekSecond.kind (tailOver after) := by
        constructor
        · intro rest mem
          exact name_cons_mem_body.mpr (.inr mem)
        · intro rest mem
          apply (name_cons_mem_body.mp mem).resolve_left
          simp [other]
      have unfolded : expressionWithin (levels + 1) start =
          (do
            let name ← identifier .expression
            chainWithin levels (.name name) : Reader Expr) start := by
        rw [expressionWithin, term, bind_assoc, peek_bind]
        simp only [isName, bind_assoc, pure_bind]
      refine Tracks.congr ?_ unfolded
      apply tracks_identifier_bind closed isName leaves
      intro middle closed _
      exact tracks_chain (fun n _ => tracks_expressionWithin n) closed
        productive notBars

theorem tracks_body : Tracks start body (Phrase.body * after) after := by
  refine Tracks.congr ?_ body_eq
  split
  · next assigns =>
      exact tracks_assignment closed productive notBars notEquals assigns
  · next other =>
      by_cases isName : start.peek.kind = .name
      · exact tracks_lone closed productive notBars isName
          (fun equals => other ⟨isName, equals⟩) depthLimit
      · apply (tracks_expression closed productive notBars).widen
        · intro word mem
          rw [Phrase.body, mem_add_mul]
          exact .inr mem
        · intro rest mem
          rw [Phrase.body, mem_add_mul, mul_assoc, cons_mem_one_mul] at mem
          exact mem.resolve_left fun named => isName named.1

end Bodies

end Secrecy.Grammar
