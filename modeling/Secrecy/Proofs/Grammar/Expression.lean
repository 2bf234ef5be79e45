import Secrecy.Proofs.Grammar.Term

/-!
# Expressions are read as derived

The induction is on the levels, for expressions and for the rest of a
concatenation at once.  While a concatenation is read, the levels left and the
operands behind add up to the levels it began with.
-/

namespace Secrecy.Grammar

open Cursor

variable {start finish : Cursor}

/-! ## Concatenations -/

theorem TermOf.not_concat {tokens : List Token} {e : Expr}
    (h : TermOf tokens e) : e.operands = [e] := by
  cases h <;> rfl

theorem TailOf.depth_le {left e : Expr} {tokens : List Token}
    (tail : TailOf left tokens e) : left.depth ≤ e.depth := by
  induction tail with
  | done left => exact Nat.le_refl _
  | more _ _ _ ih => exact Nat.le_trans (Nat.le_max_left _ _) ih

def TailWithin (levels : Nat) (left : Expr) (tokens : List Token) (e : Expr) :
    Prop :=
  TailOf left tokens e ∧ e.depth ≤ left.operands.length + levels

theorem TailWithin.done {levels : Nat} {left : Expr}
    (room : left.depth ≤ left.operands.length + levels) :
    TailWithin levels left [] left :=
  ⟨.done left, room⟩

theorem tailWithin_cons {levels : Nat} {left e : Expr} {bars : Token}
    {tokens : List Token} :
    TailWithin (levels + 1) left (bars :: tokens) e ↔
      ∃ first others right, tokens = first ++ others ∧
        bars.kind = .operator .bars ∧ TermWithin (levels + 1) first right ∧
        TailWithin levels (.concat left right left.line) others e := by
  constructor
  · rintro ⟨tail, shallow⟩
    cases tail with
    | more isBars rightOf rest =>
        have deeper := rest.depth_le
        simp only [Expr.depth, Nat.max_le] at deeper
        refine ⟨_, _, _, rfl, isBars, ⟨rightOf, by omega⟩, rest, ?_⟩
        simp only [Expr.operands, List.length_append, List.length_singleton]
        omega
  · rintro ⟨first, others, right, rfl, isBars, ⟨rightOf, -⟩, rest, shallow⟩
    refine ⟨.more isBars rightOf rest, ?_⟩
    simp only [Expr.operands, List.length_append, List.length_singleton]
      at shallow
    omega

theorem not_tailWithin_zero {left e : Expr} {bars : Token}
    {tokens : List Token} : ¬ TailWithin 0 left (bars :: tokens) e := by
  rintro ⟨tail, shallow⟩
  cases tail with
  | @more _ right _ _ _ _ _ _ rest =>
      have deeper := rest.depth_le
      have positive := right.depth_pos
      simp only [Expr.depth, Nat.max_le] at deeper
      omega

theorem notBars_bind (notBars : start.peek.kind ≠ .operator .bars)
    {yes no : Reader Expr} :
    (do if ← atBars then yes else no : Reader Expr) start = no start := by
  change (if decide (start.peek.kind = .operator .bars) = true then yes
    else no) start = no start
  rw [if_neg (by simpa using notBars)]

theorem reads_chain_of_notBars {levels : Nat} {left : Expr}
    (room : left.depth ≤ left.operands.length + levels)
    (notBars : start.peek.kind ≠ .operator .bars) :
    Reads start (chainWithin levels left) (TailWithin levels left) NotBars := by
  have stays : chainWithin levels left start = .ok (left, start) := by
    cases levels with
    | zero => rw [chainWithin, notBars_bind notBars]; rfl
    | succ levels => rw [chainWithin, notBars_bind notBars]; rfl
  constructor
  · intro e finish h
    rw [stays] at h
    cases h
    exact ⟨[], .done room, .nil _, notBars⟩
  · rintro tokens e finish ⟨tail, -⟩ passes after
    cases tail with
    | done =>
        obtain rfl := passes.eq_of_nil
        exact stays
    | more isBars => exact absurd (passes.peek ▸ isBars) notBars

section Bars

variable {left : Expr} (bars : start.peek.kind = .operator .bars)

include bars

theorem atBars_bind {yes no : Reader Expr} :
    (do if ← atBars then yes else no : Reader Expr) start = yes start := by
  change (if decide (start.peek.kind = .operator .bars) = true then yes
    else no) start = yes start
  rw [if_pos (by simpa using bars)]

theorem reads_chain_zero :
    Reads start (chainWithin 0 left) (TailWithin 0 left) NotBars := by
  constructor
  · intro e finish h
    rw [chainWithin, atBars_bind bars] at h
    cases h
  · intro tokens e finish word passes after
    cases tokens with
    | nil =>
        obtain rfl := passes.eq_of_nil
        exact absurd bars after
    | cons bars tokens => exact absurd word not_tailWithin_zero

theorem reads_chain_succ {levels : Nat}
    (operand : ReadsWithin levels (expressionWithin levels))
    (rest : ∀ {start : Cursor} {right : Expr}, start.Closed →
      right.depth ≤ levels + 1 →
      Reads start (chainWithin levels (.concat left right left.line))
        (TailWithin levels (.concat left right left.line)) NotBars)
    (closed : start.Closed) :
    Reads start (chainWithin (levels + 1) left) (TailWithin (levels + 1) left)
      NotBars := by
  constructor
  · intro e finish h
    rw [chainWithin, atBars_bind bars] at h
    obtain ⟨_, passBars, closed, h⟩ := advance_bind closed (by simp [bars]) h
    obtain ⟨right, first, _, word, passRight, -, closed, h⟩ :=
      (reads_term operand closed).bind closed h
    obtain ⟨others, tail, passOthers, after⟩ := (rest closed word.2).sound h
    exact ⟨_, tailWithin_cons.mpr ⟨first, others, right, rfl, bars, word, tail⟩,
      passBars.cons (passRight.append passOthers), after⟩
  · intro tokens e finish word passes after
    rw [chainWithin, atBars_bind bars]
    cases tokens with
    | nil =>
        obtain rfl := passes.eq_of_nil
        exact absurd bars after
    | cons _ tokens =>
        obtain ⟨first, others, right, rfl, isBars, word, tail⟩ :=
          tailWithin_cons.mp word
        refine advance_step closed (by simp [isBars]) passes
          fun closed passes => ?_
        refine (reads_term operand closed).step closed word passes
          (fun _ => trivial) fun closed passes => ?_
        exact (rest closed word.2).complete tail passes after

end Bars

theorem reads_chainWithin {levels : Nat} {left : Expr}
    (operands : ∀ n < levels, ReadsWithin n (expressionWithin n))
    (room : left.depth ≤ left.operands.length + levels)
    (closed : start.Closed) :
    Reads start (chainWithin levels left) (TailWithin levels left) NotBars := by
  induction levels generalizing left start with
  | zero =>
      by_cases bars : start.peek.kind = .operator .bars
      · exact reads_chain_zero bars
      · exact reads_chain_of_notBars room bars
  | succ levels ih =>
      by_cases bars : start.peek.kind = .operator .bars
      · have operand := operands levels (Nat.lt_succ_self _)
        refine reads_chain_succ bars operand (fun closed shallow => ?_) closed
        refine ih (fun n less => operands n (Nat.lt_succ_of_lt less)) ?_ closed
        simp only [Expr.depth, Expr.operands, List.length_append,
          List.length_singleton]
        omega
      · exact reads_chain_of_notBars room bars

/-! ## Expressions -/

theorem exprWithin_succ {levels : Nat} {tokens : List Token} {e : Expr} :
    ExprWithin (levels + 1) tokens e ↔
      ∃ first others left, tokens = first ++ others ∧
        TermWithin (levels + 1) first left ∧
        TailWithin levels left others e := by
  have levels_eq : 1 + levels = levels + 1 := Nat.add_comm 1 levels
  constructor
  · rintro ⟨exprOf, shallow⟩
    obtain ⟨first, others, left, rfl, term, tail⟩ := exprOf_iff.mp exprOf
    have single := congrArg List.length term.not_concat
    rw [List.length_singleton] at single
    refine ⟨first, others, left, rfl,
      ⟨term, Nat.le_trans tail.depth_le shallow⟩, tail, ?_⟩
    rwa [single, levels_eq]
  · rintro ⟨first, others, left, rfl, ⟨term, -⟩, tail, shallow⟩
    have single := congrArg List.length term.not_concat
    rw [List.length_singleton] at single
    refine ⟨exprOf_iff.mpr ⟨first, others, left, rfl, term, tail⟩, ?_⟩
    rwa [single, levels_eq] at shallow

theorem not_exprWithin_zero {tokens : List Token} {e : Expr} :
    ¬ ExprWithin 0 tokens e := by
  rintro ⟨-, shallow⟩
  exact Nat.not_lt.mpr shallow e.depth_pos

theorem reads_expressionWithin (levels : Nat) :
    ReadsWithin levels (expressionWithin levels) := by
  induction levels using Nat.strongRecOn with
  | ind levels ih =>
      intro start closed
      cases levels with
      | zero =>
          constructor
          · intro e finish h
            cases h
          · intro tokens e finish word
            exact absurd word not_exprWithin_zero
      | succ levels =>
          have operand := ih levels (Nat.lt_succ_self _)
          have rest {start : Cursor} {left : Expr} {first : List Token}
              (word : TermWithin (levels + 1) first left)
              (closed : start.Closed) :
              Reads start (chainWithin levels left) (TailWithin levels left)
                NotBars := by
            refine reads_chainWithin
              (fun n less => ih n (Nat.lt_succ_of_lt less)) ?_ closed
            rw [word.1.not_concat, List.length_singleton, Nat.add_comm]
            exact word.2
          constructor
          · intro e finish h
            rw [expressionWithin] at h
            obtain ⟨left, first, _, word, passLeft, -, closed, h⟩ :=
              (reads_term operand closed).bind closed h
            obtain ⟨others, tail, passOthers, after⟩ := (rest word closed).sound h
            exact ⟨_, exprWithin_succ.mpr
              ⟨first, others, left, rfl, word, tail⟩,
              passLeft.append passOthers, after⟩
          · intro tokens e finish word passes after
            obtain ⟨first, others, left, rfl, word, tail⟩ :=
              exprWithin_succ.mp word
            rw [expressionWithin]
            refine (reads_term operand closed).step closed word passes
              (fun _ => trivial) fun closed passes => ?_
            exact (rest word closed).complete tail passes after

/-! ## Bodies -/

def AfterBody (body : Expr) (token : Token) : Prop :=
  token.kind ≠ .operator .bars ∧
    (body.isName → token.kind ≠ .operator .equals)

theorem ExprOf.of_name_cons {token : Token} {tokens : List Token} {e : Expr}
    (h : ExprOf (token :: tokens) e) (isName : token.kind = .name) :
    (tokens = [] ∧ e.isName = true) ∨
      ∃ bars others, tokens = bars :: others ∧
        bars.kind = .operator .bars := by
  obtain ⟨first, others, left, same, term, tail⟩ := exprOf_iff.mp h
  cases term with
  | name =>
      rw [List.singleton_append, List.cons.injEq] at same
      obtain ⟨rfl, rfl⟩ := same
      cases tail with
      | done => exact .inl ⟨rfl, rfl⟩
      | more isBars => exact .inr ⟨_, _, rfl, isBars⟩
  | enc kind | mac kind | sign kind | verify kind | hash kind =>
      rw [List.cons_append, List.cons.injEq] at same
      rw [same.1, kind] at isName
      cases isName

theorem ExprOf.eq_cons {tokens : List Token} {e : Expr}
    (h : ExprOf tokens e) : ∃ token others, tokens = token :: others := by
  obtain ⟨first, others, left, rfl, term, -⟩ := exprOf_iff.mp h
  cases term <;> exact ⟨_, _, rfl⟩

/-- A name with the sign of equality after it, which nothing else begins with. -/
def Assigns (start : Cursor) : Prop :=
  start.peek.kind = .name ∧ start.peekSecond.kind = .operator .equals

instance : Decidable (Assigns start) := inferInstanceAs (Decidable (_ ∧ _))

theorem body_eq : body start =
    (if Assigns start then do
      let target ← identifier .expression
      let _ ← advance
      let value ← expression
      return .assign target value target.line
    else expression : Reader Expr) start := rfl

theorem reads_body_of_assigns (closed : start.Closed)
    (assigns : Assigns start) : Reads start body BodyOf AfterBody := by
  have reads := reads_expressionWithin depthLimit
  have unfolded := @body_eq start
  rw [if_pos assigns] at unfolded
  constructor
  · intro e finish h
    rw [unfolded] at h
    obtain ⟨target, middle, isTarget, passTarget, closed, h⟩ :=
      identifier_bind closed h
    have isEquals : middle.peek.kind = .operator .equals := by
      rw [← passTarget.peekSecond_eq_peek]
      exact assigns.2
    obtain ⟨_, passEquals, closed, h⟩ :=
      advance_bind closed (by simp [isEquals]) h
    obtain ⟨value, tokens, _, ⟨valueOf, shallow⟩, passValue, after, -, h⟩ :=
      (reads closed).bind closed h
    obtain ⟨rfl, rfl⟩ := pure_eq_ok.mp h
    exact ⟨_, .assign isTarget isEquals valueOf shallow,
      passTarget.cons (passEquals.cons passValue), after, nofun⟩
  · rintro tokens e finish word passes ⟨notBars, notEquals⟩
    rw [unfolded]
    cases word with
    | assign isTarget isEquals valueOf shallow =>
        refine identifier_step closed isTarget passes
          fun closed passes => ?_
        refine advance_step closed (by simp [isEquals]) passes
          fun closed passes => ?_
        exact bind_of_ok
          ((reads closed).complete ⟨valueOf, shallow⟩ passes notBars)
    | expression exprOf shallow =>
        -- A name is alone or has bars after it, so the sign of equality
        -- belongs to the tokens that follow, which is ruled out.
        obtain ⟨token, others, rfl⟩ := exprOf.eq_cons
        have isName : token.kind = .name := by
          rw [← passes.peek]
          exact assigns.1
        rcases exprOf.of_name_cons isName with
          ⟨rfl, lone⟩ | ⟨bars, others, rfl, isBars⟩
        · have same := passes.peekSecond_eq_peek
          exact absurd (same ▸ assigns.2) (notEquals lone)
        · rw [Assigns, passes.peekSecond, isBars] at assigns
          cases assigns.2

theorem reads_body_of_not_assigns (closed : start.Closed)
    (other : ¬ Assigns start) : Reads start body BodyOf AfterBody := by
  have reads := reads_expressionWithin depthLimit closed
  have unfolded := @body_eq start
  rw [if_neg other] at unfolded
  constructor
  · intro e finish h
    rw [unfolded] at h
    obtain ⟨tokens, ⟨exprOf, shallow⟩, passes, after⟩ := reads.sound h
    refine ⟨tokens, .expression exprOf shallow, passes, after, ?_⟩
    intro lone isEquals
    apply other
    cases e with
    | name key =>
        obtain ⟨token, rfl, isName, -⟩ := exprOf_name.mp exprOf
        constructor
        · rw [passes.peek, isName]
        · rw [passes.peekSecond_eq_peek, isEquals]
    | _ => cases lone
  · rintro tokens e finish word passes ⟨notBars, -⟩
    rw [unfolded]
    cases word with
    | assign isTarget isEquals =>
        apply absurd _ other
        constructor
        · rw [passes.peek, isTarget]
        · rw [passes.peekSecond, isEquals]
    | expression exprOf shallow =>
        exact reads.complete ⟨exprOf, shallow⟩ passes notBars

theorem reads_body (closed : start.Closed) :
    Reads start body BodyOf AfterBody := by
  by_cases assigns : Assigns start
  · exact reads_body_of_assigns closed assigns
  · exact reads_body_of_not_assigns closed assigns

end Secrecy.Grammar
