import Mathlib.Order.Bounds.Basic
import Secrecy.Proofs.Knowledge.Passes

/-!
# Passes from any states

Passes may set out from states that no messages led to, with any names on either
side and any sealed terms.  All that they need is that the concatenations among
the terms have labels.  Then the loop of passes comes to its end, where every
principal has learned what its own state gives away and nothing else has
changed.  Nobody's share in that depends on who else takes part.
-/

namespace Secrecy

/-! ## Terms with a label -/

namespace SealedTerm

/-- A concatenation has two parts, and it is marked whether the right one is bare. -/
def Formed (term : SealedTerm) : Prop :=
  term.maker = .concat → term.parts.length = 2 ∧ 2 ≤ term.bare.length

instance (term : SealedTerm) : Decidable term.Formed :=
  inferInstanceAs (Decidable (_ → _))

theorem label_eq_error {term : SealedTerm} {fault : LabelFault} :
    term.label = .error fault ↔ term.maker = .concat ∧
      match fault with
      | .notTwoParts => term.parts.length ≠ 2
      | .rightPartUnmarked => term.parts.length = 2 ∧ term.bare.length < 2 := by
  obtain ⟨maker, key, parts, bare⟩ := term
  cases maker with
  | concat =>
      match parts with
      | [] | [_] | _ :: _ :: _ :: _ => cases fault <;> simp [label]
      | [left, right] =>
          match bare with
          | [] | [_] | _ :: _ :: _ => cases fault <;> simp [label]
  | _ => simp [label]

theorem exists_label_iff {term : SealedTerm} :
    (∃ label, term.label = .ok label) ↔ term.Formed := by
  rw [← not_iff_not, ← Outcome.exists_error]
  simp only [label_eq_error, Formed]
  constructor
  · rintro ⟨fault, concat, wrong⟩ formed
    have := formed concat
    cases fault with
    | notTwoParts => exact wrong this.1
    | rightPartUnmarked => omega
  · intro misshapen
    push Not at misshapen
    obtain ⟨concat, wrong⟩ := misshapen
    by_cases two : term.parts.length = 2
    · exact ⟨.rightPartUnmarked, concat, two, wrong two⟩
    · exact ⟨.notTwoParts, concat, two⟩

end SealedTerm

/-! ## What a state gives away -/

namespace Holdings

variable {before after holdings : Holdings}

/-- The sets that hold what is held and what comes to light by opening. -/
def ClosedSets (holdings : Holdings) : Set (Set String) :=
  {names | (∀ name ∈ holdings.authored, name ∈ names) ∧
    (∀ name ∈ holdings.learned, name ∈ names) ∧
    ∀ key plain, ⟨.enc, some key, [plain], [true]⟩ ∈ holdings.sealedTerms →
      key ∈ names → plain ∈ names}

theorem isLeast_derivable (holdings : Holdings) :
    IsLeast holdings.ClosedSets {name | holdings.Derivable name} := by
  constructor
  · refine ⟨fun name mem => .held (by simp [mem]),
      fun name mem => .held (by simp [mem]), fun key plain mem known => ?_⟩
    exact .opened mem (SealedTerm.opening?_eq_some_iff.mpr rfl) known
  · rintro names ⟨authored, learned, opened⟩ name derivable
    induction derivable with
    | held known =>
        rcases mem_clear.mp known with mem | mem
        · exact authored _ mem
        · exact learned _ mem
    | opened mem opens _ ih =>
        rw [SealedTerm.opening?_eq_some_iff.mp opens] at mem
        exact opened _ _ mem ih

/-- All that opening can bring out has been learned, but for authored names. -/
structure Completes (before after : Holdings) : Prop where
  authored : after.authored = before.authored
  sealedTerms : after.sealedTerms = before.sealedTerms
  learned : ∃ names, IsLeast before.ClosedSets names ∧ ∀ name,
    name ∈ after.learned ↔
      name ∈ before.learned ∨ name ∈ names ∧ name ∉ before.authored

theorem LeadsTo.completes (h : LeadsTo before after) (closed : after.Closed) :
    before.Completes after where
  authored := h.authored
  sealedTerms := h.sealedTerms
  learned := by
    refine ⟨_, isLeast_derivable before, fun name => ?_⟩
    rw [h.mem_learned_iff closed, Set.mem_ofPred_eq, and_comm]

theorem LeadsTo.exists_learned (h : LeadsTo before after)
    (changed : after ≠ before) :
    ∃ name ∈ after.learned, name ∉ before.learned := by
  obtain ⟨opened, grown, _, sound⟩ := h.learned
  cases opened with
  | nil => exact absurd (h.eq_of_learned_eq (by simpa using grown)) changed
  | cons name opened =>
      have new := (sound name List.mem_cons_self).1
      exact ⟨name, by simp [grown], fun old => new (by simp [old])⟩

theorem Closed.repeat_sweep (closed : holdings.Closed) (visits : Nat) :
    Nat.repeat sweep visits holdings = holdings := by
  rw [repeat_eq_iterate]
  exact Function.iterate_fixed (sweep_eq_self_iff.mpr closed) visits

theorem repeat_sweep_unique {first second : Nat}
    (closed : (Nat.repeat sweep first holdings).Closed)
    (closed' : (Nat.repeat sweep second holdings).Closed) :
    Nat.repeat sweep first holdings = Nat.repeat sweep second holdings := by
  have done := closed.repeat_sweep
  have done' := closed'.repeat_sweep
  simp only [repeat_eq_iterate] at done done' ⊢
  rcases Nat.le_total first second with fewer | fewer
  · obtain ⟨more, rfl⟩ := Nat.exists_eq_add_of_le' fewer
    rw [Function.iterate_add_apply, done]
  · obtain ⟨more, rfl⟩ := Nat.exists_eq_add_of_le' fewer
    rw [Function.iterate_add_apply, done']

end Holdings

/-! ## Ledgers of states -/

namespace Ledger

variable {order : List Principal} {states : Principal → Holdings}
  {ledger : Ledger} {run : Run}

def ofStates (order : List Principal) (states : Principal → Holdings) : Ledger :=
  ⟨(distinct order).map fun principal =>
    ⟨principal, order.count principal, states principal⟩⟩

theorem follows_ofStates (order : List Principal)
    (states : Principal → Holdings) : (ofStates order states).Follows order := by
  rw [Follows, frame_blank]
  simp [frame, ofStates]

theorem holdingsOf_ofStates {principal : Principal} (listed : principal ∈ order) :
    (ofStates order states).holdingsOf principal = states principal := by
  have mem : ⟨principal, order.count principal, states principal⟩ ∈
      (ofStates order states).entries :=
    List.mem_map.mpr ⟨principal, mem_distinct.mpr listed, rfl⟩
  exact holdingsOf_of_mem (follows_ofStates order states).nodup mem

theorem labelled_ofStates : (ofStates order states).Labelled ↔
    ∀ principal ∈ order, ∀ term ∈ (states principal).sealedTerms,
      term.Formed := by
  simp only [Labelled, ofStates, List.forall_mem_map, mem_distinct,
    SealedTerm.exists_label_iff]

theorem sweep_ofStates (order : List Principal) (states : Principal → Holdings) :
    (ofStates order states).sweep = ofStates order fun principal =>
      Nat.repeat Holdings.sweep (order.count principal) (states principal) := by
  simp only [sweep, ofStates, List.map_map]
  rfl

theorem exists_settleWithin_eq (bound : Nat) (order : List Principal)
    (states : Principal → Holdings) :
    ∃ sweeps : Principal → Nat,
      (settleWithin bound (ofStates order states)).final =
        ofStates order fun principal =>
          Nat.repeat Holdings.sweep (sweeps principal) (states principal) := by
  induction bound generalizing states with
  | zero => exact ⟨fun _ => 0, rfl⟩
  | succ bound ih =>
      simp only [settleWithin]
      split
      · exact ⟨fun _ => 0, rfl⟩
      · obtain ⟨sweeps, ends⟩ := ih fun principal =>
          Nat.repeat Holdings.sweep (order.count principal) (states principal)
        refine ⟨fun principal => sweeps principal + order.count principal, ?_⟩
        rw [sweep_ofStates, ends]
        simp only [Holdings.repeat_eq_iterate, Function.iterate_add_apply]

/-! ## The loop and its note -/

theorem Loop.labelled (loop : Loop order ledger run)
    (follows : ledger.Follows order) : ledger.Labelled := by
  rw [← requireLabels_eq_ok]
  cases loop with
  | stop idle => exact ((passInOrder_eq_ok follows).mp idle).1
  | again busy rest => exact ((passInOrder_eq_ok follows).mp busy).1

theorem Loop.unique {run' : Run} (loop : Loop order ledger run)
    (loop' : Loop order ledger run') : run = run' := by
  induction loop generalizing run' with
  | stop idle =>
      cases loop' with
      | stop idle' =>
          cases idle.symm.trans idle'
          rfl
      | again busy' rest' => cases idle.symm.trans busy'
  | again busy rest ih =>
      cases loop' with
      | stop idle' => cases busy.symm.trans idle'
      | again busy' rest' =>
          cases busy.symm.trans busy'
          rw [ih rest']

theorem Loop.eq_settle (loop : Loop order ledger run)
    (follows : ledger.Follows order) : run = ledger.settle :=
  loop.unique (loop_settle follows (loop.labelled follows))

theorem exists_settle_eq (states : Principal → Holdings) {principal : Principal}
    (listed : principal ∈ order) :
    ∃ sweeps, (ofStates order states).settle.final.holdingsOf principal =
        Nat.repeat Holdings.sweep sweeps (states principal) ∧
      (Nat.repeat Holdings.sweep sweeps (states principal)).Closed := by
  obtain ⟨sweeps, ends⟩ := exists_settleWithin_eq
    (ofStates order states).sealedCount order states
  have same : (ofStates order states).settle.final.holdingsOf principal =
      Nat.repeat Holdings.sweep (sweeps principal) (states principal) := by
    rw [settle, ends, holdingsOf_ofStates listed]
  have closed := (closed_settle (follows_ofStates order states).visited).holdingsOf
    principal
  exact ⟨_, same, same ▸ closed⟩

/-- Nothing but a name that somebody learns makes a pass leave another ledger. -/
theorem sweep_ofStates_ne_iff :
    (ofStates order states).sweep ≠ ofStates order states ↔
      ∃ principal ∈ order, ∃ name ∈
        ((ofStates order states).sweep.holdingsOf principal).learned,
          name ∉ (states principal).learned := by
  constructor
  · intro changed
    by_contra none
    push Not at none
    have still : ∀ principal ∈ order,
        Nat.repeat Holdings.sweep (order.count principal) (states principal) =
          states principal := by
      intro principal listed
      by_contra different
      obtain ⟨name, learned, new⟩ :=
        (Holdings.leadsTo_repeat_sweep _ _).exists_learned different
      rw [sweep_ofStates] at none
      have := none principal listed name
      rw [holdingsOf_ofStates listed] at this
      exact new (this learned)
    apply changed
    rw [sweep_ofStates, ofStates, ofStates]
    congr 1
    refine List.map_congr_left fun principal mem => ?_
    rw [still principal (mem_distinct.mp mem)]
  · rintro ⟨principal, listed, name, learned, new⟩ unchanged
    rw [unchanged, holdingsOf_ofStates listed] at learned
    exact new learned

/--
From any states whose concatenations have labels the loop of passes comes to
one end.  There, every principal has learned what its own state gives away, be
there others or not and in whatever order they come.  A pass tells whether
somebody learned a name in it.
-/
theorem settle_completes (order : List Principal)
    (states : Principal → Holdings)
    (formed : ∀ principal ∈ order, ∀ term ∈ (states principal).sealedTerms,
      term.Formed) :
    (∀ run, Loop order (ofStates order states) run ↔
      run = (ofStates order states).settle) ∧
    (∀ principal ∈ order, (states principal).Completes
      ((ofStates order states).settle.final.holdingsOf principal)) ∧
    (∀ order' states' run', Loop order' (ofStates order' states') run' →
      ∀ principal ∈ order, principal ∈ order' →
        states' principal = states principal →
          run'.final.holdingsOf principal =
            (ofStates order states).settle.final.holdingsOf principal) ∧
    ∃ noted, (ofStates order states).passInOrder order = .ok noted ∧
      (noted.changed = true ↔ ∃ principal ∈ order,
        ∃ name ∈ (noted.state.holdingsOf principal).learned,
          name ∉ (states principal).learned) := by
  have follows := follows_ofStates order states
  have labelled := labelled_ofStates.mpr formed
  refine ⟨fun run => ⟨fun loop => loop.eq_settle follows, ?_⟩, ?_, ?_, ?_⟩
  · rintro rfl
    exact loop_settle follows labelled
  · intro principal listed
    have there := (ofStates order states).leadsTo_settle.holdingsOf principal
    rw [holdingsOf_ofStates listed] at there
    exact there.completes ((closed_settle follows.visited).holdingsOf principal)
  · intro order' states' run' loop' principal listed listed' same
    obtain rfl := loop'.eq_settle (follows_ofStates order' states')
    obtain ⟨sweeps, ends, closed⟩ := exists_settle_eq states listed
    obtain ⟨sweeps', ends', closed'⟩ := exists_settle_eq states' listed'
    rw [same] at ends' closed'
    rw [ends, ends', Holdings.repeat_sweep_unique closed' closed]
  · refine ⟨_, (passInOrder_eq_ok follows).mpr
      ⟨requireLabels_eq_ok.mpr labelled, rfl, rfl⟩, ?_⟩
    exact decide_eq_true_iff.trans sweep_ofStates_ne_iff

def circle : Principal → Holdings
  | .role _ => ⟨["M"], ["K"],
      [⟨.enc, some "L", ["M"], [true]⟩, ⟨.enc, some "K", ["L"], [true]⟩,
        ⟨.enc, some "M", ["K"], [true]⟩, ⟨.enc, none, ["x"], [true]⟩,
        ⟨.concat, none, ["x", "y"], [true, true, false]⟩]⟩
  | .adversary => ⟨[], ["L"], [⟨.enc, some "L", ["M"], [false]⟩]⟩

theorem settle_completes_circle :
    (∀ principal ∈ [Principal.role "A", .adversary],
      ∀ term ∈ (circle principal).sealedTerms, term.Formed) ∧
    ∃ run, Loop [.role "A", .adversary]
        (ofStates [.role "A", .adversary] circle) run ∧
      "L" ∈ (run.final.holdingsOf (.role "A")).learned ∧
      "M" ∉ (run.final.holdingsOf (.role "A")).learned := by
  have formed : ∀ principal ∈ [Principal.role "A", .adversary],
      ∀ term ∈ (circle principal).sealedTerms, term.Formed := by decide
  obtain ⟨ends, completes, -⟩ :=
    settle_completes [.role "A", .adversary] circle formed
  obtain ⟨names, ⟨⟨-, learned, opened⟩, -⟩, learns⟩ :=
    (completes (.role "A") (by decide)).learned
  refine ⟨formed, _, (ends _).mpr rfl, (learns "L").mpr (.inr ⟨?_, by decide⟩),
    fun mem => ?_⟩
  · exact opened "K" "L" (by decide) (learned "K" (by decide))
  · rcases (learns "M").mp mem with old | ⟨-, foreign⟩
    · exact absurd old (by decide)
    · exact foreign (by decide)

end Ledger

end Secrecy
