import Secrecy.Proofs.Knowledge.Growth
import Secrecy.Proofs.Knowledge.Judgement

/-!
# How long a leak lasts

Nobody loses a name by further messages, but one leak may go out of sight: of a
role that wrote the name into a message of its own, a verdict no longer tells
that it had opened it before.  No other leak is ever taken back.
-/

namespace Secrecy

def Assertion.Denies (assertion : Assertion) : Principal → Prop
  | .role role =>
      ∃ permitted, assertion.permittedNames = some permitted ∧ role ∉ permitted
  | .adversary => True

namespace Protocol

variable {protocol early late : Protocol} {config : Config}
  {principal : Principal} {name : String}

/--
A role that wrote a name itself is not held to know it from elsewhere, unless
it was told the name outright or what it wrote counts as well.
-/
structure Excused (protocol : Protocol) (config : Config)
    (principal : Principal) (name : String) : Prop where
  uncounted : config.countAuthored = false
  authored : protocol.Authored principal name
  untold : ¬ protocol.Told config principal name

theorem not_excused_adversary : ¬ protocol.Excused config .adversary name :=
  fun excused => not_authored_adversary excused.authored

theorem heldBy_iff {role : String} :
    protocol.HeldBy config role name ↔
      protocol.Known config (.role role) name ∧
        ¬ protocol.Excused config (.role role) name := by
  unfold HeldBy
  rw [← known_iff_reachable]
  constructor
  · rintro (shown | seeded | ⟨foreign, known⟩ | ⟨counted, authored⟩)
    · exact ⟨.told (.inl shown), fun excused => excused.untold (.inl shown)⟩
    · exact ⟨.told (.inr seeded), fun excused => excused.untold (.inr seeded)⟩
    · exact ⟨known, fun excused => foreign excused.authored⟩
    · refine ⟨.authored authored, fun excused => ?_⟩
      rw [excused.uncounted] at counted
      cases counted
  · rintro ⟨known, unexcused⟩
    by_cases authored : protocol.Authored (.role role) name
    · by_cases told : protocol.Told config (.role role) name
      · exact told.elim .inl fun seeded => .inr (.inl seeded)
      · cases counted : config.countAuthored with
        | false => exact absurd ⟨counted, authored, told⟩ unexcused
        | true => exact .inr (.inr (.inr ⟨rfl, authored⟩))
    · exact .inr (.inr (.inl ⟨authored, known⟩))

open scoped Classical in
theorem Judges.mem_leakedTo {verdict : Verdict}
    (h : protocol.Judges config verdict) :
    principal ∈ verdict.leakedTo ↔ principal ∈ protocol.principals ∧
      verdict.assertion.Denies principal ∧
      protocol.Known config principal verdict.term ∧
      ¬ protocol.Excused config principal verdict.term := by
  rw [h.leakedTo, List.mem_append]
  cases principal with
  | role role =>
      have elsewhere : Principal.role role ∉
          if protocol.Intercepted config verdict.term then
            [Principal.adversary] else [] := by
        split <;> simp
      rw [or_iff_left elsewhere, ← heldBy_iff, role_mem_principals]
      simp [Assertion.Denies]
  | adversary =>
      rw [← reachable_adversary_iff, ← known_iff_reachable]
      have listed := adversary_mem_principals protocol
      simp [Assertion.Denies, not_excused_adversary, listed]

theorem Judges.passed_iff {verdict : Verdict}
    (h : protocol.Judges config verdict) :
    verdict.passed = true ↔ ∀ principal ∈ protocol.principals,
      verdict.assertion.Denies principal →
      protocol.Known config principal verdict.term →
      protocol.Excused config principal verdict.term := by
  rw [← h.leakedTo_eq_nil, List.eq_nil_iff_forall_not_mem]
  simp only [h.mem_leakedTo, not_and, not_not]

end Protocol

/-! ## Verdicts on more and more messages -/

theorem Verdict.passed_eq_false {verdict : Verdict} :
    verdict.passed = false ↔ ∃ principal, principal ∈ verdict.leakedTo := by
  rw [passed, List.isEmpty_eq_false_iff_exists_mem]

/-- What becomes of a verdict when the protocol goes on, as `late` has it. -/
structure Verdict.Lasts (late : Protocol) (config : Config)
    (before after : Verdict) : Prop where
  assertion : after.assertion = before.assertion
  leak (principal : Principal) (leaked : principal ∈ before.leakedTo) :
    principal ∈ after.leakedTo ↔ ¬ late.Excused config principal before.term
  failure (failed : before.passed = false) : after.passed = false ∨
    ∀ principal ∈ before.leakedTo, late.Excused config principal before.term
  /-- Nobody is excused where own words count, nor the adversary anywhere. -/
  outright (failed : before.passed = false)
    (plain : config.countAuthored = true ∨ before.assertion.permitted = none ∨
      .adversary ∈ before.leakedTo) : after.passed = false

namespace Protocol

variable {protocol early late : Protocol} {config : Config}

theorem GoesOn.leak (h : early.GoesOn late) {before after : Verdict}
    (judges : early.Judges config before) (judges' : late.Judges config after)
    (same : after.assertion = before.assertion) {principal : Principal}
    (leaked : principal ∈ before.leakedTo) :
    principal ∈ after.leakedTo ↔
      ¬ late.Excused config principal before.term := by
  obtain ⟨listed, denied, known, -⟩ := judges.mem_leakedTo.mp leaked
  have term : after.term = before.term :=
    congrArg (fun assertion => assertion.term.name) same
  rw [judges'.mem_leakedTo, h.principals, same, term]
  constructor
  · rintro ⟨-, -, -, unexcused⟩
    exact unexcused
  · intro unexcused
    exact ⟨listed, denied, h.known known, unexcused⟩

theorem GoesOn.lasts (h : early.GoesOn late) {before after : Verdict}
    (judges : early.Judges config before) (judges' : late.Judges config after)
    (same : after.assertion = before.assertion) :
    before.Lasts late config after := by
  have leak {principal : Principal} (leaked : principal ∈ before.leakedTo)
      (unexcused : ¬ late.Excused config principal before.term) :
      after.passed = false :=
    Verdict.passed_eq_false.mpr
      ⟨principal, (h.leak judges judges' same leaked).mpr unexcused⟩
  refine ⟨same, fun _ => h.leak judges judges' same, fun _ => ?_, ?_⟩
  · by_cases every : ∀ principal ∈ before.leakedTo,
        late.Excused config principal before.term
    · exact .inr every
    · push Not at every
      obtain ⟨principal, leaked, unexcused⟩ := every
      exact .inl (leak leaked unexcused)
  · intro failed plain
    obtain ⟨principal, leaked⟩ := Verdict.passed_eq_false.mp failed
    rcases plain with counted | unrestricted | overheard
    · refine leak leaked fun excused => ?_
      rw [excused.uncounted] at counted
      cases counted
    · refine leak leaked ?_
      obtain ⟨-, denied, -⟩ := judges.mem_leakedTo.mp leaked
      cases principal with
      | role role =>
          obtain ⟨permitted, given, -⟩ := denied
          rw [Assertion.permittedNames, unrestricted] at given
          cases given
      | adversary => exact not_excused_adversary
    · exact leak overheard not_excused_adversary

/--
A failing verdict still fails when more messages are exchanged, unless all
those whom it names are excused by then; and those alone are no longer named.
-/
theorem analyze_lasts {scope : Scope} (h : protocol.scope = .ok scope)
    (config : Config) {n m : Nat} (le : n ≤ m) :
    ∃ before after, (protocol.upTo n).analyze config = .ok before ∧
      (protocol.upTo m).analyze config = .ok after ∧
      before.verdicts.map Verdict.assertion = protocol.assertions ∧
      List.Forall₂ (Verdict.Lasts (protocol.upTo m) config) before.verdicts
        after.verdicts := by
  have goesOn := protocol.goesOn_upTo le
  obtain ⟨early, analyzed, settled⟩ := exists_settled h config n
  obtain ⟨late, analyzed', settled'⟩ := exists_settled h config m
  refine ⟨_, _, analyzed, analyzed', ?_, ?_⟩
  · rw [Ledger.Run.report, List.map_map, ← List.map_id protocol.assertions]
    rfl
  · simp only [Ledger.Run.report, goesOn.assertions]
    rw [List.forall₂_map_left_iff, List.forall₂_map_right_iff,
      List.forall₂_same]
    intro assertion _
    exact goesOn.lasts (judges_judge settled assertion)
      (judges_judge settled' assertion) rfl

def resealing : Protocol :=
  { roles := ⟨[⟨"A", 1⟩, ⟨"C", 1⟩], 1⟩
    keys := [⟨.sharedKey, ⟨"K", 2⟩, [⟨"A", 2⟩, ⟨"C", 2⟩], 2⟩]
    messages :=
      [⟨⟨"C", 3⟩, ⟨"A", 3⟩, .enc ⟨"K", 3⟩ (.name ⟨"x", 3⟩) 3, 3⟩,
        ⟨⟨"A", 4⟩, ⟨"C", 4⟩, .enc ⟨"K", 4⟩ (.name ⟨"s", 4⟩) 4, 4⟩,
        ⟨⟨"C", 5⟩, ⟨"A", 5⟩, .enc ⟨"K", 5⟩ (.name ⟨"s", 5⟩) 5, 5⟩]
    assertions := [⟨⟨"s", 6⟩, some [⟨"A", 6⟩], 6⟩] }

def resealingScope : Scope :=
  ⟨[⟨"A", .role, 1⟩, ⟨"C", .role, 1⟩, ⟨"K", .key, 2⟩,
    ⟨"x", .fresh "C" 0, 3⟩, ⟨"s", .fresh "A" 1, 4⟩]⟩

theorem scope_resealing : resealing.scope = .ok resealingScope := by decide

theorem analyze_lasts_resealing :
    resealing.scope = .ok resealingScope ∧ 2 ≤ 3 ∧
      ∃ before after, (resealing.upTo 2).analyze .default = .ok before ∧
        (resealing.upTo 3).analyze .default = .ok after ∧
        before.verdicts.map Verdict.assertion = resealing.assertions ∧
        List.Forall₂ (Verdict.Lasts (resealing.upTo 3) .default)
          before.verdicts after.verdicts :=
  ⟨scope_resealing, by decide,
    analyze_lasts scope_resealing .default (by decide)⟩

/-! ## A leak that goes out of sight -/

theorem not_told_resealing {principal : Principal} {name : String} :
    ¬ resealing.Told .default principal name := by
  rintro (⟨message, mem, _, shown⟩ | ⟨wanted, _⟩)
  · simp only [resealing, List.mem_cons, List.not_mem_nil, or_false] at mem
    rcases mem with rfl | rfl | rfl <;> cases shown
  · cases wanted

theorem not_known_resealing_adversary {name : String} :
    ¬ resealing.Known .default .adversary name := by
  intro known
  induction known with
  | authored authored => exact not_authored_adversary authored
  | told told => exact not_told_resealing told
  | opened _ _ ih => exact ih

theorem known_resealing_early :
    (resealing.upTo 2).Known .default (.role "C") "s" := by
  have wrote : (resealing.upTo 2).Authored (.role "C") "K" :=
    ⟨_, List.mem_cons_self, rfl, List.mem_cons_self⟩
  have held : (resealing.upTo 2).Sealed (.role "C")
      ⟨.enc, some "K", ["s"], [true]⟩ :=
    ⟨_, List.mem_cons_of_mem _ List.mem_cons_self, .inr rfl,
      .enc ⟨"K", 4⟩ (.name ⟨"s", 4⟩) 4⟩
  exact .opened held (.authored wrote)

theorem not_authored_resealing_early :
    ¬ (resealing.upTo 2).Authored (.role "C") "s" := by
  simp [Authored, resealing, upTo, Message.SentBy, Expr.occurrences]

theorem excused_resealing :
    resealing.Excused .default (.role "C") "s" where
  uncounted := rfl
  authored := by
    simp [Authored, resealing, Message.SentBy, Expr.occurrences]
  untold := not_told_resealing

theorem analyze_resealing (n : Nat) :
    ∃ report verdict, (resealing.upTo n).analyze .default = .ok report ∧
      report.verdicts = [verdict] ∧
      verdict.assertion = ⟨⟨"s", 6⟩, some [⟨"A", 6⟩], 6⟩ ∧
      (resealing.upTo n).Judges .default verdict := by
  obtain ⟨run, analyzed, settled⟩ :=
    exists_settled scope_resealing .default n
  exact ⟨_, _, analyzed, rfl, rfl, judges_judge settled _⟩

theorem leaks_then_passes_resealing :
    resealing.scope = .ok resealingScope ∧
      ∃ before after, (resealing.upTo 2).analyze .default = .ok before ∧
        (resealing.upTo 3).analyze .default = .ok after ∧
        before.verdicts.map Verdict.passed = [false] ∧
        after.verdicts.map Verdict.passed = [true] := by
  obtain ⟨before, verdict, analyzed, only, about, judges⟩ :=
    analyze_resealing 2
  obtain ⟨after, verdict', analyzed', only', about', judges'⟩ :=
    analyze_resealing 3
  refine ⟨scope_resealing, before, after, analyzed, analyzed', ?_, ?_⟩
  · have leaked : Principal.role "C" ∈ verdict.leakedTo := by
      rw [judges.mem_leakedTo, Verdict.term, about]
      exact ⟨by decide, ⟨["A"], rfl, by decide⟩, known_resealing_early,
        fun excused => not_authored_resealing_early excused.authored⟩
    rw [only, List.map_singleton, Verdict.passed_eq_false.mpr ⟨_, leaked⟩]
  · have passes : verdict'.passed = true := by
      rw [judges'.passed_iff, Verdict.term, about']
      intro principal listed denied known
      have listed : principal ∈
          [Principal.role "A", Principal.role "C", Principal.adversary] :=
        listed
      simp only [List.mem_cons, List.not_mem_nil, or_false] at listed
      rcases listed with rfl | rfl | rfl
      · obtain ⟨permitted, given, outside⟩ := denied
        cases given
        exact absurd List.mem_cons_self outside
      · exact excused_resealing
      · exact absurd known not_known_resealing_adversary
    rw [only', List.map_singleton, passes]

end Protocol

end Secrecy
