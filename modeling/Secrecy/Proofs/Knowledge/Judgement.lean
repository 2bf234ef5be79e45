import Mathlib.Logic.Relation
import Secrecy.Proofs.Knowledge.Analysis

/-!
# What the verdicts say

Opening is reachability: from a key one gets to every bare name that some
message encrypts under it.  A verdict fails exactly if the adversary can reach
the term from what is on the wire, or a role outside the permitted ones holds
it, and it names those to whom the term leaked.
-/

namespace Secrecy

namespace Protocol

variable {config : Config} {protocol : Protocol}

/-! ## Reachable names -/

def Unlocks (protocol : Protocol) (principal : Principal)
    (key plain : String) : Prop :=
  ∃ message ∈ protocol.messages,
    (message.SentBy principal ∨ message.ReceivedBy principal) ∧
      ∃ (keyId plainId : Identifier) (line : Int),
        message.body.payload = .enc keyId (.name plainId) line ∧
          keyId.name = key ∧ plainId.name = plain

def Reachable (protocol : Protocol) (config : Config) (principal : Principal)
    (name : String) : Prop :=
  ∃ start, (protocol.Authored principal start ∨
      protocol.Told config principal start) ∧
    Relation.ReflTransGen (protocol.Unlocks principal) start name

theorem sealed_enc_iff_unlocks {principal : Principal} {key plain : String} :
    protocol.Sealed principal ⟨.enc, some key, [plain], [true]⟩ ↔
      protocol.Unlocks principal key plain := by
  simp only [Sealed, Unlocks, Expr.Seals, Expr.sealsWhole_enc_bare_iff]

theorem known_iff_reachable {principal : Principal} {name : String} :
    protocol.Known config principal name ↔
      protocol.Reachable config principal name := by
  constructor
  · intro known
    induction known with
    | authored h => exact ⟨_, .inl h, .refl⟩
    | told h => exact ⟨_, .inr h, .refl⟩
    | opened held _ ih =>
        obtain ⟨start, source, path⟩ := ih
        exact ⟨start, source, path.tail (sealed_enc_iff_unlocks.mp held)⟩
  · rintro ⟨start, source, path⟩
    induction path with
    | refl => exact source.elim .authored .told
    | tail _ edge ih => exact .opened (sealed_enc_iff_unlocks.mpr edge) ih

/-! ## Who holds a term -/

/-- Whatever is visible in some message, and the public keys if given out. -/
def OnWire (protocol : Protocol) (config : Config) (name : String) : Prop :=
  (∃ message ∈ protocol.messages, message.body.Shows name) ∨
    config.seedKeyOwners = true ∧ ∃ key ∈ protocol.keys,
      key.kind = .publicKey ∧ key.name.name = name

def Intercepted (protocol : Protocol) (config : Config) (name : String) :
    Prop :=
  ∃ start, protocol.OnWire config start ∧
    Relation.ReflTransGen (protocol.Unlocks .adversary) start name

def HeldBy (protocol : Protocol) (config : Config) (role name : String) :
    Prop :=
  protocol.Shown (.role role) name ∨ protocol.Seeded config (.role role) name ∨
    (¬ protocol.Authored (.role role) name ∧
      protocol.Reachable config (.role role) name) ∨
    (config.countAuthored = true ∧ protocol.Authored (.role role) name)

theorem reachable_adversary_iff {name : String} :
    protocol.Reachable config .adversary name ↔
      protocol.Intercepted config name := by
  have source (start : String) : protocol.Authored .adversary start ∨
      protocol.Told config .adversary start ↔
        protocol.OnWire config start := by
    simp [Authored, Told, Shown, Seeded, OnWire, Message.SentBy,
      Message.ReceivedBy, KeyDecl.GivenTo]
  simp only [Reachable, Intercepted, source]

theorem Settled.counts_iff {role : String} {holdings : Holdings}
    (h : protocol.Settled config (.role role) holdings) (name : String) :
    holdings.counts config name = true ↔ protocol.HeldBy config role name := by
  unfold Holdings.counts HeldBy
  rw [← known_iff_reachable]
  cases counted : config.countAuthored with
  | false =>
      simp [h.learned, Told, or_assoc]
  | true =>
      simp only [if_true, Holdings.knows_iff, Holdings.mem_clear, h.authored,
        h.learned, Told]
      tauto

/-! ## Verdicts -/

open scoped Classical in
/-- A verdict that is right about whom a term leaked to. -/
structure Judges (protocol : Protocol) (config : Config)
    (verdict : Verdict) : Prop where
  passed : verdict.passed = true ↔
    ¬ protocol.Intercepted config verdict.term ∧
      ∀ permitted, verdict.assertion.permittedNames = some permitted →
        ∀ role ∈ protocol.roleNames, role ∉ permitted →
          ¬ protocol.HeldBy config role verdict.term
  leakedTo : verdict.leakedTo =
    (protocol.roleNames.filter fun role => decide (
      (∃ permitted, verdict.assertion.permittedNames = some permitted ∧
        role ∉ permitted) ∧
      protocol.HeldBy config role verdict.term)).map .role ++
    if protocol.Intercepted config verdict.term then [.adversary] else []
  leakedTo_eq_nil : verdict.leakedTo = [] ↔ verdict.passed = true

theorem judges_judge {ledger : Ledger}
    (settled : ∀ principal ∈ protocol.principals,
      protocol.Settled config principal (ledger.holdingsOf principal))
    (assertion : Assertion) :
    protocol.Judges config
      (ledger.judge config protocol.roleNames assertion) := by
  classical
  let verdict := ledger.judge config protocol.roleNames assertion
  change protocol.Judges config verdict
  have adversary : verdict.adversaryLearned = true ↔
      protocol.Intercepted config verdict.term := by
    rw [← reachable_adversary_iff, ← known_iff_reachable]
    have settled := settled .adversary protocol.adversary_mem_principals
    exact Holdings.knows_iff.trans (settled.clear _)
  have holds (role : String) (mem : role ∈ protocol.roleNames) :
      (ledger.holdingsOf (.role role)).counts config verdict.term = true ↔
        protocol.HeldBy config role verdict.term :=
    (settled (.role role) (role_mem_principals.mpr mem)).counts_iff _
  have roles : verdict.leakedRoles = protocol.roleNames.filter fun role =>
      decide ((∃ permitted, assertion.permittedNames = some permitted ∧
        role ∉ permitted) ∧ protocol.HeldBy config role verdict.term) := by
    change (assertion.outsiders protocol.roleNames).filter _ = _
    unfold Assertion.outsiders
    cases assertion.permittedNames with
    | none => simp
    | some permitted =>
        rw [List.filter_filter]
        refine List.filter_congr fun role mem => ?_
        rw [Bool.eq_iff_iff, Bool.and_eq_true, decide_eq_true_iff,
          decide_eq_true_iff]
        simp only [Option.some.injEq, exists_eq_left']
        rw [and_comm]
        exact and_congr_right fun _ => holds role mem
  have leakedTo : verdict.leakedTo = verdict.leakedRoles.map .role ++
      if protocol.Intercepted config verdict.term then [.adversary] else [] := by
    unfold Verdict.leakedTo
    simp only [adversary]
  have empty : verdict.leakedTo = [] ↔ verdict.passed = true :=
    List.isEmpty_iff.symm
  refine ⟨?_, ?_, empty⟩
  · rw [← empty, leakedTo, List.append_eq_nil_iff, List.map_eq_nil_iff, roles,
      List.filter_eq_nil_iff, and_comm]
    refine and_congr (by simp) ?_
    simp only [decide_eq_true_eq, not_and, forall_exists_index, and_imp]
    exact ⟨fun h permitted given role mem => h role mem permitted given,
      fun h role mem permitted given => h permitted given role mem⟩
  · rw [leakedTo, roles]
    rfl

/--
Verdicts come in the order of the assertions, and each is right about its own.
-/
theorem analyze_judges {scope : Scope} (h : protocol.scope = .ok scope)
    (config : Config) :
    ∃ report, protocol.analyze config = .ok report ∧
      report.verdicts.map Verdict.assertion = protocol.assertions ∧
      ∀ verdict ∈ report.verdicts, protocol.Judges config verdict := by
  obtain ⟨ledger, observed, analyzed⟩ :=
    exists_report (addressed_of_scope h config)
  refine ⟨_, analyzed, ?_, ?_⟩
  · simp [Ledger.Run.report, Ledger.judge, Function.comp_def]
  · intro verdict mem
    obtain ⟨assertion, _, rfl⟩ := List.mem_map.mp mem
    exact judges_judge
      (fun principal listed => Ledger.settled_holdingsOf observed listed)
      assertion

theorem analyze_judges_handover :
    handover.scope = .ok handoverScope ∧
      ∃ report, handover.analyze .default = .ok report ∧
        report.verdicts.map Verdict.assertion = handover.assertions ∧
        ∀ verdict ∈ report.verdicts, handover.Judges .default verdict :=
  ⟨scope_handover, analyze_judges scope_handover .default⟩

end Protocol

end Secrecy
