import Mathlib.Data.List.Chain
import Secrecy.Proofs.Knowledge.Analysis

/-!
# When there is a report

A protocol has a report exactly if nobody is addressed who is no role, and a
protocol whose names resolve addresses nobody else.  Once the messages are
entered nothing goes wrong: every pass finds the labels that it goes by, and
the passes come to an end at one that changes nothing.
-/

namespace Secrecy

namespace Ledger

variable {before after ledger : Ledger}

/-! ## Labels -/

def Labelled (ledger : Ledger) : Prop :=
  ∀ entry ∈ ledger.entries, ∀ term ∈ entry.holdings.sealedTerms,
    ∃ label, term.label = .ok label

theorem requireLabels_eq_ok :
    ledger.requireLabels = .ok () ↔ ledger.Labelled := by
  unfold requireLabels
  rw [Outcome.forM_eq_ok]
  refine forall₂_congr fun entry _ => ?_
  rw [Outcome.forM_eq_ok]
  refine forall₂_congr fun term _ => ?_
  rw [Outcome.bind_eq_ok]
  simp

theorem LeadsTo.labelled (h : LeadsTo before after)
    (labelled : before.Labelled) : after.Labelled := by
  unfold LeadsTo at h
  unfold Labelled at labelled ⊢
  generalize before.entries = old at h labelled
  generalize after.entries = new at h ⊢
  induction h with
  | nil => exact labelled
  | @cons first first' _ _ head _ ih =>
      rw [List.forall_mem_cons] at labelled ⊢
      exact ⟨head.holdings.sealedTerms ▸ labelled.1, ih labelled.2⟩

theorem pass_eq (labelled : ledger.Labelled) :
    ledger.pass = .ok ledger.sweep := by
  unfold pass
  rw [requireLabels_eq_ok.mpr labelled]
  rfl

/-! ## Runs -/

/-- Passes in a row, each of which but the last changes something. -/
structure Run.Complete (run : Run) : Prop where
  steps : run.ledgers.IsChain fun before after =>
    before.pass = .ok after ∧ after ≠ before
  last : run.final.pass = .ok run.final

theorem ledgers_settleWithin (bound : Nat) (ledger : Ledger) :
    ∃ later, (settleWithin bound ledger).ledgers = ledger :: later := by
  cases bound with
  | zero => exact ⟨[], rfl⟩
  | succ bound =>
      simp only [settleWithin]
      split
      · exact ⟨[], rfl⟩
      · exact ⟨_, rfl⟩

theorem isChain_settleWithin (bound : Nat) (labelled : ledger.Labelled) :
    (settleWithin bound ledger).ledgers.IsChain fun before after =>
      before.pass = .ok after ∧ after ≠ before := by
  induction bound generalizing ledger with
  | zero => exact .singleton ledger
  | succ bound ih =>
      simp only [settleWithin]
      split
      · exact .singleton ledger
      · next changed =>
          have rest := ih ((leadsTo_sweep ledger).labelled labelled)
          obtain ⟨later, begins⟩ := ledgers_settleWithin bound ledger.sweep
          simp only [Run.ledgers, List.cons_append] at begins rest ⊢
          rw [begins] at rest ⊢
          exact .cons_cons ⟨pass_eq labelled, changed⟩ rest

theorem complete_settle (labelled : ledger.Labelled)
    (visited : ledger.Visited) : ledger.settle.Complete where
  steps := isChain_settleWithin _ labelled
  last := by
    have there := ledger.leadsTo_settle
    have closed := closed_settle visited
    rw [pass_eq (there.labelled labelled),
      (sweep_eq_self_iff (there.visited visited)).mpr closed]

end Ledger

namespace Protocol

variable {config : Config} {protocol : Protocol}

theorem analyze_eq_ok {report : Report} :
    protocol.analyze config = .ok report ↔
      ∃ ledger, Ledger.observed config protocol = .ok ledger ∧
        ledger.settle.report config protocol = report := by
  rw [analyze_eq]
  cases Ledger.observed config protocol <;> simp [Except.map]

theorem settled_of_analyze {report : Report}
    (h : protocol.analyze config = .ok report) :
    ∃ run : Ledger.Run, run.report config protocol = report ∧
      ∀ principal ∈ protocol.principals,
        protocol.Settled config principal (run.final.holdingsOf principal) := by
  obtain ⟨ledger, observed, rfl⟩ := analyze_eq_ok.mp h
  exact ⟨ledger.settle, rfl, fun _ listed =>
    Ledger.settled_holdingsOf observed listed⟩

theorem analyze_eq_error {fault : AnalysisFault} :
    protocol.analyze config = .error fault ↔
      Ledger.observed config protocol = .error fault := by
  rw [analyze_eq]
  cases Ledger.observed config protocol <;> simp [Except.map]

theorem not_addressed_iff : ¬ protocol.Addressed config ↔
    (config.seedKeyOwners = true ∧ ∃ key ∈ protocol.keys,
      key.kind ≠ .publicKey ∧ ∃ owner ∈ key.ownerNames,
        owner ∉ protocol.roleNames) ∨
    ∃ message ∈ protocol.messages,
      message.sender.name ∉ protocol.roleNames ∨
        message.receiver.name ∉ protocol.roleNames := by
  constructor
  · intro notAddressed
    by_contra nobody
    push Not at nobody
    obtain ⟨owners, endpoints⟩ := nobody
    exact notAddressed ⟨fun message mem => (endpoints message mem).1,
      fun message mem => (endpoints message mem).2, owners⟩
  · rintro (⟨seeds, key, mem, unshared, owner, owns, foreign⟩ |
      ⟨message, mem, foreign | foreign⟩) addressed
    · exact foreign (addressed.owners seeds key mem unshared owner owns)
    · exact foreign (addressed.senders message mem)
    · exact foreign (addressed.receivers message mem)

/--
A report comes about exactly if nobody is addressed who is no role, and always
if the names of the protocol resolve.  Otherwise the first such name is told.
-/
theorem analyze_total (config : Config) (protocol : Protocol) :
    (∀ scope, protocol.scope = .ok scope →
      ∃ report, protocol.analyze config = .ok report) ∧
    ((∃ fault, protocol.analyze config = .error fault) ↔
      (config.seedKeyOwners = true ∧ ∃ key ∈ protocol.keys,
        key.kind ≠ .publicKey ∧ ∃ owner ∈ key.ownerNames,
          owner ∉ protocol.roleNames) ∨
      ∃ message ∈ protocol.messages,
        message.sender.name ∉ protocol.roleNames ∨
          message.receiver.name ∉ protocol.roleNames) ∧
    (∀ fault, protocol.analyze config = .error fault ↔
      ∃ name, (protocol.addressees config).find?
        (· ∉ protocol.roleNames) = some name ∧ fault = .undeclared name) ∧
    ∀ report, protocol.analyze config = .ok report →
      ∃ ledger, Ledger.observed config protocol = .ok ledger ∧
        ledger.settle.Complete ∧
        report = ledger.settle.report config protocol := by
  refine ⟨fun scope h => ?_, ?_, fun fault => ?_, fun report h => ?_⟩
  · obtain ⟨ledger, -, analyzed⟩ :=
      exists_report (addressed_of_scope h config)
    exact ⟨_, analyzed⟩
  · simp only [analyze_eq_error]
    rw [Ledger.exists_fault_iff, not_addressed_iff]
  · rw [analyze_eq_error, Ledger.observed_eq_error]
  · obtain ⟨ledger, observed, reported⟩ := analyze_eq_ok.mp h
    have labelled := Ledger.requireLabels_eq_ok.mp
      (Ledger.requireLabels_observed observed)
    have complete :=
      Ledger.complete_settle labelled (Ledger.visited_observed observed)
    exact ⟨ledger, observed, complete, reported.symm⟩

def misaddressed : Protocol :=
  { handover with
    messages := handover.messages ++
      [⟨⟨"B", 6⟩, ⟨"C", 6⟩, .name ⟨"M", 6⟩, 6⟩] }

theorem analyze_total_handover :
    handover.scope = .ok handoverScope ∧
      (∃ report, handover.analyze .default = .ok report) ∧
      misaddressed.analyze .default = .error (.undeclared "C") := by
  obtain ⟨reports, -⟩ := analyze_total .default handover
  obtain ⟨-, -, faults, -⟩ := analyze_total .default misaddressed
  exact ⟨scope_handover, reports handoverScope scope_handover,
    (faults _).mpr ⟨"C", by decide, rfl⟩⟩

/-- Owners are looked up first, and a sender before the receiver. -/
example : handover.addressees ⟨true, false, [], false⟩ =
    ["A", "B", "A", "B", "A", "B", "B", "A"] := by decide

end Protocol

end Secrecy
