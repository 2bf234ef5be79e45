import Mathlib.Order.Bounds.Basic
import Secrecy.Knowledge.Report
import Secrecy.Proofs.Knowledge.Addressing
import Secrecy.Proofs.Order
import Secrecy.Proofs.Scope.Roles

/-!
# What the analysis reports

Entering the messages brings every principal to the names that it authored or
was told, and settling the ledger opens from there whatever can be opened.  The
report therefore shows each principal exactly the least set of names that
contains the former and is closed under opening held encryptions of bare names.
-/

namespace Secrecy

variable {config : Config} {protocol : Protocol} {ledger : Ledger}

/-! ## Settled ledgers -/

/-- What holdings amount to once a ledger is settled. -/
structure Protocol.Settled (protocol : Protocol) (config : Config)
    (principal : Principal) (holdings : Holdings) : Prop where
  authored (name : String) :
    name ∈ holdings.authored ↔ protocol.Authored principal name
  learned (name : String) :
    name ∈ holdings.learned ↔ protocol.Told config principal name ∨
      ¬ protocol.Authored principal name ∧
        protocol.Known config principal name
  clear (name : String) :
    name ∈ holdings.clear ↔ protocol.Known config principal name
  sealedTerms (term : SealedTerm) :
    term ∈ holdings.sealedTerms ↔ protocol.Sealed principal term
  distinct : holdings.Distinct

theorem Holdings.Gains.derivable_iff_known {holdings : Holdings}
    {principal : Principal}
    (gains : Holdings.nothing.Gains (protocol.gain config principal) holdings)
    {name : String} :
    holdings.Derivable name ↔ protocol.Known config principal name := by
  have authored (name : String) := gains.authored name
  have learned (name : String) := gains.learned name
  have terms (term : SealedTerm) := gains.sealedTerms term
  simp only [nothing, List.not_mem_nil, false_or, Protocol.gain]
    at authored learned terms
  constructor
  · intro derivable
    induction derivable with
    | held known =>
        rw [Holdings.mem_clear, authored, learned] at known
        exact known.elim .authored .told
    | opened mem opens _ ih =>
        rw [SealedTerm.opening?_eq_some_iff] at opens
        subst opens
        exact .opened ((terms _).mp mem) ih
  · intro known
    induction known with
    | authored h =>
        exact .held (Holdings.mem_clear.mpr (.inl ((authored _).mpr h)))
    | told h => exact .held (Holdings.mem_clear.mpr (.inr ((learned _).mpr h)))
    | opened held _ ih => exact .opened ((terms _).mpr held) rfl ih

namespace Ledger

theorem gains_holdingsOf (h : observed config protocol = .ok ledger)
    {principal : Principal} (listed : principal ∈ protocol.principals) :
    Holdings.nothing.Gains (protocol.gain config principal)
      (ledger.holdingsOf principal) := by
  have gains := (gains_observed h).holdings principal (lists_blank.mpr listed)
  rwa [holdingsOf_blank] at gains

theorem visited_observed (h : observed config protocol = .ok ledger) :
    ledger.Visited := by
  rw [visited_iff_frame, (gains_observed h).frame, ← visited_iff_frame]
  exact visited_blank _

theorem settled_holdingsOf (h : observed config protocol = .ok ledger)
    {principal : Principal} (listed : principal ∈ protocol.principals) :
    protocol.Settled config principal
      (ledger.settle.final.holdingsOf principal) := by
  have gains := gains_holdingsOf h listed
  have there := ledger.leadsTo_settle.holdingsOf principal
  have closed := (closed_settle (visited_observed h)).holdingsOf principal
  have authored (name : String) :
      name ∈ (ledger.holdingsOf principal).authored ↔
        protocol.Authored principal name := by
    simpa [Holdings.nothing, Protocol.gain] using gains.authored name
  have learned (name : String) :
      name ∈ (ledger.holdingsOf principal).learned ↔
        protocol.Told config principal name := by
    simpa [Holdings.nothing, Protocol.gain] using gains.learned name
  refine ⟨fun name => ?_, fun name => ?_, fun name => ?_, fun term => ?_, ?_⟩
  · rw [there.authored, authored]
  · rw [there.mem_learned_iff closed, learned, authored,
      gains.derivable_iff_known]
  · rw [there.mem_clear_iff_derivable closed, gains.derivable_iff_known]
  · rw [there.sealedTerms]
    simpa [Holdings.nothing, Protocol.gain] using gains.sealedTerms term
  · have distinct := gains.distinct Holdings.distinct_nothing
    exact ⟨there.authored ▸ distinct.authored,
      there.nodup_learned distinct.learned,
      there.sealedTerms ▸ distinct.sealedTerms⟩

theorem sealed_of_mem_entries (h : observed config protocol = .ok ledger)
    {entry : Entry} (mem : entry ∈ ledger.entries) {term : SealedTerm}
    (held : term ∈ entry.holdings.sealedTerms) :
    protocol.Sealed entry.principal term := by
  have gains := gains_observed h
  have nodup : (ledger.frame.map Prod.fst).Nodup := by
    rw [gains.frame, frame_blank, List.map_map]
    simpa [Function.comp_def] using nodup_distinct protocol.principals
  have listed : entry.principal ∈ protocol.principals := by
    rw [← lists_blank, ← lists_iff_of_frame_eq gains.frame]
    exact ⟨entry, mem, rfl⟩
  rw [← holdingsOf_of_mem nodup mem] at held
  simpa [Holdings.nothing, Protocol.gain] using
    ((gains_holdingsOf h listed).sealedTerms term).mp held

theorem requireLabels_observed (h : observed config protocol = .ok ledger) :
    ledger.requireLabels = .ok () := by
  refine Outcome.forM_eq_ok.mpr fun entry mem => ?_
  refine Outcome.forM_eq_ok.mpr fun term held => ?_
  obtain ⟨_, _, _, seals⟩ := sealed_of_mem_entries h mem held
  rw [Expr.label_eq_ok_of_seals seals]
  rfl

end Ledger

namespace Protocol

/-- All that can go wrong goes wrong before the first pass. -/
theorem analyze_eq (config : Config) (protocol : Protocol) :
    protocol.analyze config = (Ledger.observed config protocol).map
      fun ledger => ledger.settle.report config protocol := by
  unfold analyze
  cases h : Ledger.observed config protocol with
  | error fault => rfl
  | ok ledger =>
      change (ledger.requireLabels.mapError AnalysisFault.unlabelled >>=
        fun _ => pure (ledger.settle.report config protocol)) = _
      rw [Ledger.requireLabels_observed h]
      rfl

theorem addressed_of_scope {scope : Scope} (h : protocol.scope = .ok scope)
    (config : Config) : protocol.Addressed config where
  senders message mem := (endpoints_declared h message mem).1
  receivers message mem := (endpoints_declared h message mem).2
  owners _ key mem _ := owners_declared h key mem

theorem exists_report (addressed : protocol.Addressed config) :
    ∃ ledger, Ledger.observed config protocol = .ok ledger ∧
      protocol.analyze config = .ok (ledger.settle.report config protocol) := by
  obtain ⟨ledger, h⟩ := Ledger.exists_observed addressed
  exact ⟨ledger, h, by rw [analyze_eq, h]; rfl⟩

theorem exists_settled_report (addressed : protocol.Addressed config) :
    ∃ run : Ledger.Run,
      protocol.analyze config = .ok (run.report config protocol) ∧
      ∀ principal ∈ protocol.principals,
        protocol.Settled config principal (run.final.holdingsOf principal) := by
  obtain ⟨ledger, observed, analyzed⟩ := exists_report addressed
  exact ⟨ledger.settle, analyzed, fun _ listed =>
    Ledger.settled_holdingsOf observed listed⟩

/-! ## Least knowledge -/

/-- The sets of names that a principal's knowledge cannot be outside of. -/
def ClosedSets (protocol : Protocol) (config : Config)
    (principal : Principal) : Set (Set String) :=
  {names | (∀ name, protocol.Authored principal name → name ∈ names) ∧
    (∀ name, protocol.Told config principal name → name ∈ names) ∧
    ∀ key plain, protocol.Sealed principal ⟨.enc, some key, [plain], [true]⟩ →
      key ∈ names → plain ∈ names}

theorem isLeast_known (protocol : Protocol) (config : Config)
    (principal : Principal) :
    IsLeast (protocol.ClosedSets config principal)
      {name | protocol.Known config principal name} := by
  constructor
  · exact ⟨fun _ => .authored, fun _ => .told, fun _ _ => .opened⟩
  · rintro names ⟨authored, told, opened⟩ name known
    induction known with
    | authored h => exact authored _ h
    | told h => exact told _ h
    | opened held _ ih => exact opened _ _ held ih

/-- A principal's part in the report, as the messages determine it. -/
structure Reports (protocol : Protocol) (config : Config)
    (known : Knowledge) : Prop where
  authored (name : String) :
    name ∈ known.authored ↔ protocol.Authored known.principal name
  sealedTerms (term : SealedTerm) :
    term ∈ known.sealedTerms ↔ protocol.Sealed known.principal term
  clear : IsLeast (protocol.ClosedSets config known.principal)
    {name | name ∈ known.clear}
  learned (name : String) :
    name ∈ known.learned ↔ protocol.Told config known.principal name ∨
      name ∈ known.clear ∧ name ∉ known.authored
  /-- Nothing but an encryption of a bare name ever gives a name away. -/
  origin (name : String) : name ∈ known.clear →
    protocol.Authored known.principal name ∨
      protocol.Told config known.principal name ∨
      ∃ key ∈ known.clear,
        protocol.Sealed known.principal ⟨.enc, some key, [name], [true]⟩
  ascending : known.authored.Pairwise (· < ·) ∧
    known.clear.Pairwise (· < ·) ∧ known.learned.Pairwise (· < ·)
  byLabel : known.sealedTerms.Nodup ∧
    known.sealedTerms.Pairwise fun a b => a.shown ≤ b.shown

theorem Settled.reports {principal : Principal} {holdings : Holdings}
    (h : protocol.Settled config principal holdings) :
    protocol.Reports config (.ofHoldings principal holdings) where
  authored name := by simp [Knowledge.ofHoldings, h.authored]
  sealedTerms term := by simp [Knowledge.ofHoldings, h.sealedTerms]
  clear := by
    have same : {name | name ∈ (Knowledge.ofHoldings principal holdings).clear} =
        {name | protocol.Known config principal name} := by
      ext name
      exact mem_sorted.trans (h.clear name)
    rw [same]
    exact isLeast_known protocol config principal
  learned name := by
    simp only [Knowledge.ofHoldings, mem_sorted, h.learned, h.clear, h.authored]
    rw [and_comm]
  origin name mem := by
    simp only [Knowledge.ofHoldings, mem_sorted, h.clear] at mem ⊢
    cases mem with
    | authored h => exact .inl h
    | told h => exact .inr (.inl h)
    | opened held known => exact .inr (.inr ⟨_, known, held⟩)
  ascending := by
    refine ⟨ascending_sorted h.distinct.authored, ascending_sorted ?_,
      ascending_sorted h.distinct.learned⟩
    exact nodup_adjoinAll h.distinct.authored _
  byLabel := ⟨SealedTerm.nodup_byLabel h.distinct.sealedTerms,
    SealedTerm.pairwise_byLabel _⟩

/--
The report on a protocol whose names all resolve shows every principal, in
order, with exactly what the messages determine.
-/
theorem analyze_reports {scope : Scope} (h : protocol.scope = .ok scope)
    (config : Config) :
    ∃ report, protocol.analyze config = .ok report ∧
      report.knowledge.map Knowledge.principal = protocol.principals ∧
      ∀ known ∈ report.knowledge, protocol.Reports config known := by
  obtain ⟨ledger, observed, analyzed⟩ :=
    exists_report (addressed_of_scope h config)
  refine ⟨_, analyzed, ?_, ?_⟩
  · simp [Ledger.Run.report, Knowledge.ofHoldings, Function.comp_def]
  · intro known mem
    obtain ⟨principal, listed, rfl⟩ := List.mem_map.mp mem
    exact (Ledger.settled_holdingsOf observed listed).reports

def handover : Protocol :=
  { roles := ⟨[⟨"A", 1⟩, ⟨"B", 1⟩], 1⟩
    keys := [⟨.sharedKey, ⟨"K", 2⟩, [⟨"A", 2⟩, ⟨"B", 2⟩], 2⟩]
    messages :=
      [⟨⟨"A", 3⟩, ⟨"B", 3⟩, .enc ⟨"K", 3⟩ (.name ⟨"L", 3⟩) 3, 3⟩,
        ⟨⟨"A", 4⟩, ⟨"B", 4⟩,
          .assign ⟨"c", 4⟩ (.enc ⟨"L", 4⟩ (.name ⟨"M", 4⟩) 4) 4, 4⟩,
        ⟨⟨"B", 5⟩, ⟨"A", 5⟩, .name ⟨"K", 5⟩, 5⟩]
    assertions := [⟨⟨"M", 6⟩, some [⟨"A", 6⟩], 6⟩] }

def handoverScope : Scope :=
  ⟨[⟨"A", .role, 1⟩, ⟨"B", .role, 1⟩, ⟨"K", .key, 2⟩,
    ⟨"L", .fresh "A" 0, 3⟩, ⟨"M", .fresh "A" 1, 4⟩,
    ⟨"c", .assigned "A" 1, 4⟩]⟩

theorem scope_handover : handover.scope = .ok handoverScope := by decide

theorem analyze_reports_handover :
    handover.scope = .ok handoverScope ∧
      ∃ report, handover.analyze .default = .ok report ∧
        report.knowledge.map Knowledge.principal = handover.principals ∧
        ∀ known ∈ report.knowledge, handover.Reports .default known :=
  ⟨scope_handover, analyze_reports scope_handover .default⟩

end Protocol

end Secrecy
