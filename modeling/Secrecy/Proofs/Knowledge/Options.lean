import Secrecy.Proofs.Knowledge.Persistence
import Secrecy.Proofs.Knowledge.Totality

/-!
# What the options do

Every option works in one direction.  Keys that are given to their owners let
everybody know more, counting own words finds more leaks, and further prefixes
raise more alarms; nothing that was found before is taken back.  The last two
options have no part in what anybody knows.
-/

namespace Secrecy

/-- The strict configuration asks for all that the lax one asks for. -/
structure Config.Laxer (lax strict : Config) : Prop where
  seeds : lax.seedKeyOwners = true → strict.seedKeyOwners = true
  counts : lax.countAuthored = true → strict.countAuthored = true
  prefixes : lax.leakPrefixes ⊆ strict.leakPrefixes

namespace Config.Laxer

variable {lax strict : Config} {protocol : Protocol} {principal : Principal}
  {name : String}

theorem told (h : lax.Laxer strict) (told : protocol.Told lax principal name) :
    protocol.Told strict principal name :=
  told.imp_right (And.imp_left h.seeds)

theorem known (h : lax.Laxer strict)
    (known : protocol.Known lax principal name) :
    protocol.Known strict principal name :=
  known.cut (fun _ => .authored) (fun _ told => .told (h.told told))
    fun _ => id

theorem excused (h : lax.Laxer strict)
    (excused : protocol.Excused strict principal name) :
    protocol.Excused lax principal name where
  uncounted := by
    rw [← Bool.not_eq_true]
    intro counted
    exact absurd ((h.counts counted).symm.trans excused.uncounted) (by decide)
  authored := excused.authored
  untold told := excused.untold (h.told told)

theorem isCatastrophic (h : lax.Laxer strict)
    (catastrophic : protocol.isCatastrophic lax name = true) :
    protocol.isCatastrophic strict name = true := by
  simp only [Protocol.isCatastrophic, Bool.and_eq_true, Bool.or_eq_true,
    List.any_eq_true] at catastrophic ⊢
  refine catastrophic.imp_right (Or.imp_right ?_)
  rintro ⟨start, listed, starts⟩
  exact ⟨start, h.prefixes listed, starts⟩

end Config.Laxer

/-! ## What reports show -/

structure Knowledge.Widens (before after : Knowledge) : Prop where
  principal : after.principal = before.principal
  authored : before.authored ⊆ after.authored
  learned : before.learned ⊆ after.learned
  clear : before.clear ⊆ after.clear
  sealedTerms : before.sealedTerms ⊆ after.sealedTerms

structure Verdict.Worsens (before after : Verdict) : Prop where
  assertion : after.assertion = before.assertion
  leakedTo : before.leakedTo ⊆ after.leakedTo
  failed : before.passed = false → after.passed = false

structure Report.Worsens (before after : Report) : Prop where
  knowledge : List.Forall₂ Knowledge.Widens before.knowledge after.knowledge
  verdicts : List.Forall₂ Verdict.Worsens before.verdicts after.verdicts
  catastrophic : before.catastrophic ⊆ after.catastrophic

namespace Protocol

variable {lax strict config : Config} {protocol : Protocol}
  {principal : Principal}

theorem Settled.widens (h : lax.Laxer strict) {before after : Holdings}
    (settled : protocol.Settled lax principal before)
    (settled' : protocol.Settled strict principal after) :
    (Knowledge.ofHoldings principal before).Widens
      (.ofHoldings principal after) where
  principal := rfl
  authored name mem := by
    simpa [Knowledge.ofHoldings, settled.authored, settled'.authored] using mem
  learned name mem := by
    simp only [Knowledge.ofHoldings, mem_sorted, settled.learned,
      settled'.learned] at mem ⊢
    exact mem.imp h.told (And.imp_right h.known)
  clear name mem := by
    simp only [Knowledge.ofHoldings, mem_sorted, settled.clear,
      settled'.clear] at mem ⊢
    exact h.known mem
  sealedTerms term mem := by
    simpa [Knowledge.ofHoldings, settled.sealedTerms, settled'.sealedTerms]
      using mem

theorem Judges.worsens (h : lax.Laxer strict) {before after : Verdict}
    (judges : protocol.Judges lax before)
    (judges' : protocol.Judges strict after)
    (same : after.assertion = before.assertion) : before.Worsens after := by
  have term : after.term = before.term :=
    congrArg (fun assertion => assertion.term.name) same
  have leaks : before.leakedTo ⊆ after.leakedTo := by
    intro principal leaked
    obtain ⟨listed, denied, known, unexcused⟩ := judges.mem_leakedTo.mp leaked
    rw [judges'.mem_leakedTo, same, term]
    exact ⟨listed, denied, h.known known, mt h.excused unexcused⟩
  refine ⟨same, leaks, fun failed => ?_⟩
  obtain ⟨principal, leaked⟩ := Verdict.passed_eq_false.mp failed
  exact Verdict.passed_eq_false.mpr ⟨principal, leaks leaked⟩

theorem worsens_of_analyze (h : lax.Laxer strict) {before after : Report}
    (analyzed : protocol.analyze lax = .ok before)
    (analyzed' : protocol.analyze strict = .ok after) :
    before.Worsens after := by
  obtain ⟨run, rfl, settled⟩ := settled_of_analyze analyzed
  obtain ⟨run', rfl, settled'⟩ := settled_of_analyze analyzed'
  refine ⟨?_, ?_, ?_⟩
  · simp only [Ledger.Run.report, List.forall₂_map_left_iff,
      List.forall₂_map_right_iff, List.forall₂_same]
    intro principal listed
    exact (settled principal listed).widens h (settled' principal listed)
  · simp only [Ledger.Run.report, List.forall₂_map_left_iff,
      List.forall₂_map_right_iff, List.forall₂_same]
    intro assertion _
    exact (judges_judge settled assertion).worsens h
      (judges_judge settled' assertion) rfl
  · have adversary := adversary_mem_principals protocol
    intro name mem
    simp only [Ledger.Run.report, Ledger.catastrophic, mem_sorted,
      List.mem_filter, (settled _ adversary).clear,
      (settled' _ adversary).clear] at mem ⊢
    exact mem.imp h.known h.isCatastrophic

/-- Own words only count against those who are kept out by name. -/
theorem judge_eq_of_unrestricted (ledger : Ledger) (roles : List String)
    {assertion : Assertion} (unrestricted : assertion.permitted = none) :
    ledger.judge strict roles assertion = ledger.judge lax roles assertion := by
  have none : assertion.outsiders roles = [] := by
    rw [Assertion.outsiders, Assertion.permittedNames, unrestricted]
    rfl
  simp [Ledger.judge, none]

/--
Turning on an option takes nothing back, and changes no other part of the
report than the one it is about.
-/
theorem analyze_options {scope : Scope} (h : protocol.scope = .ok scope)
    (config : Config) :
    ∃ report, protocol.analyze config = .ok report ∧
      (∃ seeded,
        protocol.analyze { config with seedKeyOwners := true } = .ok seeded ∧
        report.Worsens seeded) ∧
      (∃ verdicts,
        protocol.analyze { config with countAuthored := true } =
          .ok { report with verdicts := verdicts } ∧
        List.Forall₂ Verdict.Worsens report.verdicts verdicts ∧
        List.Forall₂ (fun before after =>
          before.assertion.permitted = none → after = before)
          report.verdicts verdicts) ∧
      ∀ prefixes, config.leakPrefixes ⊆ prefixes → ∃ catastrophic,
        protocol.analyze { config with leakPrefixes := prefixes } =
          .ok { report with catastrophic := catastrophic } ∧
        report.catastrophic ⊆ catastrophic := by
  obtain ⟨ledger, observed, analyzed⟩ :=
    exists_report (addressed_of_scope h config)
  refine ⟨_, analyzed, ?_, ?_, fun prefixes more => ?_⟩
  · let seeding := { config with seedKeyOwners := true }
    have laxer : config.Laxer seeding := ⟨fun _ => rfl, id, fun _ => id⟩
    obtain ⟨_, _, analyzed'⟩ := exists_report (addressed_of_scope h seeding)
    exact ⟨_, analyzed', worsens_of_analyze laxer analyzed analyzed'⟩
  · let counting := { config with countAuthored := true }
    have laxer : config.Laxer counting := ⟨id, fun _ => rfl, fun _ => id⟩
    -- Only judging reads this option, so the same ledger is settled.
    have analyzed' : protocol.analyze counting =
        .ok (ledger.settle.report counting protocol) :=
      analyze_eq_ok.mpr ⟨ledger, observed, rfl⟩
    refine ⟨_, analyzed',
      (worsens_of_analyze laxer analyzed analyzed').verdicts, ?_⟩
    simp only [Ledger.Run.report, List.forall₂_map_left_iff,
      List.forall₂_map_right_iff, List.forall₂_same]
    intro assertion _ unrestricted
    exact judge_eq_of_unrestricted _ _ unrestricted
  · let warning := { config with leakPrefixes := prefixes }
    have laxer : config.Laxer warning := ⟨id, id, more⟩
    have analyzed' : protocol.analyze warning =
        .ok (ledger.settle.report warning protocol) :=
      analyze_eq_ok.mpr ⟨ledger, observed, rfl⟩
    exact ⟨_, analyzed',
      (worsens_of_analyze laxer analyzed analyzed').catastrophic⟩

theorem analyze_options_handover :
    handover.scope = .ok handoverScope ∧
      ∃ report, handover.analyze .default = .ok report ∧
        (∃ seeded,
          handover.analyze { Config.default with seedKeyOwners := true } =
            .ok seeded ∧
          report.Worsens seeded) ∧
        (∃ verdicts,
          handover.analyze { Config.default with countAuthored := true } =
            .ok { report with verdicts := verdicts } ∧
          List.Forall₂ Verdict.Worsens report.verdicts verdicts ∧
          List.Forall₂ (fun before after =>
            before.assertion.permitted = none → after = before)
            report.verdicts verdicts) ∧
        ∃ catastrophic,
          handover.analyze
              { Config.default with leakPrefixes := ["K_", "M_", "L"] } =
            .ok { report with catastrophic := catastrophic } ∧
          report.catastrophic ⊆ catastrophic := by
  obtain ⟨report, analyzed, seeded, counted, warned⟩ :=
    analyze_options scope_handover .default
  exact ⟨scope_handover, report, analyzed, seeded, counted,
    warned _ (by decide)⟩

end Protocol

end Secrecy
