import Secrecy.Proofs.Knowledge.Growth

/-!
# What the adversary has of what the roles have

Every message passes the adversary, so whatever is sealed or visible for a role
is so for the adversary as well.  All that a role can be ahead by is what it
wrote itself and the keys that it was given.  Once the adversary has these, it
opens whatever the role opens.
-/

namespace Secrecy

namespace Protocol

variable {protocol : Protocol} {config : Config} {principal : Principal}
  {name : String}

/-! ## On the wire -/

theorem shown_adversary {message : Message} (mem : message ∈ protocol.messages)
    (visible : message.body.Shows name) : protocol.Shown .adversary name :=
  ⟨message, mem, trivial, visible⟩

theorem Shown.overheard (shown : protocol.Shown principal name) :
    protocol.Shown .adversary name := by
  obtain ⟨message, mem, -, visible⟩ := shown
  exact shown_adversary mem visible

theorem Sealed.overheard {term : SealedTerm}
    (held : protocol.Sealed principal term) :
    protocol.Sealed .adversary term := by
  obtain ⟨message, mem, -, seals⟩ := held
  exact ⟨message, mem, .inr trivial, seals⟩

theorem Known.overheard
    (authored : ∀ name, protocol.Authored principal name →
      protocol.Known config .adversary name)
    (seeded : ∀ name, protocol.Seeded config principal name →
      protocol.Known config .adversary name)
    (known : protocol.Known config principal name) :
    protocol.Known config .adversary name :=
  known.cut authored
    (fun name told => told.elim (fun shown => .told (.inl shown.overheard))
      (seeded name))
    fun _ => Sealed.overheard

/-- Who only listens has nothing of its own to open a term with. -/
theorem Known.overheard_of_silent (unseeded : config.seedKeyOwners = false)
    (silent : ∀ message ∈ protocol.messages, ¬ message.SentBy principal)
    (known : protocol.Known config principal name) :
    protocol.Known config .adversary name := by
  refine known.overheard ?_ ?_
  · rintro name ⟨message, mem, sent, -⟩
    exact absurd sent (silent message mem)
  · rintro name ⟨wanted, -⟩
    exact absurd (unseeded.symm.trans wanted) Bool.false_ne_true

/-! ## In the report -/

structure Dominates (protocol : Protocol) (config : Config)
    (adversary : Knowledge) (report : Report) : Prop where
  listed : report.knowledgeOf? .adversary = some adversary
  sealedTerms : ∀ known ∈ report.knowledge,
    known.sealedTerms ⊆ adversary.sealedTerms
  overhears : ∀ message ∈ protocol.messages, ∀ name,
    message.body.Shows name → name ∈ adversary.learned
  clear : ∀ known ∈ report.knowledge, known.authored ⊆ adversary.clear →
    (config.seedKeyOwners = true → ∀ key ∈ protocol.keys,
      key.GivenTo known.principal → key.name.name ∈ adversary.clear) →
    known.clear ⊆ adversary.clear
  silent : config.seedKeyOwners = false → ∀ known ∈ report.knowledge,
    (∀ message ∈ protocol.messages, ¬ message.SentBy known.principal) →
    known.learned ⊆ adversary.learned

theorem Settled.learned_adversary {holdings : Holdings}
    (h : protocol.Settled config .adversary holdings) :
    name ∈ holdings.learned ↔ protocol.Known config .adversary name := by
  rw [h.learned]
  constructor
  · rintro (told | ⟨-, known⟩)
    · exact .told told
    · exact known
  · exact fun known => .inr ⟨not_authored_adversary, known⟩

theorem Settled.known_of_learned {holdings : Holdings}
    (h : protocol.Settled config principal holdings)
    (learned : name ∈ holdings.learned) :
    protocol.Known config principal name :=
  (h.clear name).mp (Holdings.mem_clear.mpr (.inr learned))

theorem principals_report (run : Ledger.Run) :
    (run.report config protocol).knowledge.map Knowledge.principal =
      protocol.principals := by
  rw [Ledger.Run.report, List.map_map]
  exact List.map_id _

theorem knowledgeOf?_report (run : Ledger.Run)
    (listed : principal ∈ protocol.principals) :
    (run.report config protocol).knowledgeOf? principal =
      some (.ofHoldings principal (run.final.holdingsOf principal)) := by
  unfold Report.knowledgeOf? Ledger.Run.report
  rw [List.find?_map]
  cases found : protocol.principals.find? _ with
  | none =>
      have missing := List.find?_eq_none.mp found principal listed
      exact (missing (decide_eq_true rfl)).elim
  | some first =>
      have same := List.find?_some found
      obtain rfl : first = principal := of_decide_eq_true same
      rfl

theorem dominates_report {run : Ledger.Run}
    (settled : ∀ principal ∈ protocol.principals,
      protocol.Settled config principal (run.final.holdingsOf principal)) :
    protocol.Dominates config
      (.ofHoldings .adversary (run.final.holdingsOf .adversary))
      (run.report config protocol) := by
  have adversary := settled _ protocol.adversary_mem_principals
  have listed := protocol.adversary_mem_principals
  refine ⟨knowledgeOf?_report run listed, ?_, ?_, ?_, ?_⟩
  · intro known mem term held
    obtain ⟨principal, listed, rfl⟩ := List.mem_map.mp mem
    simp only [Knowledge.ofHoldings, SealedTerm.mem_byLabel,
      adversary.sealedTerms, (settled _ listed).sealedTerms] at held ⊢
    exact held.overheard
  · intro message sent name visible
    simp only [Knowledge.ofHoldings, mem_sorted, adversary.learned_adversary]
    exact .told (.inl (shown_adversary sent visible))
  · intro known mem authored seeded name
    obtain ⟨principal, listed, rfl⟩ := List.mem_map.mp mem
    simp only [Knowledge.ofHoldings, mem_sorted, List.subset_def,
      adversary.clear, (settled _ listed).clear, (settled _ listed).authored]
      at authored seeded ⊢
    refine Known.overheard (fun _ => @authored _) ?_
    rintro _ ⟨wanted, key, declared, given, rfl⟩
    exact seeded wanted key declared given
  · intro unseeded known mem silent name
    obtain ⟨principal, listed, rfl⟩ := List.mem_map.mp mem
    simp only [Knowledge.ofHoldings, mem_sorted, adversary.learned_adversary]
    intro learned
    exact ((settled _ listed).known_of_learned learned).overheard_of_silent
      unseeded silent

/--
The report shows the adversary with all that is sealed or visible for anybody,
and with all that a role knows unless the role has a head start.
-/
theorem analyze_dominates {scope : Scope} (h : protocol.scope = .ok scope)
    (config : Config) :
    ∃ report adversary, protocol.analyze config = .ok report ∧
      report.knowledge.map Knowledge.principal = protocol.principals ∧
      protocol.Dominates config adversary report := by
  obtain ⟨run, analyzed, settled⟩ :=
    exists_settled_report (addressed_of_scope h config)
  exact ⟨_, _, analyzed, principals_report run, dominates_report settled⟩

theorem analyze_dominates_handover :
    handover.scope = .ok handoverScope ∧
      ∃ report adversary, handover.analyze .default = .ok report ∧
        report.knowledge.map Knowledge.principal = handover.principals ∧
        handover.Dominates .default adversary report :=
  ⟨scope_handover, analyze_dominates scope_handover .default⟩

end Protocol

end Secrecy
