import Secrecy.Proofs.Knowledge.Analysis

/-!
# Knowledge as a protocol goes on

A protocol goes on by further messages under the same declarations.  Whatever
the messages disclose to a principal, they still disclose when others follow,
so what a report shows only grows.  The one exception is the learned half of a
role: names that it writes itself later on are no longer counted as learned by
opening.
-/

namespace Secrecy

/-! ## Going on -/

namespace Protocol

variable {early late : Protocol} {config : Config} {principal : Principal}

/-- The later protocol declares the same and begins with the same messages. -/
structure GoesOn (early late : Protocol) : Prop where
  roles : late.roles = early.roles
  keys : late.keys = early.keys
  assertions : late.assertions = early.assertions
  messages : early.messages <+: late.messages

theorem goesOn_upTo (protocol : Protocol) {n m : Nat} (le : n ≤ m) :
    (protocol.upTo n).GoesOn (protocol.upTo m) :=
  ⟨rfl, rfl, rfl, List.take_prefix_take_left le⟩

theorem upTo_goesOn (protocol : Protocol) (n : Nat) :
    (protocol.upTo n).GoesOn protocol :=
  ⟨rfl, rfl, rfl, List.take_prefix n _⟩

namespace GoesOn

theorem mem (h : early.GoesOn late) {message : Message}
    (mem : message ∈ early.messages) : message ∈ late.messages :=
  h.messages.subset mem

theorem roleNames (h : early.GoesOn late) :
    late.roleNames = early.roleNames := by
  rw [Protocol.roleNames, h.roles, Protocol.roleNames]

theorem principals (h : early.GoesOn late) :
    late.principals = early.principals := by
  rw [Protocol.principals, h.roleNames, Protocol.principals]

theorem isCatastrophic (h : early.GoesOn late) :
    late.isCatastrophic config = early.isCatastrophic config := by
  obtain ⟨_, keys, _, _⟩ := early
  obtain rfl : late.keys = keys := h.keys
  rfl

theorem addressed (h : early.GoesOn late) (addressed : late.Addressed config) :
    early.Addressed config where
  senders message mem := h.roleNames ▸ addressed.senders message (h.mem mem)
  receivers message mem :=
    h.roleNames ▸ addressed.receivers message (h.mem mem)
  owners wanted key mem := h.roleNames ▸
    addressed.owners wanted key (h.keys.symm ▸ mem)

/-! ## What stays disclosed -/

variable {name : String}

theorem authored (h : early.GoesOn late)
    (authored : early.Authored principal name) :
    late.Authored principal name := by
  obtain ⟨message, mem, sent⟩ := authored
  exact ⟨message, h.mem mem, sent⟩

theorem shown (h : early.GoesOn late) (shown : early.Shown principal name) :
    late.Shown principal name := by
  obtain ⟨message, mem, received⟩ := shown
  exact ⟨message, h.mem mem, received⟩

theorem seeded_iff (h : early.GoesOn late) :
    late.Seeded config principal name ↔ early.Seeded config principal name := by
  rw [Protocol.Seeded, h.keys, Protocol.Seeded]

theorem told (h : early.GoesOn late)
    (told : early.Told config principal name) :
    late.Told config principal name :=
  told.imp h.shown h.seeded_iff.mpr

theorem isSealed (h : early.GoesOn late) {term : SealedTerm}
    (held : early.Sealed principal term) : late.Sealed principal term := by
  obtain ⟨message, mem, seals⟩ := held
  exact ⟨message, h.mem mem, seals⟩

theorem known (h : early.GoesOn late)
    (known : early.Known config principal name) :
    late.Known config principal name :=
  known.cut (fun _ authored => .authored (h.authored authored))
    (fun _ told => .told (h.told told)) fun _ => h.isSealed

end GoesOn

end Protocol

/-! ## What reports show -/

structure Knowledge.Grows (before after : Knowledge) : Prop where
  principal : after.principal = before.principal
  authored : before.authored ⊆ after.authored
  clear : before.clear ⊆ after.clear
  sealedTerms : before.sealedTerms ⊆ after.sealedTerms
  /-- The adversary writes nothing, so nothing is taken off what it learned. -/
  overheard : before.principal = .adversary → before.learned ⊆ after.learned

structure Report.Grows (before after : Report) : Prop where
  knowledge : List.Forall₂ Knowledge.Grows before.knowledge after.knowledge
  catastrophic : before.catastrophic ⊆ after.catastrophic

namespace Protocol

variable {protocol early late : Protocol} {config : Config}

theorem not_authored_adversary {name : String} :
    ¬ protocol.Authored .adversary name := by
  rintro ⟨message, _, sent, _⟩
  cases sent

theorem Settled.grows (h : early.GoesOn late) {principal : Principal}
    {before after : Holdings} (settled : early.Settled config principal before)
    (settled' : late.Settled config principal after) :
    (Knowledge.ofHoldings principal before).Grows
      (.ofHoldings principal after) where
  principal := rfl
  authored name mem := by
    simp only [Knowledge.ofHoldings, mem_sorted, settled.authored,
      settled'.authored] at mem ⊢
    exact h.authored mem
  clear name mem := by
    simp only [Knowledge.ofHoldings, mem_sorted, settled.clear,
      settled'.clear] at mem ⊢
    exact h.known mem
  sealedTerms term mem := by
    simp only [Knowledge.ofHoldings, SealedTerm.mem_byLabel,
      settled.sealedTerms, settled'.sealedTerms] at mem ⊢
    exact h.isSealed mem
  overheard isAdversary name mem := by
    obtain rfl : principal = .adversary := isAdversary
    simp only [Knowledge.ofHoldings, mem_sorted, settled.learned,
      settled'.learned] at mem ⊢
    rcases mem with told | ⟨_, known⟩
    · exact .inl (h.told told)
    · exact .inr ⟨not_authored_adversary, h.known known⟩

theorem exists_settled {scope : Scope} (h : protocol.scope = .ok scope)
    (config : Config) (n : Nat) :
    ∃ run : Ledger.Run, (protocol.upTo n).analyze config =
        .ok (run.report config (protocol.upTo n)) ∧
      ∀ principal ∈ protocol.principals,
        (protocol.upTo n).Settled config principal
          (run.final.holdingsOf principal) := by
  have addressed := addressed_of_scope h config
  exact exists_settled_report ((protocol.upTo_goesOn n).addressed addressed)

/-- What a report on the first messages shows, one on more messages shows. -/
theorem analyze_grows {scope : Scope} (h : protocol.scope = .ok scope)
    (config : Config) {n m : Nat} (le : n ≤ m) :
    ∃ before after, (protocol.upTo n).analyze config = .ok before ∧
      (protocol.upTo m).analyze config = .ok after ∧
      before.knowledge.map Knowledge.principal = protocol.principals ∧
      before.Grows after := by
  have goesOn := protocol.goesOn_upTo le
  obtain ⟨early, analyzed, settled⟩ := exists_settled h config n
  obtain ⟨late, analyzed', settled'⟩ := exists_settled h config m
  refine ⟨_, _, analyzed, analyzed', ?_, ?_, ?_⟩
  · rw [Ledger.Run.report, List.map_map, ← List.map_id protocol.principals]
    rfl
  · simp only [Ledger.Run.report, goesOn.principals]
    rw [List.forall₂_map_left_iff, List.forall₂_map_right_iff,
      List.forall₂_same]
    intro principal listed
    exact (settled principal listed).grows goesOn (settled' principal listed)
  · have adversary := adversary_mem_principals protocol
    intro name mem
    simp only [Ledger.Run.report, Ledger.catastrophic, mem_sorted,
      List.mem_filter, (settled _ adversary).clear, (settled' _ adversary).clear,
      goesOn.isCatastrophic] at mem ⊢
    exact ⟨goesOn.known mem.1, mem.2⟩

theorem analyze_grows_handover :
    handover.scope = .ok handoverScope ∧ 2 ≤ 3 ∧
      ∃ before after, (handover.upTo 2).analyze .default = .ok before ∧
        (handover.upTo 3).analyze .default = .ok after ∧
        before.knowledge.map Knowledge.principal = handover.principals ∧
        before.Grows after :=
  ⟨scope_handover, by decide,
    analyze_grows scope_handover .default (by decide)⟩

end Protocol

end Secrecy
