import Secrecy.Proofs.Knowledge.Judgement
import Secrecy.Proofs.Knowledge.Passes

/-!
# How many passes change something

A pass that leaves a principal alone leaves it closed for good.  Whoever gains
a name in the last pass that changes something has therefore gained another in
each pass before.  As opening brings out nothing but the bare names that
messages encrypt, there are no more such passes than there are such names.
-/

namespace Secrecy

/-! ## Names that can be opened -/

def Expr.plaintext? (body : Expr) : Option String :=
  match body.payload with
  | .enc _ (.name plain) _ => some plain.name
  | _ => none

theorem Expr.plaintext?_of_payload_eq {body : Expr} {key plain : Identifier}
    {line : Int} (h : body.payload = .enc key (.name plain) line) :
    body.plaintext? = some plain.name := by
  rw [plaintext?, h]

theorem Expr.occurrences_payload_subset (body : Expr) :
    body.payload.occurrences ⊆ body.occurrences := by
  induction body with
  | assign target value line ih => exact List.subset_cons_of_subset _ ih
  | name | concat | enc | mac | hash | sign | verify => exact List.Subset.refl _

theorem Expr.mem_occurrences_of_plaintext? {body : Expr} {plain : String}
    (h : body.plaintext? = some plain) : plain ∈ body.occurrences := by
  unfold plaintext? at h
  split at h
  · next key plainId line whole =>
      cases h
      apply occurrences_payload_subset
      rw [whole]
      exact List.mem_cons_of_mem _ (List.mem_singleton_self _)
  · cases h

namespace Protocol

def plaintexts (protocol : Protocol) : List String :=
  protocol.messages.filterMap (·.body.plaintext?)

variable {protocol : Protocol} {config : Config}

theorem mem_plaintexts_of_unlocks {principal : Principal} {key plain : String}
    (h : protocol.Unlocks principal key plain) : plain ∈ protocol.plaintexts := by
  obtain ⟨message, mem, _, keyId, plainId, line, whole, rfl, rfl⟩ := h
  exact List.mem_filterMap.mpr
    ⟨message, mem, Expr.plaintext?_of_payload_eq whole⟩

theorem plaintexts_subset_mentions (protocol : Protocol) :
    protocol.plaintexts ⊆ protocol.mentions := by
  intro plain mem
  obtain ⟨message, sent, bare⟩ := List.mem_filterMap.mp mem
  have occurs := Expr.mem_occurrences_of_plaintext? bare
  simp only [mentions, mem_distinct, List.mem_append, List.mem_flatMap]
  exact .inl (.inr ⟨message, sent, occurs⟩)

end Protocol

/-! ## The bound -/

namespace Ledger

variable {config : Config} {protocol : Protocol} {ledger : Ledger}
  {order : List Principal}

theorem Loop.rounds_le {run : Run} (loop : Loop order ledger run)
    {bound : Nat} (follows : ledger.Follows order)
    (enough : ledger.Within bound) : run.rounds ≤ bound := by
  induction loop generalizing bound with
  | stop => exact Nat.zero_le bound
  | @again before middle run busy rest ih =>
      obtain ⟨rfl, changed⟩ := follows.busy busy
      cases bound with
      | zero =>
          have closed := enough.closed
          exact absurd ((sweep_eq_self_iff follows.visited).mpr closed) changed
      | succ bound =>
          have later := ih ((leadsTo_sweep before).follows follows)
            (enough.sweep follows.visited)
          simp only [Run.rounds, List.length_cons] at later ⊢
          omega

theorem within_plaintexts (h : observed config protocol = .ok ledger) :
    ledger.Within (distinct protocol.plaintexts).length := by
  intro entry mem
  refine .inr ?_
  rw [← List.toFinset_card_of_nodup (nodup_distinct protocol.plaintexts)]
  refine Finset.card_le_card fun plain locked => ?_
  rw [List.mem_toFinset, mem_distinct]
  obtain ⟨⟨term, held, key, opens⟩, -⟩ := Holdings.mem_locked.mp locked
  have isSealed := sealed_of_mem_entries h mem held
  rw [SealedTerm.opening?_eq_some_iff.mp opens] at isSealed
  exact Protocol.mem_plaintexts_of_unlocks
    (Protocol.sealed_enc_iff_unlocks.mp isSealed)

end Ledger

namespace Protocol

variable {config : Config} {protocol : Protocol}

theorem length_plaintexts_le (protocol : Protocol) :
    (distinct protocol.plaintexts).length ≤ protocol.mentions.length := by
  have named : distinct protocol.plaintexts ⊆ protocol.mentions := by
    intro plain mem
    exact plaintexts_subset_mentions protocol (mem_distinct.mp mem)
  exact ((nodup_distinct protocol.plaintexts).subperm named).length_le

/--
The loop of passes comes to its end, and the report tells in how many rounds:
no more than there are bare names that the messages encrypt.
-/
theorem analyze_rounds_le (addressed : protocol.Addressed config) :
    ∃ start run, Ledger.observed config protocol = .ok start ∧
      Ledger.Loop protocol.principals start run ∧
      protocol.analyze config = .ok (run.report config protocol) ∧
      (run.report config protocol).rounds ≤
        (distinct protocol.plaintexts).length ∧
      (distinct protocol.plaintexts).length ≤ protocol.mentions.length := by
  obtain ⟨start, observed, analyzed⟩ := exists_report addressed
  have follows := Ledger.follows_observed observed
  have loop := Ledger.loop_settle follows (Ledger.labelled_observed observed)
  have few := loop.rounds_le follows (Ledger.within_plaintexts observed)
  exact ⟨start, start.settle, observed, loop, analyzed, few,
    length_plaintexts_le protocol⟩

def seeding : Config := { Config.default with seedKeyOwners := true }

def nested : Protocol :=
  { roles := ⟨[⟨"A", 1⟩, ⟨"B", 1⟩, ⟨"A", 1⟩], 1⟩
    keys := [⟨.sharedKey, ⟨"Z", 2⟩, [⟨"A", 2⟩, ⟨"B", 2⟩], 2⟩]
    messages :=
      [⟨⟨"A", 3⟩, ⟨"B", 3⟩, .enc ⟨"Z", 3⟩ (.name ⟨"Y", 3⟩) 3, 3⟩,
        ⟨⟨"A", 4⟩, ⟨"B", 4⟩, .enc ⟨"Y", 4⟩ (.name ⟨"X", 4⟩) 4, 4⟩,
        ⟨⟨"A", 5⟩, ⟨"B", 5⟩,
          .assign ⟨"c", 5⟩ (.enc ⟨"X", 5⟩ (.name ⟨"W", 5⟩) 5) 5, 5⟩]
    assertions := [] }

theorem addressed_nested : nested.Addressed seeding :=
  addressed_iff.mpr (by decide)

theorem analyze_rounds_le_nested :
    nested.Addressed seeding ∧ distinct nested.plaintexts = ["Y", "X", "W"] ∧
      ∃ start run, Ledger.observed seeding nested = .ok start ∧
        Ledger.Loop nested.principals start run ∧
        nested.analyze seeding = .ok (run.report seeding nested) ∧
        (run.report seeding nested).rounds ≤
          (distinct nested.plaintexts).length ∧
        (distinct nested.plaintexts).length ≤ nested.mentions.length :=
  ⟨addressed_nested, by decide, analyze_rounds_le addressed_nested⟩

end Protocol

end Secrecy
