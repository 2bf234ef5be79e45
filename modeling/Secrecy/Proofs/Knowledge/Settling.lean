import Mathlib.Data.List.Forall2
import Secrecy.Knowledge.Ledger
import Secrecy.Proofs.Knowledge.Opening

/-!
# Settling a ledger

Passes act on every entry by itself.  An entry that a pass leaves alone is
closed under opening for good, and any other has fewer names left to unlock, so
the run of passes ends at a ledger all of whose entries are closed.
-/

namespace Secrecy

structure Entry.LeadsTo (before after : Entry) : Prop where
  principal : after.principal = before.principal
  visits : after.visits = before.visits
  holdings : before.holdings.LeadsTo after.holdings

namespace Ledger

variable {before middle after : Ledger}

def LeadsTo (before after : Ledger) : Prop :=
  List.Forall₂ Entry.LeadsTo before.entries after.entries

def Closed (ledger : Ledger) : Prop :=
  ∀ entry ∈ ledger.entries, entry.holdings.Closed

def Visited (ledger : Ledger) : Prop := ∀ entry ∈ ledger.entries, 0 < entry.visits

theorem holdingsOf_induction {P : Holdings → Prop} {ledger : Ledger}
    (nothing : P .nothing) (each : ∀ entry ∈ ledger.entries, P entry.holdings)
    (principal : Principal) : P (ledger.holdingsOf principal) := by
  unfold holdingsOf
  split
  · exact nothing
  · next entry found => exact each entry (List.mem_of_find?_eq_some found)

theorem Closed.holdingsOf {ledger : Ledger} (h : ledger.Closed)
    (principal : Principal) : (ledger.holdingsOf principal).Closed :=
  holdingsOf_induction Holdings.closed_nothing h principal

/-! ## What passes keep -/

namespace LeadsTo

theorem refl (ledger : Ledger) : LeadsTo ledger ledger :=
  List.forall₂_same.mpr fun entry _ => ⟨rfl, rfl, .refl entry.holdings⟩

theorem trans (first : LeadsTo before middle) (second : LeadsTo middle after) :
    LeadsTo before after := by
  unfold LeadsTo at first second ⊢
  generalize before.entries = early at first ⊢
  generalize after.entries = late at second ⊢
  generalize middle.entries = between at first second
  induction first generalizing late with
  | nil => exact second
  | cons head _ ih =>
      cases second with
      | cons head' tail' =>
          exact .cons ⟨head'.principal.trans head.principal,
            head'.visits.trans head.visits,
            head.holdings.trans head'.holdings⟩ (ih _ tail')

theorem holdingsOf (h : LeadsTo before after) (principal : Principal) :
    (before.holdingsOf principal).LeadsTo (after.holdingsOf principal) := by
  unfold LeadsTo at h
  unfold Ledger.holdingsOf
  generalize before.entries = old at h ⊢
  generalize after.entries = new at h ⊢
  induction h with
  | nil => exact .refl _
  | @cons old new _ _ head _ ih =>
      by_cases same : old.principal = principal
      · have same' := head.principal.trans same
        simpa [List.find?_cons, same, same'] using head.holdings
      · have other' : new.principal ≠ principal := head.principal ▸ same
        simpa [List.find?_cons, same, other'] using ih

theorem visited (h : LeadsTo before after) (visited : before.Visited) :
    after.Visited := by
  unfold LeadsTo at h
  unfold Visited at visited ⊢
  generalize before.entries = old at h visited
  generalize after.entries = new at h ⊢
  induction h with
  | nil => exact visited
  | @cons old new _ _ head _ ih =>
      intro entry mem
      rcases List.mem_cons.mp mem with rfl | mem
      · exact head.visits ▸ visited old List.mem_cons_self
      · exact ih (fun other later => visited other (List.mem_cons_of_mem _ later))
          entry mem

end LeadsTo

theorem leadsTo_sweep (ledger : Ledger) : LeadsTo ledger ledger.sweep := by
  unfold LeadsTo sweep
  rw [List.forall₂_map_right_iff]
  refine List.forall₂_same.mpr fun entry _ => ⟨rfl, rfl, ?_⟩
  exact Holdings.leadsTo_repeat_sweep _ _

theorem leadsTo_settleWithin (bound : Nat) (ledger : Ledger) :
    LeadsTo ledger (settleWithin bound ledger).final := by
  induction bound generalizing ledger with
  | zero => exact .refl _
  | succ bound ih =>
      simp only [settleWithin]
      split
      · exact .refl _
      · exact (leadsTo_sweep ledger).trans (ih ledger.sweep)

theorem leadsTo_settle (ledger : Ledger) :
    LeadsTo ledger ledger.settle.final :=
  leadsTo_settleWithin _ _

/-! ## Where passes end -/

theorem sweep_eq_self_iff {ledger : Ledger} (visited : ledger.Visited) :
    ledger.sweep = ledger ↔ ledger.Closed := by
  have still (entry : Entry) (mem : entry ∈ ledger.entries) :
      sweepEntry entry = entry ↔ entry.holdings.Closed := by
    rw [← Holdings.repeat_sweep_eq_self_iff (visited entry mem)]
    constructor
    · exact fun h => congrArg Entry.holdings h
    · intro h
      simp only [sweepEntry, update, h]
  constructor
  · intro unchanged entry mem
    have each : ledger.entries.map sweepEntry = ledger.entries.map id := by
      rw [List.map_id]
      exact congrArg Ledger.entries unchanged
    exact (still entry mem).mp (List.map_inj_left.mp each entry mem)
  · intro closed
    have each : ledger.entries.map sweepEntry = ledger.entries.map id :=
      List.map_inj_left.mpr fun entry mem =>
        (still entry mem).mpr (closed entry mem)
    rw [List.map_id] at each
    simp only [sweep, each]

/-- Every entry is done, or has at most so many names left to unlock. -/
def Within (bound : Nat) (ledger : Ledger) : Prop :=
  ∀ entry ∈ ledger.entries,
    entry.holdings.Closed ∨ entry.holdings.locked.card ≤ bound

theorem Within.closed {ledger : Ledger} (h : ledger.Within 0) :
    ledger.Closed := by
  intro entry mem
  rcases h entry mem with closed | none
  · exact closed
  · intro term mem' key plain opens _
    by_contra new
    have locked : plain ∈ entry.holdings.locked :=
      Holdings.mem_locked.mpr ⟨⟨term, mem', key, opens⟩, new⟩
    rw [Finset.card_eq_zero.mp (Nat.le_zero.mp none)] at locked
    exact absurd locked (Finset.notMem_empty plain)

theorem Within.sweep {bound : Nat} {ledger : Ledger}
    (h : ledger.Within (bound + 1)) (visited : ledger.Visited) :
    ledger.sweep.Within bound := by
  intro swept sweptMem
  obtain ⟨entry, mem, rfl⟩ := List.mem_map.mp sweptMem
  have there := Holdings.leadsTo_repeat_sweep entry.holdings entry.visits
  have still : Nat.repeat Holdings.sweep entry.visits entry.holdings =
      entry.holdings ↔ entry.holdings.Closed :=
    Holdings.repeat_sweep_eq_self_iff (visited entry mem)
  simp only [sweepEntry, update]
  by_cases closed : entry.holdings.Closed
  · rw [still.mpr closed]
    exact .inl closed
  · have fewer := there.card_locked_lt (fun same => closed (still.mp same))
    have most := (h entry mem).resolve_left closed
    exact .inr (by omega)

theorem closed_settleWithin {bound : Nat} {ledger : Ledger}
    (visited : ledger.Visited) (enough : ledger.Within bound) :
    (settleWithin bound ledger).final.Closed := by
  induction bound generalizing ledger with
  | zero => exact enough.closed
  | succ bound ih =>
      simp only [settleWithin]
      split
      · next unchanged => exact (sweep_eq_self_iff visited).mp unchanged
      · exact ih ((leadsTo_sweep ledger).visited visited)
          (enough.sweep visited)

theorem within_sealedCount (ledger : Ledger) :
    ledger.Within ledger.sealedCount := by
  intro entry mem
  have part : entry.holdings.sealedTerms.length ≤ ledger.sealedCount := by
    have listed : entry.holdings.sealedTerms ∈
        ledger.entries.map (·.holdings.sealedTerms) := List.mem_map.mpr
      ⟨entry, mem, rfl⟩
    rw [sealedCount, List.flatMap]
    exact (List.sublist_flatten_of_mem listed).length_le
  exact .inr ((Holdings.card_locked_le _).trans part)

theorem closed_settle {ledger : Ledger} (visited : ledger.Visited) :
    ledger.settle.final.Closed :=
  closed_settleWithin visited (within_sealedCount ledger)

end Ledger

end Secrecy
