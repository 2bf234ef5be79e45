import Secrecy.Proofs.Knowledge.Passes

/-!
# Ledgers that match

Two ledgers match if everybody holds the same in both, in whatever order it was
found.  As long as no two sealed terms have the same label there is only one
order of labels, so passes over matching ledgers visit the same terms, open the
same names and end in the same round.  Reports put everything in order, and so
matching ledgers have the same report.
-/

namespace Secrecy

/-! ## Holdings -/

namespace Holdings

structure Matches (first second : Holdings) : Prop where
  authored (name : String) : name ∈ first.authored ↔ name ∈ second.authored
  learned (name : String) : name ∈ first.learned ↔ name ∈ second.learned
  sealedTerms (term : SealedTerm) :
    term ∈ first.sealedTerms ↔ term ∈ second.sealedTerms
  distinct : first.Distinct
  distinct' : second.Distinct
  apart : ∀ term ∈ first.sealedTerms, ∀ other ∈ first.sealedTerms,
    term.shown = other.shown → term = other

namespace Matches

variable {first second : Holdings}

theorem nothing : Matches .nothing .nothing :=
  ⟨fun _ => .rfl, fun _ => .rfl, fun _ => .rfl, distinct_nothing,
    distinct_nothing, nofun⟩

theorem clear (h : first.Matches second) (name : String) :
    name ∈ first.clear ↔ name ∈ second.clear := by
  rw [mem_clear, mem_clear, h.authored, h.learned]

theorem knows (h : first.Matches second) (name : String) :
    first.knows name = second.knows name := by
  rw [Bool.eq_iff_iff, knows_iff, knows_iff, h.clear]

theorem counts (h : first.Matches second) (config : Config) (name : String) :
    first.counts config name = second.counts config name := by
  unfold Holdings.counts
  simp only [h.knows, h.learned]

theorem byLabel (h : first.Matches second) :
    SealedTerm.byLabel first.sealedTerms =
      SealedTerm.byLabel second.sealedTerms :=
  SealedTerm.byLabel_congr h.distinct.sealedTerms h.distinct'.sealedTerms
    h.sealedTerms h.apart

theorem length_sealedTerms (h : first.Matches second) :
    first.sealedTerms.length = second.sealedTerms.length :=
  ((List.perm_ext_iff_of_nodup h.distinct.sealedTerms
    h.distinct'.sealedTerms).mpr h.sealedTerms).length_eq

theorem sorted_clear (h : first.Matches second) :
    sorted first.clear = sorted second.clear :=
  sorted_congr (nodup_adjoinAll h.distinct.authored _)
    (nodup_adjoinAll h.distinct'.authored _) h.clear

theorem ofHoldings (h : first.Matches second) (principal : Principal) :
    Knowledge.ofHoldings principal first =
      Knowledge.ofHoldings principal second := by
  simp only [Knowledge.ofHoldings, h.sorted_clear, h.byLabel,
    sorted_congr h.distinct.authored h.distinct'.authored h.authored,
    sorted_congr h.distinct.learned h.distinct'.learned h.learned]

/-! ### Opening -/

theorem closed_iff (h : first.Matches second) :
    first.Closed ↔ second.Closed := by
  simp only [Closed, h.sealedTerms, h.clear]

theorem tryOpen (h : first.Matches second) (term : SealedTerm) :
    (first.tryOpen term).Matches (second.tryOpen term) := by
  unfold Holdings.tryOpen
  split
  · exact h
  · next key plain _ =>
      simp only [h.knows]
      split
      · exact { h with
          learned := fun name => by simp [h.learned]
          distinct :=
            { h.distinct with learned := nodup_adjoin h.distinct.learned plain }
          distinct' :=
            { h.distinct' with
              learned := nodup_adjoin h.distinct'.learned plain } }
      · exact h

theorem foldl_tryOpen (h : first.Matches second) (terms : List SealedTerm) :
    (terms.foldl Holdings.tryOpen first).Matches
      (terms.foldl Holdings.tryOpen second) := by
  induction terms generalizing first second with
  | nil => exact h
  | cons term terms ih => exact ih (h.tryOpen term)

theorem sweep (h : first.Matches second) : first.sweep.Matches second.sweep := by
  unfold Holdings.sweep
  rw [h.byLabel]
  exact h.foldl_tryOpen _

theorem repeat_sweep (h : first.Matches second) (visits : Nat) :
    (Nat.repeat Holdings.sweep visits first).Matches
      (Nat.repeat Holdings.sweep visits second) := by
  induction visits with
  | zero => exact h
  | succ visits ih => exact ih.sweep

end Matches

end Holdings

/-! ## Ledgers -/

structure Entry.Matches (first second : Entry) : Prop where
  principal : first.principal = second.principal
  visits : first.visits = second.visits
  holdings : first.holdings.Matches second.holdings

namespace Ledger

def Matches (first second : Ledger) : Prop :=
  List.Forall₂ Entry.Matches first.entries second.entries

namespace Matches

variable {first second : Ledger}

theorem of_holdingsOf (framed : first.frame = second.frame)
    (nodup : (first.frame.map Prod.fst).Nodup)
    (each : ∀ principal ∈ first.frame.map Prod.fst,
      (first.holdingsOf principal).Matches (second.holdingsOf principal)) :
    first.Matches second := by
  unfold Matches
  rw [entries_eq nodup, entries_eq (framed ▸ nodup), ← framed,
    List.forall₂_map_left_iff, List.forall₂_map_right_iff, List.forall₂_same]
  intro listed mem
  exact ⟨rfl, rfl, each listed.1 (List.mem_map_of_mem mem)⟩

theorem holdingsOf (h : first.Matches second) (principal : Principal) :
    (first.holdingsOf principal).Matches (second.holdingsOf principal) := by
  unfold Matches at h
  unfold Ledger.holdingsOf
  generalize first.entries = entries at h ⊢
  generalize second.entries = entries' at h ⊢
  induction h with
  | nil => exact .nothing
  | @cons entry entry' _ _ head _ ih =>
      rw [List.find?_cons, List.find?_cons, head.principal]
      by_cases same : entry'.principal = principal
      · simpa only [same, decide_true] using head.holdings
      · simpa only [same, decide_false] using ih

theorem sweep (h : first.Matches second) : first.sweep.Matches second.sweep := by
  unfold Matches Ledger.sweep
  rw [List.forall₂_map_left_iff, List.forall₂_map_right_iff]
  refine List.Forall₂.imp (fun entry entry' one => ?_) h
  refine ⟨one.principal, one.visits, ?_⟩
  simp only [sweepEntry, update, one.visits]
  exact one.holdings.repeat_sweep _

theorem closed_iff (h : first.Matches second) :
    first.Closed ↔ second.Closed := by
  unfold Matches at h
  unfold Closed
  generalize first.entries = entries at h ⊢
  generalize second.entries = entries' at h ⊢
  induction h with
  | nil => rfl
  | cons head _ ih =>
      rw [List.forall_mem_cons, List.forall_mem_cons, ih,
        head.holdings.closed_iff]

theorem sealedCount (h : first.Matches second) :
    first.sealedCount = second.sealedCount := by
  unfold Matches at h
  unfold Ledger.sealedCount
  generalize first.entries = entries at h ⊢
  generalize second.entries = entries' at h ⊢
  induction h with
  | nil => rfl
  | cons head _ ih =>
      simp only [List.flatMap_cons, List.length_append, ih,
        head.holdings.length_sealedTerms]

theorem snapshot (h : first.Matches second) :
    first.snapshot = second.snapshot := by
  unfold Matches at h
  unfold Ledger.snapshot
  generalize first.entries = entries at h ⊢
  generalize second.entries = entries' at h ⊢
  induction h with
  | nil => rfl
  | cons head _ ih =>
      rw [List.map_cons, List.map_cons, ih, head.principal,
        head.holdings.sorted_clear]

theorem judge (h : first.Matches second) (config : Config)
    (roles : List String) (assertion : Assertion) :
    first.judge config roles assertion =
      second.judge config roles assertion := by
  simp only [Ledger.judge, fun role => (h.holdingsOf (.role role)).counts,
    (h.holdingsOf .adversary).knows]

theorem catastrophic (h : first.Matches second) (config : Config)
    (protocol : Protocol) :
    first.catastrophic config protocol =
      second.catastrophic config protocol := by
  have same := h.holdingsOf .adversary
  refine sorted_congr ?_ ?_ fun name => ?_
  · exact (nodup_adjoinAll same.distinct.authored _).filter _
  · exact (nodup_adjoinAll same.distinct'.authored _).filter _
  · simp only [List.mem_filter, same.clear]

end Matches

/-! ## Runs -/

structure Run.Matches (first second : Run) : Prop where
  past : List.Forall₂ Ledger.Matches first.past second.past
  final : first.final.Matches second.final

/-- What is closed for one is closed for the other, so both runs end at once. -/
theorem Matches.settleWithin {first second : Ledger}
    (h : first.Matches second) (visited : first.Visited)
    (visited' : second.Visited) (bound : Nat) :
    (settleWithin bound first).Matches (settleWithin bound second) := by
  induction bound generalizing first second with
  | zero => exact ⟨.nil, h⟩
  | succ bound ih =>
      have still : first.sweep = first ↔ second.sweep = second := by
        rw [sweep_eq_self_iff visited, sweep_eq_self_iff visited', h.closed_iff]
      have rest := ih h.sweep ((leadsTo_sweep first).visited visited)
        ((leadsTo_sweep second).visited visited')
      simp only [Ledger.settleWithin, still]
      split
      · exact ⟨.nil, h⟩
      · exact ⟨.cons h rest.past, rest.final⟩

theorem Matches.settle {first second : Ledger} (h : first.Matches second)
    (visited : first.Visited) (visited' : second.Visited) :
    first.settle.Matches second.settle := by
  unfold Ledger.settle
  rw [← h.sealedCount]
  exact h.settleWithin visited visited' _

theorem Run.Matches.report {first second : Run} (h : first.Matches second)
    (config : Config) (protocol : Protocol) :
    first.report config protocol = second.report config protocol := by
  have history : first.ledgers.map snapshot = second.ledgers.map snapshot := by
    have each : List.Forall₂ Ledger.Matches first.ledgers second.ledgers :=
      List.rel_append h.past (.cons h.final .nil)
    rw [← List.forall₂_eq_eq_eq, List.forall₂_map_left_iff,
      List.forall₂_map_right_iff]
    exact each.imp fun _ _ => Ledger.Matches.snapshot
  have rounds : first.rounds = second.rounds := h.past.length_eq
  have verdicts := h.final.judge config protocol.roleNames
  simp only [Run.report, history, rounds, h.final.catastrophic,
    funext verdicts, fun principal => (h.final.holdingsOf principal).ofHoldings]

end Ledger

end Secrecy
