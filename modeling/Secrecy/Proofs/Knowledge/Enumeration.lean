import Secrecy.Proofs.Knowledge.Rearranging

/-!
# One order of labels

The terms that are sealed in a text all have labels of their own.  So there is
only one way to put them in order, in whatever order they were found: reports
list them in it, and passes try them in it.
-/

namespace Secrecy

namespace SealedTerm

def Apart (terms : List SealedTerm) : Prop :=
  ∀ term ∈ terms, ∀ other ∈ terms, term.shown = other.shown → term = other

variable {terms others : List SealedTerm}

theorem ascending_byLabel (distinct : terms.Nodup) (apart : Apart terms) :
    ((byLabel terms).map shown).Pairwise (· < ·) := by
  have different : ((byLabel terms).map shown).Nodup := by
    apply List.Nodup.map_on _ (nodup_byLabel distinct)
    intro term mem other mem' same
    rw [mem_byLabel] at mem mem'
    exact apart term mem other mem' same
  have ordered : ((byLabel terms).map shown).Pairwise (· ≤ ·) :=
    List.pairwise_map.mpr (pairwise_byLabel terms)
  exact ordered.imp₂ (fun _ _ le ne => lt_of_le_of_ne le ne) different

theorem byLabel_perm (distinct : terms.Nodup) (apart : Apart terms)
    (perm : others.Perm terms) : byLabel others = byLabel terms :=
  (byLabel_congr distinct (perm.nodup_iff.mpr distinct)
    (fun _ => perm.mem_iff.symm) apart).symm

end SealedTerm

namespace Holdings

variable {holdings : Holdings} {terms : List SealedTerm}

/-- The same names, with the sealed terms found in another order. -/
def enumerating (terms : List SealedTerm) (holdings : Holdings) : Holdings :=
  { holdings with sealedTerms := terms }

theorem tryOpen_enumerating (term : SealedTerm) :
    (holdings.enumerating terms).tryOpen term =
      (holdings.tryOpen term).enumerating terms := by
  unfold tryOpen
  cases term.opening? with
  | none => rfl
  | some opening =>
      obtain ⟨key, plain⟩ := opening
      have same (name : String) :
          (holdings.enumerating terms).knows name = holdings.knows name := rfl
      simp only [same]
      split <;> rfl

theorem foldl_tryOpen_enumerating (visited : List SealedTerm) :
    visited.foldl tryOpen (holdings.enumerating terms) =
      (visited.foldl tryOpen holdings).enumerating terms := by
  induction visited generalizing holdings with
  | nil => rfl
  | cons term visited ih =>
      rw [List.foldl_cons, List.foldl_cons, tryOpen_enumerating, ih]

/-- A sweep goes by labels alone, and so opens the same in the same order. -/
theorem sweep_enumerating (distinct : holdings.sealedTerms.Nodup)
    (apart : SealedTerm.Apart holdings.sealedTerms)
    (perm : terms.Perm holdings.sealedTerms) :
    (holdings.enumerating terms).sweep = holdings.sweep.enumerating terms := by
  have order : SealedTerm.byLabel (holdings.enumerating terms).sealedTerms =
      SealedTerm.byLabel holdings.sealedTerms :=
    SealedTerm.byLabel_perm distinct apart perm
  rw [sweep, order, foldl_tryOpen_enumerating, sweep]

end Holdings

/-! ## Runs -/

namespace Ledger

theorem leadsTo_of_mem_settleWithin {bound : Nat} {ledger stage : Ledger}
    (mem : stage ∈ (settleWithin bound ledger).ledgers) :
    ledger.LeadsTo stage := by
  induction bound generalizing ledger with
  | zero =>
      obtain rfl := List.mem_singleton.mp mem
      exact .refl _
  | succ bound ih =>
      simp only [settleWithin] at mem
      split at mem
      · obtain rfl := List.mem_singleton.mp mem
        exact .refl _
      · rcases List.mem_cons.mp mem with rfl | later
        · exact .refl _
        · exact (leadsTo_sweep ledger).trans (ih later)

end Ledger

namespace Protocol

variable {text : String} {check : Bool} {p : Protocol} {config : Config}

theorem apart_sealedTerms (accepted : ofSource text check = .ok p)
    {terms : List SealedTerm} (seals : ∀ term ∈ terms,
      ∃ message ∈ p.messages, message.body.Seals term) :
    SealedTerm.Apart terms := by
  intro term mem other mem' same
  obtain ⟨message, sent, here⟩ := seals term mem
  obtain ⟨message', sent', there⟩ := seals other mem'
  exact shown_injOn accepted sent sent' here there same

section Stages

variable {ledger stage : Ledger} {principal : Principal}
  (observed : Ledger.observed config p = .ok ledger)
  (mem : stage ∈ ledger.settle.ledgers)
  (listed : principal ∈ p.principals)

include observed mem listed

theorem nodup_sealedTerms : (stage.holdingsOf principal).sealedTerms.Nodup := by
  have there := Ledger.leadsTo_of_mem_settleWithin mem
  have gains := Ledger.gains_holdingsOf observed listed
  rw [(there.holdingsOf principal).sealedTerms]
  exact (gains.distinct Holdings.distinct_nothing).sealedTerms

theorem exists_seals_of_mem_stage {term : SealedTerm}
    (held : term ∈ (stage.holdingsOf principal).sealedTerms) :
    ∃ message ∈ p.messages, message.body.Seals term := by
  have there := Ledger.leadsTo_of_mem_settleWithin mem
  have gains := Ledger.gains_holdingsOf observed listed
  rw [(there.holdingsOf principal).sealedTerms, gains.sealedTerms] at held
  obtain ⟨message, sent, -, seals⟩ := held.resolve_left List.not_mem_nil
  exact ⟨message, sent, seals⟩

end Stages

/-- The terms of a report are those of the last ledger, in order of label. -/
theorem sealedTerms_of_analyze {report : Report}
    (analyzed : p.analyze config = .ok report) {known : Knowledge}
    (mem : known ∈ report.knowledge) :
    ∃ ledger stage principal, Ledger.observed config p = .ok ledger ∧
      stage ∈ ledger.settle.ledgers ∧ principal ∈ p.principals ∧
      known.sealedTerms =
        SealedTerm.byLabel (stage.holdingsOf principal).sealedTerms := by
  obtain ⟨ledger, observed, rfl⟩ := analyze_eq_ok.mp analyzed
  obtain ⟨principal, listed, rfl⟩ := List.mem_map.mp mem
  have last : ledger.settle.final ∈ ledger.settle.ledgers := by
    simp [Ledger.Run.ledgers]
  exact ⟨ledger, _, principal, observed, last, listed, rfl⟩

/--
No two terms that messages of a text seal have the same label.  Reports list
them strictly ascending, and neither that list nor what a pass tries depends on
the order in which they are enumerated.
-/
theorem labels_distinct (accepted : ofSource text check = .ok p) :
    (∀ message ∈ p.messages, ∀ term ∈ message.body.observed.sealedTerms,
      ∀ message' ∈ p.messages, ∀ term' ∈ message'.body.observed.sealedTerms,
        term ≠ term' → ∃ label label', term.label = .ok label ∧
          term'.label = .ok label' ∧ label ≠ label') ∧
    (∀ config report, p.analyze config = .ok report →
      ∀ known ∈ report.knowledge,
        (∀ term ∈ known.sealedTerms, term.label = .ok term.shown) ∧
        (known.sealedTerms.map SealedTerm.shown).Pairwise (· < ·) ∧
        ∀ terms, terms.Perm known.sealedTerms →
          SealedTerm.byLabel terms = known.sealedTerms) ∧
    ∀ config ledger, Ledger.observed config p = .ok ledger →
      ∀ stage ∈ ledger.settle.ledgers, ∀ principal ∈ p.principals,
        ∀ terms, terms.Perm (stage.holdingsOf principal).sealedTerms →
          SealedTerm.byLabel terms =
            SealedTerm.byLabel (stage.holdingsOf principal).sealedTerms ∧
          ((stage.holdingsOf principal).enumerating terms).sweep =
            (stage.holdingsOf principal).sweep.enumerating terms := by
  refine ⟨?_, ?_, ?_⟩
  · intro message sent term seen message' sent' term' seen' other
    have seals := Expr.mem_observed_sealedTerms.mp seen
    have seals' := Expr.mem_observed_sealedTerms.mp seen'
    refine ⟨term.shown, term'.shown, Expr.label_eq_ok_of_seals seals,
      Expr.label_eq_ok_of_seals seals', fun same => other ?_⟩
    exact shown_injOn accepted sent sent' seals seals' same
  · intro config report analyzed known mem
    obtain ⟨ledger, stage, principal, observed, reached, listed, same⟩ :=
      sealedTerms_of_analyze analyzed mem
    have distinct := nodup_sealedTerms observed reached listed
    have seals (term : SealedTerm)
        (held : term ∈ (stage.holdingsOf principal).sealedTerms) :=
      exists_seals_of_mem_stage observed reached listed held
    have apart := apart_sealedTerms accepted seals
    rw [same]
    refine ⟨fun term held => ?_, SealedTerm.ascending_byLabel distinct apart,
      fun terms perm => ?_⟩
    · obtain ⟨_, _, here⟩ := seals term (SealedTerm.mem_byLabel.mp held)
      exact Expr.label_eq_ok_of_seals here
    · exact SealedTerm.byLabel_perm distinct apart
        (perm.trans (List.mergeSort_perm _ _))
  · intro config ledger observed stage reached principal listed terms perm
    have distinct := nodup_sealedTerms observed reached listed
    have apart := apart_sealedTerms accepted fun _ held =>
      exists_seals_of_mem_stage observed reached listed held
    exact ⟨SealedTerm.byLabel_perm distinct apart perm,
      Holdings.sweep_enumerating distinct apart perm⟩

def mirrored : Protocol :=
  ⟨⟨[⟨"A", 0⟩, ⟨"B", 0⟩], 0⟩, [],
    [⟨⟨"A", 0⟩, ⟨"B", 0⟩,
      .concat (.name ⟨"|", 0⟩) (.hash (.name ⟨"x", 0⟩) 0) 0, 0⟩,
      ⟨⟨"B", 0⟩, ⟨"A", 0⟩,
      .concat (.hash (.name ⟨"x", 0⟩) 0) (.name ⟨"|", 0⟩) 0, 0⟩], []⟩

theorem exists_ofSource_mirrored :
    ∃ p, ofSource mirrored.print true = .ok p ∧ p.Alike mirrored := by
  have wellScoped : mirrored.WellScoped :=
    (checked_eq_ok.mp (rfl : mirrored.checked = .ok mirrored)).2
  have printed := exists_ofSource_print (p := mirrored) (by decide) (by decide)
    wellScoped List.mem_cons_self true
  rwa [String.append_empty] at printed

theorem labels_distinct_mirrored :
    ∃ p report, ofSource mirrored.print true = .ok p ∧
      p.analyze .default = .ok report ∧ ∀ known ∈ report.knowledge,
        (∀ term ∈ known.sealedTerms, term.label = .ok term.shown) ∧
        (known.sealedTerms.map SealedTerm.shown).Pairwise (· < ·) ∧
        ∀ terms, terms.Perm known.sealedTerms →
          SealedTerm.byLabel terms = known.sealedTerms := by
  obtain ⟨p, accepted, -⟩ := exists_ofSource_mirrored
  have wellScoped : p.WellScoped := (ofSource_eq_ok.mp accepted).2 rfl
  obtain ⟨ledger, -, analyzed⟩ := exists_report (wellScoped.addressed .default)
  exact ⟨p, _, accepted, analyzed,
    (labels_distinct accepted).2.1 _ _ analyzed⟩

end Protocol

end Secrecy
