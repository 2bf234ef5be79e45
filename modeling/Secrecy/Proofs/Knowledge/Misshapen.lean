import Secrecy.Proofs.Knowledge.Enumeration
import Secrecy.Proofs.Knowledge.States

/-!
# Passes over terms of any shape

A pass opens encryptions with a key and one part and skips all other terms, so
it comes to the same as if it were made without these.  But before it skips them
it puts them in order by their labels.  A concatenation that is not made of two
parts, or whose right part is not marked, has none, and then there is no pass.
-/

namespace Secrecy

def SealedTerm.shapely : SealedTerm → Bool
  | ⟨.enc, some _, [_], [_]⟩ => true
  | _ => false

theorem SealedTerm.shapely_of_opening? {term : SealedTerm}
    {opening : String × String} (opens : term.opening? = some opening) :
    term.shapely = true := by
  obtain ⟨key, plain⟩ := opening
  rw [SealedTerm.opening?_eq_some_iff.mp opens]
  rfl

namespace Holdings

/-- The same state without the terms that are skipped. -/
def tidied (holdings : Holdings) : Holdings :=
  holdings.enumerating (holdings.sealedTerms.filter SealedTerm.shapely)

variable {holdings : Holdings}

theorem foldl_tryOpen_filter (terms : List SealedTerm) :
    (terms.filter SealedTerm.shapely).foldl tryOpen holdings =
      terms.foldl tryOpen holdings := by
  induction terms generalizing holdings with
  | nil => rfl
  | cons term terms ih =>
      cases shapely : term.shapely with
      | true =>
          rw [List.filter_cons_of_pos shapely]
          exact ih
      | false =>
          have skipped : holdings.tryOpen term = holdings := by
            apply tryOpen_of_known
            intro key plain opens
            rw [SealedTerm.shapely_of_opening? opens] at shapely
            cases shapely
          rw [List.filter_cons_of_neg (by simp [shapely]), ih,
            List.foldl_cons, skipped]

theorem sweep_tidied (holdings : Holdings) :
    holdings.tidied.sweep = holdings.sweep.tidied := by
  have order : SealedTerm.byLabel holdings.tidied.sealedTerms =
      (SealedTerm.byLabel holdings.sealedTerms).filter SealedTerm.shapely :=
    SealedTerm.byLabel_filter _ _
  rw [sweep, order, foldl_tryOpen_filter, tidied, foldl_tryOpen_enumerating,
    tidied, (leadsTo_sweep holdings).sealedTerms, sweep]

theorem repeat_sweep_tidied (visits : Nat) (holdings : Holdings) :
    Nat.repeat sweep visits holdings.tidied =
      (Nat.repeat sweep visits holdings).tidied := by
  induction visits with
  | zero => rfl
  | succ visits ih =>
      change sweep (Nat.repeat sweep visits holdings.tidied) = _
      rw [ih, sweep_tidied]
      rfl

end Holdings

namespace Ledger

variable {order : List Principal} {states : Principal → Holdings}

theorem sweep_ofStates_tidied (order : List Principal)
    (states : Principal → Holdings) :
    (ofStates order fun principal => (states principal).tidied).sweep =
      ofStates order fun principal => (Nat.repeat Holdings.sweep
        (order.count principal) (states principal)).tidied := by
  simp only [sweep_ofStates, Holdings.repeat_sweep_tidied]

theorem labelled_tidied :
    (ofStates order fun principal => (states principal).tidied).Labelled := by
  rw [labelled_ofStates]
  intro principal _ term mem concat
  have shapely := (List.mem_filter.mp mem).2
  obtain ⟨maker, key, parts, bare⟩ := term
  cases concat
  cases shapely

theorem exists_passInOrder_iff {ledger : Ledger} (follows : ledger.Follows order) :
    (∃ noted, ledger.passInOrder order = .ok noted) ↔ ledger.Labelled := by
  rw [← requireLabels_eq_ok]
  constructor
  · rintro ⟨⟨changed, after⟩, passed⟩
    exact ((passInOrder_eq_ok follows).mp passed).1
  · intro labelled
    exact ⟨_, (passInOrder_eq_ok follows).mpr ⟨labelled, rfl, rfl⟩⟩

theorem exists_label_of_passInOrder_eq_error {ledger : Ledger}
    {fault : SealedTerm.LabelFault}
    (failed : ledger.passInOrder order = .error fault) :
    ∃ entry ∈ ledger.entries, ∃ term ∈ entry.holdings.sealedTerms,
      term.label = .error fault := by
  rcases Outcome.bind_eq_error.mp failed with unlabelled | ⟨_, _, ⟨⟩⟩
  obtain ⟨entry, held, unlabelled⟩ := Outcome.exists_of_forM_eq_error unlabelled
  obtain ⟨term, mem, unlabelled⟩ := Outcome.exists_of_forM_eq_error unlabelled
  rcases Outcome.bind_eq_error.mp unlabelled with fails | ⟨_, _, ⟨⟩⟩
  exact ⟨entry, held, term, mem, fails⟩

/--
A pass fails exactly if somebody holds a concatenation without a label, for the
reason that some such has none.  Otherwise it has the same effect on all that
anybody has learned, and notes the same, as if all terms that are no encryption
with a key and one part had been taken away before.
-/
theorem passInOrder_tidied (order : List Principal)
    (states : Principal → Holdings) :
    ((∃ fault, (ofStates order states).passInOrder order = .error fault) ↔
      ∃ principal ∈ order, ∃ term ∈ (states principal).sealedTerms,
        term.maker = .concat ∧
          (term.parts.length ≠ 2 ∨ term.bare.length < 2)) ∧
    (∀ fault, (ofStates order states).passInOrder order = .error fault →
      ∃ principal ∈ order, ∃ term ∈ (states principal).sealedTerms,
        term.label = .error fault) ∧
    ∃ tidied, (ofStates order fun principal =>
        (states principal).tidied).passInOrder order = .ok tidied ∧
      ∀ noted, (ofStates order states).passInOrder order = .ok noted →
        noted.changed = tidied.changed ∧ ∀ principal ∈ order,
          (noted.state.holdingsOf principal).learned =
            (tidied.state.holdingsOf principal).learned := by
  have follows := follows_ofStates order states
  have follows' := follows_ofStates order fun principal => (states principal).tidied
  refine ⟨?_, ?_, ⟨_, _⟩, (passInOrder_eq_ok follows').mpr
    ⟨requireLabels_eq_ok.mpr labelled_tidied, rfl, rfl⟩, ?_⟩
  · rw [Outcome.exists_error, exists_passInOrder_iff follows, labelled_ofStates]
    push Not
    refine exists_congr fun principal => and_congr_right fun _ =>
      exists_congr fun term => and_congr_right fun _ => ?_
    rw [SealedTerm.Formed, Classical.not_imp, not_and_or, Nat.not_le]
  · intro fault failed
    obtain ⟨entry, held, term, mem, unlabelled⟩ :=
      exists_label_of_passInOrder_eq_error failed
    obtain ⟨principal, listed, rfl⟩ := List.mem_map.mp held
    exact ⟨principal, mem_distinct.mp listed, term, mem, unlabelled⟩
  · rintro ⟨changed, after⟩ passed
    obtain ⟨-, rfl, rfl⟩ := (passInOrder_eq_ok follows).mp passed
    have learned : ∀ principal ∈ order,
        ((ofStates order states).sweep.holdingsOf principal).learned =
          ((ofStates order fun principal =>
            (states principal).tidied).sweep.holdingsOf principal).learned := by
      intro principal listed
      rw [sweep_ofStates, sweep_ofStates_tidied, holdingsOf_ofStates listed,
        holdingsOf_ofStates listed]
      rfl
    refine ⟨?_, learned⟩
    rw [decide_eq_decide, sweep_ofStates_ne_iff, sweep_ofStates_ne_iff]
    refine exists_congr fun principal => and_congr_right fun listed => ?_
    rw [learned principal listed]
    rfl

def lopsided (_ : Principal) : Holdings :=
  ⟨[], ["K"], [⟨.enc, some "K", ["M"], [true]⟩, ⟨.concat, none, ["x"], [true]⟩]⟩

/-- A term that would be skipped can stop the pass before any term is opened. -/
theorem passInOrder_lopsided :
    (ofStates [.adversary] lopsided).passInOrder [.adversary] =
        .error .notTwoParts ∧
      ∃ noted, (ofStates [.adversary] fun principal =>
        (lopsided principal).tidied).passInOrder [.adversary] = .ok noted :=
  ⟨rfl, _, rfl⟩

end Ledger

end Secrecy
