import Mathlib.Data.List.Sort
import Mathlib.Data.String.Basic
import Secrecy.Distinct
import Secrecy.Knowledge.SealedTerm
import Secrecy.Proofs.Rows

/-!
# The order of reported lists

Names are reported by code points and sealed terms by label.  A list of
distinct names comes out strictly ascending.
-/

namespace Secrecy

section Key

variable {α : Type} (key : α → String)

theorem key_le_trans (a b c : α) (hab : decide (key a ≤ key b) = true)
    (hbc : decide (key b ≤ key c) = true) :
    decide (key a ≤ key c) = true := by
  simp only [decide_eq_true_eq] at hab hbc ⊢
  exact hab.trans hbc

theorem key_le_total (a b : α) :
    (decide (key a ≤ key b) || decide (key b ≤ key a)) = true := by
  simpa using le_total (key a) (key b)

theorem pairwise_mergeSort_key (l : List α) :
    (l.mergeSort fun a b => decide (key a ≤ key b)).Pairwise
      fun a b => key a ≤ key b :=
  (List.pairwise_mergeSort (key_le_trans key) (key_le_total key) l).imp
    of_decide_eq_true

theorem key_le_of_mergeSort_eq {a : α} {l before after : List α}
    (sorted : (l.mergeSort fun a b => decide (key a ≤ key b)) =
      before ++ a :: after) : ∀ b ∈ after, key a ≤ key b := by
  have ordered := pairwise_mergeSort_key key l
  rw [sorted, List.pairwise_append, List.pairwise_cons] at ordered
  exact ordered.2.1.1

/-- Sorting is stable: what is left out makes no difference to the others. -/
theorem mergeSort_filter_key (kept : α → Bool) (l : List α) :
    (l.filter kept).mergeSort (fun a b => decide (key a ≤ key b)) =
      (l.mergeSort fun a b => decide (key a ≤ key b)).filter kept := by
  induction l with
  | nil => simp
  | cons a l ih =>
      obtain ⟨before, after, whole, rest, less⟩ :=
        List.mergeSort_cons (key_le_trans key) (key_le_total key) a l
      rw [rest, List.filter_append] at ih
      cases keeps : kept a with
      | false =>
          rw [List.filter_cons_of_neg (by simp [keeps]), ih, whole]
          simp [keeps]
      | true =>
          obtain ⟨before', after', whole', rest', less'⟩ :=
            List.mergeSort_cons (key_le_trans key) (key_le_total key) a
              (l.filter kept)
          have more := key_le_of_mergeSort_eq key whole
          have more' := key_le_of_mergeSort_eq key whole'
          -- both sides put the item before all that are not less than it
          obtain ⟨rfl, rfl⟩ : before' = before.filter kept ∧
              after' = after.filter kept := by
            refine append_inj_of_seam (rest'.symm.trans ih)
              (fun b mem => less' b mem) (fun b mem => ?_)
              (fun b mem => ?_) (fun b mem => ?_)
            · exact less b (List.mem_filter.mp mem).1
            · simp [more' b (List.mem_of_mem_head? mem)]
            · have held := (List.mem_filter.mp (List.mem_of_mem_head? mem)).1
              simp [more b held]
          rw [List.filter_cons_of_pos keeps, whole', whole]
          simp [keeps]

end Key

theorem pairwise_sorted (names : List String) :
    (sorted names).Pairwise (· ≤ ·) :=
  pairwise_mergeSort_key id names

theorem sorted_perm (names : List String) : (sorted names).Perm names :=
  List.mergeSort_perm names _

theorem ascending_sorted {names : List String} (distinct : names.Nodup) :
    (sorted names).Pairwise (· < ·) := by
  have different : (sorted names).Nodup :=
    (sorted_perm names).nodup_iff.mpr distinct
  exact (pairwise_sorted names).imp₂ (fun _ _ le ne => lt_of_le_of_ne le ne)
    different

/-- Distinct names are reported alike, in whatever order they were found. -/
theorem sorted_congr {names others : List String} (distinct : names.Nodup)
    (distinct' : others.Nodup) (same : ∀ x, x ∈ names ↔ x ∈ others) :
    sorted names = sorted others := by
  have perm : (sorted names).Perm (sorted others) :=
    ((sorted_perm names).trans
      ((List.perm_ext_iff_of_nodup distinct distinct').mpr same)).trans
      (sorted_perm others).symm
  exact perm.eq_of_pairwise' (pairwise_sorted names) (pairwise_sorted others)

namespace SealedTerm

theorem pairwise_byLabel (terms : List SealedTerm) :
    (byLabel terms).Pairwise fun a b => a.shown ≤ b.shown :=
  pairwise_mergeSort_key shown terms

theorem byLabel_filter (kept : SealedTerm → Bool) (terms : List SealedTerm) :
    byLabel (terms.filter kept) = (byLabel terms).filter kept :=
  mergeSort_filter_key shown kept terms

theorem byLabel_congr {terms others : List SealedTerm} (distinct : terms.Nodup)
    (distinct' : others.Nodup) (same : ∀ term, term ∈ terms ↔ term ∈ others)
    (apart : ∀ term ∈ terms, ∀ other ∈ terms,
      term.shown = other.shown → term = other) :
    byLabel terms = byLabel others := by
  have perm : (byLabel terms).Perm (byLabel others) :=
    ((List.mergeSort_perm terms _).trans
      ((List.perm_ext_iff_of_nodup distinct distinct').mpr same)).trans
      (List.mergeSort_perm others _).symm
  refine perm.eq_of_pairwise (fun term other mem mem' le ge => ?_)
    (pairwise_byLabel terms) (pairwise_byLabel others)
  rw [mem_byLabel] at mem mem'
  exact apart term mem other ((same other).mpr mem') (le_antisymm le ge)

theorem nodup_byLabel {terms : List SealedTerm} (distinct : terms.Nodup) :
    (byLabel terms).Nodup :=
  (List.mergeSort_perm terms _).nodup_iff.mpr distinct

end SealedTerm

end Secrecy
