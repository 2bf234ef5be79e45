/-!
# Rows

Rows that were joined come apart again if everything before a seam is of one
kind and what comes right after it is not.
-/

namespace Secrecy

variable {α β γ : Type}

theorem append_inj_of_seam {kind : α → Prop} {before before' after after' : List α}
    (same : before ++ after = before' ++ after')
    (left : ∀ a ∈ before, kind a) (left' : ∀ a ∈ before', kind a)
    (right : ∀ a ∈ after.head?, ¬ kind a)
    (right' : ∀ a ∈ after'.head?, ¬ kind a) :
    before = before' ∧ after = after' := by
  induction before generalizing before' with
  | nil =>
      cases before' with
      | nil => exact ⟨rfl, by simpa using same⟩
      | cons a before' =>
          subst same
          exact absurd (left' a List.mem_cons_self) (right a rfl)
  | cons a before ih =>
      cases before' with
      | nil =>
          subst same
          exact absurd (left a List.mem_cons_self) (right' a rfl)
      | cons b before' =>
          simp only [List.cons_append, List.cons.injEq] at same
          obtain ⟨rfl, rest⟩ := same
          rw [List.forall_mem_cons] at left left'
          have parts := ih rest left.2 left'.2
          exact ⟨by rw [parts.1], parts.2⟩

/-- Three rows in succession, each with a rank of its own. -/
structure Ranked (rank : α → Nat) (first second third : List α) : Prop where
  first : ∀ a ∈ first, rank a = 0
  second : ∀ a ∈ second, rank a = 1
  third : ∀ a ∈ third, rank a = 2

theorem Ranked.append_inj {rank : α → Nat} {as bs cs as' bs' cs' : List α}
    (ranked : Ranked rank as bs cs) (ranked' : Ranked rank as' bs' cs')
    (same : as ++ bs ++ cs = as' ++ bs' ++ cs') :
    as = as' ∧ bs = bs' ∧ cs = cs' := by
  have later {as bs cs : List α} (ranked : Ranked rank as bs cs) :
      ∀ a ∈ (bs ++ cs).head?, ¬ rank a = 0 := by
    intro a first
    rcases List.mem_append.mp (List.mem_of_mem_head? first) with mem | mem
    · simp [ranked.second a mem]
    · simp [ranked.third a mem]
  have last {as bs cs : List α} (ranked : Ranked rank as bs cs) :
      ∀ a ∈ cs.head?, ¬ rank a = 1 := by
    intro a first
    simp [ranked.third a (List.mem_of_mem_head? first)]
  rw [List.append_assoc, List.append_assoc] at same
  have parts := append_inj_of_seam same ranked.first ranked'.first
    (later ranked) (later ranked')
  exact ⟨parts.1, append_inj_of_seam parts.2 ranked.second ranked'.second
    (last ranked) (last ranked')⟩

theorem map_eq_map_of {f : α → β} {g : α → γ} {as bs : List α}
    (same : as.map f = bs.map f)
    (each : ∀ a ∈ as, ∀ b ∈ bs, f a = f b → g a = g b) :
    as.map g = bs.map g := by
  induction as generalizing bs with
  | nil =>
      cases bs with
      | nil => rfl
      | cons b bs => simp at same
  | cons a as ih =>
      cases bs with
      | nil => simp at same
      | cons b bs =>
          simp only [List.map_cons, List.cons.injEq] at same ⊢
          refine ⟨each a (by simp) b (by simp) same.1, ih same.2 ?_⟩
          intro c mem d mem'
          exact each c (List.mem_cons_of_mem _ mem) d
            (List.mem_cons_of_mem _ mem')

theorem map_eq_map_congr {f : α → β} {g : α → γ}
    (each : ∀ a b, f a = f b ↔ g a = g b) {as bs : List α} :
    as.map f = bs.map f ↔ as.map g = bs.map g :=
  ⟨fun same => map_eq_map_of same fun a _ b _ => (each a b).mp,
    fun same => map_eq_map_of same fun a _ b _ => (each a b).mpr⟩

end Secrecy
