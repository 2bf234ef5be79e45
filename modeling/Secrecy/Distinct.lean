/-!
# Lists without repetition

A set of names is a list in order of discovery: adjoining what is already
there changes nothing, anything new goes to the end.
-/

namespace Secrecy

variable {α : Type} [DecidableEq α]

def adjoin (known : List α) (x : α) : List α :=
  if x ∈ known then known else known ++ [x]

def adjoinAll (known : List α) (new : List α) : List α :=
  new.foldl adjoin known

def distinct (l : List α) : List α := adjoinAll [] l

@[simp] theorem mem_adjoin {known : List α} {x y : α} :
    y ∈ adjoin known x ↔ y ∈ known ∨ y = x := by
  unfold adjoin
  split
  · constructor
    · exact .inl
    · rintro (h | rfl) <;> assumption
  · simp

@[simp] theorem mem_adjoinAll {known new : List α} {y : α} :
    y ∈ adjoinAll known new ↔ y ∈ known ∨ y ∈ new := by
  unfold adjoinAll
  induction new generalizing known with
  | nil => simp
  | cons x new ih => simp [ih, or_assoc]

@[simp] theorem mem_distinct {l : List α} {y : α} : y ∈ distinct l ↔ y ∈ l := by
  simp [distinct]

theorem nodup_adjoin {known : List α} (h : known.Nodup) (x : α) :
    (adjoin known x).Nodup := by
  unfold adjoin
  split
  · exact h
  · next fresh =>
      rw [List.nodup_append]
      refine ⟨h, by simp, ?_⟩
      intro a ha b hb hab
      simp only [List.mem_singleton] at hb
      exact fresh (hb ▸ hab ▸ ha)

theorem nodup_adjoinAll {known : List α} (h : known.Nodup) (new : List α) :
    (adjoinAll known new).Nodup := by
  unfold adjoinAll
  induction new generalizing known with
  | nil => exact h
  | cons x new ih => exact ih (nodup_adjoin h x)

theorem nodup_distinct (l : List α) : (distinct l).Nodup :=
  nodup_adjoinAll List.nodup_nil l

/-- Of what is new, each member is adjoined where it comes first. -/
theorem adjoinAll_eq (known new : List α) :
    adjoinAll known new = known ++ (new.filter (· ∉ known)).eraseDups := by
  induction new generalizing known with
  | nil => simp [adjoinAll]
  | cons x new ih =>
      have step : adjoinAll known (x :: new) =
          adjoinAll (adjoin known x) new := rfl
      rw [step, ih]
      by_cases old : x ∈ known
      · simp [adjoin, old]
      · have others : new.filter (· ∉ known ++ [x]) =
            (new.filter (· ∉ known)).filter fun y => !y == x := by
          rw [List.filter_filter]
          refine List.filter_congr fun y _ => ?_
          simp only [List.mem_append, List.mem_singleton, not_or, and_comm,
            Bool.decide_and, decide_not]
          rfl
        rw [adjoin, if_neg old, others, List.append_assoc,
          List.filter_cons_of_pos (by simpa using old), List.eraseDups_cons]
        rfl

theorem distinct_eq_eraseDups (l : List α) : distinct l = l.eraseDups := by
  rw [distinct, adjoinAll_eq, List.nil_append, List.filter_eq_self.mpr]
  simp

/-- What a list begins with may be mentioned again or not. -/
theorem distinct_append_congr {l xs ys : List α}
    (same : xs.filter (· ∉ l) = ys.filter (· ∉ l)) :
    distinct (l ++ xs) = distinct (l ++ ys) := by
  have split (zs : List α) : distinct (l ++ zs) =
      distinct l ++ (zs.filter (· ∉ l)).eraseDups := by
    have begun : distinct (l ++ zs) = adjoinAll (distinct l) zs :=
      List.foldl_append
    rw [begun, adjoinAll_eq]
    simp only [mem_distinct]
  rw [split, same, ← split]

/-- Names are reported in the order of their code points. -/
def sorted (names : List String) : List String :=
  names.mergeSort (fun a b => decide (a ≤ b))

@[simp] theorem mem_sorted {names : List String} {x : String} :
    x ∈ sorted names ↔ x ∈ names := by
  simp [sorted, List.mem_mergeSort]

end Secrecy
