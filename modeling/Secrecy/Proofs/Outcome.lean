/-!
# Computations that may stop with a fault

What it takes for a sequence of such computations to come to its end.
-/

namespace Secrecy.Outcome

variable {ε α β : Type}

theorem bind_eq_ok {first : Except ε α} {next : α → Except ε β} {b : β} :
    first >>= next = .ok b ↔ ∃ a, first = .ok a ∧ next a = .ok b := by
  cases first with
  | error fault =>
      constructor
      · intro h
        cases h
      · rintro ⟨a, h, _⟩
        cases h
  | ok a =>
      constructor
      · intro h
        exact ⟨a, rfl, h⟩
      · rintro ⟨_, ⟨⟩, h⟩
        exact h

theorem bind_eq_error {first : Except ε α} {next : α → Except ε β}
    {fault : ε} :
    first >>= next = .error fault ↔
      first = .error fault ∨ ∃ a, first = .ok a ∧ next a = .error fault := by
  cases first with
  | error other =>
      constructor
      · intro h
        cases h
        exact .inl rfl
      · rintro (h | ⟨a, h, _⟩)
        · cases h
          rfl
        · cases h
  | ok a =>
      constructor
      · intro h
        exact .inr ⟨a, rfl, h⟩
      · rintro (h | ⟨_, ⟨⟩, h⟩)
        · cases h
        · exact h

@[simp] theorem pure_eq_ok {a b : α} :
    (pure a : Except ε α) = .ok b ↔ a = b := by
  constructor
  · intro h
    cases h
    rfl
  · rintro rfl
    rfl

@[simp] theorem mapError_eq_ok {ε' : Type} {outcome : Except ε α}
    {change : ε → ε'} {a : α} :
    outcome.mapError change = .ok a ↔ outcome = .ok a := by
  cases outcome with
  | error fault =>
      constructor
      · intro h
        cases h
      · intro h
        cases h
  | ok b =>
      change (Except.ok b : Except ε' α) = .ok a ↔ _
      rw [Except.ok.injEq, Except.ok.injEq]

theorem mapError_eq_error {ε' : Type} {outcome : Except ε α}
    {change : ε → ε'} {fault' : ε'} :
    outcome.mapError change = .error fault' ↔
      ∃ fault, outcome = .error fault ∧ change fault = fault' := by
  cases outcome with
  | error fault =>
      constructor
      · intro h
        cases h
        exact ⟨fault, rfl, rfl⟩
      · rintro ⟨_, ⟨⟩, rfl⟩
        rfl
  | ok a =>
      constructor
      · intro h
        cases h
      · rintro ⟨_, ⟨⟩, _⟩

theorem exists_error {outcome : Except ε α} :
    (∃ fault, outcome = .error fault) ↔ ¬ ∃ a, outcome = .ok a := by
  cases outcome <;> simp

theorem forM_eq_ok {check : α → Except ε Unit} {items : List α} :
    items.forM check = .ok () ↔ ∀ item ∈ items, check item = .ok () := by
  induction items with
  | nil => simp [pure, Except.pure]
  | cons item items ih =>
      rw [List.forM_eq_forM] at ih ⊢
      rw [List.forM_cons, bind_eq_ok, ih, List.forall_mem_cons]
      constructor
      · rintro ⟨⟨⟩, first, rest⟩
        exact ⟨first, rest⟩
      · rintro ⟨first, rest⟩
        exact ⟨(), first, rest⟩

theorem exists_of_forM_eq_error {check : α → Except ε Unit} {items : List α}
    {fault : ε} (h : items.forM check = .error fault) :
    ∃ item ∈ items, check item = .error fault := by
  induction items with
  | nil => cases h
  | cons item items ih =>
      rw [List.forM_eq_forM] at ih h
      rw [List.forM_cons, bind_eq_error] at h
      rcases h with here | ⟨_, _, later⟩
      · exact ⟨item, List.mem_cons_self, here⟩
      · obtain ⟨other, mem, there⟩ := ih later
        exact ⟨other, List.mem_cons_of_mem _ mem, there⟩

theorem exists_of_foldlM_eq_error {σ : Type} {step : σ → α → Except ε σ}
    {items : List α} {start : σ} {fault : ε}
    (h : items.foldlM step start = .error fault) :
    ∃ item ∈ items, ∃ before, step before item = .error fault := by
  induction items generalizing start with
  | nil => cases h
  | cons item items ih =>
      rw [List.foldlM_cons, bind_eq_error] at h
      rcases h with here | ⟨after, _, later⟩
      · exact ⟨item, List.mem_cons_self, start, here⟩
      · obtain ⟨other, mem, there⟩ := ih later
        exact ⟨other, List.mem_cons_of_mem _ mem, there⟩

theorem mapM_eq_ok {run : α → Except ε β} {result : α → β} {items : List α}
    (each : ∀ item ∈ items, run item = .ok (result item)) :
    items.mapM run = .ok (items.map result) := by
  induction items with
  | nil => rfl
  | cons item items ih =>
      rw [List.forall_mem_cons] at each
      rw [List.mapM_cons, each.1, ih each.2]
      rfl

theorem mapM_eq_error {run : α → Except ε β} {fault? : α → Option ε}
    (told : ∀ item fault, run item = .error fault ↔ fault? item = some fault)
    {items : List α} {fault : ε} :
    items.mapM run = .error fault ↔ items.findSome? fault? = some fault := by
  induction items with
  | nil => simp [pure, Except.pure]
  | cons item items ih =>
      have rest (b : β) :
          (items.mapM run >>= fun bs => pure (b :: bs)) = .error fault ↔
            items.mapM run = .error fault := by
        rw [bind_eq_error]
        simp [pure, Except.pure]
      rw [List.mapM_cons, bind_eq_error, List.findSome?_cons]
      cases outcome : run item with
      | error other => simp [(told item other).mp outcome]
      | ok b =>
          have passes : fault? item = none := by
            rw [Option.eq_none_iff_forall_ne_some]
            intro other found
            rw [(told item other).mpr found] at outcome
            cases outcome
          simp only [passes, reduceCtorEq, Except.ok.injEq, exists_eq_left',
            false_or, rest, ih]

/--
A run over a list keeps what its steps keep, and comes by every item in a state
where that holds.
-/
theorem foldlM_invariant {σ : Type} {step : σ → α → Except ε σ}
    {holds : σ → Prop} {items : List α} {start finish : σ}
    (h : items.foldlM step start = .ok finish) (initially : holds start)
    (keeps : ∀ before, holds before → ∀ item ∈ items, ∀ after,
      step before item = .ok after → holds after) :
    holds finish ∧ ∀ item ∈ items, ∃ before after,
      holds before ∧ step before item = .ok after := by
  induction items generalizing start with
  | nil =>
      cases h
      exact ⟨initially, by simp⟩
  | cons item items ih =>
      rw [List.foldlM_cons, bind_eq_ok] at h
      obtain ⟨next, first, rest⟩ := h
      have kept := keeps start initially item List.mem_cons_self next first
      obtain ⟨ends, each⟩ := ih rest kept fun before now other mem =>
        keeps before now other (List.mem_cons_of_mem _ mem)
      refine ⟨ends, fun other mem => ?_⟩
      rcases List.mem_cons.mp mem with rfl | later
      · exact ⟨start, next, initially, first⟩
      · exact each other later

end Secrecy.Outcome
