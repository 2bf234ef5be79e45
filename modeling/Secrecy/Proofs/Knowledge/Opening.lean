import Mathlib.Data.Finset.Card
import Mathlib.Logic.Function.Iterate
import Secrecy.Knowledge.Holdings

/-!
# Opening sealed terms to the end

A sweep only adds names that the terms at hand give away, and a sweep that
adds nothing leaves holdings that are closed under opening.  Both together make
repeated sweeps compute the least closed set of names, whatever the order in
which a sweep visits the terms.
-/

namespace Secrecy

theorem SealedTerm.opening?_eq_some_iff {term : SealedTerm}
    {key plain : String} :
    term.opening? = some (key, plain) ↔
      term = ⟨.enc, some key, [plain], [true]⟩ := by
  constructor
  · intro h
    unfold opening? at h
    split at h
    · cases h
      rfl
    · cases h
  · rintro rfl
    rfl

namespace Holdings

variable {before middle after : Holdings}

/-! ## The least closed set -/

/-- The names that come to light when sealed terms are opened for good. -/
inductive Derivable (holdings : Holdings) : String → Prop
  | held {name : String} (known : name ∈ holdings.clear) :
      Derivable holdings name
  | opened {term : SealedTerm} {key plain : String}
      (mem : term ∈ holdings.sealedTerms)
      (opens : term.opening? = some (key, plain))
      (known : Derivable holdings key) : Derivable holdings plain

def Closed (holdings : Holdings) : Prop :=
  ∀ term ∈ holdings.sealedTerms, ∀ key plain,
    term.opening? = some (key, plain) →
      key ∈ holdings.clear → plain ∈ holdings.clear

theorem closed_nothing : nothing.Closed := by
  intro term mem
  cases mem

theorem Closed.mem_clear_of_derivable {holdings : Holdings}
    (closed : holdings.Closed) {name : String}
    (h : holdings.Derivable name) : name ∈ holdings.clear := by
  induction h with
  | held known => exact known
  | opened mem opens _ ih => exact closed _ mem _ _ opens ih

/--
What opening can make of holdings: names are added at the end, each new, each
once, and each of them derivable from what was there before.
-/
structure LeadsTo (before after : Holdings) : Prop where
  authored : after.authored = before.authored
  sealedTerms : after.sealedTerms = before.sealedTerms
  learned : ∃ opened, after.learned = before.learned ++ opened ∧
    opened.Nodup ∧
    ∀ name ∈ opened, name ∉ before.clear ∧ before.Derivable name

namespace LeadsTo

theorem refl (holdings : Holdings) : LeadsTo holdings holdings :=
  ⟨rfl, rfl, [], by simp⟩

theorem mem_clear_iff (h : LeadsTo before after) {name : String} :
    name ∈ after.clear ↔ name ∈ before.clear ∨
      name ∈ after.learned ∧ name ∉ before.clear := by
  obtain ⟨opened, grown, _, _⟩ := h.learned
  rw [Holdings.mem_clear, Holdings.mem_clear, h.authored, grown,
    List.mem_append]
  tauto

theorem mem_clear (h : LeadsTo before after) {name : String}
    (known : name ∈ before.clear) : name ∈ after.clear :=
  h.mem_clear_iff.mpr (.inl known)

theorem derivable_of_mem_clear (h : LeadsTo before after) {name : String}
    (known : name ∈ after.clear) : before.Derivable name := by
  rcases h.mem_clear_iff.mp known with old | ⟨mem, new⟩
  · exact .held old
  · obtain ⟨opened, grown, _, sound⟩ := h.learned
    rw [grown, List.mem_append] at mem
    rcases mem with old | mem
    · exact .held (by simp [old])
    · exact (sound name mem).2

theorem derivable_iff (h : LeadsTo before after) {name : String} :
    after.Derivable name ↔ before.Derivable name := by
  constructor
  · intro derivable
    induction derivable with
    | held known => exact h.derivable_of_mem_clear known
    | opened mem opens _ ih => exact .opened (h.sealedTerms ▸ mem) opens ih
  · intro derivable
    induction derivable with
    | held known => exact .held (h.mem_clear known)
    | opened mem opens _ ih => exact .opened (h.sealedTerms ▸ mem) opens ih

theorem trans (first : LeadsTo before middle) (second : LeadsTo middle after) :
    LeadsTo before after := by
  obtain ⟨early, grown, nodupEarly, soundEarly⟩ := first.learned
  obtain ⟨late, grownLater, nodupLate, soundLate⟩ := second.learned
  refine ⟨second.authored.trans first.authored,
    second.sealedTerms.trans first.sealedTerms, early ++ late, ?_, ?_, ?_⟩
  · rw [grownLater, grown, List.append_assoc]
  · refine List.nodup_append.mpr ⟨nodupEarly, nodupLate, ?_⟩
    rintro name early other late rfl
    refine (soundLate name late).1 ?_
    simp [grown, early]
  · intro name mem
    rcases List.mem_append.mp mem with mem | mem
    · exact soundEarly name mem
    · obtain ⟨new, derivable⟩ := soundLate name mem
      exact ⟨fun old => new (first.mem_clear old),
        first.derivable_iff.mp derivable⟩

theorem eq_of_learned_eq (h : LeadsTo before after)
    (same : after.learned = before.learned) : after = before := by
  have sameAuthored := h.authored
  have sameTerms := h.sealedTerms
  cases before
  cases after
  simp_all

theorem exists_opened (h : LeadsTo before after) (changed : after ≠ before) :
    ∃ name, name ∈ after.clear ∧ name ∉ before.clear ∧
      before.Derivable name := by
  obtain ⟨opened, grown, _, sound⟩ := h.learned
  cases opened with
  | nil => exact absurd (h.eq_of_learned_eq (by simpa using grown)) changed
  | cons name opened =>
      exact ⟨name, by simp [grown], sound name List.mem_cons_self⟩

theorem antisymm (there : LeadsTo before after) (back : LeadsTo after before) :
    after = before := by
  obtain ⟨gained, grown, _, _⟩ := there.learned
  obtain ⟨gainedBack, grownBack, _, _⟩ := back.learned
  have lengths := congrArg List.length grown
  have lengthsBack := congrArg List.length grownBack
  simp only [List.length_append] at lengths lengthsBack
  have nothing : gained = [] := List.length_eq_zero_iff.mp (by omega)
  refine there.eq_of_learned_eq ?_
  rw [grown, nothing, List.append_nil]

theorem nodup_learned (h : LeadsTo before after)
    (nodup : before.learned.Nodup) : after.learned.Nodup := by
  obtain ⟨opened, grown, nodupOpened, sound⟩ := h.learned
  rw [grown]
  refine List.nodup_append.mpr ⟨nodup, nodupOpened, ?_⟩
  rintro name old other mem rfl
  exact (sound name mem).1 (by simp [old])

/-! ## Closed holdings that others lead to -/

theorem mem_clear_iff_derivable (h : LeadsTo before after)
    (closed : after.Closed) {name : String} :
    name ∈ after.clear ↔ before.Derivable name := by
  constructor
  · exact h.derivable_of_mem_clear
  · intro derivable
    exact closed.mem_clear_of_derivable (h.derivable_iff.mpr derivable)

/-- Names that were authored are never learned by opening. -/
theorem mem_learned_iff (h : LeadsTo before after) (closed : after.Closed)
    {name : String} :
    name ∈ after.learned ↔ name ∈ before.learned ∨
      name ∉ before.authored ∧ before.Derivable name := by
  obtain ⟨opened, grown, _, sound⟩ := h.learned
  constructor
  · intro mem
    rw [grown, List.mem_append] at mem
    rcases mem with old | mem
    · exact .inl old
    · obtain ⟨new, derivable⟩ := sound name mem
      exact .inr ⟨fun authored => new (by simp [authored]), derivable⟩
  · rintro (old | ⟨foreign, derivable⟩)
    · rw [grown]
      exact List.mem_append_left _ old
    · have mem := (h.mem_clear_iff_derivable closed).mpr derivable
      rw [Holdings.mem_clear, h.authored] at mem
      exact mem.resolve_left foreign

end LeadsTo

/-! ## Sweeps -/

theorem tryOpen_of_known {holdings : Holdings} {term : SealedTerm}
    (idle : ∀ key plain, term.opening? = some (key, plain) →
      key ∈ holdings.clear → plain ∈ holdings.clear) :
    holdings.tryOpen term = holdings := by
  unfold tryOpen
  split
  · rfl
  · next key plain opens =>
      rw [if_neg]
      rintro ⟨knowsKey, newPlain⟩
      exact newPlain (knows_iff.mpr (idle key plain opens (knows_iff.mp knowsKey)))

theorem leadsTo_tryOpen {holdings : Holdings} {term : SealedTerm}
    (mem : term ∈ holdings.sealedTerms) :
    LeadsTo holdings (holdings.tryOpen term) := by
  unfold tryOpen
  split
  · exact .refl _
  · next key plain opens =>
      split
      · next h =>
          obtain ⟨knowsKey, newPlain⟩ := h
          rw [knows_iff] at knowsKey newPlain
          refine ⟨rfl, rfl, [plain], ?_, List.nodup_singleton _, ?_⟩
          · have unlearned : plain ∉ holdings.learned := fun old =>
              newPlain (by simp [old])
            simp [adjoin, unlearned]
          · intro name eq
            rw [List.mem_singleton.mp eq]
            exact ⟨newPlain, .opened mem opens (.held knowsKey)⟩
      · exact .refl _

theorem mem_clear_tryOpen {holdings : Holdings} {term : SealedTerm}
    {key plain : String} (opens : term.opening? = some (key, plain))
    (known : key ∈ holdings.clear) :
    plain ∈ (holdings.tryOpen term).clear := by
  simp only [tryOpen, opens]
  by_cases old : plain ∈ holdings.clear
  · rw [if_neg (by simp [knows_iff, old])]
    exact old
  · rw [if_pos ⟨knows_iff.mpr known, by rwa [knows_iff]⟩]
    simp

theorem leadsTo_foldl_tryOpen {holdings : Holdings} {terms : List SealedTerm}
    (mem : ∀ term ∈ terms, term ∈ holdings.sealedTerms) :
    LeadsTo holdings (terms.foldl tryOpen holdings) := by
  induction terms generalizing holdings with
  | nil => exact .refl _
  | cons term terms ih =>
      have first := leadsTo_tryOpen (mem term List.mem_cons_self)
      refine first.trans (ih fun other later => ?_)
      rw [first.sealedTerms]
      exact mem other (List.mem_cons_of_mem _ later)

theorem leadsTo_sweep (holdings : Holdings) :
    LeadsTo holdings holdings.sweep :=
  leadsTo_foldl_tryOpen fun _ h => SealedTerm.mem_byLabel.mp h

theorem foldl_tryOpen_eq_self {holdings : Holdings} {terms : List SealedTerm}
    (idle : ∀ term ∈ terms, holdings.tryOpen term = holdings) :
    terms.foldl tryOpen holdings = holdings := by
  induction terms with
  | nil => rfl
  | cons term terms ih =>
      rw [List.foldl_cons, idle term List.mem_cons_self]
      exact ih fun other later => idle other (List.mem_cons_of_mem _ later)

theorem tryOpen_eq_self_of_foldl {holdings : Holdings}
    {terms : List SealedTerm}
    (mem : ∀ term ∈ terms, term ∈ holdings.sealedTerms)
    (unchanged : terms.foldl tryOpen holdings = holdings) :
    ∀ term ∈ terms, holdings.tryOpen term = holdings := by
  induction terms with
  | nil => simp
  | cons term terms ih =>
      have first := leadsTo_tryOpen (mem term List.mem_cons_self)
      have others : ∀ other ∈ terms, other ∈ holdings.sealedTerms :=
        fun other later => mem other (List.mem_cons_of_mem _ later)
      have rest : LeadsTo (holdings.tryOpen term)
          (terms.foldl tryOpen (holdings.tryOpen term)) :=
        leadsTo_foldl_tryOpen (by rwa [first.sealedTerms])
      rw [← List.foldl_cons, unchanged] at rest
      have same : holdings.tryOpen term = holdings := first.antisymm rest
      intro other h
      rcases List.mem_cons.mp h with rfl | later
      · exact same
      · refine ih others ?_ other later
        rwa [List.foldl_cons, same] at unchanged

theorem sweep_eq_self_iff {holdings : Holdings} :
    holdings.sweep = holdings ↔ holdings.Closed := by
  constructor
  · intro unchanged term mem key plain opens known
    have same := tryOpen_eq_self_of_foldl
      (fun _ h => SealedTerm.mem_byLabel.mp h) unchanged term
      (SealedTerm.mem_byLabel.mpr mem)
    rw [← same]
    exact mem_clear_tryOpen opens known
  · intro closed
    exact foldl_tryOpen_eq_self fun term h =>
      tryOpen_of_known (closed term (SealedTerm.mem_byLabel.mp h))

theorem repeat_eq_iterate {α : Type} (f : α → α) (n : Nat) :
    Nat.repeat f n = f^[n] := by
  induction n with
  | zero => rfl
  | succ n ih =>
      rw [Function.iterate_succ', ← ih]
      rfl

theorem leadsTo_repeat_sweep (holdings : Holdings) (visits : Nat) :
    LeadsTo holdings (Nat.repeat sweep visits holdings) := by
  induction visits with
  | zero => exact .refl _
  | succ visits ih => exact ih.trans (leadsTo_sweep _)

theorem repeat_sweep_eq_self_iff {holdings : Holdings} {visits : Nat}
    (visited : 0 < visits) :
    Nat.repeat sweep visits holdings = holdings ↔ holdings.Closed := by
  obtain ⟨earlier, rfl⟩ := Nat.exists_eq_add_of_le' visited
  rw [← sweep_eq_self_iff]
  constructor
  · intro unchanged
    have there := leadsTo_repeat_sweep holdings earlier
    have back := leadsTo_sweep (Nat.repeat sweep earlier holdings)
    change sweep (Nat.repeat sweep earlier holdings) = holdings at unchanged
    rw [unchanged] at back
    rwa [there.antisymm back] at unchanged
  · intro still
    rw [repeat_eq_iterate]
    exact Function.iterate_fixed still (earlier + 1)

/-! ## How much there is to open -/

/-- The names that are sealed off so far and that opening could bring out. -/
def locked (holdings : Holdings) : Finset String :=
  (holdings.sealedTerms.filterMap
    (·.opening?.map Prod.snd)).toFinset.filter (· ∉ holdings.clear)

theorem mem_locked {holdings : Holdings} {plain : String} :
    plain ∈ holdings.locked ↔
      (∃ term ∈ holdings.sealedTerms, ∃ key,
        term.opening? = some (key, plain)) ∧ plain ∉ holdings.clear := by
  simp only [locked, Finset.mem_filter, List.mem_toFinset, List.mem_filterMap,
    Option.map_eq_some_iff]
  constructor
  · rintro ⟨⟨term, mem, ⟨key, _⟩, opens, rfl⟩, new⟩
    exact ⟨⟨term, mem, key, opens⟩, new⟩
  · rintro ⟨⟨term, mem, key, opens⟩, new⟩
    exact ⟨⟨term, mem, (key, plain), opens, rfl⟩, new⟩

theorem card_locked_le (holdings : Holdings) :
    holdings.locked.card ≤ holdings.sealedTerms.length :=
  (Finset.card_filter_le _ _).trans
    ((List.toFinset_card_le _).trans (List.length_filterMap_le _ _))

theorem LeadsTo.locked_subset (h : LeadsTo before after) :
    after.locked ⊆ before.locked := by
  intro plain mem
  rw [mem_locked, h.sealedTerms] at mem
  exact mem_locked.mpr ⟨mem.1, fun old => mem.2 (h.mem_clear old)⟩

theorem LeadsTo.card_locked_lt (h : LeadsTo before after)
    (changed : after ≠ before) : after.locked.card < before.locked.card := by
  obtain ⟨name, known, new, derivable⟩ := h.exists_opened changed
  refine Finset.card_lt_card
    ((Finset.ssubset_iff_of_subset h.locked_subset).mpr ⟨name, ?_, ?_⟩)
  · cases derivable with
    | held old => exact absurd old new
    | opened mem opens _ => exact mem_locked.mpr ⟨⟨_, mem, _, opens⟩, new⟩
  · exact fun still => (mem_locked.mp still).2 known

end Holdings

end Secrecy
