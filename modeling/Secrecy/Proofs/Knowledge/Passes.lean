import Secrecy.Proofs.Knowledge.Totality

/-!
# Passes as they are made

A pass visits the principals in their order, a role that is declared repeatedly
as often as it is listed, and tries the sealed terms of each in turn.  On the
way it notes whether any of them opened, and the loop of passes goes on for as
long as the note says so.  The note is right: it says so exactly if the pass
leaves another ledger behind than it found.  So the loop does what settling a
ledger does, and what holds of every run can be shown by induction on the loop.
-/

namespace Secrecy

/-- A state, and a note whether it was changed on the way. -/
structure Noted (α : Type) where
  changed : Bool
  state : α
  deriving DecidableEq, Repr

namespace Noted

variable {α β : Type} [DecidableEq α]

def since (noted : Noted α) (after : α) : Noted α :=
  ⟨noted.changed || decide (after ≠ noted.state), after⟩

/--
If each step notes rightly what it changes, so does a run of steps.  A change
is never undone on the way, as the steps go along a partial order.
-/
theorem foldl_eq (leads : α → α → Prop) (good : α → Prop)
    {step : α → β → α} {visit : Noted α → β → Noted α} {items : List β}
    (refl : ∀ a, leads a a)
    (trans : ∀ a b c, leads a b → leads b c → leads a c)
    (antisymm : ∀ a b, good a → leads a b → leads b a → b = a)
    (one : ∀ state, good state → ∀ item ∈ items,
      good (step state item) ∧ leads state (step state item) ∧
        ∀ changed, visit ⟨changed, state⟩ item =
          since ⟨changed, state⟩ (step state item))
    {start : α} (initially : good start) (changed : Bool) :
    leads start (items.foldl step start) ∧
      items.foldl visit ⟨changed, start⟩ =
        since ⟨changed, start⟩ (items.foldl step start) := by
  induction items generalizing start changed with
  | nil => exact ⟨refl start, by simp [since]⟩
  | cons item items ih =>
      obtain ⟨kept, first, noted⟩ :=
        one start initially item List.mem_cons_self
      obtain ⟨rest, notedRest⟩ :=
        ih (fun state h other later =>
          one state h other (List.mem_cons_of_mem _ later)) kept
          (changed || decide (step start item ≠ start))
      have back (same : items.foldl step (step start item) = start) :
          step start item = start :=
        antisymm start _ initially first (by rwa [same] at rest)
      refine ⟨trans _ _ _ first rest, ?_⟩
      rw [List.foldl_cons, List.foldl_cons, noted, since, notedRest]
      simp only [since, mk.injEq, and_true, Bool.or_assoc]
      congr 1
      rw [Bool.eq_iff_iff, Bool.or_eq_true, decide_eq_true_iff,
        decide_eq_true_iff, decide_eq_true_iff]
      by_cases same : step start item = start
      · simp [same]
      · simp [same, mt back same]

end Noted

/-! ## Trying sealed terms -/

namespace Holdings

def attempt (noted : Noted Holdings) (term : SealedTerm) : Noted Holdings :=
  match term.opening? with
  | none => noted
  | some (key, plain) =>
      if noted.state.knows key ∧ ¬ noted.state.knows plain then
        ⟨true, { noted.state with
          learned := adjoin noted.state.learned plain }⟩
      else noted

def attemptAll (noted : Noted Holdings) : Noted Holdings :=
  (SealedTerm.byLabel noted.state.sealedTerms).foldl attempt noted

theorem attempt_eq (changed : Bool) (holdings : Holdings) (term : SealedTerm) :
    attempt ⟨changed, holdings⟩ term =
      Noted.since ⟨changed, holdings⟩ (holdings.tryOpen term) := by
  unfold attempt tryOpen
  cases opening : term.opening? with
  | none => simp [Noted.since]
  | some opened =>
      obtain ⟨key, plain⟩ := opened
      by_cases opens : holdings.knows key ∧ ¬ holdings.knows plain
      · have different : { holdings with
            learned := adjoin holdings.learned plain } ≠ holdings := by
          intro same
          have learned : plain ∈ holdings.learned := by
            rw [← congrArg Holdings.learned same]
            simp
          exact opens.2 (knows_iff.mpr (by simp [learned]))
        simp only [if_pos opens, Noted.since, decide_eq_true different,
          Bool.or_true]
      · simp only [if_neg opens, Noted.since, ne_eq, not_true_eq_false,
          decide_false, Bool.or_false]

theorem attemptAll_eq (changed : Bool) (holdings : Holdings) :
    attemptAll ⟨changed, holdings⟩ =
      Noted.since ⟨changed, holdings⟩ holdings.sweep := by
  refine (Noted.foldl_eq LeadsTo
    (fun state => state.sealedTerms = holdings.sealedTerms)
    LeadsTo.refl (fun _ _ _ => LeadsTo.trans)
    (fun _ _ _ => LeadsTo.antisymm) ?_ rfl changed).2
  intro state same term listed
  have held : term ∈ state.sealedTerms := by
    rw [same]
    exact SealedTerm.mem_byLabel.mp listed
  exact ⟨(state.tryOpen_sealedTerms term).trans same, leadsTo_tryOpen held,
    fun changed => attempt_eq changed state term⟩

end Holdings

/-! ## Visiting principals -/

namespace Ledger

variable {before after ledger : Ledger} {order : List Principal}

def sweepOne (ledger : Ledger) (principal : Principal) : Ledger :=
  ⟨ledger.entries.map fun entry =>
    if entry.principal = principal then update Holdings.sweep entry
    else entry⟩

def visit (noted : Noted Ledger) (principal : Principal) : Noted Ledger :=
  let swept := Holdings.attemptAll
    ⟨noted.changed, noted.state.holdingsOf principal⟩
  ⟨swept.changed, ⟨noted.state.entries.map fun entry =>
    if entry.principal = principal then
      { entry with holdings := swept.state }
    else entry⟩⟩

def passInOrder (order : List Principal) (ledger : Ledger) :
    Except SealedTerm.LabelFault (Noted Ledger) := do
  ledger.requireLabels
  return order.foldl visit ⟨false, ledger⟩

def Follows (ledger : Ledger) (order : List Principal) : Prop :=
  ledger.frame = (blank order).frame

theorem Follows.principals (follows : ledger.Follows order) :
    ledger.frame.map Prod.fst = distinct order := by
  rw [follows, frame_blank, List.map_map]
  exact List.map_id _

theorem Follows.nodup (follows : ledger.Follows order) :
    (ledger.frame.map Prod.fst).Nodup := by
  rw [follows.principals]
  exact nodup_distinct order

theorem Follows.visits (follows : ledger.Follows order) :
    ∀ entry ∈ ledger.entries,
      entry.visits = order.count entry.principal := by
  intro entry mem
  have listed : (entry.principal, entry.visits) ∈ ledger.frame :=
    List.mem_map.mpr ⟨entry, mem, rfl⟩
  rw [follows, frame_blank] at listed
  obtain ⟨_, _, same⟩ := List.mem_map.mp listed
  obtain ⟨rfl, counted⟩ := Prod.mk.inj same
  exact counted.symm

theorem Follows.visited (follows : ledger.Follows order) :
    ledger.Visited := by
  rw [visited_iff_frame, follows, ← visited_iff_frame]
  exact visited_blank order

theorem LeadsTo.frame (h : LeadsTo before after) :
    after.frame = before.frame := by
  unfold LeadsTo at h
  unfold Ledger.frame
  generalize before.entries = old at h ⊢
  generalize after.entries = new at h ⊢
  induction h with
  | nil => rfl
  | cons head _ ih =>
      rw [List.map_cons, List.map_cons, ih, head.principal, head.visits]

theorem LeadsTo.follows (h : LeadsTo before after)
    (follows : before.Follows order) : after.Follows order :=
  h.frame.trans follows

theorem entries_eq (nodup : (ledger.frame.map Prod.fst).Nodup) :
    ledger.entries = ledger.frame.map fun listed =>
      ⟨listed.1, listed.2, ledger.holdingsOf listed.1⟩ := by
  rw [frame, List.map_map]
  refine (List.map_id'' (fun _ => rfl) _).symm.trans ?_
  refine List.map_congr_left fun entry mem => ?_
  simp [holdingsOf_of_mem nodup mem]

theorem eq_of_holdingsOf (framed : after.frame = before.frame)
    (nodup : (before.frame.map Prod.fst).Nodup)
    (same : ∀ principal,
      after.holdingsOf principal = before.holdingsOf principal) :
    after = before := by
  have entries : after.entries = before.entries := by
    rw [entries_eq nodup, entries_eq (framed ▸ nodup), framed]
    simp only [same]
  cases before
  cases after
  exact congrArg mk entries

theorem LeadsTo.antisymm (there : LeadsTo before after)
    (back : LeadsTo after before)
    (nodup : (before.frame.map Prod.fst).Nodup) : after = before :=
  eq_of_holdingsOf there.frame nodup fun principal =>
    (there.holdingsOf principal).antisymm (back.holdingsOf principal)

theorem leadsTo_sweepOne (ledger : Ledger) (principal : Principal) :
    LeadsTo ledger (ledger.sweepOne principal) := by
  unfold LeadsTo sweepOne
  rw [List.forall₂_map_right_iff]
  refine List.forall₂_same.mpr fun entry _ => ?_
  by_cases same : entry.principal = principal
  · rw [if_pos same]
    exact ⟨rfl, rfl, Holdings.leadsTo_sweep _⟩
  · rw [if_neg same]
    exact ⟨rfl, rfl, .refl _⟩

theorem holdingsOf_sweepOne (principal : Principal) :
    (ledger.sweepOne principal).holdingsOf principal =
      (ledger.holdingsOf principal).sweep := by
  have keeps (entry : Entry) : (if entry.principal = principal then
      update Holdings.sweep entry else entry).principal =
        entry.principal := by
    split <;> rfl
  rw [sweepOne, holdingsOf_map keeps, holdingsOf]
  cases found : ledger.entries.find? (·.principal = principal) with
  | none => exact (Holdings.sweep_eq_self_iff.mpr Holdings.closed_nothing).symm
  | some entry =>
      have named : entry.principal = principal := by
        simpa using List.find?_some found
      simp [named, update]

theorem sweepOne_eq_self_iff (nodup : (ledger.frame.map Prod.fst).Nodup)
    {principal : Principal} :
    ledger.sweepOne principal = ledger ↔
      (ledger.holdingsOf principal).sweep = ledger.holdingsOf principal := by
  constructor
  · intro unchanged
    rw [← holdingsOf_sweepOne, unchanged]
  · intro still
    have each : ledger.entries.map (fun entry =>
        if entry.principal = principal then update Holdings.sweep entry
        else entry) = ledger.entries.map id := by
      refine List.map_congr_left fun entry mem => ?_
      split
      · next same =>
          have held := holdingsOf_of_mem nodup mem
          rw [same] at held
          rw [update, ← held, still, held]
          rfl
      · rfl
    rw [List.map_id] at each
    exact congrArg mk each

theorem visit_eq (nodup : (ledger.frame.map Prod.fst).Nodup)
    (changed : Bool) (principal : Principal) :
    visit ⟨changed, ledger⟩ principal =
      Noted.since ⟨changed, ledger⟩ (ledger.sweepOne principal) := by
  have entries : (ledger.entries.map fun entry =>
      if entry.principal = principal then
        { entry with holdings := (ledger.holdingsOf principal).sweep }
      else entry) = (ledger.sweepOne principal).entries := by
    refine List.map_congr_left fun entry mem => ?_
    split
    · next same =>
        have held := holdingsOf_of_mem nodup mem
        rw [same] at held
        rw [update, held]
    · rfl
  simp only [visit, Holdings.attemptAll_eq, Noted.since, entries, ne_eq,
    sweepOne_eq_self_iff nodup]

theorem foldl_visit (nodup : (ledger.frame.map Prod.fst).Nodup)
    (order : List Principal) (changed : Bool) :
    order.foldl visit ⟨changed, ledger⟩ =
      Noted.since ⟨changed, ledger⟩ (order.foldl sweepOne ledger) := by
  refine (Noted.foldl_eq LeadsTo
    (fun state => (state.frame.map Prod.fst).Nodup) LeadsTo.refl
    (fun _ _ _ => LeadsTo.trans)
    (fun _ _ distinct there back => there.antisymm back distinct) ?_
    nodup changed).2
  intro state distinct principal _
  have there := leadsTo_sweepOne state principal
  exact ⟨there.frame ▸ distinct, there,
    fun changed => visit_eq distinct changed principal⟩

theorem foldl_sweepOne (order : List Principal) (ledger : Ledger) :
    order.foldl sweepOne ledger = ⟨ledger.entries.map fun entry =>
      update (Nat.repeat Holdings.sweep (order.count entry.principal))
        entry⟩ := by
  induction order generalizing ledger with
  | nil =>
      have each : (ledger.entries.map fun entry =>
          update (Nat.repeat Holdings.sweep 0) entry) = ledger.entries :=
        List.map_id _
      simp only [List.foldl_nil, List.count_nil, each]
  | cons principal order ih =>
      rw [List.foldl_cons, ih, sweepOne, List.map_map]
      refine congrArg mk (List.map_congr_left fun entry _ => ?_)
      rw [Function.comp_apply]
      by_cases same : entry.principal = principal
      · subst same
        rw [if_pos rfl, List.count_cons_self]
        simp only [update, Holdings.repeat_eq_iterate,
          Function.iterate_succ_apply]
      · rw [if_neg same, List.count_cons_of_ne (Ne.symm same)]

/-- The pass in order is the pass, and its note tells whether it did anything. -/
theorem passInOrder_eq (follows : ledger.Follows order) :
    ledger.passInOrder order = ledger.pass.map fun after =>
      ⟨decide (after ≠ ledger), after⟩ := by
  have swept : order.foldl sweepOne ledger = ledger.sweep := by
    rw [foldl_sweepOne, sweep]
    refine congrArg mk (List.map_congr_left fun entry mem => ?_)
    rw [sweepEntry, follows.visits entry mem]
  unfold passInOrder pass
  rw [foldl_visit follows.nodup, swept]
  cases ledger.requireLabels <;> rfl

theorem passInOrder_eq_ok (follows : ledger.Follows order) {changed : Bool} :
    ledger.passInOrder order = .ok ⟨changed, after⟩ ↔
      ledger.requireLabels = .ok () ∧
        changed = decide (after ≠ ledger) ∧ after = ledger.sweep := by
  rw [passInOrder_eq follows, pass]
  cases ledger.requireLabels with
  | error fault => exact ⟨nofun, nofun⟩
  | ok labelled =>
      change Except.ok (Noted.mk (decide (ledger.sweep ≠ ledger))
        ledger.sweep) = .ok ⟨changed, after⟩ ↔ _
      rw [Except.ok.injEq, Noted.mk.injEq]
      constructor
      · rintro ⟨rfl, rfl⟩
        exact ⟨rfl, rfl, rfl⟩
      · rintro ⟨-, rfl, rfl⟩
        exact ⟨rfl, rfl⟩

theorem Follows.busy (follows : ledger.Follows order)
    (busy : ledger.passInOrder order = .ok ⟨true, after⟩) :
    after = ledger.sweep ∧ after ≠ ledger := by
  obtain ⟨-, changed, swept⟩ := (passInOrder_eq_ok follows).mp busy
  exact ⟨swept, of_decide_eq_true changed.symm⟩

theorem Follows.idle (follows : ledger.Follows order)
    (idle : ledger.passInOrder order = .ok ⟨false, after⟩) :
    after = ledger := by
  obtain ⟨-, unchanged, -⟩ := (passInOrder_eq_ok follows).mp idle
  exact not_not.mp (of_decide_eq_false unchanged.symm)

/-! ## The loop -/

/--
The loop of passes: it stops after the first pass that notes no change, and
leaves behind the ledgers from which the others set out.
-/
inductive Loop (order : List Principal) : Ledger → Run → Prop
  | stop {before after : Ledger}
      (idle : before.passInOrder order = .ok ⟨false, after⟩) :
      Loop order before ⟨[], after⟩
  | again {before middle : Ledger} {run : Run}
      (busy : before.passInOrder order = .ok ⟨true, middle⟩)
      (rest : Loop order middle run) :
      Loop order before { run with past := before :: run.past }

theorem loop_settleWithin {bound : Nat} (follows : ledger.Follows order)
    (labelled : ledger.Labelled) (enough : ledger.Within bound) :
    Loop order ledger (settleWithin bound ledger) := by
  induction bound generalizing ledger with
  | zero =>
      have still := (sweep_eq_self_iff follows.visited).mpr enough.closed
      refine .stop ((passInOrder_eq_ok follows).mpr ?_)
      exact ⟨requireLabels_eq_ok.mpr labelled, by simp, still.symm⟩
  | succ bound ih =>
      simp only [settleWithin]
      split
      · next unchanged =>
          refine .stop ((passInOrder_eq_ok follows).mpr ?_)
          exact ⟨requireLabels_eq_ok.mpr labelled, by simp, unchanged.symm⟩
      · next changed =>
          have there := leadsTo_sweep ledger
          refine .again ((passInOrder_eq_ok follows).mpr ?_)
            (ih (there.follows follows) (there.labelled labelled)
              (enough.sweep follows.visited))
          exact ⟨requireLabels_eq_ok.mpr labelled, by simp [changed], rfl⟩

theorem follows_observed {config : Config} {protocol : Protocol}
    (h : observed config protocol = .ok ledger) :
    ledger.Follows protocol.principals :=
  (gains_observed h).frame

theorem labelled_observed {config : Config} {protocol : Protocol}
    (h : observed config protocol = .ok ledger) : ledger.Labelled :=
  requireLabels_eq_ok.mp (requireLabels_observed h)

/-- The loop comes to its end, and settling a ledger tells how. -/
theorem loop_settle (follows : ledger.Follows order)
    (labelled : ledger.Labelled) : Loop order ledger ledger.settle :=
  loop_settleWithin follows labelled (within_sealedCount ledger)

end Ledger

end Secrecy
