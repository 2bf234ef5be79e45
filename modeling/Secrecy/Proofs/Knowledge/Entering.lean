import Secrecy.Proofs.Knowledge.Gain
import Secrecy.Proofs.Knowledge.Settling
import Secrecy.Proofs.Outcome
import Mathlib.Tactic.Tauto

/-!
# Entering keys and messages into a ledger

Entering leaves the principals of a ledger and their visits as they are.  What
is added does not depend on the ledger, so all that is entered in the end is
what the keys and messages disclose one by one.
-/

namespace Secrecy

namespace Ledger

def Lists (ledger : Ledger) (principal : Principal) : Prop :=
  ∃ entry ∈ ledger.entries, entry.principal = principal

/-- What entering keys and messages leaves as it is. -/
def frame (ledger : Ledger) : List (Principal × Nat) :=
  ledger.entries.map fun entry => (entry.principal, entry.visits)

theorem lists_iff_mem_frame {ledger : Ledger} {principal : Principal} :
    ledger.Lists principal ↔ principal ∈ ledger.frame.map Prod.fst := by
  simp [Lists, frame]

theorem lists_iff_of_frame_eq {before after : Ledger}
    (framed : after.frame = before.frame) {principal : Principal} :
    after.Lists principal ↔ before.Lists principal := by
  rw [lists_iff_mem_frame, framed, ← lists_iff_mem_frame]

theorem visited_iff_frame {ledger : Ledger} :
    ledger.Visited ↔ ∀ listed ∈ ledger.frame, 0 < listed.2 := by
  simp [Visited, frame]

structure Gains (before : Ledger) (gain : Principal → Gain)
    (after : Ledger) : Prop where
  frame : after.frame = before.frame
  holdings (principal : Principal) (listed : before.Lists principal) :
    (before.holdingsOf principal).Gains (gain principal)
      (after.holdingsOf principal)

namespace Gains

variable {before middle after : Ledger}

theorem of_eq {gain gain' : Principal → Gain} (h : before.Gains gain after)
    (same : ∀ principal, gain principal = gain' principal) :
    before.Gains gain' after :=
  funext same ▸ h

theorem refl (ledger : Ledger) : ledger.Gains (fun _ => .nothing) ledger :=
  ⟨rfl, fun _ _ => .refl _⟩

theorem trans {first second : Principal → Gain}
    (h : before.Gains first middle) (h' : middle.Gains second after) :
    before.Gains (fun principal => (first principal).both (second principal))
      after :=
  ⟨h'.frame.trans h.frame, fun principal listed =>
    (h.holdings principal listed).trans
      (h'.holdings principal ((lists_iff_of_frame_eq h.frame).mpr listed))⟩

theorem foldlM {α : Type} {enter : Ledger → α → Except AnalysisFault Ledger}
    {gain : α → Principal → Gain} {items : List α}
    (one : ∀ {before after : Ledger} {item : α}, item ∈ items →
      enter before item = .ok after → before.Gains (gain item) after)
    (h : items.foldlM enter before = .ok after) :
    before.Gains (fun principal => .each items (gain · principal)) after := by
  induction items generalizing before with
  | nil =>
      cases h
      simpa only [Gain.each_nil] using refl _
  | cons item items ih =>
      rw [List.foldlM_cons, Outcome.bind_eq_ok] at h
      obtain ⟨middle, first, h⟩ := h
      have rest := ih (fun mem => one (List.mem_cons_of_mem _ mem)) h
      simpa only [Gain.each_cons] using
        (one List.mem_cons_self first).trans rest

end Gains

/-! ## Altering entries -/

theorem holdingsOf_map {ledger : Ledger} {change : Entry → Entry}
    (keeps : ∀ entry, (change entry).principal = entry.principal)
    (principal : Principal) :
    (⟨ledger.entries.map change⟩ : Ledger).holdingsOf principal =
      match ledger.entries.find? (·.principal = principal) with
      | none => .nothing
      | some entry => (change entry).holdings := by
  have same : ((fun entry : Entry => decide (entry.principal = principal)) ∘
      change) = fun entry => decide (entry.principal = principal) := by
    funext entry
    simp [keeps]
  simp only [holdingsOf, List.find?_map, same]
  cases ledger.entries.find? (·.principal = principal) <;> rfl

theorem holdingsOf_alterAll {ledger : Ledger} {change : Holdings → Holdings}
    {principal : Principal} (listed : ledger.Lists principal) :
    (ledger.alterAll change).holdingsOf principal =
      change (ledger.holdingsOf principal) := by
  have keeps (entry : Entry) :
      (update change entry).principal = entry.principal := rfl
  rw [alterAll, holdingsOf_map keeps, holdingsOf]
  obtain ⟨entry, mem, named⟩ := listed
  cases found : ledger.entries.find? (·.principal = principal) with
  | none => simpa [named] using List.find?_eq_none.mp found entry mem
  | some entry => rfl

theorem alter_of_lists {ledger : Ledger} {principal : Principal}
    (change : Holdings → Holdings) (listed : ledger.Lists principal) :
    ledger.alter principal change = .ok ⟨ledger.entries.map fun entry =>
      if entry.principal = principal then update change entry else entry⟩ := by
  rw [alter, if_pos]
  simpa [Lists] using listed

theorem lists_of_alter {ledger after : Ledger} {principal : Principal}
    {change : Holdings → Holdings}
    (h : ledger.alter principal change = .ok after) :
    ledger.Lists principal := by
  unfold alter at h
  split at h
  · next listed => simpa [Lists] using listed
  · cases h

theorem frame_of_alter {before after : Ledger} {principal : Principal}
    {change : Holdings → Holdings}
    (h : before.alter principal change = .ok after) :
    after.frame = before.frame := by
  rw [alter_of_lists change (lists_of_alter h)] at h
  cases h
  simp only [frame, List.map_map, List.map_inj_left, Function.comp_apply]
  intro entry _
  split <;> rfl

theorem gains_alterAll {ledger : Ledger} {change : Holdings → Holdings}
    {gain : Gain} (gains : ∀ holdings, Holdings.Gains holdings gain (change holdings)) :
    ledger.Gains (fun _ => gain) (ledger.alterAll change) := by
  refine ⟨?_, fun principal listed => ?_⟩
  · simp [frame, alterAll, update]
  · rw [holdingsOf_alterAll listed]
    exact gains _

theorem gains_alter {ledger after : Ledger} {principal : Principal}
    {change : Holdings → Holdings} {gain : Principal → Gain}
    (h : ledger.alter principal change = .ok after)
    (gains : ∀ holdings, Holdings.Gains holdings (gain principal) (change holdings))
    (others : ∀ other, other ≠ principal → gain other = .nothing) :
    ledger.Gains gain after := by
  refine ⟨frame_of_alter h, fun other listed => ?_⟩
  rw [alter_of_lists change (lists_of_alter h)] at h
  cases h
  have keeps (entry : Entry) : (if entry.principal = principal then
      update change entry else entry).principal = entry.principal := by
    split <;> rfl
  rw [holdingsOf_map keeps, holdingsOf]
  cases found : ledger.entries.find? (·.principal = other) with
  | none =>
      obtain ⟨entry, mem, named⟩ := listed
      simpa [named] using List.find?_eq_none.mp found entry mem
  | some entry =>
      have named : entry.principal = other := by
        simpa using List.find?_some found
      by_cases same : other = principal
      · subst same
        simpa [named, update] using gains entry.holdings
      · simpa [named, same, others other same] using .refl entry.holdings

/-! ## Keys and messages -/

theorem gains_seedKey {ledger after : Ledger} {key : KeyDecl}
    (h : ledger.seedKey key = .ok after) :
    ledger.Gains (fun principal => { Gain.nothing with
      learned := fun name => key.GivenTo principal ∧ key.name.name = name })
      after := by
  have owned (toOwner : key.kind ≠ .publicKey) {before after : Ledger}
      {owner : String} (_ : owner ∈ key.ownerNames)
      (h : before.alter (.role owner) (.learn [key.name.name]) = .ok after) :
      before.Gains (fun principal => { Gain.nothing with
        learned := fun name => principal = .role owner ∧ key.name.name = name })
        after := by
    refine gains_alter h (fun holdings => ?_) (fun other different => ?_)
    · simpa [eq_comm] using Holdings.gains_learn key.name.name holdings
    · simp [Gain.nothing, different]
  unfold seedKey at h
  cases kind : key.kind with
  | publicKey =>
      simp only [kind] at h
      cases h
      have everybody : ledger.Gains _ (ledger.alterAll _) :=
        gains_alterAll (Holdings.gains_learn key.name.name)
      simpa [KeyDecl.GivenTo, kind, eq_comm] using everybody
  | sharedKey | privateKey =>
      simp only [kind] at h
      refine (Gains.foldlM (owned (by simp [kind])) h).of_eq fun principal => ?_
      simp [KeyDecl.GivenTo, kind, Gain.each, Gain.nothing,
        ← exists_and_right, and_assoc]

theorem gains_enterMessage {ledger after : Ledger} {message : Message}
    (h : ledger.enterMessage message = .ok after) :
    ledger.Gains (fun principal =>
      ⟨fun name => message.SentBy principal ∧ name ∈ message.body.occurrences,
        fun name => message.ReceivedBy principal ∧ message.body.Shows name,
        fun term =>
          (message.SentBy principal ∨ message.ReceivedBy principal) ∧
            message.body.Seals term⟩) after := by
  simp only [enterMessage, Outcome.bind_eq_ok] at h
  obtain ⟨sent, sending, received, receiving, overhearing⟩ := h
  have bySender : ledger.Gains (fun principal =>
      ⟨fun name => message.SentBy principal ∧ name ∈ message.body.occurrences,
        fun _ => False,
        fun term => message.SentBy principal ∧ message.body.Seals term⟩)
      sent := by
    refine gains_alter sending (fun holdings => ?_) fun other different => ?_
    · simpa [Message.SentBy] using holdings.gains_send message.body
    · simp [Gain.nothing, Message.SentBy, different]
  have byHearer {who : Principal} {before after : Ledger}
      (h : before.alter who (.receive message.body) = .ok after) :
      before.Gains (fun principal =>
        ⟨fun _ => False,
          fun name => principal = who ∧ message.body.Shows name,
          fun term => principal = who ∧ message.body.Seals term⟩) after := by
    refine gains_alter h (fun holdings => ?_) fun other different => ?_
    · simpa using holdings.gains_receive message.body
    · simp [Gain.nothing, different]
  refine ((bySender.trans (byHearer receiving)).trans
    (byHearer overhearing)).of_eq fun principal => ?_
  have hears : message.ReceivedBy principal ↔
      principal = .role message.receiver.name ∨ principal = .adversary := by
    cases principal <;> simp [Message.ReceivedBy, eq_comm]
  simp only [Gain.ext_iff, Gain.both, hears]
  refine ⟨fun name => ?_, fun name => ?_, fun term => ?_⟩ <;> tauto

/-! ## From a blank ledger -/

theorem frame_blank (principals : List Principal) :
    (blank principals).frame = (distinct principals).map fun principal =>
      (principal, principals.count principal) := by
  simp [frame, blank]

theorem lists_blank {principals : List Principal} {principal : Principal} :
    (blank principals).Lists principal ↔ principal ∈ principals := by
  simp [Lists, blank]

theorem visited_blank (principals : List Principal) :
    (blank principals).Visited := by
  intro entry mem
  obtain ⟨principal, listed, rfl⟩ := List.mem_map.mp mem
  exact List.count_pos_iff.mpr (mem_distinct.mp listed)

theorem holdingsOf_blank (principals : List Principal) (principal : Principal) :
    (blank principals).holdingsOf principal = .nothing := by
  refine holdingsOf_induction (P := (· = .nothing)) rfl ?_ principal
  intro entry mem
  obtain ⟨_, _, rfl⟩ := List.mem_map.mp mem
  rfl

theorem holdingsOf_of_mem {ledger : Ledger}
    (nodup : (ledger.frame.map Prod.fst).Nodup) {entry : Entry}
    (mem : entry ∈ ledger.entries) :
    ledger.holdingsOf entry.principal = entry.holdings := by
  obtain ⟨entries⟩ := ledger
  simp only [frame, List.map_map] at nodup mem
  simp only [holdingsOf]
  induction entries with
  | nil => cases mem
  | cons first entries ih =>
      rw [List.map_cons, List.nodup_cons] at nodup
      rcases List.mem_cons.mp mem with rfl | later
      · simp
      · have different : first.principal ≠ entry.principal := fun same =>
          nodup.1 (List.mem_map.mpr ⟨entry, later, same.symm⟩)
        simpa [List.find?_cons, different] using ih later nodup.2

end Ledger

/-! ## Whole protocols -/

namespace Protocol

def gain (protocol : Protocol) (config : Config) (principal : Principal) :
    Gain :=
  ⟨protocol.Authored principal, protocol.Told config principal,
    protocol.Sealed principal⟩

theorem role_mem_principals {protocol : Protocol} {role : String} :
    .role role ∈ protocol.principals ↔ role ∈ protocol.roleNames := by
  simp [principals]

theorem adversary_mem_principals (protocol : Protocol) :
    .adversary ∈ protocol.principals := by
  simp [principals]

end Protocol

namespace Ledger

variable {config : Config} {protocol : Protocol} {ledger : Ledger}

theorem observed_eq :
    observed config protocol =
      (if config.seedKeyOwners then
        protocol.keys.foldlM seedKey (blank protocol.principals)
      else pure (blank protocol.principals)) >>=
        protocol.messages.foldlM enterMessage := by
  unfold observed
  split <;> rfl

theorem gains_observed (h : observed config protocol = .ok ledger) :
    (blank protocol.principals).Gains (protocol.gain config) ledger := by
  rw [observed_eq, Outcome.bind_eq_ok] at h
  obtain ⟨seeded, seeding, h⟩ := h
  have messages := Gains.foldlM (fun _ entering => gains_enterMessage entering) h
  cases wanted : config.seedKeyOwners with
  | false =>
      simp only [wanted, Bool.false_eq_true, if_false, Outcome.pure_eq_ok]
        at seeding
      subst seeding
      refine messages.of_eq fun principal => ?_
      simp [Gain.ext_iff, Gain.each, Protocol.gain, Protocol.Authored,
        Protocol.Told, Protocol.Shown, Protocol.Seeded, Protocol.Sealed, wanted]
  | true =>
      simp only [wanted, if_true] at seeding
      have keys := Gains.foldlM (fun _ entering => gains_seedKey entering) seeding
      refine (keys.trans messages).of_eq fun principal => ?_
      simp [Gain.ext_iff, Gain.both, Gain.each, Gain.nothing, Protocol.gain,
        Protocol.Authored, Protocol.Told, Protocol.Shown, Protocol.Seeded,
        Protocol.Sealed, wanted, or_comm]

end Ledger

end Secrecy
