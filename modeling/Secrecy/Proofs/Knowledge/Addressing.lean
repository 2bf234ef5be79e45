import Secrecy.Proofs.Knowledge.Entering

/-!
# Whom keys and messages address

Entering looks up the principals that keys and messages name, and fails for no
other reason than that one of them has no entry.  As no entry is ever added,
the first such name is that of the fault, and nothing after it matters.
-/

namespace Secrecy

namespace Ledger

def missing? (ledger : Ledger) (names : List String) : Option String :=
  names.find? (.role · ∉ ledger.frame.map Prod.fst)

variable {before after : Ledger}

theorem missing?_of_frame_eq (framed : after.frame = before.frame)
    (names : List String) : after.missing? names = before.missing? names := by
  rw [missing?, framed, missing?]

theorem missing?_append (ledger : Ledger) (names others : List String) :
    ledger.missing? (names ++ others) =
      (ledger.missing? names).or (ledger.missing? others) :=
  List.find?_append

/--
A step that looks up some roles in order, and perhaps the adversary.  It leaves
the entries in place, and fails at the first role that has none.
-/
structure LooksUp (step : Ledger → Except AnalysisFault Ledger)
    (names : List String) : Prop where
  frame {before after : Ledger} (h : step before = .ok after) :
    after.frame = before.frame
  fails {before : Ledger} (overheard : before.Lists .adversary)
    (fault : AnalysisFault) : step before = .error fault ↔
      ∃ name, before.missing? names = some name ∧ fault = .undeclared name

section LooksUp

variable {step next : Ledger → Except AnalysisFault Ledger}
  {names others : List String}

theorem looksUp_ok {change : Ledger → Ledger}
    (keeps : ∀ ledger, (change ledger).frame = ledger.frame) :
    LooksUp (fun ledger => .ok (change ledger)) [] where
  frame h := by
    cases h
    exact keeps _
  fails _ fault := by simp [missing?]

theorem LooksUp.bind (h : LooksUp step names) (h' : LooksUp next others) :
    LooksUp (fun ledger => step ledger >>= next) (names ++ others) where
  frame reached := by
    obtain ⟨middle, first, second⟩ := Outcome.bind_eq_ok.mp reached
    exact (h'.frame second).trans (h.frame first)
  fails {before} overheard fault := by
    rw [Outcome.bind_eq_error, h.fails overheard, missing?_append]
    cases outcome : step before with
    | error other =>
        obtain ⟨name, missing, -⟩ := (h.fails overheard other).mp outcome
        simp [missing]
    | ok middle =>
        have framed := h.frame outcome
        have none : before.missing? names = none := by
          refine Option.eq_none_iff_forall_ne_some.mpr fun name missing => ?_
          have failed := (h.fails overheard _).mpr ⟨name, missing, rfl⟩
          rw [outcome] at failed
          cases failed
        have rest := h'.fails ((lists_iff_of_frame_eq framed).mpr overheard)
          fault
        rw [missing?_of_frame_eq framed] at rest
        simpa [none] using rest

theorem LooksUp.foldlM {α : Type}
    {enter : Ledger → α → Except AnalysisFault Ledger}
    {names : α → List String} {items : List α}
    (one : ∀ item ∈ items, LooksUp (enter · item) (names item)) :
    LooksUp (items.foldlM enter) (items.flatMap names) := by
  induction items with
  | nil => exact looksUp_ok fun _ => rfl
  | cons item items ih =>
      have rest := ih fun other mem => one other (List.mem_cons_of_mem _ mem)
      simpa only [List.foldlM_cons, List.flatMap_cons] using
        (one item List.mem_cons_self).bind rest

theorem looksUp_alter (role : String) (change : Holdings → Holdings) :
    LooksUp (fun ledger => ledger.alter (.role role) change) [role] where
  frame := frame_of_alter
  fails {before} _ fault := by
    by_cases listed : before.Lists (.role role)
    · have there := lists_iff_mem_frame.mp listed
      simp only [alter_of_lists change listed, missing?, List.find?_singleton,
        there, not_true_eq_false, decide_false, Bool.false_eq_true, if_false]
      constructor
      · nofun
      · nofun
    · have absent := mt lists_iff_mem_frame.mpr listed
      have fails : before.alter (.role role) change =
          .error (.undeclared role) := by
        refine if_neg ?_
        simpa [Lists] using listed
      simp only [fails, missing?, List.find?_singleton, absent,
        not_false_eq_true, decide_true, if_true, Except.error.injEq,
        Option.some.injEq, exists_eq_left', eq_comm]

theorem looksUp_overhear (change : Holdings → Holdings) :
    LooksUp (fun ledger => ledger.alter .adversary change) [] where
  frame := frame_of_alter
  fails overheard fault := by
    simp [alter_of_lists change overheard, missing?]

end LooksUp

end Ledger

/-! ## Keys and messages -/

def KeyDecl.recipients (key : KeyDecl) : List String :=
  match key.kind with
  | .publicKey => []
  | .sharedKey | .privateKey => key.ownerNames

def Message.endpoints (message : Message) : List String :=
  [message.sender.name, message.receiver.name]

/-- All that are named as roles, in the order in which they are looked up. -/
def Protocol.addressees (protocol : Protocol) (config : Config) :
    List String :=
  (if config.seedKeyOwners then protocol.keys.flatMap KeyDecl.recipients
    else []) ++ protocol.messages.flatMap Message.endpoints

namespace Ledger

theorem looksUp_seedKey (key : KeyDecl) :
    LooksUp (seedKey · key) key.recipients := by
  unfold seedKey KeyDecl.recipients
  cases key.kind with
  | publicKey =>
      refine looksUp_ok fun ledger => ?_
      simp [frame, alterAll, update]
  | sharedKey | privateKey =>
      simpa using LooksUp.foldlM fun owner _ => looksUp_alter owner _

theorem looksUp_enterMessage (message : Message) :
    LooksUp (enterMessage · message) message.endpoints := by
  have sending := looksUp_alter message.sender.name (.send message.body)
  have receiving :=
    looksUp_alter message.receiver.name (.receive message.body)
  exact sending.bind (receiving.bind (looksUp_overhear _))

variable {config : Config} {protocol : Protocol}

theorem missing?_blank (names : List String) :
    (blank protocol.principals).missing? names =
      names.find? (· ∉ protocol.roleNames) := by
  simp [missing?, frame_blank, Function.comp_def, Protocol.principals]

theorem observed_eq_error {fault : AnalysisFault} :
    observed config protocol = .error fault ↔
      ∃ name, (protocol.addressees config).find? (· ∉ protocol.roleNames) =
        some name ∧ fault = .undeclared name := by
  have seeding : LooksUp
      (fun ledger => if config.seedKeyOwners then
        protocol.keys.foldlM seedKey ledger else pure ledger)
      (if config.seedKeyOwners then protocol.keys.flatMap KeyDecl.recipients
        else []) := by
    cases config.seedKeyOwners with
    | false => exact looksUp_ok fun _ => rfl
    | true => exact LooksUp.foldlM fun key _ => looksUp_seedKey key
  have entering : LooksUp (protocol.messages.foldlM enterMessage)
      (protocol.messages.flatMap Message.endpoints) :=
    .foldlM fun message _ => looksUp_enterMessage message
  have overheard : (blank protocol.principals).Lists .adversary :=
    lists_blank.mpr protocol.adversary_mem_principals
  rw [observed_eq, ← missing?_blank]
  exact (seeding.bind entering).fails overheard fault

end Ledger

namespace Protocol

variable {config : Config} {protocol : Protocol}

/-- Nobody is addressed who is not declared. -/
structure Addressed (protocol : Protocol) (config : Config) : Prop where
  senders : ∀ message ∈ protocol.messages,
    message.sender.name ∈ protocol.roleNames
  receivers : ∀ message ∈ protocol.messages,
    message.receiver.name ∈ protocol.roleNames
  owners : config.seedKeyOwners = true → ∀ key ∈ protocol.keys,
    key.kind ≠ .publicKey → ∀ owner ∈ key.ownerNames,
      owner ∈ protocol.roleNames

theorem addressed_iff : protocol.Addressed config ↔
    ∀ name ∈ protocol.addressees config, name ∈ protocol.roleNames := by
  have recipient {key : KeyDecl} {name : String} : name ∈ key.recipients ↔
      key.kind ≠ .publicKey ∧ name ∈ key.ownerNames := by
    unfold KeyDecl.recipients
    cases key.kind <;> simp
  have addressee {name : String} : name ∈ protocol.addressees config ↔
      (config.seedKeyOwners = true ∧ ∃ key ∈ protocol.keys,
        key.kind ≠ .publicKey ∧ name ∈ key.ownerNames) ∨
      ∃ message ∈ protocol.messages,
        name = message.sender.name ∨ name = message.receiver.name := by
    unfold addressees
    cases config.seedKeyOwners <;> simp [recipient, Message.endpoints]
  simp only [addressee]
  constructor
  · rintro ⟨senders, receivers, owners⟩ name
      (⟨seeds, key, mem, unshared, owns⟩ | ⟨message, mem, rfl | rfl⟩)
    · exact owners seeds key mem unshared name owns
    · exact senders message mem
    · exact receivers message mem
  · intro each
    exact ⟨fun message mem => each _ (.inr ⟨message, mem, .inl rfl⟩),
      fun message mem => each _ (.inr ⟨message, mem, .inr rfl⟩),
      fun seeds key mem unshared owner owns =>
        each owner (.inl ⟨seeds, key, mem, unshared, owns⟩)⟩

end Protocol

namespace Ledger

variable {config : Config} {protocol : Protocol}

theorem exists_fault_iff :
    (∃ fault, observed config protocol = .error fault) ↔
      ¬ protocol.Addressed config := by
  simp only [observed_eq_error, Protocol.addressed_iff]
  constructor
  · rintro ⟨_, name, found, rfl⟩ each
    have foreign : name ∉ protocol.roleNames := by
      simpa using List.find?_some found
    exact foreign (each name (List.mem_of_find?_eq_some found))
  · intro notAll
    cases found : (protocol.addressees config).find?
        (· ∉ protocol.roleNames) with
    | none => exact absurd (by simpa using found) notAll
    | some name => exact ⟨_, name, rfl, rfl⟩

theorem exists_observed (addressed : protocol.Addressed config) :
    ∃ ledger, observed config protocol = .ok ledger := by
  refine Classical.byContradiction fun none => ?_
  exact exists_fault_iff.mp (Outcome.exists_error.mpr none) addressed

end Ledger

end Secrecy
