import Mathlib.Order.Bounds.Basic
import Mathlib.Tactic.IntervalCases
import Secrecy.Proofs.Scope.Sightings

/-!
# The first fault of scope

A protocol is read from its beginning, and nothing that follows a message
changes what was made of it.  So a fault shows at the first message that has
one, whatever comes after, and up to that message bindings are only added.
-/

namespace Secrecy

namespace Scope

variable {scope after : Scope}

theorem readMessages_append (early late : List Message) (index : Nat) :
    readMessages index (early ++ late) scope =
      readMessages index early scope >>=
        readMessages (index + early.length) late := by
  induction early generalizing index scope with
  | nil => rfl
  | cons message early ih =>
      simp only [List.cons_append, readMessages, List.length_cons, bind_assoc]
      congr 1
      funext middle
      rw [ih, Nat.add_right_comm, Nat.add_assoc]

theorem bindings_readMessage {message : Message} {index : Nat}
    (h : scope.readMessage message index = .ok after) :
    scope.bindings <+: after.bindings := by
  obtain ⟨_, _, rest⟩ := Outcome.bind_eq_ok.mp h
  obtain ⟨_, _, resolved⟩ := Outcome.bind_eq_ok.mp rest
  rw [eq_noteAll_of_resolve resolved]
  exact bindings_noteAll _

theorem bindings_readMessages {messages : List Message} {index : Nat}
    (h : readMessages index messages scope = .ok after) :
    scope.bindings <+: after.bindings := by
  induction messages generalizing index scope with
  | nil =>
      cases h
      exact List.prefix_refl _
  | cons message messages ih =>
      obtain ⟨middle, first, rest⟩ := Outcome.bind_eq_ok.mp h
      exact (bindings_readMessage first).trans (ih rest)

end Scope

namespace Protocol

variable {p q : Protocol} {scope after : Scope} {fault : ScopeFault}

def declaredScope (p : Protocol) : Except ScopeFault Scope :=
  p.roles.members.foldlM Scope.declareRole Scope.empty >>=
    p.keys.foldlM Scope.declareKey

/-- The declarations and the first `n` messages, of which nothing is asserted. -/
def opening (n : Nat) (p : Protocol) : Protocol :=
  { p.upTo n with assertions := [] }

/-- The other protocol declares the same and begins with the same messages. -/
structure Opens (p q : Protocol) : Prop where
  roles : q.roles = p.roles
  keys : q.keys = p.keys
  messages : p.messages <+: q.messages

theorem opening_opens (p : Protocol) (n : Nat) : (p.opening n).Opens p :=
  ⟨rfl, rfl, List.take_prefix n _⟩

theorem opening_opens_opening (p : Protocol) {k n : Nat} (le : k ≤ n) :
    (p.opening k).Opens (p.opening n) :=
  ⟨rfl, rfl, List.take_prefix_take_left le⟩

def readScope (p : Protocol) : Except ScopeFault Scope :=
  p.declaredScope >>= Scope.readMessages 0 p.messages

theorem scope_eq (p : Protocol) :
    p.scope = p.readScope >>= fun scope =>
      p.assertions.forM scope.checkAssertion >>= fun _ => pure scope := by
  simp only [scope, readScope, declaredScope, bind_assoc]

theorem scope_eq_readScope (silent : p.assertions = []) :
    p.scope = p.readScope := by
  rw [scope_eq, silent]
  exact bind_pure _

theorem scope_opening (p : Protocol) (n : Nat) :
    (p.opening n).scope = (p.opening n).readScope :=
  scope_eq_readScope rfl

theorem Opens.readScope_eq (opens : p.Opens q) :
    ∃ later, q.readScope =
      p.readScope >>= Scope.readMessages p.messages.length later := by
  obtain ⟨later, split⟩ := opens.messages
  refine ⟨later, ?_⟩
  have declared : q.declaredScope = p.declaredScope := by
    rw [declaredScope, opens.roles, opens.keys, declaredScope]
  rw [readScope, declared, ← split, readScope, bind_assoc]
  congr 1
  funext middle
  rw [Scope.readMessages_append, Nat.zero_add]

/-- Neither messages that follow nor assertions mask a fault. -/
theorem Opens.scope_eq_error (opens : p.Opens q)
    (rejected : p.readScope = .error fault) : q.scope = .error fault := by
  obtain ⟨later, goesOn⟩ := opens.readScope_eq
  rw [scope_eq, goesOn, rejected]
  rfl

theorem Opens.bindings (opens : p.Opens q) (first : p.readScope = .ok scope)
    (whole : q.readScope = .ok after) :
    scope.bindings <+: after.bindings := by
  obtain ⟨later, goesOn⟩ := opens.readScope_eq
  rw [goesOn, first] at whole
  exact Scope.bindings_readMessages whole

/--
The first problem is the one that is told.  Its message and line are those of
the shortest opening that has one, and shorter openings are only added to.
-/
theorem scope_first_fault {p : Protocol} {n : Nat}
    (first : IsLeast {n | ∃ fault, (p.opening n).scope = .error fault} n) :
    ∃ fault, (p.opening n).scope = .error fault ∧
      (∀ q, (p.opening n).Opens q → q.scope = .error fault) ∧
      ∀ k < n, ∃ scope, (p.opening k).scope = .ok scope ∧
        ∀ m after, k ≤ m → (p.opening m).scope = .ok after →
          scope.bindings <+: after.bindings := by
  obtain ⟨⟨fault, rejected⟩, least⟩ := first
  refine ⟨fault, rejected, fun q opens => ?_, fun k before => ?_⟩
  · exact opens.scope_eq_error (p.scope_opening n ▸ rejected)
  · cases outcome : (p.opening k).scope with
    | error earlier =>
        have le : n ≤ k := least ⟨earlier, outcome⟩
        omega
    | ok scope =>
        refine ⟨scope, rfl, fun m after le accepted => ?_⟩
        rw [scope_opening] at outcome accepted
        exact (p.opening_opens_opening le).bindings outcome accepted

def stranded : Protocol :=
  ⟨⟨[⟨"A", 1⟩, ⟨"B", 1⟩], 1⟩, [],
    [⟨⟨"A", 2⟩, ⟨"B", 2⟩, .name ⟨"n", 2⟩, 2⟩,
      ⟨⟨"B", 3⟩, ⟨"A", 3⟩, .enc ⟨"k", 3⟩ (.name ⟨"n", 3⟩) 3, 3⟩,
      ⟨⟨"C", 4⟩, ⟨"A", 4⟩, .name ⟨"n", 4⟩, 4⟩],
    [⟨⟨"x", 5⟩, none, 5⟩]⟩

theorem isLeast_stranded :
    IsLeast {n | ∃ fault, (stranded.opening n).scope = .error fault} 2 := by
  refine ⟨⟨.undeclaredKey ⟨"k", 3⟩ "Enc", by decide⟩, ?_⟩
  rintro n ⟨fault, rejected⟩
  by_contra less
  have accepted : ∃ scope, (stranded.opening n).scope = .ok scope := by
    interval_cases n
    · exact ⟨_, rfl⟩
    · exact ⟨_, rfl⟩
  exact Outcome.exists_error.mp ⟨fault, rejected⟩ accepted

theorem scope_first_fault_stranded :
    IsLeast {n | ∃ fault, (stranded.opening n).scope = .error fault} 2 ∧
      stranded.scope = .error (.undeclaredKey ⟨"k", 3⟩ "Enc") ∧
      ∃ scope, (stranded.opening 0).scope = .ok scope ∧
        scope.bindings <+:
          [⟨"A", .role, 1⟩, ⟨"B", .role, 1⟩, ⟨"n", .fresh "A" 0, 2⟩] := by
  obtain ⟨fault, rejected, later, shorter⟩ :=
    scope_first_fault isLeast_stranded
  have told : (stranded.opening 2).scope =
      .error (.undeclaredKey ⟨"k", 3⟩ "Enc") := by decide
  rw [told] at rejected
  cases rejected
  obtain ⟨scope, accepted, grows⟩ := shorter 0 (by decide)
  exact ⟨isLeast_stranded, later _ (stranded.opening_opens 2), scope,
    accepted, grows 1 ⟨_⟩ (by decide) (by decide)⟩

end Protocol

end Secrecy
