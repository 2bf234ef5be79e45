import Secrecy.Proofs.Outcome
import Secrecy.Scope.Resolution

/-!
# Roles in a scope

Only role declarations bring in roles, so from the keys on the roles of a scope
are the declared ones, and everybody whom a resolved protocol addresses is
among them.
-/

namespace Secrecy

namespace Scope

variable {scope after : Scope}

@[simp] theorem roles_empty : empty.roles = [] := rfl

theorem roles_bind (scope : Scope) (binding : Binding) :
    (scope.bind binding).roles =
      scope.roles ++ if binding.kind = .role then [binding.name] else [] := by
  simp only [roles, namesWith, bind, List.filter_append, List.map_append]
  congr 1
  by_cases role : binding.kind = .role <;> simp [role]

theorem roles_meet (scope : Scope) (step : Step) (identifier : Identifier) :
    (scope.meet step identifier).roles = scope.roles := by
  unfold meet
  split
  · rfl
  · simp [roles_bind]

theorem roles_resolve {step : Step} {body : Expr}
    (h : resolve step body scope = .ok after) : after.roles = scope.roles := by
  induction body generalizing scope after with
  | name identifier =>
      cases h
      exact roles_meet scope step identifier
  | concat left right line ihLeft ihRight =>
      obtain ⟨middle, first, second⟩ := Outcome.bind_eq_ok.mp h
      exact (ihRight second).trans (ihLeft first)
  | enc key message line ih | mac key message line ih
  | sign key message line ih =>
      obtain ⟨_, _, rest⟩ := Outcome.bind_eq_ok.mp h
      exact ih rest
  | hash inner line ih => exact ih h
  | verify key message signature line ihMessage ihSignature =>
      obtain ⟨_, _, rest⟩ := Outcome.bind_eq_ok.mp h
      obtain ⟨middle, first, second⟩ := Outcome.bind_eq_ok.mp rest
      exact (ihSignature second).trans (ihMessage first)
  | assign target value line ih =>
      obtain ⟨middle, first, second⟩ := Outcome.bind_eq_ok.mp h
      rw [← ih first]
      unfold assign at second
      split at second
      · cases second
      · cases second
        simp [roles_bind]

theorem roles_declareRole {role : Identifier}
    (h : scope.declareRole role = .ok after) :
    after.roles = scope.roles ++ [role.name] := by
  unfold declareRole at h
  split at h
  · cases h
  · cases h
    simp [roles_bind]

theorem roles_foldlM_declareRole {members : List Identifier}
    (h : members.foldlM declareRole scope = .ok after) :
    after.roles = scope.roles ++ namesOf members := by
  induction members generalizing scope with
  | nil =>
      cases h
      simp [namesOf]
  | cons role members ih =>
      rw [List.foldlM_cons, Outcome.bind_eq_ok] at h
      obtain ⟨middle, first, rest⟩ := h
      rw [ih rest, roles_declareRole first]
      simp [namesOf]

theorem requireRole_eq_ok {fault : Identifier → ScopeFault}
    {identifier : Identifier} :
    scope.requireRole fault identifier = .ok () ↔
      identifier.name ∈ scope.roles := by
  unfold requireRole
  split <;> simp_all

theorem roles_declareKey {key : KeyDecl}
    (h : scope.declareKey key = .ok after) :
    after.roles = scope.roles ∧
      ∀ owner ∈ key.ownerNames, owner ∈ scope.roles := by
  unfold declareKey at h
  split at h
  · cases h
  · obtain ⟨_, owned, rest⟩ := Outcome.bind_eq_ok.mp h
    cases rest
    refine ⟨by simp [roles_bind], ?_⟩
    intro name mem
    obtain ⟨owner, listed, rfl⟩ := List.mem_map.mp mem
    exact requireRole_eq_ok.mp (Outcome.forM_eq_ok.mp owned owner listed)

theorem roles_readMessage {message : Message} {index : Nat}
    (h : scope.readMessage message index = .ok after) :
    after.roles = scope.roles ∧ message.sender.name ∈ scope.roles ∧
      message.receiver.name ∈ scope.roles := by
  obtain ⟨_, sender, rest⟩ := Outcome.bind_eq_ok.mp h
  obtain ⟨_, receiver, rest⟩ := Outcome.bind_eq_ok.mp rest
  exact ⟨roles_resolve rest, requireRole_eq_ok.mp sender,
    requireRole_eq_ok.mp receiver⟩

theorem roles_readMessages {messages : List Message} {index : Nat}
    (h : readMessages index messages scope = .ok after) :
    after.roles = scope.roles ∧ ∀ message ∈ messages,
      message.sender.name ∈ scope.roles ∧
        message.receiver.name ∈ scope.roles := by
  induction messages generalizing index scope with
  | nil =>
      cases h
      exact ⟨rfl, by simp⟩
  | cons message messages ih =>
      obtain ⟨middle, first, rest⟩ := Outcome.bind_eq_ok.mp h
      obtain ⟨same, endpoints⟩ := roles_readMessage first
      obtain ⟨same', later⟩ := ih rest
      refine ⟨same'.trans same, ?_⟩
      rw [List.forall_mem_cons, ← same]
      exact ⟨same ▸ endpoints, later⟩

end Scope

namespace Protocol

variable {protocol : Protocol} {scope : Scope}

theorem phases_of_scope (h : protocol.scope = .ok scope) :
    ∃ roles declared, roles.roles = protocol.roleNames ∧
      protocol.roles.members.foldlM Scope.declareRole Scope.empty =
        .ok roles ∧
      protocol.keys.foldlM Scope.declareKey roles = .ok declared ∧
      Scope.readMessages 0 protocol.messages declared = .ok scope := by
  obtain ⟨roles, first, rest⟩ := Outcome.bind_eq_ok.mp h
  obtain ⟨declared, second, rest⟩ := Outcome.bind_eq_ok.mp rest
  obtain ⟨read, third, rest⟩ := Outcome.bind_eq_ok.mp rest
  obtain ⟨_, _, last⟩ := Outcome.bind_eq_ok.mp rest
  cases last
  exact ⟨roles, declared, Scope.roles_foldlM_declareRole first, first, second,
    third⟩

theorem owners_declared (h : protocol.scope = .ok scope) :
    ∀ key ∈ protocol.keys, ∀ owner ∈ key.ownerNames,
      owner ∈ protocol.roleNames := by
  obtain ⟨roles, declared, declaredRoles, _, second, _⟩ := phases_of_scope h
  intro key mem owner owns
  have keeps (before : Scope) (same : before.roles = protocol.roleNames)
      (key : KeyDecl) (_ : key ∈ protocol.keys) (after : Scope)
      (h : before.declareKey key = .ok after) :
      after.roles = protocol.roleNames :=
    (Scope.roles_declareKey h).1.trans same
  obtain ⟨before, after, same, declaring⟩ :=
    (Outcome.foldlM_invariant second declaredRoles keeps).2 key mem
  exact same ▸ (Scope.roles_declareKey declaring).2 owner owns

theorem endpoints_declared (h : protocol.scope = .ok scope) :
    ∀ message ∈ protocol.messages,
      message.sender.name ∈ protocol.roleNames ∧
        message.receiver.name ∈ protocol.roleNames := by
  obtain ⟨roles, declared, declaredRoles, _, second, third⟩ :=
    phases_of_scope h
  have declaredRoles' : declared.roles = protocol.roleNames :=
    (Outcome.foldlM_invariant second declaredRoles
      fun before same key _ after h => (Scope.roles_declareKey h).1.trans same).1
  exact declaredRoles' ▸ (Scope.roles_readMessages third).2

end Protocol

end Secrecy
