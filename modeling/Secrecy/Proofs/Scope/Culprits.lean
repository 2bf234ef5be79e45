import Secrecy.Proofs.Grammar.Naming
import Secrecy.Proofs.Outcome
import Secrecy.Scope.Resolution

/-!
# Culprits

Whatever is wrong with the scope of a protocol shows at an identifier that the
protocol has, on the line where it has it.
-/

namespace Secrecy

variable {scope : Scope} {fault : ScopeFault}

namespace Scope

theorem culprit_of_declareRole {role : Identifier}
    (h : scope.declareRole role = .error fault) : fault.culprit = role := by
  unfold declareRole at h
  split at h
  · cases h
    rfl
  · cases h

theorem culprit_of_requireRole {wrong : Identifier → ScopeFault}
    {identifier : Identifier}
    (names : (wrong identifier).culprit = identifier)
    (h : scope.requireRole wrong identifier = .error fault) :
    fault.culprit = identifier := by
  unfold requireRole at h
  split at h
  · cases h
  · cases h
    exact names

theorem culprit_of_requireRoles {wrong : Identifier → ScopeFault}
    {identifiers : List Identifier}
    (names : ∀ identifier, (wrong identifier).culprit = identifier)
    (h : identifiers.forM (scope.requireRole wrong) = .error fault) :
    fault.culprit ∈ identifiers := by
  obtain ⟨identifier, mem, wrong⟩ := Outcome.exists_of_forM_eq_error h
  rwa [culprit_of_requireRole (names identifier) wrong]

theorem culprit_of_declareKey {key : KeyDecl}
    (h : scope.declareKey key = .error fault) :
    fault.culprit ∈ key.identifiers := by
  unfold declareKey at h
  split at h
  · cases h
    exact List.mem_cons_self
  · rcases Outcome.bind_eq_error.mp h with unowned | ⟨_, _, ⟨⟩⟩
    exact List.mem_cons_of_mem _ (culprit_of_requireRoles (fun _ => rfl) unowned)

theorem culprit_of_checkKey {word : String} {key : Identifier}
    (h : scope.checkKey word key = .error fault) : fault.culprit = key := by
  unfold checkKey at h
  split at h
  · cases h
    rfl
  · split at h
    · cases h
      rfl
    · cases h

theorem culprit_of_assign {step : Step} {target : Identifier}
    (h : scope.assign step target = .error fault) : fault.culprit = target := by
  unfold assign at h
  split at h
  · cases h
    rfl
  · cases h

theorem culprit_of_resolve {step : Step} {body : Expr}
    (h : resolve step body scope = .error fault) :
    fault.culprit ∈ body.written := by
  induction body generalizing scope with
  | name identifier => cases h
  | concat left right line ihLeft ihRight =>
      rcases Outcome.bind_eq_error.mp h with first | ⟨_, _, second⟩
      · exact List.mem_append_left _ (ihLeft first)
      · exact List.mem_append_right _ (ihRight second)
  | enc key message line ih | mac key message line ih
  | sign key message line ih =>
      rcases Outcome.bind_eq_error.mp h with unknown | ⟨_, _, rest⟩
      · rw [culprit_of_checkKey unknown]
        exact List.mem_cons_self
      · exact List.mem_cons_of_mem _ (ih rest)
  | hash inner line ih => exact ih h
  | verify key message signature line ihMessage ihSignature =>
      rcases Outcome.bind_eq_error.mp h with unknown | ⟨_, _, rest⟩
      · rw [culprit_of_checkKey unknown]
        exact List.mem_cons_self
      · apply List.mem_cons_of_mem
        rcases Outcome.bind_eq_error.mp rest with first | ⟨_, _, second⟩
        · exact List.mem_append_left _ (ihMessage first)
        · exact List.mem_append_right _ (ihSignature second)
  | assign target value line ih =>
      rcases Outcome.bind_eq_error.mp h with first | ⟨_, _, bound⟩
      · exact List.mem_cons_of_mem _ (ih first)
      · rw [culprit_of_assign bound]
        exact List.mem_cons_self

theorem culprit_of_readMessage {message : Message} {index : Nat}
    (h : scope.readMessage message index = .error fault) :
    fault.culprit ∈ message.identifiers := by
  rcases Outcome.bind_eq_error.mp h with sender | ⟨_, _, rest⟩
  · rw [culprit_of_requireRole rfl sender]
    exact List.mem_cons_self
  · apply List.mem_cons_of_mem
    rcases Outcome.bind_eq_error.mp rest with receiver | ⟨_, _, body⟩
    · rw [culprit_of_requireRole rfl receiver]
      exact List.mem_cons_self
    · exact List.mem_cons_of_mem _ (culprit_of_resolve body)

theorem culprit_of_readMessages {messages : List Message} {index : Nat}
    (h : readMessages index messages scope = .error fault) :
    fault.culprit ∈ messages.flatMap Message.identifiers := by
  induction messages generalizing index scope with
  | nil => cases h
  | cons message messages ih =>
      rw [List.flatMap_cons]
      rcases Outcome.bind_eq_error.mp h with here | ⟨_, _, later⟩
      · exact List.mem_append_left _ (culprit_of_readMessage here)
      · exact List.mem_append_right _ (ih later)

theorem culprit_of_checkAssertion {assertion : Assertion}
    (h : scope.checkAssertion assertion = .error fault) :
    fault.culprit ∈ assertion.identifiers := by
  unfold checkAssertion at h
  split at h
  · cases h
    exact List.mem_cons_self
  · exact List.mem_cons_of_mem _ (culprit_of_requireRoles (fun _ => rfl) h)

end Scope

namespace Protocol

variable {p : Protocol}

theorem culprit_of_scope (h : p.scope = .error fault) :
    fault.culprit ∈ p.identifiers := by
  simp only [identifiers, List.mem_append]
  rcases Outcome.bind_eq_error.mp h with roles | ⟨_, _, h⟩
  · obtain ⟨role, mem, _, duplicate⟩ := Outcome.exists_of_foldlM_eq_error roles
    rw [Scope.culprit_of_declareRole duplicate]
    exact .inl (.inl (.inl mem))
  rcases Outcome.bind_eq_error.mp h with keys | ⟨_, _, h⟩
  · obtain ⟨key, mem, _, wrong⟩ := Outcome.exists_of_foldlM_eq_error keys
    exact .inl (.inl (.inr (List.mem_flatMap.mpr
      ⟨key, mem, Scope.culprit_of_declareKey wrong⟩)))
  rcases Outcome.bind_eq_error.mp h with messages | ⟨_, _, h⟩
  · exact .inl (.inr (Scope.culprit_of_readMessages messages))
  rcases Outcome.bind_eq_error.mp h with assertions | ⟨_, _, ⟨⟩⟩
  obtain ⟨assertion, mem, wrong⟩ := Outcome.exists_of_forM_eq_error assertions
  exact .inr (List.mem_flatMap.mpr
    ⟨assertion, mem, Scope.culprit_of_checkAssertion wrong⟩)

end Protocol

end Secrecy
