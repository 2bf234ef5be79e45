import Secrecy.Proofs.Protocol.Layout
import Secrecy.Proofs.Scope.Roles
import Secrecy.Proofs.Scope.WellScoped

/-!
# Resolving exactly the well-scoped protocols

All that resolving asks of a scope is which names it binds and which of those
are roles.  Step by step the names that are bound grow by those that are read,
so the checks of a body are those of its reading in order.
-/

namespace Secrecy

namespace Scope

/-! ## What a scope knows -/

/-- A scope that binds just the known names, and of those the roles as roles. -/
structure Knows (scope : Scope) (roles known : List String) : Prop where
  unbound (name : String) : scope.lookup name = none ↔ name ∉ known
  role (name : String) (binding : Binding)
    (found : scope.lookup name = some binding) :
    binding.kind = .role ↔ name ∈ roles
  mem_roles (name : String) : name ∈ scope.roles ↔ name ∈ roles
  roles_known : roles ⊆ known

variable {scope : Scope} {roles known : List String}

theorem knows_empty : empty.Knows [] [] where
  unbound name := by simp
  role name binding found := by cases found
  mem_roles name := by simp
  roles_known := List.nil_subset _

namespace Knows

theorem bound (h : scope.Knows roles known) {name : String}
    {binding : Binding} (found : scope.lookup name = some binding) :
    name ∈ known := by
  refine Decidable.byContradiction fun unknown => ?_
  rw [(h.unbound name).mpr unknown] at found
  cases found

theorem congr {known' : List String} (h : scope.Knows roles known)
    (same : ∀ name, name ∈ known' ↔ name ∈ known) :
    scope.Knows roles known' where
  unbound name := by rw [h.unbound, same]
  role := h.role
  mem_roles := h.mem_roles
  roles_known name mem := (same name).mpr (h.roles_known mem)

theorem bind (h : scope.Knows roles known) {binding : Binding}
    (new : binding.name ∉ known) :
    (scope.bind binding).Knows
      (roles ++ if binding.kind = .role then [binding.name] else [])
      (known ++ [binding.name]) where
  unbound name := by
    rw [lookup_bind, Option.or_eq_none_iff, h.unbound]
    simp [eq_comm]
  role name found isFound := by
    rw [lookup_bind] at isFound
    cases earlier : scope.lookup name with
    | none =>
        rw [earlier, Option.none_or] at isFound
        split at isFound
        · next same =>
            cases isFound
            subst same
            have noRole : binding.name ∉ roles := mt (@h.roles_known _) new
            simp [noRole]
        · cases isFound
    | some bound =>
        rw [earlier, Option.some_or, Option.some.injEq] at isFound
        subst isFound
        have different : name ≠ binding.name := by
          rintro rfl
          exact new (h.bound earlier)
        rw [h.role name bound earlier]
        split <;> simp [different]
  mem_roles name := by
    rw [roles_bind, List.mem_append, h.mem_roles, List.mem_append]
  roles_known name mem := by
    rcases List.mem_append.mp mem with old | added
    · exact List.mem_append_left _ (h.roles_known old)
    · split at added
      · exact List.mem_append_right _ added
      · cases added

theorem bind_other (h : scope.Knows roles known) {binding : Binding}
    (new : binding.name ∉ known) (other : binding.kind ≠ .role) :
    (scope.bind binding).Knows roles (known ++ [binding.name]) := by
  have bound := h.bind new
  rwa [if_neg other, List.append_nil] at bound

end Knows

/-! ## Steps -/

/-- A step that ends well exactly if `fits`, and what is known then. -/
structure Yields (outcome : Except ScopeFault Scope) (fits : Prop)
    (roles known : List String) : Prop where
  ok_iff : (∃ after, outcome = .ok after) ↔ fits
  knows (after : Scope) (h : outcome = .ok after) : after.Knows roles known

namespace Yields

variable {outcome : Except ScopeFault Scope} {fits fits' : Prop}
  {roles' known' : List String}

theorem ok (h : scope.Knows roles known) :
    Yields (.ok scope) True roles known where
  ok_iff := iff_true_intro ⟨scope, rfl⟩
  knows after same := by
    cases same
    exact h

theorem error {fault : ScopeFault} (h : ¬ fits) :
    Yields (.error fault) fits roles known where
  ok_iff := iff_of_false nofun h
  knows _ := nofun

theorem of_iff (h : Yields outcome fits roles known) (same : fits ↔ fits') :
    Yields outcome fits' roles known :=
  ⟨h.ok_iff.trans same, h.knows⟩

theorem bind {next : Scope → Except ScopeFault Scope}
    (h : Yields outcome fits roles known)
    (h' : ∀ middle : Scope, middle.Knows roles known →
      Yields (next middle) fits' roles' known') :
    Yields (outcome >>= next) (fits ∧ fits') roles' known' where
  ok_iff := by
    rw [← h.ok_iff]
    constructor
    · rintro ⟨after, reached⟩
      obtain ⟨middle, first, second⟩ := Outcome.bind_eq_ok.mp reached
      have rest := h' middle (h.knows middle first)
      exact ⟨⟨middle, first⟩, rest.ok_iff.mp ⟨after, second⟩⟩
    · rintro ⟨⟨middle, first⟩, holds⟩
      have rest := h' middle (h.knows middle first)
      obtain ⟨after, second⟩ := rest.ok_iff.mpr holds
      exact ⟨after, Outcome.bind_eq_ok.mpr ⟨middle, first, second⟩⟩
  knows after reached := by
    obtain ⟨middle, first, second⟩ := Outcome.bind_eq_ok.mp reached
    exact (h' middle (h.knows middle first)).knows after second

theorem check {check : Except ScopeFault Unit} {passes : Prop}
    (h : check = .ok () ↔ passes)
    (h' : passes → Yields outcome fits roles known) :
    Yields (check >>= fun _ => outcome) (passes ∧ fits) roles known where
  ok_iff := by
    constructor
    · rintro ⟨after, reached⟩
      obtain ⟨⟨⟩, passed, rest⟩ := Outcome.bind_eq_ok.mp reached
      have passes := h.mp passed
      exact ⟨passes, (h' passes).ok_iff.mp ⟨after, rest⟩⟩
    · rintro ⟨passes, holds⟩
      obtain ⟨after, rest⟩ := (h' passes).ok_iff.mpr holds
      exact ⟨after, Outcome.bind_eq_ok.mpr ⟨(), h.mpr passes, rest⟩⟩
  knows after reached := by
    obtain ⟨⟨⟩, passed, rest⟩ := Outcome.bind_eq_ok.mp reached
    exact (h' (h.mp passed)).knows after rest

end Yields

/-! ## Bodies -/

open Mention in
/-- A step that reads mentions in order and knows their names afterwards. -/
def Reads (outcome : Except ScopeFault Scope) (roles known : List String)
    (mentions : List Mention) : Prop :=
  Yields outcome (InOrder roles known mentions) roles
    (known ++ mentions.map name)

theorem Reads.bind {outcome : Except ScopeFault Scope}
    {next : Scope → Except ScopeFault Scope} {mentions others : List Mention}
    (h : Reads outcome roles known mentions)
    (h' : ∀ middle : Scope,
      middle.Knows roles (known ++ mentions.map Mention.name) →
      Reads (next middle) roles (known ++ mentions.map Mention.name) others) :
    Reads (outcome >>= next) roles known (mentions ++ others) := by
  unfold Reads
  rw [List.map_append, ← List.append_assoc]
  exact (Yields.bind h h').of_iff Mention.inOrder_append.symm

theorem reads_meet (h : scope.Knows roles known) (step : Step)
    (identifier : Identifier) :
    Reads (.ok (scope.meet step identifier)) roles known
      [.plain identifier.name] := by
  have met : (scope.meet step identifier).Knows roles
      (known ++ [identifier.name]) := by
    unfold meet
    cases found : scope.lookup identifier.name with
    | none => exact h.bind_other ((h.unbound _).mp found) (by simp)
    | some binding =>
        refine h.congr fun name => ?_
        simp only [List.mem_append, List.mem_singleton, or_iff_left_iff_imp]
        rintro rfl
        exact h.bound found
  exact (Yields.ok met).of_iff
    (iff_of_true trivial (Mention.inOrder_singleton.mpr trivial))

theorem reads_assign (h : scope.Knows roles known) (step : Step)
    (target : Identifier) :
    Reads (scope.assign step target) roles known [.target target.name] := by
  unfold Reads assign
  rw [Mention.inOrder_singleton]
  cases found : scope.lookup target.name with
  | none =>
      have new : target.name ∉ known := (h.unbound _).mp found
      exact (Yields.ok (h.bind_other new (by simp))).of_iff
        (iff_of_true trivial new)
  | some existing => exact Yields.error fun new => new (h.bound found)

theorem checkKey_eq_ok (h : scope.Knows roles known) {word : String}
    {key : Identifier} :
    scope.checkKey word key = .ok () ↔
      (Mention.key key.name).Fits roles known := by
  unfold checkKey Mention.Fits
  cases found : scope.lookup key.name with
  | none =>
      have unknown := (h.unbound key.name).mp found
      simp [unknown]
  | some binding =>
      have bound := h.bound found
      simp only [bound, and_true, ← h.role key.name binding found]
      split <;> simp_all

theorem reads_keyed (h : scope.Knows roles known) {word : String}
    {key : Identifier} {outcome : Except ScopeFault Scope}
    {mentions : List Mention}
    (h' : scope.Knows roles (known ++ [key.name]) →
      Reads outcome roles (known ++ [key.name]) mentions) :
    Reads (scope.checkKey word key >>= fun _ => outcome) roles known
      (.key key.name :: mentions) := by
  have rest (fits : (Mention.key key.name).Fits roles known) :
      Reads outcome roles (known ++ [key.name]) mentions := by
    refine h' (h.congr fun name => ?_)
    simp only [List.mem_append, List.mem_singleton, or_iff_left_iff_imp]
    rintro rfl
    exact fits.2
  unfold Reads at rest ⊢
  rw [List.append_assoc] at rest
  exact (Yields.check (checkKey_eq_ok h) rest).of_iff
    Mention.inOrder_cons.symm

theorem reads_resolve (step : Step) (body : Expr)
    (h : scope.Knows roles known) :
    Reads (resolve step body scope) roles known body.reading := by
  induction body generalizing scope known with
  | name identifier => exact reads_meet h step identifier
  | concat left right line ihLeft ihRight =>
      exact (ihLeft h).bind fun _ knows => ihRight knows
  | enc key message line ih | mac key message line ih
  | sign key message line ih => exact reads_keyed h ih
  | hash inner line ih => exact ih h
  | verify key message signature line ihMessage ihSignature =>
      exact reads_keyed h fun knows =>
        (ihMessage knows).bind fun _ knows => ihSignature knows
  | assign target value line ih =>
      exact (ih h).bind fun _ knows => reads_assign knows step target

/-! ## Messages -/

theorem requireRole_iff (h : scope.Knows roles known)
    {fault : Identifier → ScopeFault} {identifier : Identifier} :
    scope.requireRole fault identifier = .ok () ↔ identifier.name ∈ roles := by
  rw [requireRole_eq_ok, h.mem_roles]

theorem yields_readMessage (h : scope.Knows roles known) (message : Message)
    (index : Nat) :
    Yields (scope.readMessage message index)
      (message.sender.name ∈ roles ∧ message.receiver.name ∈ roles ∧
        Mention.InOrder roles known message.body.reading) roles
      (known ++ message.body.reading.map Mention.name) :=
  .check (requireRole_iff h) fun _ => .check (requireRole_iff h) fun _ =>
    reads_resolve _ message.body h

theorem yields_readMessages (h : scope.Knows roles known)
    (messages : List Message) (index : Nat) :
    Yields (readMessages index messages scope)
      ((∀ message ∈ messages,
        message.sender.name ∈ roles ∧ message.receiver.name ∈ roles) ∧
        Mention.InOrder roles known (messages.flatMap (·.body.reading))) roles
      (known ++ (messages.flatMap (·.body.reading)).map Mention.name) := by
  induction messages generalizing scope known index with
  | nil =>
      simpa [readMessages, Mention.inOrder_nil] using Yields.ok h
  | cons message messages ih =>
      have both := (yields_readMessage h message index).bind
        fun _ knows => ih knows (index + 1)
      rw [List.append_assoc, ← List.map_append] at both
      refine both.of_iff ?_
      rw [List.flatMap_cons, Mention.inOrder_append, List.forall_mem_cons]
      exact (and_congr_left' and_assoc.symm).trans and_and_and_comm

/-! ## Declarations -/

def Fresh (known names : List String) : Prop :=
  names.Nodup ∧ ∀ name ∈ names, name ∉ known

theorem fresh_nil : Fresh known [] := ⟨List.nodup_nil, by simp⟩

theorem fresh_cons {name : String} {names : List String} :
    Fresh known (name :: names) ↔
      name ∉ known ∧ Fresh (known ++ [name]) names := by
  unfold Fresh
  rw [List.nodup_cons, List.forall_mem_cons]
  constructor
  · rintro ⟨⟨unlisted, nodup⟩, new, others⟩
    refine ⟨new, nodup, fun other mem bound => ?_⟩
    rcases List.mem_append.mp bound with old | same
    · exact others other mem old
    · rw [List.mem_singleton] at same
      exact unlisted (same ▸ mem)
  · rintro ⟨new, nodup, others⟩
    refine ⟨⟨fun mem => ?_, nodup⟩, new, fun other mem old => ?_⟩
    · exact others name mem (List.mem_append_right _ (List.mem_singleton_self _))
    · exact others other mem (List.mem_append_left _ old)

theorem yields_declareRole {names : List String} (h : scope.Knows names names)
    (role : Identifier) :
    Yields (scope.declareRole role) (role.name ∉ names) (names ++ [role.name])
      (names ++ [role.name]) := by
  unfold declareRole
  cases found : scope.lookup role.name with
  | none =>
      have new := (h.unbound _).mp found
      exact (Yields.ok (h.bind new)).of_iff (iff_of_true trivial new)
  | some first => exact .error fun new => new (h.bound found)

theorem yields_declareRoles {names : List String} (h : scope.Knows names names)
    (members : List Identifier) :
    Yields (members.foldlM declareRole scope) (Fresh names (namesOf members))
      (names ++ namesOf members) (names ++ namesOf members) := by
  induction members generalizing scope names with
  | nil =>
      change Yields (.ok scope) (Fresh names []) (names ++ []) (names ++ [])
      rw [List.append_nil]
      exact (Yields.ok h).of_iff (iff_of_true trivial fresh_nil)
  | cons role members ih =>
      have both := (yields_declareRole h role).bind fun _ knows => ih knows
      rw [List.append_assoc] at both
      exact both.of_iff fresh_cons.symm

theorem yields_declareKey (h : scope.Knows roles known) (key : KeyDecl) :
    Yields (scope.declareKey key)
      (key.name.name ∉ known ∧ ∀ owner ∈ key.ownerNames, owner ∈ roles) roles
      (known ++ [key.name.name]) := by
  unfold declareKey
  cases found : scope.lookup key.name.name with
  | none =>
      have new := (h.unbound _).mp found
      have owned : key.owners.forM
          (scope.requireRole (.foreignOwner · key.name.name)) = .ok () ↔
            ∀ owner ∈ key.ownerNames, owner ∈ roles := by
        rw [Outcome.forM_eq_ok, KeyDecl.ownerNames, namesOf,
          List.forall_mem_map]
        exact forall₂_congr fun _ _ => requireRole_iff h
      let binding : Binding := ⟨key.name.name, .key, key.name.line⟩
      have bound : (scope.bind binding).Knows roles
          (known ++ [key.name.name]) := h.bind_other new (by simp [binding])
      exact (Yields.check owned fun _ => .ok bound).of_iff
        (and_comm.trans (and_congr_left' (iff_of_true trivial new)))
  | some existing => exact .error fun fits => fits.1 (h.bound found)

theorem yields_declareKeys (h : scope.Knows roles known)
    (keys : List KeyDecl) :
    Yields (keys.foldlM declareKey scope)
      (Fresh known (keys.map (·.name.name)) ∧
        ∀ key ∈ keys, ∀ owner ∈ key.ownerNames, owner ∈ roles) roles
      (known ++ keys.map (·.name.name)) := by
  induction keys generalizing scope known with
  | nil =>
      rw [List.map_nil, List.append_nil]
      exact (Yields.ok h).of_iff
        (iff_of_true trivial ⟨fresh_nil, List.forall_mem_nil _⟩)
  | cons key keys ih =>
      have both := (yields_declareKey h key).bind fun _ knows => ih knows
      rw [List.append_assoc] at both
      refine both.of_iff ?_
      rw [List.map_cons, fresh_cons, List.forall_mem_cons]
      exact and_and_and_comm

theorem checkAssertion_eq_ok (h : scope.Knows roles known)
    {assertion : Assertion} :
    scope.checkAssertion assertion = .ok () ↔
      assertion.term.name ∈ known ∧
        ∀ names ∈ assertion.permittedNames, ∀ name ∈ names, name ∈ roles := by
  unfold checkAssertion
  cases found : scope.lookup assertion.term.name with
  | none =>
      have unknown := (h.unbound _).mp found
      simp [unknown]
  | some binding =>
      rw [and_iff_right (h.bound found)]
      unfold Assertion.permittedNames
      cases assertion.permitted with
      | none => simp
      | some permitted =>
          simp only [Option.getD_some, Outcome.forM_eq_ok, Option.map_some,
            Option.mem_some_iff, forall_eq', namesOf, List.forall_mem_map]
          exact forall₂_congr fun _ _ => requireRole_iff h

end Scope

/-! ## Protocols -/

namespace Protocol

open Scope

variable {protocol : Protocol}

def boundNames (protocol : Protocol) : List String :=
  protocol.roleNames ++ protocol.keyNames ++
    protocol.reading.map Mention.name

theorem mem_boundNames {name : String} :
    name ∈ protocol.boundNames ↔ name ∈ protocol.roleNames ∨
      name ∈ protocol.keyNames ∨
      ∃ message ∈ protocol.messages, name ∈ message.body.occurrences := by
  simp only [boundNames, List.mem_append, reading, List.map_flatMap,
    List.mem_flatMap, Expr.mem_reading, or_assoc]

/-- The checks that a protocol passes, in the order in which they are made. -/
def Passes (protocol : Protocol) : Prop :=
  Fresh [] protocol.roleNames ∧
    (Fresh protocol.roleNames protocol.keyNames ∧ ∀ key ∈ protocol.keys,
      ∀ owner ∈ key.ownerNames, owner ∈ protocol.roleNames) ∧
    ((∀ message ∈ protocol.messages,
      message.sender.name ∈ protocol.roleNames ∧
        message.receiver.name ∈ protocol.roleNames) ∧
      Mention.InOrder protocol.roleNames
        (protocol.roleNames ++ protocol.keyNames) protocol.reading) ∧
    ∀ assertion ∈ protocol.assertions,
      assertion.term.name ∈ protocol.boundNames ∧
        ∀ names ∈ assertion.permittedNames, ∀ name ∈ names,
          name ∈ protocol.roleNames

theorem yields_scope (protocol : Protocol) :
    Yields protocol.scope protocol.Passes protocol.roleNames
      protocol.boundNames := by
  refine (yields_declareRoles knows_empty _).bind fun roles knows => ?_
  refine (yields_declareKeys knows _).bind fun declared knows => ?_
  refine (yields_readMessages knows _ 0).bind fun scope knows => ?_
  refine (Yields.check ?_ fun _ => .ok knows).of_iff (and_iff_left trivial)
  rw [Outcome.forM_eq_ok]
  exact forall₂_congr fun _ _ => checkAssertion_eq_ok knows

theorem inOrder_reading_iff :
    Mention.InOrder protocol.roleNames
        (protocol.roleNames ++ protocol.keyNames) protocol.reading ↔
      (∀ before key after, protocol.reading = before ++ .key key :: after →
        key ∉ protocol.roleNames ∧
          (key ∈ protocol.keyNames ∨ key ∈ before.map Mention.name)) ∧
      ∀ before target after,
        protocol.reading = before ++ .target target :: after →
          target ∉ protocol.roleNames ∧ target ∉ protocol.keyNames ∧
            target ∉ before.map Mention.name := by
  have fits_key (before : List Mention) (key : String) :
      (Mention.key key).Fits protocol.roleNames
          (protocol.roleNames ++ protocol.keyNames ++
            before.map Mention.name) ↔
        key ∉ protocol.roleNames ∧
          (key ∈ protocol.keyNames ∨ key ∈ before.map Mention.name) := by
    rw [Mention.Fits, List.append_assoc, List.mem_append, List.mem_append]
    exact and_congr_right fun notRole => or_iff_right notRole
  have fits_target (before : List Mention) (target : String) :
      (Mention.target target).Fits protocol.roleNames
          (protocol.roleNames ++ protocol.keyNames ++
            before.map Mention.name) ↔
        target ∉ protocol.roleNames ∧ target ∉ protocol.keyNames ∧
          target ∉ before.map Mention.name := by
    rw [Mention.Fits, List.mem_append, List.mem_append, not_or, not_or,
      and_assoc]
  constructor
  · intro inOrder
    exact ⟨fun before key after split =>
        (fits_key before key).mp (inOrder before _ after split),
      fun before target after split =>
        (fits_target before target).mp (inOrder before _ after split)⟩
  · rintro ⟨keys, targets⟩ before mention after split
    cases mention with
    | plain name => trivial
    | key name => exact (fits_key before name).mpr (keys before name after split)
    | target name =>
        exact (fits_target before name).mpr (targets before name after split)

theorem passes_iff_wellScoped : protocol.Passes ↔ protocol.WellScoped := by
  unfold Passes Fresh
  rw [inOrder_reading_iff]
  simp only [mem_boundNames]
  constructor
  · rintro ⟨⟨roles, -⟩, ⟨⟨keys, notRoles⟩, owners⟩,
      ⟨endpoints, keyUses, targets⟩, assertions⟩
    exact ⟨roles, keys, notRoles, owners, endpoints, keyUses, targets,
      fun assertion mem => (assertions assertion mem).1,
      fun assertion mem => (assertions assertion mem).2⟩
  · rintro ⟨roles, keys, notRoles, owners, endpoints, keyUses, targets, terms,
      permitted⟩
    exact ⟨⟨roles, by simp⟩, ⟨⟨keys, notRoles⟩, owners⟩,
      ⟨endpoints, keyUses, targets⟩,
      fun assertion mem => ⟨terms assertion mem, permitted assertion mem⟩⟩

theorem wellScoped_forgetLines :
    protocol.forgetLines.WellScoped ↔ protocol.WellScoped := by
  have reading : protocol.forgetLines.reading = protocol.reading := by
    simp [Protocol.reading, List.flatMap_map]
  have bound : protocol.forgetLines.boundNames = protocol.boundNames := by
    rw [boundNames, roleNames_forgetLines, keyNames_forgetLines, reading,
      boundNames]
  rw [← passes_iff_wellScoped, ← passes_iff_wellScoped]
  unfold Passes
  rw [roleNames_forgetLines, keyNames_forgetLines, reading, bound]
  simp

theorem Alike.wellScoped {q : Protocol} (h : protocol.Alike q) :
    protocol.WellScoped ↔ q.WellScoped := by
  rw [← wellScoped_forgetLines, h, wellScoped_forgetLines]

theorem checked_eq_ok {q : Protocol} :
    protocol.checked = .ok q ↔ protocol = q ∧ protocol.WellScoped := by
  rw [← passes_iff_wellScoped, ← protocol.yields_scope.ok_iff]
  unfold checked
  rw [Outcome.bind_eq_ok, and_comm]
  simp only [Outcome.pure_eq_ok, exists_and_right]

/-- Names resolve in well-scoped protocols, and all others have a fault. -/
theorem checked_iff_wellScoped (protocol : Protocol) :
    (protocol.checked = .ok protocol ↔ protocol.WellScoped) ∧
      ((∃ fault, protocol.checked = .error fault) ↔ ¬ protocol.WellScoped) := by
  have accepts : protocol.checked = .ok protocol ↔ protocol.WellScoped := by
    rw [checked_eq_ok, and_iff_right rfl]
  have only : (∃ q, protocol.checked = .ok q) ↔ protocol.WellScoped := by
    simp only [checked_eq_ok, exists_eq_left']
  exact ⟨accepts, by rw [Outcome.exists_error, only]⟩

end Protocol

end Secrecy
