import Mathlib.Data.List.Nodup
import Secrecy.Proofs.Scope.Resolving

/-!
# Sightings of names

Reading a protocol is a walk past its names.  Each could be bound as it is
sighted, and a scope keeps the first sighting of every name and leaves out all
others: a key that passes its check is bound already, and a target never is.
-/

namespace Secrecy

open Scope (Step)

/-! ## Noting bindings -/

namespace Scope

variable {scope after : Scope} {binding : Binding} {name : String}

def names (scope : Scope) : List String := scope.bindings.map Binding.name

/-- Only the first binding of a name counts. -/
def note (scope : Scope) (binding : Binding) : Scope :=
  match scope.lookup binding.name with
  | some _ => scope
  | none => scope.bind binding

theorem lookup_eq_none : scope.lookup name = none ↔ name ∉ scope.names := by
  simp [lookup, names]

theorem of_lookup {bound : Binding}
    (found : scope.lookup name = some bound) :
    bound ∈ scope.bindings ∧ bound.name = name :=
  ⟨List.mem_of_find?_eq_some found, by simpa using List.find?_some found⟩

theorem note_of_bound {bound : Binding}
    (found : scope.lookup binding.name = some bound) :
    scope.note binding = scope := by
  rw [note, found]

theorem note_of_unbound (new : scope.lookup binding.name = none) :
    scope.note binding = scope.bind binding := by
  rw [note, new]

theorem names_bind : (scope.bind binding).names = scope.names ++ [binding.name] :=
  List.map_append

theorem lookup_note :
    (scope.note binding).lookup name =
      (scope.lookup name).or
        (if binding.name = name then some binding else none) := by
  cases found : scope.lookup binding.name with
  | none => rw [note_of_unbound found, lookup_bind]
  | some bound =>
      rw [note_of_bound found]
      by_cases same : binding.name = name
      · rw [← same, found, Option.some_or]
      · rw [if_neg same, Option.or_none]

theorem names_note :
    (scope.note binding).names = adjoin scope.names binding.name := by
  unfold adjoin
  cases found : scope.lookup binding.name with
  | none =>
      rw [note_of_unbound found, names_bind,
        if_neg (lookup_eq_none.mp found)]
  | some bound =>
      have known : binding.name ∈ scope.names :=
        List.mem_map.mpr ⟨bound, of_lookup found⟩
      rw [note_of_bound found, if_pos known]

def noteAll (scope : Scope) (sightings : List Binding) : Scope :=
  sightings.foldl note scope

theorem noteAll_cons (sighting : Binding) (sightings : List Binding) :
    scope.noteAll (sighting :: sightings) =
      (scope.note sighting).noteAll sightings :=
  rfl

theorem noteAll_append (sightings others : List Binding) :
    scope.noteAll (sightings ++ others) =
      (scope.noteAll sightings).noteAll others :=
  List.foldl_append

theorem lookup_noteAll (sightings : List Binding) :
    (scope.noteAll sightings).lookup name =
      (scope.lookup name).or (sightings.find? (·.name = name)) := by
  induction sightings generalizing scope with
  | nil => simp [noteAll]
  | cons sighting sightings ih =>
      rw [noteAll_cons, ih, lookup_note, Option.or_assoc, List.find?_cons]
      by_cases same : sighting.name = name <;> simp [same]

theorem names_noteAll (sightings : List Binding) :
    (scope.noteAll sightings).names =
      adjoinAll scope.names (sightings.map Binding.name) := by
  induction sightings generalizing scope with
  | nil => rfl
  | cons sighting sightings ih =>
      rw [noteAll_cons, ih, names_note]
      rfl

theorem bindings_noteAll (sightings : List Binding) :
    scope.bindings <+: (scope.noteAll sightings).bindings := by
  induction sightings generalizing scope with
  | nil => exact List.prefix_refl _
  | cons sighting sightings ih =>
      have step : scope.bindings <+: (scope.note sighting).bindings := by
        unfold note
        split
        · exact List.prefix_refl _
        · exact List.prefix_append _ _
      exact step.trans ih

/-- A table without repetition is told by its lookups. -/
theorem lookup_eq_some (distinct : scope.names.Nodup)
    (mem : binding ∈ scope.bindings) :
    scope.lookup binding.name = some binding := by
  cases found : scope.lookup binding.name with
  | none =>
      exact absurd (List.mem_map_of_mem mem) (lookup_eq_none.mp found)
  | some bound =>
      obtain ⟨mem', same⟩ := of_lookup found
      rw [List.inj_on_of_nodup_map distinct mem' mem same]

end Scope

/-! ## Bodies -/

namespace Scope.Step

variable (step : Step) (identifier : Identifier)

def fresh : Binding :=
  ⟨identifier.name, .fresh step.sender step.index, identifier.line⟩

def assigned : Binding :=
  ⟨identifier.name, .assigned step.sender step.index, identifier.line⟩

end Scope.Step

def Binding.identifier (binding : Binding) : Identifier :=
  ⟨binding.name, binding.line⟩

def Binding.usage (binding : Binding) : String × Bool :=
  (binding.name, binding.kind.isAssigned)

def Mention.usage : Mention → String × Bool
  | .plain name | .key name => (name, false)
  | .target name => (name, true)

@[simp] theorem Mention.usage_fst (mention : Mention) :
    mention.usage.1 = mention.name := by
  cases mention <;> rfl

theorem Mention.usage_eq_true {mention : Mention} {name : String} :
    mention.usage = (name, true) ↔ mention = .target name := by
  cases mention <;> simp [usage]

namespace Expr

/-- The identifiers of a body as it is evaluated: a value before its target. -/
def evaluated : Expr → List Identifier
  | .name identifier => [identifier]
  | .concat left right _ => left.evaluated ++ right.evaluated
  | .enc key message _ | .mac key message _ | .sign key message _ =>
      key :: message.evaluated
  | .hash inner _ => inner.evaluated
  | .verify key message signature _ =>
      key :: (message.evaluated ++ signature.evaluated)
  | .assign target value _ => value.evaluated ++ [target]

def sightings (step : Step) : Expr → List Binding
  | .name identifier => [step.fresh identifier]
  | .concat left right _ => left.sightings step ++ right.sightings step
  | .enc key message _ | .mac key message _ | .sign key message _ =>
      step.fresh key :: message.sightings step
  | .hash inner _ => inner.sightings step
  | .verify key message signature _ =>
      step.fresh key :: (message.sightings step ++ signature.sightings step)
  | .assign target value _ => value.sightings step ++ [step.assigned target]

variable {body : Expr} {step : Step}

theorem map_identifier_sightings :
    (body.sightings step).map Binding.identifier = body.evaluated := by
  induction body with
  | name => rfl
  | concat left right line ihLeft ihRight =>
      rw [sightings, List.map_append, ihLeft, ihRight, evaluated]
  | enc key message line ih | mac key message line ih
  | sign key message line ih =>
      rw [sightings, List.map_cons, ih, evaluated]
      rfl
  | hash inner line ih => exact ih
  | verify key message signature line ihMessage ihSignature =>
      rw [sightings, List.map_cons, List.map_append, ihMessage, ihSignature,
        evaluated]
      rfl
  | assign target value line ih =>
      rw [sightings, List.map_append, ih, evaluated]
      rfl

theorem map_usage_sightings :
    (body.sightings step).map Binding.usage =
      body.reading.map Mention.usage := by
  induction body with
  | name => rfl
  | concat left right line ihLeft ihRight =>
      rw [sightings, List.map_append, ihLeft, ihRight, reading, List.map_append]
  | enc key message line ih | mac key message line ih
  | sign key message line ih =>
      rw [sightings, List.map_cons, ih, reading]
      rfl
  | hash inner line ih => exact ih
  | verify key message signature line ihMessage ihSignature =>
      rw [sightings, List.map_cons, List.map_append, ihMessage, ihSignature,
        reading, List.map_cons, List.map_append]
      rfl
  | assign target value line ih =>
      rw [sightings, List.map_append, ih, reading, List.map_append]
      rfl

theorem mem_names_sightings {name : String} :
    name ∈ (body.sightings step).map Binding.name ↔
      name ∈ body.occurrences := by
  have usage := congrArg (List.map Prod.fst)
    (@map_usage_sightings body step)
  have mentioned : Prod.fst ∘ Mention.usage = Mention.name :=
    funext Mention.usage_fst
  rw [List.map_map, List.map_map, mentioned] at usage
  rw [← mem_reading, ← usage]
  rfl

theorem origin_of_mem_sightings {sighting : Binding}
    (mem : sighting ∈ body.sightings step) :
    sighting.kind.origin? = some step.sender ∧
      sighting.kind.step? = some step.index := by
  induction body with
  | name identifier =>
      obtain rfl := List.mem_singleton.mp mem
      exact ⟨rfl, rfl⟩
  | concat left right line ihLeft ihRight =>
      exact (List.mem_append.mp mem).elim ihLeft ihRight
  | enc key message line ih | mac key message line ih
  | sign key message line ih =>
      rcases List.mem_cons.mp mem with rfl | mem
      · exact ⟨rfl, rfl⟩
      · exact ih mem
  | hash inner line ih => exact ih mem
  | verify key message signature line ihMessage ihSignature =>
      rcases List.mem_cons.mp mem with rfl | mem
      · exact ⟨rfl, rfl⟩
      · exact (List.mem_append.mp mem).elim ihMessage ihSignature
  | assign target value line ih =>
      rcases List.mem_append.mp mem with mem | mem
      · exact ih mem
      · obtain rfl := List.mem_singleton.mp mem
        exact ⟨rfl, rfl⟩

end Expr

namespace Message

def sightings (message : Message) (index : Nat) : List Binding :=
  message.body.sightings ⟨message.sender.name, index⟩

/-- Messages of which the first has the given number. -/
def sightingsFrom (index : Nat) : List Message → List Binding
  | [] => []
  | message :: messages =>
      message.sightings index ++ sightingsFrom (index + 1) messages

end Message

namespace Scope

theorem note_of_checkKey {scope : Scope} {step : Step} {word : String}
    {key : Identifier} (checked : scope.checkKey word key = .ok ()) :
    scope.note (step.fresh key) = scope := by
  unfold checkKey at checked
  split at checked
  · cases checked
  · next bound found => exact note_of_bound found

theorem note_of_assign {scope after : Scope} {step : Step}
    {target : Identifier} (h : scope.assign step target = .ok after) :
    after = scope.note (step.assigned target) := by
  unfold assign at h
  split at h
  · cases h
  · next new =>
      rw [note_of_unbound new]
      cases h
      rfl

theorem eq_noteAll_of_resolve {step : Step} {body : Expr} {scope after : Scope}
    (h : resolve step body scope = .ok after) :
    after = scope.noteAll (body.sightings step) := by
  induction body generalizing scope after with
  | name identifier =>
      cases h
      rfl
  | concat left right line ihLeft ihRight =>
      obtain ⟨middle, first, second⟩ := Outcome.bind_eq_ok.mp h
      rw [Expr.sightings, noteAll_append, ← ihLeft first]
      exact ihRight second
  | enc key message line ih | mac key message line ih
  | sign key message line ih =>
      obtain ⟨_, checked, rest⟩ := Outcome.bind_eq_ok.mp h
      rw [Expr.sightings, noteAll_cons, note_of_checkKey checked]
      exact ih rest
  | hash inner line ih => exact ih h
  | verify key message signature line ihMessage ihSignature =>
      obtain ⟨_, checked, rest⟩ := Outcome.bind_eq_ok.mp h
      obtain ⟨middle, first, second⟩ := Outcome.bind_eq_ok.mp rest
      rw [Expr.sightings, noteAll_cons, note_of_checkKey checked,
        noteAll_append, ← ihMessage first]
      exact ihSignature second
  | assign target value line ih =>
      obtain ⟨middle, first, second⟩ := Outcome.bind_eq_ok.mp h
      rw [Expr.sightings, noteAll_append, ← ih first]
      exact note_of_assign second

theorem eq_noteAll_of_readMessages {messages : List Message} {index : Nat}
    {scope after : Scope} (h : readMessages index messages scope = .ok after) :
    after = scope.noteAll (Message.sightingsFrom index messages) := by
  induction messages generalizing index scope with
  | nil =>
      cases h
      rfl
  | cons message messages ih =>
      obtain ⟨middle, first, rest⟩ := Outcome.bind_eq_ok.mp h
      obtain ⟨_, _, first⟩ := Outcome.bind_eq_ok.mp first
      obtain ⟨_, _, first⟩ := Outcome.bind_eq_ok.mp first
      rw [Message.sightingsFrom, noteAll_append, Message.sightings,
        ← eq_noteAll_of_resolve first]
      exact ih rest

/-! ## Declarations -/

theorem bindings_declareRoles {members : List Identifier}
    {scope after : Scope} (h : members.foldlM declareRole scope = .ok after) :
    after.bindings =
      scope.bindings ++ members.map fun role => ⟨role.name, .role, role.line⟩ := by
  induction members generalizing scope with
  | nil =>
      cases h
      simp
  | cons role members ih =>
      rw [List.foldlM_cons, Outcome.bind_eq_ok] at h
      obtain ⟨middle, first, rest⟩ := h
      unfold declareRole at first
      split at first
      · cases first
      · cases first
        rw [ih rest]
        simp [bind]

theorem bindings_declareKeys {keys : List KeyDecl} {scope after : Scope}
    (h : keys.foldlM declareKey scope = .ok after) :
    after.bindings = scope.bindings ++
      keys.map fun key => ⟨key.name.name, .key, key.name.line⟩ := by
  induction keys generalizing scope with
  | nil =>
      cases h
      simp
  | cons key keys ih =>
      rw [List.foldlM_cons, Outcome.bind_eq_ok] at h
      obtain ⟨middle, first, rest⟩ := h
      unfold declareKey at first
      split at first
      · cases first
      · obtain ⟨_, _, bound⟩ := Outcome.bind_eq_ok.mp first
        cases bound
        rw [ih rest]
        simp [bind]

end Scope

namespace Protocol

variable {p : Protocol} {scope : Scope}

def declarations (p : Protocol) : List Binding :=
  (p.roles.members.map fun role => ⟨role.name, .role, role.line⟩) ++
    p.keys.map fun key => ⟨key.name.name, .key, key.name.line⟩

def sightings (p : Protocol) : List Binding :=
  Message.sightingsFrom 0 p.messages

theorem names_declarations :
    p.declarations.map Binding.name = p.roleNames ++ p.keyNames := by
  simp [declarations, roleNames, namesOf, keyNames, Function.comp_def]

theorem eq_noteAll_of_scope (resolved : p.scope = .ok scope) :
    scope = Scope.noteAll ⟨p.declarations⟩ p.sightings := by
  obtain ⟨roles, declared, -, first, second, third⟩ := phases_of_scope resolved
  have bindings : declared.bindings = p.declarations := by
    rw [Scope.bindings_declareKeys second, Scope.bindings_declareRoles first]
    rfl
  rw [← bindings]
  exact Scope.eq_noteAll_of_readMessages third

end Protocol

end Secrecy
