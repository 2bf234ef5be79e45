import Secrecy.Proofs.Scope.Sightings

/-!
# The table of names

What a scope says of a name can be read off the messages: where it comes up
first, and whether it is a target there.  A target is new when it is sighted,
so its first sighting is the one that assigns it.
-/

namespace Secrecy

/-! ## First mentions -/

section FirstMention

variable {messages early late : List Message} {message : Message}
  {name : String} {binding : Binding} {index : Nat}

/-- Of all sightings of a name those in the first message to mention it count. -/
theorem Message.find_sightingsFrom
    (new : ∀ earlier ∈ early, name ∉ earlier.body.occurrences)
    (mem : name ∈ message.body.occurrences) :
    (sightingsFrom index (early ++ message :: late)).find? (·.name = name) =
      (message.sightings (index + early.length)).find? (·.name = name) := by
  induction early generalizing index with
  | nil =>
      obtain ⟨sighting, sighted, named⟩ :=
        List.mem_map.mp (Expr.mem_names_sightings.mpr mem)
      have found : ((message.sightings index).find? (·.name = name)).isSome :=
        List.find?_isSome.mpr ⟨sighting, sighted, by simpa using named⟩
      rw [List.nil_append, sightingsFrom, List.find?_append,
        Option.or_of_isSome found]
      rfl
  | cons earlier early ih =>
      rw [List.forall_mem_cons] at new
      have unsighted :
          (earlier.sightings index).find? (·.name = name) = none := by
        rw [List.find?_eq_none]
        intro sighting sighted named
        apply new.1
        apply Expr.mem_names_sightings.mp
        exact List.mem_map.mpr ⟨sighting, sighted, by simpa using named⟩
      rw [List.cons_append, sightingsFrom, List.find?_append, unsighted,
        Option.none_or, ih new.2, List.length_cons, Nat.add_right_comm,
        Nat.add_assoc]

theorem Message.exists_first
    (mentioned : ∃ message ∈ messages, name ∈ message.body.occurrences) :
    ∃ early message late, messages = early ++ message :: late ∧
      (∀ earlier ∈ early, name ∉ earlier.body.occurrences) ∧
      name ∈ message.body.occurrences := by
  have mentions : (messages.find? (name ∈ ·.body.occurrences)).isSome := by
    rw [List.find?_isSome]
    simpa using mentioned
  obtain ⟨message, found⟩ := Option.isSome_iff_exists.mp mentions
  obtain ⟨here, early, late, rfl, new⟩ :=
    List.find?_eq_some_iff_append.mp found
  exact ⟨early, message, late, rfl, by simpa using new, by simpa using here⟩

/-- A name that a message brings in, bound as it stands where it comes up. -/
structure Binding.ComesUp (binding : Binding) (early : List Message)
    (message : Message) : Prop where
  new : ∀ earlier ∈ early, binding.name ∉ earlier.body.occurrences
  mentioned : binding.name ∈ message.body.occurrences
  first : message.body.evaluated.find? (·.name = binding.name) =
    some binding.identifier
  origin : binding.kind.origin? = some message.sender.name
  step : binding.kind.step? = some early.length

theorem Binding.comesUp_of_find
    (new : ∀ earlier ∈ early, binding.name ∉ earlier.body.occurrences)
    (found : (message.sightings early.length).find?
      (·.name = binding.name) = some binding) :
    binding.ComesUp early message := by
  have sighted := List.mem_of_find?_eq_some found
  obtain ⟨origin, step⟩ := Expr.origin_of_mem_sightings sighted
  refine ⟨new, Expr.mem_names_sightings.mp (List.mem_map_of_mem sighted), ?_,
    origin, step⟩
  rw [← @Expr.map_identifier_sightings message.body
    ⟨message.sender.name, early.length⟩, List.find?_map]
  exact congrArg (Option.map Binding.identifier) found

end FirstMention

/-! ## Tables -/

namespace Protocol

/-- What a scope says of the names of a protocol. -/
structure Tabulates (p : Protocol) (scope : Scope) : Prop where
  nodup : scope.names.Nodup
  bound : ∀ name, name ∈ scope.names ↔ name ∈ p.mentions
  declared : p.declarations <+: scope.bindings
  assigned : ∀ binding ∈ scope.bindings, binding.kind.isAssigned = true ↔
    ∃ message ∈ p.messages, .target binding.name ∈ message.body.reading
  target : ∀ binding ∈ scope.bindings, ∀ early message late,
    p.messages = early ++ message :: late →
    .target binding.name ∈ message.body.reading →
      binding.ComesUp early message ∧ ∀ other ∈ early ++ late,
        .target binding.name ∉ other.body.reading
  fresh : ∀ binding ∈ scope.bindings,
    binding.name ∉ p.roleNames → binding.name ∉ p.keyNames →
    (∀ message ∈ p.messages, .target binding.name ∉ message.body.reading) →
      binding.kind.isFresh = true ∧ ∃ early message late,
        p.messages = early ++ message :: late ∧ binding.ComesUp early message

section Tables

variable {p : Protocol} {scope : Scope} {early late : List Message}
  {message : Message} {name : String} {binding : Binding}

theorem mem_names_sightings :
    name ∈ p.sightings.map Binding.name ↔
      ∃ message ∈ p.messages, name ∈ message.body.occurrences := by
  unfold sightings
  generalize 0 = index
  induction p.messages generalizing index with
  | nil => simp [Message.sightingsFrom]
  | cons message messages ih =>
      rw [Message.sightingsFrom, List.map_append, List.mem_append, ih,
        List.exists_mem_cons_iff]
      exact or_congr_left Expr.mem_names_sightings

theorem wellScoped_of_scope (resolved : p.scope = .ok scope) :
    p.WellScoped :=
  passes_iff_wellScoped.mp (p.yields_scope.ok_iff.mp ⟨scope, resolved⟩)

theorem names_scope (resolved : p.scope = .ok scope) :
    scope.names = adjoinAll (p.roleNames ++ p.keyNames)
      (p.sightings.map Binding.name) := by
  rw [eq_noteAll_of_scope resolved, Scope.names_noteAll, ← names_declarations]
  rfl

theorem nodup_names (resolved : p.scope = .ok scope) : scope.names.Nodup := by
  have wellScoped := wellScoped_of_scope resolved
  rw [names_scope resolved]
  apply nodup_adjoinAll
  rw [List.nodup_append]
  refine ⟨wellScoped.roles, wellScoped.keys, ?_⟩
  rintro role isRole _ isKey rfl
  exact wellScoped.keys_notRole role isKey isRole

theorem mem_names_iff (resolved : p.scope = .ok scope) :
    name ∈ scope.names ↔ name ∈ p.mentions := by
  have wellScoped := wellScoped_of_scope resolved
  simp only [names_scope resolved, mem_adjoinAll, mem_names_sightings,
    mentions, mem_distinct, List.mem_append, List.mem_flatMap]
  constructor
  · rintro (declared | sighted)
    · exact .inl (.inl declared)
    · exact .inl (.inr sighted)
  · rintro ((declared | sighted) | asserted)
    · exact .inl declared
    · exact .inr sighted
    · obtain ⟨assertion, mem, rfl⟩ := List.mem_map.mp asserted
      exact or_assoc.mpr (wellScoped.terms assertion mem)

theorem find_sightings (resolved : p.scope = .ok scope)
    (mem : binding ∈ scope.bindings)
    (undeclared : binding.name ∉ p.roleNames ++ p.keyNames) :
    p.sightings.find? (·.name = binding.name) = some binding := by
  have found := Scope.lookup_eq_some (nodup_names resolved) mem
  have unbound : (Scope.mk p.declarations).lookup binding.name = none := by
    rw [Scope.lookup_eq_none, Scope.names, names_declarations]
    exact undeclared
  rwa [eq_noteAll_of_scope resolved, Scope.lookup_noteAll, unbound,
    Option.none_or] at found

theorem declarations_first (resolved : p.scope = .ok scope) :
    p.declarations <+: scope.bindings := by
  rw [eq_noteAll_of_scope resolved]
  exact Scope.bindings_noteAll _

theorem kind_of_declared (resolved : p.scope = .ok scope)
    (mem : binding ∈ scope.bindings)
    (declared : binding.name ∈ p.roleNames ++ p.keyNames) :
    binding.kind = .role ∨ binding.kind = .key := by
  rw [← names_declarations] at declared
  obtain ⟨declaration, listed, same⟩ := List.mem_map.mp declared
  obtain rfl := List.inj_on_of_nodup_map (nodup_names resolved)
    ((declarations_first resolved).subset listed) mem same
  rcases List.mem_append.mp listed with role | key
  · obtain ⟨_, _, rfl⟩ := List.mem_map.mp role
    exact .inl rfl
  · obtain ⟨_, _, rfl⟩ := List.mem_map.mp key
    exact .inr rfl

theorem find_sightings_first (resolved : p.scope = .ok scope)
    (mem : binding ∈ scope.bindings)
    (undeclared : binding.name ∉ p.roleNames ++ p.keyNames)
    (sent : p.messages = early ++ message :: late)
    (new : ∀ earlier ∈ early, binding.name ∉ earlier.body.occurrences)
    (here : binding.name ∈ message.body.occurrences) :
    (message.sightings early.length).find? (·.name = binding.name) =
      some binding := by
  have found := find_sightings resolved mem undeclared
  rwa [sightings, sent, Message.find_sightingsFrom new here,
    Nat.zero_add] at found

theorem exists_find_sightings (resolved : p.scope = .ok scope)
    (mem : binding ∈ scope.bindings)
    (undeclared : binding.name ∉ p.roleNames ++ p.keyNames) :
    ∃ early message late, p.messages = early ++ message :: late ∧
      (∀ earlier ∈ early, binding.name ∉ earlier.body.occurrences) ∧
      (message.sightings early.length).find? (·.name = binding.name) =
        some binding := by
  have found := find_sightings resolved mem undeclared
  have sighted : binding.name ∈ p.sightings.map Binding.name :=
    List.mem_map_of_mem (List.mem_of_find?_eq_some found)
  obtain ⟨early, message, late, sent, new, here⟩ :=
    Message.exists_first (mem_names_sightings.mp sighted)
  exact ⟨early, message, late, sent, new,
    find_sightings_first resolved mem undeclared sent new here⟩

/-! ### Targets -/

theorem WellScoped.target_new (wellScoped : p.WellScoped)
    (sent : p.messages = early ++ message :: late)
    (assigns : .target name ∈ message.body.reading) :
    name ∉ p.roleNames ++ p.keyNames ∧
      (∀ earlier ∈ early, name ∉ earlier.body.occurrences) ∧
      (message.body.reading.map Mention.usage).find? (·.1 = name) =
        some (name, true) := by
  obtain ⟨before, after, split⟩ := List.append_of_mem assigns
  obtain ⟨notRole, notKey, new⟩ :=
    wellScoped.targets _ name _ (reading_split sent split)
  rw [List.map_append, List.mem_append, not_or] at new
  refine ⟨by simp [notRole, notKey], fun earlier mem here => new.1 ?_, ?_⟩
  · rw [List.map_flatMap, List.mem_flatMap]
    exact ⟨earlier, mem, Expr.mem_reading.mpr here⟩
  · have none : (before.map Mention.usage).find? (·.1 = name) = none := by
      rw [List.find?_map, Option.map_eq_none_iff, List.find?_eq_none]
      intro mention mem named
      exact new.2 (List.mem_map.mpr ⟨mention, mem, by simpa using named⟩)
    rw [split, List.map_append, List.find?_append, none, Option.none_or]
    simp [Mention.usage]

theorem find_usage (found : (message.sightings early.length).find?
      (·.name = binding.name) = some binding) :
    (message.body.reading.map Mention.usage).find? (·.1 = binding.name) =
      some binding.usage := by
  rw [← @Expr.map_usage_sightings message.body
    ⟨message.sender.name, early.length⟩, List.find?_map]
  exact congrArg (Option.map Binding.usage) found

theorem isAssigned_of_target (resolved : p.scope = .ok scope)
    (mem : binding ∈ scope.bindings)
    (sent : p.messages = early ++ message :: late)
    (assigns : .target binding.name ∈ message.body.reading) :
    binding.kind.isAssigned = true ∧ binding.ComesUp early message := by
  obtain ⟨undeclared, new, first⟩ :=
    (wellScoped_of_scope resolved).target_new sent assigns
  have here : binding.name ∈ message.body.occurrences :=
    Expr.mem_reading.mp (List.mem_map.mpr ⟨_, assigns, rfl⟩)
  have found := find_sightings_first resolved mem undeclared sent new here
  have usage := (find_usage found).symm.trans first
  exact ⟨congrArg Prod.snd (Option.some.inj usage),
    Binding.comesUp_of_find new found⟩

theorem exists_target_of_isAssigned (resolved : p.scope = .ok scope)
    (mem : binding ∈ scope.bindings)
    (isAssigned : binding.kind.isAssigned = true) :
    ∃ message ∈ p.messages, .target binding.name ∈ message.body.reading := by
  have undeclared : binding.name ∉ p.roleNames ++ p.keyNames := by
    intro declared
    rcases kind_of_declared resolved mem declared with kind | kind <;>
      simp [kind, NameKind.isAssigned] at isAssigned
  obtain ⟨early, message, late, sent, -, found⟩ :=
    exists_find_sightings resolved mem undeclared
  obtain ⟨mention, read, usage⟩ :=
    List.mem_map.mp (List.mem_of_find?_eq_some (find_usage found))
  rw [Binding.usage, isAssigned, Mention.usage_eq_true] at usage
  exact ⟨message, by simp [sent], usage ▸ read⟩

/-- Nothing can be assigned to a name that was assigned before. -/
theorem WellScoped.target_unique (wellScoped : p.WellScoped)
    (sent : p.messages = early ++ message :: late)
    (assigns : .target name ∈ message.body.reading) :
    ∀ other ∈ early ++ late, .target name ∉ other.body.reading := by
  have occurs {body : Expr} (assigned : .target name ∈ body.reading) :
      name ∈ body.occurrences :=
    Expr.mem_reading.mp (List.mem_map.mpr ⟨_, assigned, rfl⟩)
  intro other mem assigns'
  rcases List.mem_append.mp mem with before | after
  · exact (wellScoped.target_new sent assigns).2.1 other before
      (occurs assigns')
  · obtain ⟨between, rest, rfl⟩ := List.append_of_mem after
    have sent' : p.messages =
        (early ++ message :: between) ++ other :: rest := by
      simp [sent]
    exact (wellScoped.target_new sent' assigns').2.1 message (by simp)
      (occurs assigns)

/-- Every name is bound once, for what it is where it first comes up. -/
theorem tabulates_of_scope (resolved : p.scope = .ok scope) :
    p.Tabulates scope where
  nodup := nodup_names resolved
  bound := fun _ => mem_names_iff resolved
  declared := declarations_first resolved
  assigned := by
    intro binding mem
    constructor
    · exact exists_target_of_isAssigned resolved mem
    · rintro ⟨message, sends, assigns⟩
      obtain ⟨early, late, sent⟩ := List.append_of_mem sends
      exact (isAssigned_of_target resolved mem sent assigns).1
  target := by
    intro binding mem early message late sent assigns
    exact ⟨(isAssigned_of_target resolved mem sent assigns).2,
      (wellScoped_of_scope resolved).target_unique sent assigns⟩
  fresh := by
    intro binding mem notRole notKey untargeted
    have undeclared : binding.name ∉ p.roleNames ++ p.keyNames := by
      simp [notRole, notKey]
    obtain ⟨early, message, late, sent, new, found⟩ :=
      exists_find_sightings resolved mem undeclared
    have comesUp := Binding.comesUp_of_find new found
    refine ⟨?_, early, message, late, sent, comesUp⟩
    have unassigned : binding.kind.isAssigned ≠ true := by
      intro isAssigned
      obtain ⟨other, mem', assigns⟩ :=
        exists_target_of_isAssigned resolved mem isAssigned
      exact untargeted other mem' assigns
    have origin := comesUp.origin
    cases kind : binding.kind with
    | fresh => rfl
    | assigned => simp [kind, NameKind.isAssigned] at unassigned
    | role | key => simp [kind, NameKind.origin?] at origin

end Tables

def answered : Protocol :=
  ⟨⟨[⟨"A", 1⟩, ⟨"B", 1⟩], 1⟩,
    [⟨.sharedKey, ⟨"k", 2⟩, [⟨"A", 2⟩, ⟨"B", 2⟩], 2⟩],
    [⟨⟨"A", 3⟩, ⟨"B", 3⟩,
      .assign ⟨"c", 3⟩ (.enc ⟨"k", 3⟩ (.name ⟨"n", 3⟩) 3) 3, 3⟩,
      ⟨⟨"B", 4⟩, ⟨"A", 4⟩, .concat (.name ⟨"c", 4⟩) (.name ⟨"m", 4⟩) 4, 4⟩],
    [⟨⟨"n", 5⟩, none, 5⟩]⟩

def answeredScope : Scope :=
  ⟨[⟨"A", .role, 1⟩, ⟨"B", .role, 1⟩, ⟨"k", .key, 2⟩,
    ⟨"n", .fresh "A" 0, 3⟩, ⟨"c", .assigned "A" 0, 3⟩,
    ⟨"m", .fresh "B" 1, 4⟩]⟩

theorem tabulates_of_scope_answered :
    answered.scope = .ok answeredScope ∧ answered.Tabulates answeredScope :=
  ⟨by decide, tabulates_of_scope (by decide)⟩

end Protocol

end Secrecy
