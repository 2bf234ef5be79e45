import Mathlib.Data.List.Nodup
import Secrecy.Proofs.Protocol.Renaming
import Secrecy.Proofs.Scope.WellScoped

/-!
# Well-scoped protocols renamed

Whether the names of a protocol resolve depends on which of them are the same
and not on what they are.
-/

namespace Secrecy

def Mention.rename (r : String → String) : Mention → Mention
  | .plain name => .plain (r name)
  | .key name => .key (r name)
  | .target name => .target (r name)

variable {r : String → String}

namespace Mention

@[simp] theorem name_rename (mention : Mention) :
    (mention.rename r).name = r mention.name := by
  cases mention <;> rfl

theorem rename_eq_key {mention : Mention} {name : String} :
    mention.rename r = .key name ↔ ∃ key, mention = .key key ∧ r key = name := by
  cases mention <;> simp [rename]

theorem rename_eq_target {mention : Mention} {name : String} :
    mention.rename r = .target name ↔
      ∃ target, mention = .target target ∧ r target = name := by
  cases mention <;> simp [rename]

end Mention

@[simp] theorem Expr.reading_rename (body : Expr) :
    (body.rename r).reading = body.reading.map (Mention.rename r) := by
  induction body with
  | name => rfl
  | concat left right line ihLeft ihRight =>
      simp [rename, reading, ihLeft, ihRight]
  | enc key message line ih | mac key message line ih
  | sign key message line ih | assign key message line ih =>
      simp [rename, reading, Identifier.rename, Mention.rename, ih]
  | hash inner line ih => exact ih
  | verify key message signature line ihMessage ihSignature =>
      simp [rename, reading, Identifier.rename, Mention.rename, ihMessage,
        ihSignature]

namespace Protocol

variable (protocol : Protocol)

@[simp] theorem keyNames_rename :
    (protocol.rename r).keyNames = protocol.keyNames.map r := by
  simp [keyNames, KeyDecl.rename, Identifier.rename, Function.comp_def]

@[simp] theorem reading_rename :
    (protocol.rename r).reading = protocol.reading.map (Mention.rename r) := by
  simp [reading, List.map_flatMap, List.flatMap_map]

variable {protocol}

theorem wellScoped_rename (injective : Function.Injective r) :
    (protocol.rename r).WellScoped ↔ protocol.WellScoped := by
  have same {name other : String} : r name = r other ↔ name = other :=
    injective.eq_iff
  constructor
  · intro renamed
    constructor
    · simpa [List.nodup_map_iff injective] using renamed.roles
    · simpa [List.nodup_map_iff injective] using renamed.keys
    · intro key mem role
      refine renamed.keys_notRole (r key) ?_ ?_
      · simpa [same] using mem
      · simpa [same] using role
    · simpa [same] using renamed.owners
    · simpa [same, Message.rename, Identifier.rename] using renamed.endpoints
    · intro before key after split
      have split : (protocol.rename r).reading =
          before.map (Mention.rename r) ++ .key (r key) ::
            after.map (Mention.rename r) := by
        simp [split, Mention.rename]
      simpa [same] using renamed.keyUses _ _ _ split
    · intro before target after split
      have split : (protocol.rename r).reading =
          before.map (Mention.rename r) ++ .target (r target) ::
            after.map (Mention.rename r) := by
        simp [split, Mention.rename]
      simpa [same] using renamed.targets _ _ _ split
    · simpa [same, Assertion.rename, Identifier.rename] using renamed.terms
    · simpa [same] using renamed.permitted
  · intro wellScoped
    constructor
    · simpa [List.nodup_map_iff injective] using wellScoped.roles
    · simpa [List.nodup_map_iff injective] using wellScoped.keys
    · rw [keyNames_rename, roleNames_rename, List.forall_mem_map]
      intro key mem
      rw [List.mem_map_of_injective injective]
      exact wellScoped.keys_notRole key mem
    · simpa [same] using wellScoped.owners
    · simpa [same, Message.rename, Identifier.rename] using wellScoped.endpoints
    · intro before key after split
      rw [reading_rename, List.map_eq_append_iff] at split
      obtain ⟨early, rest, whole, rfl, split⟩ := split
      obtain ⟨mention, late, rfl, isKey, -⟩ := List.map_eq_cons_iff.mp split
      obtain ⟨key, rfl, rfl⟩ := Mention.rename_eq_key.mp isKey
      simpa [same] using wellScoped.keyUses _ _ _ whole
    · intro before target after split
      rw [reading_rename, List.map_eq_append_iff] at split
      obtain ⟨early, rest, whole, rfl, split⟩ := split
      obtain ⟨mention, late, rfl, isTarget, -⟩ := List.map_eq_cons_iff.mp split
      obtain ⟨target, rfl, rfl⟩ := Mention.rename_eq_target.mp isTarget
      simpa [same] using wellScoped.targets _ _ _ whole
    · simpa [same, Assertion.rename, Identifier.rename] using wellScoped.terms
    · simpa [same] using wellScoped.permitted

end Protocol

end Secrecy
