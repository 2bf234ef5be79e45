import Mathlib.Data.List.Basic
import Secrecy.Knowledge.Ledger

/-!
# Renaming a protocol

A renaming puts another name in the place of each, wherever it occurs in a
protocol, and leaves all else as it is.  It takes roles to roles, whatever they
are called, and the adversary to itself.
-/

namespace Secrecy

def Identifier.rename (r : String → String) (identifier : Identifier) :
    Identifier :=
  { identifier with name := r identifier.name }

def Expr.rename (r : String → String) : Expr → Expr
  | .name identifier => .name (identifier.rename r)
  | .concat left right line => .concat (left.rename r) (right.rename r) line
  | .enc key message line => .enc (key.rename r) (message.rename r) line
  | .mac key message line => .mac (key.rename r) (message.rename r) line
  | .hash inner line => .hash (inner.rename r) line
  | .sign key message line => .sign (key.rename r) (message.rename r) line
  | .verify key message signature line =>
      .verify (key.rename r) (message.rename r) (signature.rename r) line
  | .assign target value line => .assign (target.rename r) (value.rename r) line

def RoleSet.rename (r : String → String) (roles : RoleSet) : RoleSet :=
  { roles with members := roles.members.map (Identifier.rename r) }

def KeyDecl.rename (r : String → String) (key : KeyDecl) : KeyDecl :=
  { key with
    name := key.name.rename r
    owners := key.owners.map (Identifier.rename r) }

def Message.rename (r : String → String) (message : Message) : Message :=
  { message with
    sender := message.sender.rename r
    receiver := message.receiver.rename r
    body := message.body.rename r }

def Assertion.rename (r : String → String) (assertion : Assertion) :
    Assertion :=
  { assertion with
    term := assertion.term.rename r
    permitted := assertion.permitted.map (·.map (Identifier.rename r)) }

def Protocol.rename (r : String → String) (protocol : Protocol) : Protocol :=
  { roles := protocol.roles.rename r
    keys := protocol.keys.map (KeyDecl.rename r)
    messages := protocol.messages.map (Message.rename r)
    assertions := protocol.assertions.map (Assertion.rename r) }

def Principal.rename (r : String → String) : Principal → Principal
  | .role name => .role (r name)
  | .adversary => .adversary

variable {r : String → String}

/-! ## Names in declarations -/

theorem namesOf_rename (identifiers : List Identifier) :
    namesOf (identifiers.map (Identifier.rename r)) =
      (namesOf identifiers).map r := by
  simp [namesOf, Identifier.rename, Function.comp_def]

@[simp] theorem KeyDecl.ownerNames_rename (key : KeyDecl) :
    (key.rename r).ownerNames = key.ownerNames.map r :=
  namesOf_rename key.owners

@[simp] theorem Message.body_rename (message : Message) :
    (message.rename r).body = message.body.rename r :=
  rfl

@[simp] theorem Assertion.permittedNames_rename (assertion : Assertion) :
    (assertion.rename r).permittedNames =
      assertion.permittedNames.map (List.map r) := by
  simp [permittedNames, rename, namesOf_rename, Function.comp_def]

namespace Protocol

variable (protocol : Protocol)

@[simp] theorem keys_rename :
    (protocol.rename r).keys = protocol.keys.map (KeyDecl.rename r) :=
  rfl

@[simp] theorem messages_rename :
    (protocol.rename r).messages = protocol.messages.map (Message.rename r) :=
  rfl

@[simp] theorem assertions_rename :
    (protocol.rename r).assertions =
      protocol.assertions.map (Assertion.rename r) :=
  rfl

@[simp] theorem roleNames_rename :
    (protocol.rename r).roleNames = protocol.roleNames.map r :=
  namesOf_rename protocol.roles.members

@[simp] theorem principals_rename :
    (protocol.rename r).principals =
      protocol.principals.map (Principal.rename r) := by
  simp [principals, Principal.rename]

end Protocol

theorem Principal.rename_injective (injective : Function.Injective r) :
    Function.Injective (Principal.rename r) := by
  intro first second same
  cases first with
  | role name =>
      cases second with
      | role other =>
          simp only [rename, role.injEq] at same
          rw [injective same]
      | adversary => cases same
  | adversary =>
      cases second with
      | role other => cases same
      | adversary => rfl

/-! ## Names in bodies -/

namespace Expr

@[simp] theorem occurrences_rename (body : Expr) :
    (body.rename r).occurrences = body.occurrences.map r := by
  induction body with
  | name => rfl
  | concat left right line ihLeft ihRight =>
      simp [rename, occurrences, ihLeft, ihRight]
  | enc key message line ih | mac key message line ih
  | sign key message line ih =>
      simp [rename, occurrences, Identifier.rename, ih]
  | hash inner line ih => exact ih
  | verify key message signature line ihMessage ihSignature =>
      simp [rename, occurrences, Identifier.rename, ihMessage, ihSignature]
  | assign target value line ih =>
      simp [rename, occurrences, Identifier.rename, ih]

@[simp] theorem names_observed_rename (body : Expr) :
    (body.rename r).observed.names = body.observed.names.map r := by
  induction body with
  | assign target value line ih =>
      simp [rename, observed, Observation.withName, Identifier.rename, ih]
  | name | concat | enc | mac | hash | sign | verify => rfl

theorem rename_eq_enc_bare_iff {body : Expr} {key plain : Identifier}
    {line : Int} :
    body.rename r = .enc key (.name plain) line ↔
      ∃ key' plain', body = .enc key' (.name plain') line ∧
        key'.rename r = key ∧ plain'.rename r = plain := by
  constructor
  · intro renamed
    cases body with
    | enc key' message line' =>
        cases message with
        | name plain' =>
            simp only [rename, enc.injEq, name.injEq] at renamed
            obtain ⟨rfl, rfl, rfl⟩ := renamed
            exact ⟨key', plain', rfl, rfl, rfl⟩
        | _ => cases renamed
    | _ => cases renamed
  · rintro ⟨key', plain', rfl, rfl, rfl⟩
    rfl

end Expr

end Secrecy
