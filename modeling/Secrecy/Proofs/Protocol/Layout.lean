import Secrecy.Protocol.Mentions
import Secrecy.Protocol.Label

/-!
# What forgetting lines leaves alone

Labels and names are the same wherever they stand.
-/

namespace Secrecy

@[simp] theorem Identifier.name_forgetLines (identifier : Identifier) :
    identifier.forgetLines.name = identifier.name :=
  rfl

@[simp] theorem namesOf_forgetLines (identifiers : List Identifier) :
    namesOf (identifiers.map Identifier.forgetLines) = namesOf identifiers := by
  simp [namesOf]

namespace Expr

@[simp] theorem line_forgetLines (e : Expr) : e.forgetLines.line = 0 := by
  cases e <;> rfl

@[simp] theorem isName_forgetLines (e : Expr) :
    e.forgetLines.isName = e.isName := by
  cases e <;> rfl

@[simp] theorem isConcat_forgetLines (e : Expr) :
    e.forgetLines.isConcat = e.isConcat := by
  cases e <;> rfl

@[simp] theorem label_forgetLines (e : Expr) :
    e.forgetLines.label = e.label := by
  induction e with
  | name => rfl
  | concat left right line ihLeft ihRight =>
      simp [forgetLines, label, ihLeft, ihRight]
  | enc key message line ih | mac key message line ih
  | sign key message line ih =>
      simp [forgetLines, label, ih]
  | hash inner line ih => simp [forgetLines, label, ih]
  | verify key message signature line ihMessage ihSignature =>
      simp [forgetLines, label, ihMessage, ihSignature]
  | assign target value line ih =>
      simp [forgetLines, label, ih]

@[simp] theorem occurrences_forgetLines (e : Expr) :
    e.forgetLines.occurrences = e.occurrences := by
  induction e with
  | name => rfl
  | concat left right line ihLeft ihRight =>
      simp [forgetLines, occurrences, ihLeft, ihRight]
  | enc key message line ih | mac key message line ih
  | sign key message line ih =>
      simp [forgetLines, occurrences, ih]
  | hash inner line ih => exact ih
  | verify key message signature line ihMessage ihSignature =>
      simp [forgetLines, occurrences, ihMessage, ihSignature]
  | assign target value line ih =>
      simp [forgetLines, occurrences, ih]

end Expr

@[simp] theorem KeyDecl.kind_forgetLines (key : KeyDecl) :
    key.forgetLines.kind = key.kind :=
  rfl

@[simp] theorem KeyDecl.name_forgetLines (key : KeyDecl) :
    key.forgetLines.name = key.name.forgetLines :=
  rfl

@[simp] theorem KeyDecl.ownerNames_forgetLines (key : KeyDecl) :
    key.forgetLines.ownerNames = key.ownerNames :=
  namesOf_forgetLines key.owners

@[simp] theorem Message.sender_forgetLines (message : Message) :
    message.forgetLines.sender = message.sender.forgetLines :=
  rfl

@[simp] theorem Message.receiver_forgetLines (message : Message) :
    message.forgetLines.receiver = message.receiver.forgetLines :=
  rfl

@[simp] theorem Message.body_forgetLines (message : Message) :
    message.forgetLines.body = message.body.forgetLines :=
  rfl

@[simp] theorem Assertion.term_forgetLines (assertion : Assertion) :
    assertion.forgetLines.term = assertion.term.forgetLines :=
  rfl

@[simp] theorem Assertion.permittedNames_forgetLines (assertion : Assertion) :
    assertion.forgetLines.permittedNames = assertion.permittedNames := by
  simp [permittedNames, forgetLines, Function.comp_def]

@[simp] theorem Assertion.label_forgetLines (assertion : Assertion) :
    assertion.forgetLines.label = assertion.label := by
  rw [label, permittedNames_forgetLines]
  rfl

/-! ## What forgetting lines keeps

Parts of a protocol are the same without their lines if they have the same
names in the same places.
-/

theorem Identifier.forgetLines_eq_iff {a b : Identifier} :
    a.forgetLines = b.forgetLines ↔ a.name = b.name := by
  simp [forgetLines]

theorem Identifier.map_forgetLines_eq_iff {as bs : List Identifier} :
    as.map forgetLines = bs.map forgetLines ↔ namesOf as = namesOf bs := by
  have placed (identifiers : List Identifier) : identifiers.map forgetLines =
      (namesOf identifiers).map fun name => ⟨name, 0⟩ := by
    simp [namesOf, forgetLines]
  rw [placed, placed, List.map_inj_right]
  simp

theorem RoleSet.forgetLines_eq_iff {a b : RoleSet} :
    a.forgetLines = b.forgetLines ↔ namesOf a.members = namesOf b.members := by
  simp [forgetLines, Identifier.map_forgetLines_eq_iff]

theorem KeyDecl.forgetLines_eq_iff {a b : KeyDecl} :
    a.forgetLines = b.forgetLines ↔
      a.kind = b.kind ∧ a.name.name = b.name.name ∧
        a.ownerNames = b.ownerNames := by
  simp [forgetLines, ownerNames, Identifier.forgetLines_eq_iff,
    Identifier.map_forgetLines_eq_iff]

theorem Message.forgetLines_eq_iff {a b : Message} :
    a.forgetLines = b.forgetLines ↔
      a.sender.name = b.sender.name ∧ a.receiver.name = b.receiver.name ∧
        a.body.forgetLines = b.body.forgetLines := by
  simp [forgetLines, Identifier.forgetLines_eq_iff]

theorem Assertion.forgetLines_eq_iff {a b : Assertion} :
    a.forgetLines = b.forgetLines ↔
      a.term.name = b.term.name ∧ a.permittedNames = b.permittedNames := by
  obtain ⟨term, permitted, line⟩ := a
  obtain ⟨term', permitted', line'⟩ := b
  cases permitted <;> cases permitted' <;>
    simp [forgetLines, permittedNames, Identifier.forgetLines_eq_iff,
      Identifier.map_forgetLines_eq_iff]

namespace Protocol

variable (p : Protocol)

@[simp] theorem keys_forgetLines :
    p.forgetLines.keys = p.keys.map KeyDecl.forgetLines :=
  rfl

@[simp] theorem messages_forgetLines :
    p.forgetLines.messages = p.messages.map Message.forgetLines :=
  rfl

@[simp] theorem assertions_forgetLines :
    p.forgetLines.assertions = p.assertions.map Assertion.forgetLines :=
  rfl

@[simp] theorem roleNames_forgetLines : p.forgetLines.roleNames = p.roleNames :=
  namesOf_forgetLines p.roles.members

@[simp] theorem keyNames_forgetLines : p.forgetLines.keyNames = p.keyNames := by
  simp [keyNames]

@[simp] theorem mentions_forgetLines : p.forgetLines.mentions = p.mentions := by
  simp [mentions, List.flatMap_map, Function.comp_def]

variable {p} in
theorem alike_iff {q : Protocol} :
    p.Alike q ↔ p.roles.forgetLines = q.roles.forgetLines ∧
      p.keys.map KeyDecl.forgetLines = q.keys.map KeyDecl.forgetLines ∧
      p.messages.map Message.forgetLines =
        q.messages.map Message.forgetLines ∧
      p.assertions.map Assertion.forgetLines =
        q.assertions.map Assertion.forgetLines := by
  simp [Alike, forgetLines]

end Protocol

end Secrecy
