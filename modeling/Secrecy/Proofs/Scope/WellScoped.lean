import Secrecy.Protocol.Mentions

/-!
# Well-scoped protocols

When the names of a protocol resolve, said without a scope: who may declare,
send and receive, and which names may stand for keys and targets, given the
names that are read before them.  A protocol is resolved exactly if it is
well-scoped, and any other comes to a fault.
-/

namespace Secrecy

/-! ## Readings -/

inductive Mention where
  | plain (name : String)
  | key (name : String)
  | target (name : String)
  deriving DecidableEq, Repr

def Mention.name : Mention → String
  | .plain name | .key name | .target name => name

namespace Expr

/-- The names of a body as it is evaluated: a value comes before its target. -/
def reading : Expr → List Mention
  | .name identifier => [.plain identifier.name]
  | .concat left right _ => left.reading ++ right.reading
  | .enc key message _ | .mac key message _ | .sign key message _ =>
      .key key.name :: message.reading
  | .hash inner _ => inner.reading
  | .verify key message signature _ =>
      .key key.name :: (message.reading ++ signature.reading)
  | .assign target value _ => value.reading ++ [.target target.name]

theorem mem_reading {body : Expr} {name : String} :
    name ∈ body.reading.map Mention.name ↔ name ∈ body.occurrences := by
  induction body with
  | name => simp [reading, occurrences, Mention.name]
  | concat left right line ihLeft ihRight =>
      rw [reading, occurrences, List.map_append, List.mem_append, ihLeft,
        ihRight, List.mem_append]
  | enc key message line ih | mac key message line ih
  | sign key message line ih =>
      rw [reading, occurrences, List.map_cons, List.mem_cons, ih,
        List.mem_cons, Mention.name]
  | hash inner line ih => exact ih
  | verify key message signature line ihMessage ihSignature =>
      rw [reading, occurrences, List.map_cons, List.mem_cons,
        List.map_append, List.mem_append, ihMessage, ihSignature,
        List.mem_cons, List.mem_append, Mention.name]
  | assign target value line ih =>
      rw [reading, occurrences, List.map_append, List.mem_append, ih,
        List.mem_cons, or_comm]
      simp [Mention.name]

@[simp] theorem reading_forgetLines (body : Expr) :
    body.forgetLines.reading = body.reading := by
  induction body with
  | name => rfl
  | concat left right line ihLeft ihRight =>
      simp [forgetLines, reading, ihLeft, ihRight]
  | enc key message line ih | mac key message line ih
  | sign key message line ih =>
      simp [forgetLines, reading, ih, Identifier.forgetLines]
  | hash inner line ih => exact ih
  | verify key message signature line ihMessage ihSignature =>
      simp [forgetLines, reading, ihMessage, ihSignature,
        Identifier.forgetLines]
  | assign target value line ih =>
      simp [forgetLines, reading, ih, Identifier.forgetLines]

end Expr

namespace Protocol

def reading (protocol : Protocol) : List Mention :=
  protocol.messages.flatMap (·.body.reading)

theorem reading_split {protocol : Protocol} {early late : List Message}
    {message : Message} (sent : protocol.messages = early ++ message :: late)
    {before after : List Mention} {mention : Mention}
    (split : message.body.reading = before ++ mention :: after) :
    protocol.reading = early.flatMap (·.body.reading) ++ before ++ mention ::
      (after ++ late.flatMap (·.body.reading)) := by
  simp [reading, sent, split]

structure WellScoped (protocol : Protocol) : Prop where
  roles : protocol.roleNames.Nodup
  keys : protocol.keyNames.Nodup
  keys_notRole : ∀ key ∈ protocol.keyNames, key ∉ protocol.roleNames
  owners : ∀ key ∈ protocol.keys, ∀ owner ∈ key.ownerNames,
    owner ∈ protocol.roleNames
  endpoints : ∀ message ∈ protocol.messages,
    message.sender.name ∈ protocol.roleNames ∧
      message.receiver.name ∈ protocol.roleNames
  /-- A key is declared, or it was read before. -/
  keyUses : ∀ before key after,
    protocol.reading = before ++ .key key :: after →
      key ∉ protocol.roleNames ∧
        (key ∈ protocol.keyNames ∨ key ∈ before.map Mention.name)
  /-- A target is neither declared nor was it read before. -/
  targets : ∀ before target after,
    protocol.reading = before ++ .target target :: after →
      target ∉ protocol.roleNames ∧ target ∉ protocol.keyNames ∧
        target ∉ before.map Mention.name
  terms : ∀ assertion ∈ protocol.assertions,
    assertion.term.name ∈ protocol.roleNames ∨
      assertion.term.name ∈ protocol.keyNames ∨
      ∃ message ∈ protocol.messages,
        assertion.term.name ∈ message.body.occurrences
  permitted : ∀ assertion ∈ protocol.assertions,
    ∀ names ∈ assertion.permittedNames, ∀ name ∈ names,
      name ∈ protocol.roleNames

end Protocol

/-! ## Mentions in order -/

namespace Mention

/-- Whether a name may stand where it does when the given ones are known. -/
def Fits (roles known : List String) : Mention → Prop
  | .plain _ => True
  | .key name => name ∉ roles ∧ name ∈ known
  | .target name => name ∉ known

def InOrder (roles known : List String) (mentions : List Mention) : Prop :=
  ∀ before mention after, mentions = before ++ mention :: after →
    mention.Fits roles (known ++ before.map name)

variable {roles known : List String} {mention : Mention}
  {mentions others : List Mention}

theorem inOrder_nil : InOrder roles known [] := by
  intro before mention after split
  cases before <;> cases split

theorem inOrder_cons :
    InOrder roles known (mention :: mentions) ↔
      mention.Fits roles known ∧
        InOrder roles (known ++ [mention.name]) mentions := by
  constructor
  · intro inOrder
    refine ⟨by simpa using inOrder [] mention mentions rfl, ?_⟩
    rintro before next after rfl
    simpa using inOrder (mention :: before) next after rfl
  · rintro ⟨fits, inOrder⟩ before next after split
    cases before with
    | nil =>
        cases split
        simpa using fits
    | cons first before =>
        cases split
        simpa using inOrder before next after rfl

theorem inOrder_append :
    InOrder roles known (mentions ++ others) ↔
      InOrder roles known mentions ∧
        InOrder roles (known ++ mentions.map name) others := by
  induction mentions generalizing known with
  | nil => simp [inOrder_nil]
  | cons mention mentions ih =>
      rw [List.cons_append, inOrder_cons, ih, inOrder_cons, and_assoc,
        List.append_assoc, List.map_cons]
      rfl

theorem inOrder_singleton :
    InOrder roles known [mention] ↔ mention.Fits roles known := by
  rw [inOrder_cons, and_iff_left inOrder_nil]

end Mention

end Secrecy
