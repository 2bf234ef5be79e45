import Secrecy.Scope.Fault

/-!
# Resolving the names of a protocol

Declarations come first, then the messages in order.  Within a body names are
met in the order of evaluation: left before right, a key before what it
applies to, and an assigned value before its target.  A key must be known
before it is used and a target must be new; any other unknown name is fresh and
belongs to the sender of the message.
-/

namespace Secrecy

namespace Scope

/-! ## Bodies -/

structure Step where
  sender : String
  index : Nat
  deriving DecidableEq, Repr

def meet (scope : Scope) (step : Step) (identifier : Identifier) : Scope :=
  match scope.lookup identifier.name with
  | some _ => scope
  | none =>
      scope.bind ⟨identifier.name, .fresh step.sender step.index,
        identifier.line⟩

def checkKey (scope : Scope) (constructor : String) (key : Identifier) :
    Except ScopeFault Unit :=
  match scope.lookup key.name with
  | none => .error (.undeclaredKey key constructor)
  | some binding =>
      if binding.kind = .role then .error (.roleAsKey key constructor)
      else .ok ()

def assign (scope : Scope) (step : Step) (target : Identifier) :
    Except ScopeFault Scope :=
  match scope.lookup target.name with
  | some existing => .error (.rebound target existing)
  | none =>
      .ok (scope.bind ⟨target.name, .assigned step.sender step.index,
        target.line⟩)

def resolve (step : Step) : Expr → Scope → Except ScopeFault Scope
  | .name identifier, scope => .ok (scope.meet step identifier)
  | .concat left right _, scope => do
      resolve step right (← resolve step left scope)
  | .enc key message _, scope => do
      scope.checkKey "Enc" key
      resolve step message scope
  | .mac key message _, scope => do
      scope.checkKey "Mac" key
      resolve step message scope
  | .hash inner _, scope => resolve step inner scope
  | .sign key message _, scope => do
      scope.checkKey "Sign" key
      resolve step message scope
  | .verify key message signature _, scope => do
      scope.checkKey "Verify" key
      resolve step signature (← resolve step message scope)
  | .assign target value _, scope => do
      (← resolve step value scope).assign step target

/-! ## Declarations, messages and assertions -/

def declareRole (scope : Scope) (role : Identifier) :
    Except ScopeFault Scope :=
  match scope.lookup role.name with
  | some first => .error (.duplicateRole role first)
  | none => .ok (scope.bind ⟨role.name, .role, role.line⟩)

def requireRole (scope : Scope) (fault : Identifier → ScopeFault)
    (identifier : Identifier) : Except ScopeFault Unit :=
  if identifier.name ∈ scope.roles then .ok () else .error (fault identifier)

def declareKey (scope : Scope) (key : KeyDecl) : Except ScopeFault Scope :=
  match scope.lookup key.name.name with
  | some existing => .error (.keyConflict key.name existing)
  | none => do
      key.owners.forM (scope.requireRole (.foreignOwner · key.name.name))
      return scope.bind ⟨key.name.name, .key, key.name.line⟩

def readMessage (scope : Scope) (message : Message) (index : Nat) :
    Except ScopeFault Scope := do
  scope.requireRole (.foreignEndpoint .sender) message.sender
  scope.requireRole (.foreignEndpoint .receiver) message.receiver
  resolve ⟨message.sender.name, index⟩ message.body scope

/-- Reads messages of which the first has the given number. -/
def readMessages (index : Nat) : List Message → Scope →
    Except ScopeFault Scope
  | [], scope => .ok scope
  | message :: messages, scope => do
      readMessages (index + 1) messages (← scope.readMessage message index)

def checkAssertion (scope : Scope) (assertion : Assertion) :
    Except ScopeFault Unit :=
  match scope.lookup assertion.term.name with
  | none => .error (.unknownTerm assertion.term)
  | some _ =>
      (assertion.permitted.getD []).forM (scope.requireRole .foreignPermitted)

end Scope

namespace Protocol

def scope (protocol : Protocol) : Except ScopeFault Scope := do
  let roles ← protocol.roles.members.foldlM Scope.declareRole Scope.empty
  let declared ← protocol.keys.foldlM Scope.declareKey roles
  let scope ← Scope.readMessages 0 protocol.messages declared
  protocol.assertions.forM scope.checkAssertion
  return scope

def checked (protocol : Protocol) : Except ScopeFault Protocol := do
  let _ ← protocol.scope
  return protocol

end Protocol

end Secrecy
