/-!
# Protocols

A protocol declares roles and keys, lists the messages that the roles send to
one another, and asserts which names stay secret.  Every part remembers the
line it was read from; `forgetLines` keeps what is left when layout is
disregarded, and two protocols are alike when that agrees.
-/

namespace Secrecy

structure Identifier where
  name : String
  line : Int
  deriving DecidableEq, Repr

/--
The body of a message.  Key positions hold identifiers, everything else an
expression.  An assignment names its value, and travels with that name in the
clear.
-/
inductive Expr where
  | name (identifier : Identifier)
  | concat (left right : Expr) (line : Int)
  | enc (key : Identifier) (message : Expr) (line : Int)
  | mac (key : Identifier) (message : Expr) (line : Int)
  | hash (inner : Expr) (line : Int)
  | sign (key : Identifier) (message : Expr) (line : Int)
  | verify (key : Identifier) (message signature : Expr) (line : Int)
  | assign (target : Identifier) (value : Expr) (line : Int)
  deriving DecidableEq, Repr

inductive KeyKind where
  | sharedKey
  | publicKey
  | privateKey
  deriving DecidableEq, Repr

structure RoleSet where
  members : List Identifier
  line : Int
  deriving DecidableEq, Repr

structure KeyDecl where
  kind : KeyKind
  name : Identifier
  owners : List Identifier
  line : Int
  deriving DecidableEq, Repr

structure Message where
  sender : Identifier
  receiver : Identifier
  body : Expr
  line : Int
  deriving DecidableEq, Repr

/-- The term is secret to the adversary, and to all roles but the permitted. -/
structure Assertion where
  term : Identifier
  permitted : Option (List Identifier)
  line : Int
  deriving DecidableEq, Repr

structure Protocol where
  roles : RoleSet
  keys : List KeyDecl
  messages : List Message
  assertions : List Assertion
  deriving DecidableEq, Repr

/-! ## Lines -/

namespace Expr

def line : Expr → Int
  | .name identifier => identifier.line
  | .concat _ _ line | .enc _ _ line | .mac _ _ line | .hash _ line
  | .sign _ _ line | .verify _ _ _ line | .assign _ _ line => line

def isName : Expr → Bool
  | .name _ => true
  | _ => false

def isConcat : Expr → Bool
  | .concat .. => true
  | _ => false

end Expr

def Identifier.forgetLines (identifier : Identifier) : Identifier :=
  ⟨identifier.name, 0⟩

def Expr.forgetLines : Expr → Expr
  | .name identifier => .name identifier.forgetLines
  | .concat left right _ => .concat left.forgetLines right.forgetLines 0
  | .enc key message _ => .enc key.forgetLines message.forgetLines 0
  | .mac key message _ => .mac key.forgetLines message.forgetLines 0
  | .hash inner _ => .hash inner.forgetLines 0
  | .sign key message _ => .sign key.forgetLines message.forgetLines 0
  | .verify key message signature _ =>
      .verify key.forgetLines message.forgetLines signature.forgetLines 0
  | .assign target value _ => .assign target.forgetLines value.forgetLines 0

def RoleSet.forgetLines (roles : RoleSet) : RoleSet :=
  ⟨roles.members.map Identifier.forgetLines, 0⟩

def KeyDecl.forgetLines (key : KeyDecl) : KeyDecl :=
  ⟨key.kind, key.name.forgetLines, key.owners.map Identifier.forgetLines, 0⟩

def Message.forgetLines (message : Message) : Message :=
  ⟨message.sender.forgetLines, message.receiver.forgetLines,
    message.body.forgetLines, 0⟩

def Assertion.forgetLines (assertion : Assertion) : Assertion :=
  ⟨assertion.term.forgetLines,
    assertion.permitted.map (·.map Identifier.forgetLines), 0⟩

namespace Protocol

def forgetLines (protocol : Protocol) : Protocol :=
  ⟨protocol.roles.forgetLines, protocol.keys.map KeyDecl.forgetLines,
    protocol.messages.map Message.forgetLines,
    protocol.assertions.map Assertion.forgetLines⟩

/-- Equal up to layout. -/
def Alike (p q : Protocol) : Prop := p.forgetLines = q.forgetLines

instance (p q : Protocol) : Decidable (Alike p q) :=
  inferInstanceAs (Decidable (p.forgetLines = q.forgetLines))

def upTo (n : Nat) (protocol : Protocol) : Protocol :=
  { protocol with messages := protocol.messages.take n }

end Protocol

/-! ## Names in declarations -/

def namesOf (identifiers : List Identifier) : List String :=
  identifiers.map Identifier.name

def KeyKind.keyword : KeyKind → String
  | .sharedKey => "shared"
  | .publicKey => "public"
  | .privateKey => "private"

def KeyDecl.ownerNames (key : KeyDecl) : List String := namesOf key.owners

def Assertion.permittedNames (assertion : Assertion) : Option (List String) :=
  assertion.permitted.map namesOf

namespace Protocol

def roleNames (protocol : Protocol) : List String :=
  namesOf protocol.roles.members

def keyNames (protocol : Protocol) : List String :=
  protocol.keys.map (·.name.name)

end Protocol

end Secrecy
