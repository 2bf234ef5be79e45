import Secrecy.Protocol

/-!
# Scopes

A scope lists the names of a protocol in the order in which they were bound,
each with the way it came in: as a role, as a declared key, as the target of an
assignment, or simply by being used for the first time in some message.
-/

namespace Secrecy

inductive NameKind where
  | role
  | key
  | assigned (origin : String) (step : Nat)
  | fresh (origin : String) (step : Nat)
  deriving DecidableEq, Repr

namespace NameKind

def word : NameKind → String
  | .role => "role"
  | .key => "key"
  | .assigned .. => "assigned"
  | .fresh .. => "fresh"

def isAssigned : NameKind → Bool
  | .assigned .. => true
  | _ => false

def isFresh : NameKind → Bool
  | .fresh .. => true
  | _ => false

/-- The role whose message brought the name in. -/
def origin? : NameKind → Option String
  | .role | .key => none
  | .assigned origin _ | .fresh origin _ => some origin

/-- The number, from 0, of the message that brought the name in. -/
def step? : NameKind → Option Nat
  | .role | .key => none
  | .assigned _ step | .fresh _ step => some step

end NameKind

structure Binding where
  name : String
  kind : NameKind
  line : Int
  deriving DecidableEq, Repr

structure Scope where
  bindings : List Binding
  deriving DecidableEq, Repr

namespace Scope

def empty : Scope := ⟨[]⟩

def lookup (scope : Scope) (name : String) : Option Binding :=
  scope.bindings.find? (·.name = name)

def bind (scope : Scope) (binding : Binding) : Scope :=
  ⟨scope.bindings ++ [binding]⟩

def namesWith (scope : Scope) (wanted : NameKind → Bool) : List String :=
  (scope.bindings.filter (wanted ·.kind)).map Binding.name

def roles (scope : Scope) : List String := scope.namesWith (· = .role)

def keys (scope : Scope) : List String := scope.namesWith (· = .key)

def assigned (scope : Scope) : List String := scope.namesWith NameKind.isAssigned

def fresh (scope : Scope) : List String := scope.namesWith NameKind.isFresh

@[simp] theorem lookup_empty (name : String) : empty.lookup name = none := rfl

theorem lookup_bind (scope : Scope) (binding : Binding) (name : String) :
    (scope.bind binding).lookup name =
      (scope.lookup name).or
        (if binding.name = name then some binding else none) := by
  simp [lookup, bind, List.find?_append, List.find?_cons]
  split <;> simp_all

end Scope

end Secrecy
