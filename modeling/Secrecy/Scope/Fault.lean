import Secrecy.Scope

/-!
# Faults of scope

Every fault has a culprit, the identifier at which it shows.
-/

namespace Secrecy

inductive Endpoint where
  | sender
  | receiver
  deriving DecidableEq, Repr

def Endpoint.word : Endpoint → String
  | .sender => "sender"
  | .receiver => "receiver"

inductive ScopeFault where
  | duplicateRole (role : Identifier) (first : Binding)
  | keyConflict (key : Identifier) (existing : Binding)
  | foreignOwner (owner : Identifier) (key : String)
  | foreignEndpoint (endpoint : Endpoint) (who : Identifier)
  | undeclaredKey (key : Identifier) (constructor : String)
  | roleAsKey (key : Identifier) (constructor : String)
  | rebound (target : Identifier) (existing : Binding)
  | unknownTerm (term : Identifier)
  | foreignPermitted (role : Identifier)
  deriving DecidableEq, Repr

namespace ScopeFault

def culprit : ScopeFault → Identifier
  | .duplicateRole culprit _ | .keyConflict culprit _
  | .foreignOwner culprit _ | .foreignEndpoint _ culprit
  | .undeclaredKey culprit _ | .roleAsKey culprit _ | .rebound culprit _
  | .unknownTerm culprit | .foreignPermitted culprit => culprit

def line (fault : ScopeFault) : Int := fault.culprit.line

def named (name : String) : String := "'" ++ name ++ "'"

def message : ScopeFault → String
  | .duplicateRole role first =>
      "duplicate role " ++ named role.name ++ " (first declared on line " ++
        toString first.line ++ ")"
  | .keyConflict key existing =>
      "key " ++ named key.name ++ " conflicts with " ++ existing.kind.word ++
        " declared on line " ++ toString existing.line
  | .foreignOwner owner key =>
      "owner " ++ named owner.name ++ " of key " ++ named key ++
        " is not a declared role"
  | .foreignEndpoint endpoint who =>
      endpoint.word ++ " " ++ named who.name ++ " is not a declared role"
  | .undeclaredKey key constructor =>
      "undeclared key " ++ named key.name ++ " used in " ++ constructor ++
        "(...)"
  | .roleAsKey key constructor =>
      "role " ++ named key.name ++ " cannot be used as a key in " ++
        constructor ++ "(...)"
  | .rebound target existing =>
      "cannot assign to " ++ named target.name ++ ": already bound as " ++
        existing.kind.word ++ " (line " ++ toString existing.line ++ ")"
  | .unknownTerm term =>
      "secrecy assertion on undeclared identifier " ++ named term.name
  | .foreignPermitted role =>
      named role.name ++ " in 'for' list is not a declared role"

end ScopeFault

end Secrecy
