/-!
# Principals

Those who can know something: the declared roles, and an adversary who reads
every message.  A role may bear the adversary's name and still is a role.
-/

namespace Secrecy

inductive Principal where
  | role (name : String)
  | adversary
  deriving DecidableEq, Repr

namespace Principal

def name : Principal → String
  | .role name => name
  | .adversary => "Adversary"

def isAdversary : Principal → Bool
  | .role _ => false
  | .adversary => true

end Principal

end Secrecy
