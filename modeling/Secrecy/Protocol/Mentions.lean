import Secrecy.Distinct
import Secrecy.Protocol

/-!
# Mentioned names

The names that occur in a body, keys and assignment targets included, and the
names of a whole protocol, each once and in the order in which a reader meets
them.
-/

namespace Secrecy

def Expr.occurrences : Expr → List String
  | .name identifier => [identifier.name]
  | .concat left right _ => left.occurrences ++ right.occurrences
  | .enc key message _ | .mac key message _ | .sign key message _ =>
      key.name :: message.occurrences
  | .hash inner _ => inner.occurrences
  | .verify key message signature _ =>
      key.name :: (message.occurrences ++ signature.occurrences)
  | .assign target value _ => target.name :: value.occurrences

def Expr.mentions (body : Expr) : List String := distinct body.occurrences

def Protocol.mentions (protocol : Protocol) : List String :=
  distinct (protocol.roleNames ++ protocol.keyNames ++
    protocol.messages.flatMap (·.body.occurrences) ++
    protocol.assertions.map (·.term.name))

@[simp] theorem Expr.mem_mentions {body : Expr} {name : String} :
    name ∈ body.mentions ↔ name ∈ body.occurrences := by
  simp [Expr.mentions]

end Secrecy
