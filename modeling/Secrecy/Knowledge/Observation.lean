import Secrecy.Knowledge.SealedTerm

/-!
# What a message shows

A bare name is seen as it is, and so is the target of an assignment.  Anything
built by a constructor is seen as one sealed term, its insides out of reach.
-/

namespace Secrecy

structure Observation where
  names : List String
  sealedTerms : List SealedTerm
  deriving DecidableEq, Repr

namespace Observation

def ofName (name : String) : Observation := ⟨[name], []⟩

def ofSealed (maker : SealedTerm.Maker) (key : Option String)
    (parts : List Expr) : Observation :=
  ⟨[], [⟨maker, key, parts.map Expr.label, parts.map Expr.isName⟩]⟩

def withName (name : String) (seen : Observation) : Observation :=
  { seen with names := name :: seen.names }

end Observation

open Observation

def Expr.observed : Expr → Observation
  | .name identifier => ofName identifier.name
  | .concat left right _ => ofSealed .concat none [left, right]
  | .enc key message _ => ofSealed .enc (some key.name) [message]
  | .mac key message _ => ofSealed .mac (some key.name) [message]
  | .hash inner _ => ofSealed .hash none [inner]
  | .sign key message _ => ofSealed .sign (some key.name) [message]
  | .verify key message signature _ =>
      ofSealed .verify (some key.name) [message, signature]
  | .assign target value _ => value.observed.withName target.name

end Secrecy
