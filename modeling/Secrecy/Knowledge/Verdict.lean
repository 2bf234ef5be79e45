import Secrecy.Knowledge.Config
import Secrecy.Knowledge.Ledger

/-!
# Verdicts on secrecy assertions

An assertion fails if the adversary holds its term, or if, having a list of
permitted roles, some role outside the list does.
-/

namespace Secrecy

structure Verdict where
  assertion : Assertion
  leakedRoles : List String
  adversaryLearned : Bool
  deriving DecidableEq, Repr

namespace Verdict

def term (verdict : Verdict) : String := verdict.assertion.term.name

def leakedTo (verdict : Verdict) : List Principal :=
  verdict.leakedRoles.map .role ++
    (if verdict.adversaryLearned then [.adversary] else [])

def passed (verdict : Verdict) : Bool := verdict.leakedTo.isEmpty

def failureReasons (verdict : Verdict) : List String :=
  (if verdict.adversaryLearned then ["adversary learned " ++ verdict.term]
    else []) ++
    (if verdict.leakedRoles.isEmpty then []
    else
      [verdict.term ++ " known to non-permitted role(s): " ++
        commaSeparated verdict.leakedRoles])

def reason (verdict : Verdict) : String :=
  if verdict.passed then
    if verdict.assertion.permitted.isSome then "known only to permitted roles"
    else "not known to the adversary"
  else String.intercalate "; " verdict.failureReasons

end Verdict

/-! ## Judging a ledger -/

namespace Holdings

/-- Whether a role outside the permitted ones is counted as holding a name. -/
def counts (holdings : Holdings) (config : Config) (name : String) : Bool :=
  if config.countAuthored then holdings.knows name
  else name ∈ holdings.learned

end Holdings

def Assertion.outsiders (assertion : Assertion) (roles : List String) :
    List String :=
  match assertion.permittedNames with
  | none => []
  | some permitted => roles.filter (· ∉ permitted)

def Ledger.judge (ledger : Ledger) (config : Config) (roles : List String)
    (assertion : Assertion) : Verdict :=
  { assertion
    leakedRoles := (assertion.outsiders roles).filter fun role =>
      (ledger.holdingsOf (.role role)).counts config assertion.term.name
    adversaryLearned :=
      (ledger.holdingsOf .adversary).knows assertion.term.name }

end Secrecy
