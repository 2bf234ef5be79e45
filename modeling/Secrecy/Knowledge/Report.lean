import Secrecy.Knowledge.Verdict

/-!
# The analysis of a protocol

The analysis enters all messages into a blank ledger, opens what can be opened,
and judges the assertions on what everybody holds in the end.  Bodies are gone
through to the ground, however tall they are: that a machine may run out of room
for nested calls on the way is not modelled.
-/

namespace Secrecy

structure Knowledge where
  principal : Principal
  clear : List String
  sealedTerms : List SealedTerm
  authored : List String
  learned : List String
  deriving DecidableEq, Repr

namespace Knowledge

def ofHoldings (principal : Principal) (holdings : Holdings) : Knowledge :=
  ⟨principal, sorted holdings.clear, SealedTerm.byLabel holdings.sealedTerms,
    sorted holdings.authored, sorted holdings.learned⟩

def name (knowledge : Knowledge) : String := knowledge.principal.name

def knows (knowledge : Knowledge) (term : String) : Bool :=
  term ∈ knowledge.clear

end Knowledge

/-- Every principal with the names it holds in the clear. -/
abbrev Snapshot := List (Principal × List String)

structure Report where
  knowledge : List Knowledge
  verdicts : List Verdict
  catastrophic : List String
  rounds : Nat
  history : List Snapshot
  deriving DecidableEq, Repr

namespace Report

def passed (report : Report) : Bool := report.verdicts.all Verdict.passed

def failures (report : Report) : List Verdict :=
  report.verdicts.filter (!·.passed)

def knowledgeOf? (report : Report) (principal : Principal) :
    Option Knowledge :=
  report.knowledge.find? (·.principal = principal)

def verdictFor? (report : Report) (term : String) : Option Verdict :=
  report.verdicts.find? (·.term = term)

end Report

namespace Protocol

def publicKeyNames (protocol : Protocol) : List String :=
  (protocol.keys.filter (·.kind = .publicKey)).map (·.name.name)

/--
A name in the wrong hands is catastrophic if it is a key that was never public,
or starts like something that should not leak.
-/
def isCatastrophic (protocol : Protocol) (config : Config) (name : String) :
    Bool :=
  name ∉ protocol.publicKeyNames &&
    (name ∈ protocol.keyNames ||
      config.leakPrefixes.any (Text.startsWith name))

end Protocol

namespace Ledger

def snapshot (ledger : Ledger) : Snapshot :=
  ledger.entries.map fun entry =>
    (entry.principal, sorted entry.holdings.clear)

def catastrophic (ledger : Ledger) (config : Config) (protocol : Protocol) :
    List String :=
  sorted ((ledger.holdingsOf .adversary).clear.filter
    (protocol.isCatastrophic config))

/-- The ledger once keys are given out, if asked for, and messages exchanged. -/
def observed (config : Config) (protocol : Protocol) :
    Except AnalysisFault Ledger := do
  let start := blank protocol.principals
  let seeded ←
    if config.seedKeyOwners then protocol.keys.foldlM seedKey start
    else pure start
  protocol.messages.foldlM enterMessage seeded

end Ledger

def Ledger.Run.report (run : Ledger.Run) (config : Config)
    (protocol : Protocol) : Report :=
  { knowledge := protocol.principals.map fun principal =>
      .ofHoldings principal (run.final.holdingsOf principal)
    verdicts := protocol.assertions.map
      (run.final.judge config protocol.roleNames)
    catastrophic := run.final.catastrophic config protocol
    rounds := run.rounds
    history :=
      if config.recordHistory then run.ledgers.map Ledger.snapshot else [] }

/-- The report on a protocol, or the first name that belongs to no role. -/
def Protocol.analyze (config : Config) (protocol : Protocol) :
    Except AnalysisFault Report := do
  let ledger ← Ledger.observed config protocol
  ledger.requireLabels.mapError .unlabelled
  return ledger.settle.report config protocol

end Secrecy
