import Secrecy.Knowledge.Holdings
import Secrecy.Knowledge.Principal

/-!
# The ledger of all principals

A ledger has one entry per principal: the roles in the order of declaration,
then the adversary.  Keys and messages are entered first; then passes over all
entries open what can be opened, until a pass changes nothing.
-/

namespace Secrecy

/-- A role that is declared repeatedly is visited as often in each pass. -/
structure Entry where
  principal : Principal
  visits : Nat
  holdings : Holdings
  deriving DecidableEq, Repr

structure Ledger where
  entries : List Entry
  deriving DecidableEq, Repr

inductive AnalysisFault where
  | undeclared (name : String)
  | unlabelled (fault : SealedTerm.LabelFault)
  deriving DecidableEq, Repr

def AnalysisFault.message : AnalysisFault → String
  | .undeclared name => "undeclared role " ++ name
  | .unlabelled _ => "sealed term without a label"

/-- The roles as declared, repetitions included, and the adversary last. -/
def Protocol.principals (protocol : Protocol) : List Principal :=
  protocol.roleNames.map .role ++ [.adversary]

namespace Ledger

def blank (principals : List Principal) : Ledger :=
  ⟨(distinct principals).map fun principal =>
    ⟨principal, principals.count principal, .nothing⟩⟩

def holdingsOf (ledger : Ledger) (principal : Principal) : Holdings :=
  match ledger.entries.find? (·.principal = principal) with
  | none => .nothing
  | some entry => entry.holdings

/-! ## Entering declarations and messages -/

def update (change : Holdings → Holdings) (entry : Entry) : Entry :=
  { entry with holdings := change entry.holdings }

def alterAll (change : Holdings → Holdings) (ledger : Ledger) : Ledger :=
  ⟨ledger.entries.map (update change)⟩

def alter (ledger : Ledger) (principal : Principal)
    (change : Holdings → Holdings) : Except AnalysisFault Ledger :=
  if ledger.entries.any (·.principal = principal) then
    .ok ⟨ledger.entries.map fun entry =>
      if entry.principal = principal then update change entry else entry⟩
  else .error (.undeclared principal.name)

/-- A public key is known to everybody, any other to its owners. -/
def seedKey (ledger : Ledger) (key : KeyDecl) : Except AnalysisFault Ledger :=
  let gain := Holdings.learn [key.name.name]
  match key.kind with
  | .publicKey => .ok (ledger.alterAll gain)
  | .sharedKey | .privateKey =>
      key.ownerNames.foldlM (fun ledger owner => ledger.alter (.role owner) gain)
        ledger

def enterMessage (ledger : Ledger) (message : Message) :
    Except AnalysisFault Ledger := do
  let sent ← ledger.alter (.role message.sender.name) (.send message.body)
  let received ←
    sent.alter (.role message.receiver.name) (.receive message.body)
  received.alter .adversary (.receive message.body)

/-! ## Passes -/

/-- A pass goes by labels, so it needs every term to have one. -/
def requireLabels (ledger : Ledger) : Except SealedTerm.LabelFault Unit :=
  ledger.entries.forM fun entry =>
    entry.holdings.sealedTerms.forM fun term => do
      let _ ← term.label

def sweepEntry (entry : Entry) : Entry :=
  update (Nat.repeat Holdings.sweep entry.visits) entry

def sweep (ledger : Ledger) : Ledger := ⟨ledger.entries.map sweepEntry⟩

def pass (ledger : Ledger) : Except SealedTerm.LabelFault Ledger := do
  ledger.requireLabels
  return ledger.sweep

/-- The ledgers that a run of passes leaves behind, and the one it ends at. -/
structure Run where
  past : List Ledger
  final : Ledger
  deriving DecidableEq, Repr

namespace Run

def rounds (run : Run) : Nat := run.past.length

def ledgers (run : Run) : List Ledger := run.past ++ [run.final]

end Run

def settleWithin : Nat → Ledger → Run
  | 0, ledger => ⟨[], ledger⟩
  | bound + 1, ledger =>
      let next := ledger.sweep
      if next = ledger then ⟨[], ledger⟩
      else
        let run := settleWithin bound next
        { run with past := ledger :: run.past }

def sealedCount (ledger : Ledger) : Nat :=
  (ledger.entries.flatMap (·.holdings.sealedTerms)).length

/--
Passes until nothing changes.  Every pass before the last opens some term for
good, so there are no more of them than sealed terms in the ledger.
-/
def settle (ledger : Ledger) : Run := settleWithin ledger.sealedCount ledger

end Ledger

end Secrecy
