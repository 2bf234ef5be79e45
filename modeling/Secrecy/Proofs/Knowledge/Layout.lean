import Secrecy.Knowledge.Json
import Secrecy.Proofs.Knowledge.Analysis
import Secrecy.Proofs.Protocol.Layout

/-!
# Reports without lines

The analysis goes by names and labels, so it comes to the same ledgers for a
protocol that has forgotten its lines.  Only the assertion that a verdict is
about still tells where it stands.
-/

namespace Secrecy

def Verdict.forgetLines (verdict : Verdict) : Verdict :=
  { verdict with assertion := verdict.assertion.forgetLines }

def Report.forgetLines (report : Report) : Report :=
  { report with verdicts := report.verdicts.map Verdict.forgetLines }

@[simp] theorem Expr.payload_forgetLines (body : Expr) :
    body.forgetLines.payload = body.payload.forgetLines := by
  induction body with
  | assign target value line ih => exact ih
  | _ => rfl

/-! ## Ledgers -/

@[simp] theorem Expr.observed_forgetLines (body : Expr) :
    body.forgetLines.observed = body.observed := by
  induction body with
  | assign target value line ih =>
      simp only [forgetLines, observed, ih, Identifier.name_forgetLines]
  | _ => simp [forgetLines, observed, Observation.ofSealed]

namespace Ledger

variable {config : Config} {protocol : Protocol}

theorem seedKey_forgetLines (ledger : Ledger) (key : KeyDecl) :
    ledger.seedKey key.forgetLines = ledger.seedKey key := by
  simp [seedKey]

theorem enterMessage_forgetLines (ledger : Ledger) (message : Message) :
    ledger.enterMessage message.forgetLines = ledger.enterMessage message := by
  have sent : Holdings.send message.body.forgetLines =
      Holdings.send message.body := by
    funext holdings
    simp [Holdings.send]
  have received : Holdings.receive message.body.forgetLines =
      Holdings.receive message.body := by
    funext holdings
    simp [Holdings.receive]
  simp [enterMessage, sent, received]

theorem observed_forgetLines (config : Config) (protocol : Protocol) :
    observed config protocol.forgetLines = observed config protocol := by
  have principals : protocol.forgetLines.principals = protocol.principals := by
    simp [Protocol.principals]
  simp [observed, principals, List.foldlM_map, seedKey_forgetLines,
    enterMessage_forgetLines]

theorem judge_forgetLines (ledger : Ledger) (config : Config)
    (roles : List String) (assertion : Assertion) :
    ledger.judge config roles assertion.forgetLines =
      (ledger.judge config roles assertion).forgetLines := by
  simp [judge, Verdict.forgetLines, Assertion.outsiders]

theorem Run.report_forgetLines (run : Run) (config : Config)
    (protocol : Protocol) :
    run.report config protocol.forgetLines =
      (run.report config protocol).forgetLines := by
  have principals : protocol.forgetLines.principals = protocol.principals := by
    simp [Protocol.principals]
  have publicKeys :
      protocol.forgetLines.publicKeyNames = protocol.publicKeyNames := by
    unfold Protocol.publicKeyNames
    rw [Protocol.keys_forgetLines, List.filter_map, List.map_map]
    rfl
  have catastrophic : run.final.catastrophic config protocol.forgetLines =
      run.final.catastrophic config protocol := by
    unfold Ledger.catastrophic Protocol.isCatastrophic
    rw [publicKeys, Protocol.keyNames_forgetLines]
  simp [report, Report.forgetLines, principals, catastrophic,
    judge_forgetLines]

end Ledger

theorem Protocol.analyze_forgetLines (config : Config) (protocol : Protocol) :
    protocol.forgetLines.analyze config =
      (protocol.analyze config).map Report.forgetLines := by
  rw [analyze_eq, Ledger.observed_forgetLines, analyze_eq]
  cases Ledger.observed config protocol with
  | error fault => rfl
  | ok ledger =>
      exact congrArg Except.ok
        (ledger.settle.report_forgetLines config protocol)

/-! ## Documents -/

namespace Json

def changeMember (name : String) (change : Json → Json) : Json → Json
  | .obj members => .obj (members.map fun (key, value) =>
      (key, if key = name then change value else value))
  | document => document

def changeItems (change : Json → Json) : Json → Json
  | .arr items => .arr (items.map change)
  | document => document

/-- A report's document with the lines of its verdicts taken out. -/
def blankLines : Json → Json :=
  changeMember "verdicts" (changeItems (changeMember "line" fun _ => .null))

end Json

theorem Verdict.json_forgetLines (verdict : Verdict) :
    verdict.forgetLines.json.changeMember "line" (fun _ => .null) =
      verdict.json.changeMember "line" fun _ => .null := by
  have reason : verdict.forgetLines.reason = verdict.reason := by
    have told : verdict.forgetLines.assertion.permitted.isSome =
        verdict.assertion.permitted.isSome := Option.isSome_map
    unfold Verdict.reason
    rw [told]
    rfl
  have label : verdict.forgetLines.assertion.label = verdict.assertion.label :=
    verdict.assertion.label_forgetLines
  have others : verdict.forgetLines.term = verdict.term ∧
      verdict.forgetLines.passed = verdict.passed ∧
      verdict.forgetLines.leakedTo = verdict.leakedTo := ⟨rfl, rfl, rfl⟩
  simp [Verdict.json, Json.changeMember, reason, label, others]

theorem Report.json_forgetLines (report : Report) :
    report.forgetLines.json.blankLines = report.json.blankLines := by
  have passed : report.forgetLines.passed = report.passed := by
    simp only [Report.passed, forgetLines, List.all_map]
    rfl
  have verdicts : report.forgetLines.verdicts.map
        (Json.changeMember "line" (fun _ => .null) ∘ Verdict.json) =
      report.verdicts.map
        (Json.changeMember "line" (fun _ => .null) ∘ Verdict.json) := by
    simp [forgetLines, Verdict.json_forgetLines]
  have others : report.forgetLines.knowledge = report.knowledge ∧
      report.forgetLines.catastrophic = report.catastrophic ∧
      report.forgetLines.rounds = report.rounds := ⟨rfl, rfl, rfl⟩
  simp [json, Json.blankLines, Json.changeMember, Json.changeItems, passed,
    verdicts, others]

theorem Protocol.Alike.analyze {p q : Protocol} (alike : p.Alike q)
    (config : Config) :
    (p.analyze config).map (Json.blankLines ∘ Report.json) =
      (q.analyze config).map (Json.blankLines ∘ Report.json) := by
  have blank (protocol : Protocol) :
      (protocol.analyze config).map (Json.blankLines ∘ Report.json) =
        (protocol.forgetLines.analyze config).map
          (Json.blankLines ∘ Report.json) := by
    rw [analyze_forgetLines]
    cases protocol.analyze config with
    | error fault => rfl
    | ok report => exact congrArg Except.ok report.json_forgetLines.symm
  rw [blank p, alike, ← blank q]

end Secrecy
