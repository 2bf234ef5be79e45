import Secrecy.Json
import Secrecy.Knowledge.Report

/-!
# Reports as JSON documents
-/

namespace Secrecy

def Knowledge.json (known : Knowledge) : Json :=
  .obj [("principal", .str known.name),
    ("adversary", .bool known.principal.isAdversary),
    ("atomic", .strings known.clear),
    ("opaque", .strings (known.sealedTerms.map SealedTerm.shown)),
    ("authored", .strings known.authored),
    ("learned", .strings known.learned)]

def Verdict.json (verdict : Verdict) : Json :=
  .obj [("assertion", .str verdict.assertion.label),
    ("term", .str verdict.term), ("passed", .bool verdict.passed),
    ("leaked_to", .strings (verdict.leakedTo.map Principal.name)),
    ("reason", .str verdict.reason), ("line", .int verdict.assertion.line)]

def Report.json (report : Report) : Json :=
  .obj [("principals", .arr (report.knowledge.map Knowledge.json)),
    ("verdicts", .arr (report.verdicts.map Verdict.json)),
    ("catastrophic", .strings report.catastrophic),
    ("iterations", .int report.rounds), ("passed", .bool report.passed)]

end Secrecy
