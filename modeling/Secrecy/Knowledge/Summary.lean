import Secrecy.Knowledge.Report
import Secrecy.Text.Emphasis

/-!
# Reports as text

The summary says what every principal knows.  The full report adds sealed
terms, verdicts and the number of passes, and may be coloured for a terminal.
-/

namespace Secrecy

def bracketed (names : List String) : String :=
  "[" ++ commaSeparated names ++ "]"

def joinLines (lines : List String) : String :=
  String.intercalate "\n" lines ++ "\n"

def summaryTitle : String := "=== Knowledge Summary ==="

def noLeak : String := "No catastrophic leaks under this simple model."

def leakNotice (names : List String) : String :=
  "*** Catastrophic for protocol: adversary learned " ++ bracketed names ++
    " ***"

def Report.summary (report : Report) : String :=
  joinLines (summaryTitle ::
    (report.knowledge.map fun known =>
      known.name ++ " knows: " ++ bracketed known.clear) ++
    [if report.catastrophic.isEmpty then noLeak
      else leakNotice report.catastrophic])

/-! ## The full report -/

def Knowledge.lines (colour : Bool) (known : Knowledge) : List String :=
  let hue := if known.principal.isAdversary then .red else .cyan
  (Text.emphasised colour (some hue) known.name ++ " knows: " ++
    bracketed known.clear) ::
    (if known.sealedTerms.isEmpty then []
    else
      ["  opaque: " ++ commaSeparated (known.sealedTerms.map SealedTerm.shown)])

def Verdict.text (colour : Bool) (verdict : Verdict) : String :=
  if verdict.passed then
    Text.emphasised colour (some .green) "PASS" ++ "  " ++
      verdict.assertion.label
  else
    Text.emphasised colour (some .red) "FAIL" ++ "  " ++
      verdict.assertion.label ++ ": " ++ verdict.reason

def Report.verdictLines (colour : Bool) (report : Report) : List String :=
  if report.verdicts.isEmpty then []
  else
    "" :: Text.emphasised colour none "=== Assertions ===" ::
      report.verdicts.map (Verdict.text colour)

def Report.text (colour : Bool) (report : Report) : String :=
  joinLines (Text.emphasised colour none summaryTitle ::
    (report.knowledge.flatMap (Knowledge.lines colour) ++
      report.verdictLines colour ++
      ["", if report.catastrophic.isEmpty then noLeak
        else
          Text.emphasised colour (some .yellow)
            (leakNotice report.catastrophic),
        "Closure passes: " ++ toString report.rounds]))

end Secrecy
