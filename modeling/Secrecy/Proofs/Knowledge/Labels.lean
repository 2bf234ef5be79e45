import Secrecy.Proofs.Knowledge.Bars
import Secrecy.Proofs.Knowledge.Layout
import Secrecy.Proofs.Knowledge.Totality
import Secrecy.Proofs.Source

/-!
# Labels of sealed terms

A sealed term has a label of its own, put together from those of its parts, and
it mostly is the label of the expression that was sealed.  But where the right
part of a concatenation needs parentheses, the one goes by the expression and
the other by the bars in a text.  So the two part ways at a right operand that
is no concatenation and has one inside.
-/

namespace Secrecy

open SealedTerm (bars rightLabel)

namespace Expr

/-- A right operand shows bars that are not its own. -/
def Overgrouped : Expr → Prop
  | .concat _ right _ => right.isName = false ∧ right.isConcat = false ∧
      bars.toList <:+: right.label.toList
  | _ => False

theorem parenthesized_ne (s : String) : "(" ++ s ++ ")" ≠ s := by
  intro same
  have lengths := congrArg String.length same
  simp only [String.length_append] at lengths
  have single : "(".length = 1 ∧ ")".length = 1 := ⟨rfl, rfl⟩
  omega

variable {left right whole body : Expr} {line : Int} {term : SealedTerm}

theorem rightLabel_of_bare (bare : right.isName = true) :
    rightLabel right.isName right.label = right.label := by
  simp [rightLabel, bare]

theorem rightLabel_of_bars (compound : right.isName = false)
    (inside : bars.toList <:+: right.label.toList) :
    rightLabel right.isName right.label = "(" ++ right.label ++ ")" := by
  simp [rightLabel, compound, Text.occursIn_iff_infix.mpr inside]

theorem rightLabel_of_plain (plain : ¬ bars.toList <:+: right.label.toList) :
    rightLabel right.isName right.label = right.label := by
  simp [rightLabel, mt Text.occursIn_iff_infix.mp plain]

theorem rightLabel_eq_iff :
    rightLabel right.isName right.label =
        (if right.isConcat then "(" ++ right.label ++ ")" else right.label) ↔
      ¬ (concat left right line).Overgrouped := by
  unfold Overgrouped
  cases chained : right.isConcat with
  | true =>
      have inside := hasConcat_of_isConcat chained
      rw [rightLabel_of_bars inside.isName_eq_false inside.occurs]
      simp [chained]
  | false =>
      by_cases bare : right.isName = true
      · rw [rightLabel_of_bare bare]
        simp [bare, chained]
      · -- Only here can the bars be those of something deeper inside.
        have compound : right.isName = false := by simpa using bare
        by_cases inside : bars.toList <:+: right.label.toList
        · rw [rightLabel_of_bars compound inside]
          simp [inside, compound, chained, parenthesized_ne]
        · rw [rightLabel_of_plain inside]
          simp [inside, chained]

namespace SealsWhole

theorem label_concat (h : (Expr.concat left right line).SealsWhole term) :
    term.label =
      .ok (left.label ++ bars ++ rightLabel right.isName right.label) := by
  cases h
  rfl

theorem label_eq_iff (h : whole.SealsWhole term) :
    term.label = .ok whole.label ↔ ¬ whole.Overgrouped := by
  cases h with
  | concat left right line =>
      rw [label_concat (.concat left right line), ← rightLabel_eq_iff,
        Except.ok.injEq]
      exact String.append_right_inj _
  | _ => exact iff_of_true rfl id

theorem label_of_overgrouped (h : (Expr.concat left right line).SealsWhole term)
    (overgrouped : (Expr.concat left right line).Overgrouped) :
    term.label = .ok (left.label ++ " || (" ++ right.label ++ ")") := by
  obtain ⟨compound, -, inside⟩ := overgrouped
  have spaced : " || (" = bars ++ "(" := by decide
  rw [h.label_concat, rightLabel_of_bars compound inside, spaced]
  simp only [String.append_assoc]

end SealsWhole

/-! ## Bodies that were read -/

theorem Grouped.payload_eq (grouped : body.Grouped) : body.payload = body := by
  cases body with
  | assign => cases grouped
  | _ => rfl

theorem grouped_payload (grouped : body.GroupedBody) :
    body.payload.Grouped := by
  cases body with
  | assign target value line =>
      have same : value.payload = value := Grouped.payload_eq grouped
      rw [payload, same]
      exact grouped
  | _ => exact grouped

theorem named_payload (named : Named body.yield) :
    Named body.payload.yield := by
  induction body with
  | assign target value line ih =>
      simp only [yield, named_cons_name, named_cons_operator] at named
      exact ih named.2
  | _ => exact named

theorem overgrouped_iff (grouped : whole.Grouped) (named : Named whole.yield) :
    whole.Overgrouped ↔ ∃ left right line,
      whole = .concat left right line ∧ right.HasConcat := by
  constructor
  · intro overgrouped
    cases whole with
    | concat left right line =>
        obtain ⟨-, -, inside⟩ := overgrouped
        simp only [yield, named_append, named_cons_operator] at named
        exact ⟨left, right, line, rfl,
          (occurs_label_iff grouped.2.1 named.2).mp inside⟩
    | _ => cases overgrouped
  · rintro ⟨left, right, line, rfl, inside⟩
    exact ⟨inside.isName_eq_false, grouped.2.2, inside.occurs⟩

end Expr

namespace Protocol

variable {text : String} {check : Bool} {p : Protocol} {config : Config}
  {report : Report}

theorem overgrouped_of_ofSource (h : ofSource text check = .ok p)
    {message : Message} (mem : message ∈ p.messages) :
    message.body.payload.Overgrouped ↔ ∃ left right line,
      message.body.payload = .concat left right line ∧ right.HasConcat := by
  obtain ⟨grammatical, named⟩ := writable_of_ofText (ofSource_eq_ok.mp h).1
  exact Expr.overgrouped_iff
    (Expr.grouped_payload (grammatical.messages message mem).grouped)
    (Expr.named_payload (named_body named mem))

theorem exists_seals_of_mem_report (h : p.analyze config = .ok report)
    {known : Knowledge} (mem : known ∈ report.knowledge) {term : SealedTerm}
    (held : term ∈ known.sealedTerms) :
    ∃ message ∈ p.messages, message.body.Seals term := by
  obtain ⟨ledger, observed, rfl⟩ := analyze_eq_ok.mp h
  obtain ⟨principal, listed, rfl⟩ := List.mem_map.mp mem
  have reports := (Ledger.settled_holdingsOf observed listed).reports
  obtain ⟨message, mem, -, seals⟩ := (reports.sealedTerms term).mp held
  exact ⟨message, mem, seals⟩

/--
A sealed term has the label of what it seals, unless that is a concatenation
whose right operand is none and shows bars, as it does in a text if there is
a concatenation inside it.  Then the term has parentheses that the other has
not.  Reports show such labels.
-/
theorem label_observed (p : Protocol) :
    (∀ message ∈ p.messages, ∀ term ∈ message.body.observed.sealedTerms,
      (term.label = .ok message.body.payload.label ↔
        ¬ message.body.payload.Overgrouped) ∧
      ∀ left right line, message.body.payload = .concat left right line →
        message.body.payload.Overgrouped →
        term.label = .ok (left.label ++ " || (" ++ right.label ++ ")")) ∧
    (∀ text check, ofSource text check = .ok p → ∀ message ∈ p.messages,
      (message.body.payload.Overgrouped ↔ ∃ left right line,
        message.body.payload = .concat left right line ∧ right.HasConcat)) ∧
    ∀ config report, p.analyze config = .ok report →
      ∀ known ∈ report.knowledge, ∀ term ∈ known.sealedTerms,
        ∃ message ∈ p.messages, term ∈ message.body.observed.sealedTerms := by
  refine ⟨fun message _ term seen => ?_, fun text check h message mem =>
    overgrouped_of_ofSource h mem,
    fun config report reported known mem term held => ?_⟩
  · have seals : message.body.payload.SealsWhole term :=
      Expr.mem_observed_sealedTerms.mp seen
    refine ⟨seals.label_eq_iff, fun left right line same overgrouped => ?_⟩
    rw [same] at seals overgrouped
    exact seals.label_of_overgrouped overgrouped
  · obtain ⟨message, mem, seals⟩ :=
      exists_seals_of_mem_report reported mem held
    exact ⟨message, mem, Expr.mem_observed_sealedTerms.mpr seals⟩

def nesting : Protocol :=
  ⟨⟨[⟨"A", 0⟩, ⟨"B", 0⟩], 0⟩, [],
    [⟨⟨"A", 0⟩, ⟨"B", 0⟩, .concat (.name ⟨"x", 0⟩)
      (.hash (.concat (.name ⟨"y", 0⟩) (.name ⟨"z", 0⟩) 0) 0) 0, 0⟩], []⟩

theorem grammatical_nesting : nesting.Grammatical := by decide

theorem named_nesting : Named nesting.yield := by decide

def nestingText : String := "roles: A, B\nA -> B: x || H(y || z)\n"

theorem label_observed_nesting :
    ∃ p, ofSource nestingText true = .ok p ∧ ∃ message ∈ p.messages,
      ∃ term ∈ message.body.observed.sealedTerms,
        message.body.payload.label = "x || H(y || z)" ∧
          term.label = .ok "x || (H(y || z))" := by
  have wellScoped : nesting.WellScoped :=
    (checked_eq_ok.mp (rfl : nesting.checked = .ok nesting)).2
  have printed : nesting.print ++ "\n" = nestingText := by decide
  obtain ⟨p, h, alike⟩ := exists_ofSource_print grammatical_nesting
    named_nesting wellScoped (List.mem_cons_of_mem _ List.mem_cons_self) true
  rw [printed] at h
  have messages : p.messages.map Message.forgetLines = nesting.messages :=
    congrArg Protocol.messages alike
  obtain ⟨message, only, same⟩ := List.map_eq_singleton_iff.mp messages
  have body := congrArg Message.body same
  rw [Message.body_forgetLines] at body
  have label : message.body.payload.label = "x || H(y || z)" := by
    rw [← Expr.label_forgetLines, ← Expr.payload_forgetLines, body]
    decide
  have seen : (⟨.concat, none, ["x", "H(y || z)"], [true, false]⟩ :
      SealedTerm) ∈ message.body.observed.sealedTerms := by
    rw [← Expr.observed_forgetLines, body]
    decide
  exact ⟨p, h, message, only ▸ List.mem_cons_self, _, seen, label, rfl⟩

end Protocol

end Secrecy
