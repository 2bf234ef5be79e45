import Secrecy.Proofs.Grammar.Layout
import Secrecy.Proofs.Knowledge.Layout
import Secrecy.Proofs.Source

/-!
# Layout never matters

Two texts that are cut into the same tokens, but for the lines of these, are
accepted or refused together.  If both are accepted the protocols are alike, and
reports on them differ in nothing but the lines of the verdicts.
-/

namespace Secrecy

/-- What two readings have in common that may differ in lines. -/
inductive SameReading :
    Except Fault Protocol → Except Fault Protocol → Prop where
  | accepted {p q : Protocol} (alike : p.Alike q) : SameReading (.ok p) (.ok q)
  | ungrammatical {fault fault' : GrammarFault}
      (message : fault.message = fault'.message) :
      SameReading (.error (.grammar fault)) (.error (.grammar fault'))
  | unresolved (fault fault' : ScopeFault) :
      SameReading (.error (.scope fault)) (.error (.scope fault'))

namespace Protocol

variable {text text' : String} {p q : Protocol}

theorem Alike.sameReading (alike : p.Alike q) (check : Bool) :
    SameReading (p.validated check) (q.validated check) := by
  cases check with
  | false => exact .accepted alike
  | true =>
      have resolves : p.WellScoped ↔ q.WellScoped := alike.wellScoped
      simp only [validated, if_true]
      cases h : p.checked with
      | ok p' =>
          obtain ⟨rfl, wellScoped⟩ := checked_eq_ok.mp h
          rw [checked_eq_ok.mpr ⟨rfl, resolves.mp wellScoped⟩]
          exact .accepted alike
      | error fault =>
          cases h' : q.checked with
          | ok q' =>
              have wellScoped := resolves.mpr (checked_eq_ok.mp h').2
              rw [checked_eq_ok.mpr ⟨rfl, wellScoped⟩] at h
              cases h
          | error fault' => exact .unresolved fault fault'

theorem sameReading_ofSource
    (same : (Token.tokenise text).map Token.shape =
      (Token.tokenise text').map Token.shape) (check : Bool) :
    SameReading (ofSource text check) (ofSource text' check) := by
  have read := ofText_alike same
  unfold ofSource
  cases h : ofText text with
  | ok p =>
      cases h' : ofText text' with
      | ok q =>
          rw [h, h'] at read
          exact Alike.sameReading (Except.ok.inj read) check
      | error fault' =>
          rw [h, h'] at read
          cases read
  | error fault =>
      cases h' : ofText text' with
      | ok q =>
          rw [h, h'] at read
          cases read
      | error fault' =>
          rw [h, h'] at read
          refine .ungrammatical ?_
          rw [← fault.message_forgetLines, Except.error.inj read,
            fault'.message_forgetLines]

theorem WellScoped.addressed (wellScoped : p.WellScoped) (config : Config) :
    p.Addressed config where
  senders message mem := (wellScoped.endpoints message mem).1
  receivers message mem := (wellScoped.endpoints message mem).2
  owners _ key mem _ := wellScoped.owners key mem

/-- Waiving the check may leave a fault to the analysis, the same for both. -/
theorem ofSource_layout
    (same : (Token.tokenise text).map Token.shape =
      (Token.tokenise text').map Token.shape) (check : Bool) :
    SameReading (ofSource text check) (ofSource text' check) ∧
      ∀ p q, ofSource text check = .ok p → ofSource text' check = .ok q →
        ∀ config,
          (p.analyze config).map (Json.blankLines ∘ Report.json) =
            (q.analyze config).map (Json.blankLines ∘ Report.json) ∧
          (check = true → ∃ report report', p.analyze config = .ok report ∧
            q.analyze config = .ok report') := by
  have reading := sameReading_ofSource same check
  refine ⟨reading, fun p q h h' config => ⟨?_, fun checks => ?_⟩⟩
  · rw [h, h'] at reading
    cases reading with
    | accepted alike => exact alike.analyze config
  · have addressed := ((ofSource_eq_ok.mp h).2 checks).addressed config
    have addressed' := ((ofSource_eq_ok.mp h').2 checks).addressed config
    obtain ⟨_, -, reported⟩ := exists_report addressed
    obtain ⟨_, -, reported'⟩ := exists_report addressed'
    exact ⟨_, _, reported, reported'⟩

theorem ofSource_layout_errand :
    (Token.tokenise errandText).map Token.shape =
        (Token.tokenise ("\n" ++ errandText)).map Token.shape ∧
      ∃ p q, ofSource errandText true = .ok p ∧
        ofSource ("\n" ++ errandText) true = .ok q ∧ p.Alike q ∧
        ∀ config, ∃ report report', p.analyze config = .ok report ∧
          q.analyze config = .ok report' ∧
          report.json.blankLines = report'.json.blankLines := by
  have same : (Token.tokenise errandText).map Token.shape =
      (Token.tokenise ("\n" ++ errandText)).map Token.shape := by
    rw [Token.map_shape_tokenise, Token.map_shape_tokenise,
      String.toList_append]
    exact congrArg (· ++ _) (Token.shapes_blank (by decide) _).symm
  obtain ⟨reading, reports⟩ := ofSource_layout same true
  obtain ⟨p, h, -⟩ := exists_ofSource_errandText true
  rw [h] at reading
  generalize h' : ofSource ("\n" ++ errandText) true = outcome at reading
  cases reading with
  | @accepted _ q alike =>
      refine ⟨same, p, q, h, rfl, alike, fun config => ?_⟩
      obtain ⟨agree, total⟩ := reports p q h h' config
      obtain ⟨report, report', reported, reported'⟩ := total rfl
      rw [reported, reported'] at agree
      exact ⟨report, report', reported, reported', Except.ok.inj agree⟩

end Protocol

end Secrecy
