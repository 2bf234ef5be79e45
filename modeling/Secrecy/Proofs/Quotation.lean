import Secrecy.Proofs.Grammar.Refusal
import Secrecy.Proofs.Scope.Culprits
import Secrecy.Proofs.Source
import Secrecy.Proofs.Text.Display
import Secrecy.Proofs.Token.Cutting

/-!
# Quoted lines

A fault shows at a token and has the line on which that is counted.  The line
that is quoted with it is looked up by this number among the lines that are
shown, so it is the wrong one as soon as more lines are shown than counted.
-/

namespace Secrecy

open Text
open Token (FoundAt)

/-! ## Where a text is refused -/

namespace Fault

variable {fault : Fault} {text line : String}

def StandsAt : Fault → Token → Prop
  | .grammar fault, token => fault.StandsAt token
  | .scope fault, token =>
      token.kind = .name ∧ token.identifier = fault.culprit

theorem StandsAt.line_eq {token : Token} (h : fault.StandsAt token) :
    fault.line = token.line := by
  cases fault with
  | grammar fault => exact GrammarFault.StandsAt.line_eq h
  | scope fault => exact congrArg Identifier.line h.2.symm

/-- The fault is shown with this line of the text. -/
def Quotes (fault : Fault) (text line : String) : Prop :=
  ∀ colour, fault.diagnostic (some text) colour =
    fault.diagnostic none colour ++ quotation colour fault.line line

theorem quotes_of_quotedLine? (h : fault.quotedLine? text = some line) :
    fault.Quotes text line := by
  intro colour
  simp [diagnostic, h]

end Fault

namespace Protocol

open Grammar

variable {text : String} {check : Bool} {fault : Fault}

theorem scope_of_validated {p : Protocol}
    (h : p.validated check = .error fault) :
    ∃ fault', fault = .scope fault' ∧ p.scope = .error fault' := by
  cases check with
  | false => cases h
  | true =>
      obtain ⟨fault', unchecked, rfl⟩ := Outcome.mapError_eq_error.mp h
      rcases Outcome.bind_eq_error.mp unchecked with unscoped | ⟨_, _, ⟨⟩⟩
      exact ⟨fault', rfl, unscoped⟩

theorem exists_token_of_ofSource (rejected : ofSource text check = .error fault) :
    ∃ token ∈ Token.tokenise text, fault.StandsAt token := by
  rcases Outcome.bind_eq_error.mp rejected with unread | ⟨p, read, invalid⟩
  · obtain ⟨fault', ungrammatical, rfl⟩ := Outcome.mapError_eq_error.mp unread
    exact exists_token_of_read (closed_ofText text) (plain_ofText text)
      ungrammatical
  · obtain ⟨fault', rfl, unscoped⟩ := scope_of_validated invalid
    have word := (read_eq_ok (closed_ofText text) (plain_ofText text)).mp
      (Outcome.mapError_eq_ok.mp read)
    have mem := culprit_of_scope unscoped
    rw [← word.identifiers_eq] at mem
    obtain ⟨token, mem, shows⟩ := Token.mem_identifiers.mp mem
    exact ⟨token, List.mem_append_left _ mem, shows⟩

/-! ## Which line is quoted -/

theorem inside_of_inked {word : List Char}
    (inked : ∀ c ∈ word, isBlank c = false) : ∀ c ∈ word, c ∉ lineBoundaries := by
  have blank : ∀ c ∈ lineBoundaries, isBlank c = true :=
    forall_mem_of_all (by decide +kernel)
  intro c mem boundary
  have := inked c mem
  rw [blank c boundary] at this
  cases this

/--
A text is refused at one of its tokens or at its end.  If it is a token, a line
is quoted: the one with the number of the line on which the token is counted.
The token is shown further down by as many lines as are ended before it by
anything but a line feed.  So if there are none, the token is on the quoted line,
and this is the line as it is counted if nothing ends that early either.
-/
theorem ofSource_quotes (rejected : ofSource text check = .error fault) :
    (∃ token ∈ Token.tokenise text, fault.StandsAt token) ∧
    ∀ token ∈ Token.tokenise text, fault.StandsAt token → token.kind ≠ .stop →
      ∃ before word after, token.FoundAt text before word after ∧
        (linesOf text)[lineEnds before]? =
          some (String.ofList (lineAround isBoundary before word after)) ∧
        ∃ quote, fault.Quotes text quote ∧
          (linesOf text)[before.count '\n']? = some quote ∧
          (lineEnds before = before.count '\n' →
            quote = String.ofList (lineAround isBoundary before word after) ∧
            (quote = String.ofList
                (dropReturn (lineAround (· == '\n') before word after)) ↔
              lineEnds (after.takeWhile (· != '\n') ++ ['\n']) = 1)) := by
  refine ⟨exists_token_of_ofSource rejected, fun token mem stands more => ?_⟩
  have mem : token ∈ Token.scan 1 text.toList := by
    rcases List.mem_append.mp mem with mem | isEnd
    · exact mem
    · rw [List.mem_singleton.mp isEnd] at more
      exact absurd rfl more
  obtain ⟨before, word, after, found⟩ := Token.exists_foundAt mem
  have nonempty := found.isWord.ne_nil
  have inside := inside_of_inked found.isWord.inked
  have shown := getElem?_linesOf found.whole nonempty inside
  obtain ⟨quote, counted⟩ :
      ∃ quote, (linesOf text)[before.count '\n']? = some quote := by
    obtain ⟨enough, -⟩ := List.getElem?_eq_some_iff.mp shown
    have less := Nat.lt_of_le_of_lt count_le_lineEnds enough
    exact ⟨_, List.getElem?_eq_getElem less⟩
  have quoted : fault.quotedLine? text = some quote := by
    rw [Fault.quotedLine?, stands.line_eq, found.line, Token.lineAfter,
      if_neg (by omega), ← counted]
    congr 1
    omega
  refine ⟨before, word, after, found, shown, quote,
    Fault.quotes_of_quotedLine? quoted, counted, fun same => ?_⟩
  rw [same, counted] at shown
  obtain rfl := Option.some.inj shown
  refine ⟨rfl, ?_⟩
  rw [String.ofList_inj]
  exact lineAround_eq_dropReturn_iff same nonempty inside

def returnText : String := "roles: A\r\nA -> B: x\r\n"

theorem ofSource_quotes_returnText :
    ∃ fault, ofSource returnText true = .error fault ∧
      fault.message = "receiver 'B' is not a declared role" ∧
      fault.Quotes returnText "A -> B: x" := by
  have rejected : ofSource returnText true =
      .error (.scope (.foreignEndpoint .receiver ⟨"B", 2⟩)) := by
    decide +kernel
  obtain ⟨⟨token, mem, stands⟩, points⟩ := ofSource_quotes rejected
  have isName : token.kind = .name := stands.1
  have same : token.identifier = ⟨"B", 2⟩ := stands.2
  obtain ⟨before, word, after, found, -, quote, quotes, counted, -⟩ :=
    points token mem stands (by simp [isName])
  have second : before.count '\n' = 1 := by
    have line : token.line = 2 := congrArg Identifier.line same
    rw [found.line, Token.lineAfter] at line
    omega
  have shown : (linesOf returnText)[1]? = some "A -> B: x" := by decide +kernel
  rw [second, shown] at counted
  cases counted
  exact ⟨_, rejected, rfl, quotes⟩

def pagedText : String := "roles: A\x0c\nroles: A\n"

theorem misquotes_pagedText :
    ¬ ∀ (text : String) (fault : Fault), ofSource text true = .error fault →
      ∀ (token : Token) (before word after : List Char),
        fault.StandsAt token → token.FoundAt text before word after →
          fault.Quotes text (String.ofList
            (dropReturn (lineAround (· == '\n') before word after))) := by
  intro claimed
  have rejected : ofSource pagedText true =
      .error (.grammar (.unexpected .keyOrLater (some ⟨.name, "A", 1⟩)
        ⟨.keyword .roles, "roles", 2⟩)) := by
    decide +kernel
  have found : FoundAt ⟨.keyword .roles, "roles", 2⟩ pagedText
      "roles: A\x0c\n".toList "roles".toList ": A\n".toList := by
    have run : Token.WholeRun "roles: A\x0c\n".toList "roles".toList
        ": A\n".toList := by
      refine ⟨by decide, forall_mem_of_all (by decide +kernel), ?_, ?_⟩
      · rintro _ ⟨⟩
        decide +kernel
      · rintro _ ⟨⟩
        decide +kernel
    exact ⟨by decide, .keyword .roles run, rfl, rfl⟩
  have quoted := claimed pagedText _ rejected _ _ _ _ rfl found false
  exact absurd quoted (by decide +kernel)

end Protocol

end Secrecy
