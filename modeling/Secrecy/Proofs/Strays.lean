import Secrecy.Proofs.Grammar.Naming
import Secrecy.Proofs.Grammar.Respelling
import Secrecy.Proofs.Scope.Renaming
import Secrecy.Proofs.Source
import Secrecy.Proofs.Token.Strays

/-!
# Texts with stray characters

A character that belongs to nothing is not refused for what it is.  It is a
name, and a text that has it is accepted if it would be with any other name in
its place.
-/

namespace Secrecy.Protocol

open Grammar
open Text (isWordChar)
open Token (Stray respell scan lineAfter tokenise)

variable {text : String} {check : Bool} {p q : Protocol} {tokens : List Token}
  {r : String → String}

/-! ## Other spellings -/

theorem exists_of_ofTokens?_respell (injective : Function.Injective r)
    (h : ofTokens? (tokens.map (respell r)) = some (.ok q)) :
    ∃ p, ofTokens? tokens = some (.ok p) ∧ q = p.rename r := by
  obtain ⟨g, undoes⟩ := injective.hasLeftInverse
  have back := ofTokens?_respell (r := g) h
  have same : (tokens.map (respell r)).map (respell g) = tokens := by
    rw [List.map_map]
    exact List.map_id'' (Token.respell_respell undoes) tokens
  rw [same] at back
  have again := ofTokens?_respell (r := r) back
  rw [h] at again
  exact ⟨_, back, Except.ok.inj (Option.some.inj again)⟩

theorem ofTokenSource?_respell (injective : Function.Injective r) :
    ofTokenSource? (tokens.map (respell r)) check = some (.ok q) ↔
      ∃ p, ofTokenSource? tokens check = some (.ok p) ∧ q = p.rename r := by
  simp only [ofTokenSource?_eq_ok]
  constructor
  · rintro ⟨respelt, wellScoped⟩
    obtain ⟨p, read, rfl⟩ := exists_of_ofTokens?_respell injective respelt
    refine ⟨p, ⟨read, fun checks => ?_⟩, rfl⟩
    exact (wellScoped_rename injective).mp (wellScoped checks)
  · rintro ⟨p, ⟨read, wellScoped⟩, rfl⟩
    refine ⟨ofTokens?_respell read, fun checks => ?_⟩
    exact (wellScoped_rename injective).mpr (wellScoped checks)

theorem ofTokenSource?_tokenise (text : String) (check : Bool) :
    ofTokenSource? (tokenise text) check = some (ofSource text check) := by
  rw [ofTokenSource?, ofTokens?, Cursor.ofTokens?_tokenise]
  rfl

theorem exists_ofTokenSource?_respell (text : String) (check : Bool)
    (injective : Function.Injective r) :
    ∃ outcome,
      ofTokenSource? ((tokenise text).map (respell r)) check = some outcome ∧
        ((∃ fault, outcome = .error fault) ↔
          ∃ fault, ofSource text check = .error fault) ∧
        ∀ p, ofSource text check = .ok p → outcome = .ok (p.rename r) := by
  have closed : ∃ last ∈ ((tokenise text).map (respell r)).getLast?,
      last.kind = .stop :=
    ⟨(Token.endOfInput (Token.lastLine text)).respell r, by simp [tokenise],
      rfl⟩
  obtain ⟨cursor, opened, -⟩ := ofTokens?_eq_some closed
  obtain ⟨outcome, found⟩ : ∃ outcome,
      ofTokenSource? ((tokenise text).map (respell r)) check = some outcome := by
    rw [ofTokenSource?, ofTokens?, opened]
    exact ⟨_, rfl⟩
  have accepts (q : Protocol) :
      outcome = .ok q ↔ ∃ p, ofSource text check = .ok p ∧ q = p.rename r := by
    have respelt :
        ofTokenSource? ((tokenise text).map (respell r)) check =
            some (.ok q) ↔
          ∃ p, ofTokenSource? (tokenise text) check = some (.ok p) ∧
            q = p.rename r :=
      ofTokenSource?_respell injective
    rw [found, ofTokenSource?_tokenise] at respelt
    simpa only [Option.some_inj] using respelt
  refine ⟨outcome, found, ?_,
    fun p accepted => (accepts _).mpr ⟨p, accepted, rfl⟩⟩
  simp [Outcome.exists_error, accepts]

/-! ## Names of accepted texts -/

theorem identifiers_of_ofSource (accepted : ofSource text check = .ok p) :
    p.identifiers = Token.identifiers (scan 1 text.toList) := by
  have read := (ofSource_eq_ok.mp accepted).1
  have word := (read_eq_ok (closed_ofText text) (plain_ofText text)).mp read
  exact word.identifiers_eq.symm

theorem identifiers_of_stray {before after : List Char} {c : Char}
    (accepted : ofSource text check = .ok p)
    (whole : text.toList = before ++ c :: after) (stray : Stray before c after) :
    p.identifiers = Token.identifiers (scan 1 before) ++
      ⟨String.singleton c, lineAfter before⟩ ::
        Token.identifiers (scan (lineAfter before) after) := by
  rw [identifiers_of_ofSource accepted, whole, stray.scan_append,
    Token.identifiers_append, Token.identifiers_name rfl,
    String.singleton_eq_ofList]
  rfl

theorem word_or_stray {identifier : Identifier}
    (accepted : ofSource text check = .ok p)
    (mem : identifier ∈ p.identifiers) :
    (∀ c ∈ identifier.name.toList, isWordChar c = true) ∨
      ∃ before c after, text.toList = before ++ c :: after ∧
        Stray before c after ∧
        identifier = ⟨String.singleton c, lineAfter before⟩ := by
  rw [identifiers_of_ofSource accepted] at mem
  obtain ⟨token, found, isName, rfl⟩ := Token.mem_identifiers.mp mem
  by_cases wordy : ∀ c ∈ token.text.toList, isWordChar c = true
  · exact .inl wordy
  · obtain ⟨before, c, after, whole, stray, spelt, line⟩ :=
      Token.exists_stray (List.mem_append_left _ found) isName wordy
    refine .inr ⟨before, c, after, whole, stray, ?_⟩
    rw [Token.identifier, spelt, line, String.singleton_eq_ofList]

/--
Wherever a stray character stands, it is a name there.  Which names are words
and which are not makes no difference to whether a text is accepted; and if it
is, its protocol has the stray characters among its identifiers, and no others
but words.
-/
theorem ofSource_strays (text : String) (check : Bool) :
    (∀ before c after, text.toList = before ++ c :: after →
      Stray before c after →
        tokenise text = scan 1 before ++
          ⟨.name, String.singleton c, lineAfter before⟩ ::
            (scan (lineAfter before) after ++
              [Token.endOfInput (Token.lastLine text)])) ∧
    (∀ r : String → String, Function.Injective r →
      ∃ outcome,
        ofTokenSource? ((tokenise text).map (respell r)) check = some outcome ∧
          ((∃ fault, outcome = .error fault) ↔
            ∃ fault, ofSource text check = .error fault) ∧
          ∀ p, ofSource text check = .ok p → outcome = .ok (p.rename r)) ∧
    ∀ p, ofSource text check = .ok p →
      (∀ before c after, text.toList = before ++ c :: after →
        Stray before c after →
          p.identifiers = Token.identifiers (scan 1 before) ++
            ⟨String.singleton c, lineAfter before⟩ ::
              Token.identifiers (scan (lineAfter before) after)) ∧
      ∀ identifier ∈ p.identifiers,
        (∀ c ∈ identifier.name.toList, isWordChar c = true) ∨
          ∃ before c after, text.toList = before ++ c :: after ∧
            Stray before c after ∧
            identifier = ⟨String.singleton c, lineAfter before⟩ := by
  refine ⟨fun before c after whole stray => ?_,
    fun r => exists_ofTokenSource?_respell text check, fun p accepted => ?_⟩
  · rw [tokenise, whole, stray.scan_append, List.append_assoc,
      List.cons_append, String.singleton_eq_ofList]
  · exact ⟨fun before c after => identifiers_of_stray accepted,
      fun identifier => word_or_stray accepted⟩

def strayText : String := "roles: A, @\nA -> @: #\n"

theorem stray_strayText :
    Stray "roles: A, ".toList '@' "\nA -> @: #\n".toList := by
  decide +kernel

theorem accepts_strayText :
    ¬ ∀ text : String,
      (∃ before c after, text.toList = before ++ c :: after ∧
        Stray before c after) →
      ∃ fault, ofSource text true = .error fault := by
  intro refused
  obtain ⟨fault, rejected⟩ :=
    refused strayText ⟨_, _, _, by decide +kernel, stray_strayText⟩
  have accepted : (ofSource strayText true).toOption.isSome := by
    decide +kernel
  rw [rejected] at accepted
  cases accepted

end Secrecy.Protocol
