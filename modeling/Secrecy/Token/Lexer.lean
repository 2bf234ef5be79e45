import Secrecy.Text.Blank
import Secrecy.Text.WordChar
import Secrecy.Token

/-!
# Cutting a text into tokens

Every text has a token list: blanks and `//` comments are skipped, an operator
of two characters goes before one of one, a word is as long as possible, and
any other character is a name of its own, left for the grammar to judge.  Lines
are counted at line feeds alone, from 1.
-/

namespace Secrecy.Token

open Text

/-- What the lexer reads at a character: a token and the text after it. -/
structure Lexeme where
  kind : Kind
  text : List Char
  rest : List Char
  deriving DecidableEq, Repr

def wordKind (word : List Char) : Kind :=
  match Keyword.ofText? (String.ofList word) with
  | some keyword => .keyword keyword
  | none => .name

def singleOperator? : Char → Option Operator
  | ':' => some .colon
  | ',' => some .comma
  | '=' => some .equals
  | '(' => some .leftParen
  | ')' => some .rightParen
  | _ => none

def lexeme : Char → List Char → Lexeme
  | '-', '>' :: rest => ⟨.operator .arrow, ['-', '>'], rest⟩
  | '|', '|' :: rest => ⟨.operator .bars, ['|', '|'], rest⟩
  | c, rest =>
      match singleOperator? c with
      | some operator => ⟨.operator operator, [c], rest⟩
      | none =>
          if isWordChar c then
            let word := c :: rest.takeWhile isWordChar
            ⟨wordKind word, word, rest.dropWhile isWordChar⟩
          else ⟨.name, [c], rest⟩

theorem lexeme_append (c : Char) (rest : List Char) :
    (lexeme c rest).text ++ (lexeme c rest).rest = c :: rest := by
  unfold lexeme
  split
  · rfl
  · rfl
  · split
    · rfl
    · split
      · simp
      · rfl

theorem length_rest_lexeme (c : Char) (rest : List Char) :
    (lexeme c rest).rest.length ≤ rest.length := by
  unfold lexeme
  split
  · simp
  · simp
  · split
    · exact Nat.le_refl _
    · split
      · exact (List.dropWhile_sublist _).length_le
      · exact Nat.le_refl _

theorem kind_lexeme_ne_stop (c : Char) (rest : List Char) :
    (lexeme c rest).kind ≠ .stop := by
  unfold lexeme
  split
  · simp
  · simp
  · split
    · simp
    · split
      · simp only [wordKind]
        split <;> simp
      · simp

def skipComment (rest : List Char) : List Char := rest.dropWhile (· ≠ '\n')

def scan (line : Int) : List Char → List Token
  | [] => []
  | '\n' :: rest => scan (line + 1) rest
  | '/' :: '/' :: rest => scan line (skipComment rest)
  | c :: rest =>
      if isBlank c then scan line rest
      else
        let found := lexeme c rest
        ⟨found.kind, String.ofList found.text, line⟩ :: scan line found.rest
termination_by s => s.length
decreasing_by
  · simp
  · have := (List.dropWhile_sublist (· ≠ '\n') (l := rest)).length_le
    simp only [skipComment, List.length_cons]
    omega
  · simp
  · have := length_rest_lexeme c rest
    simp only [List.length_cons]
    omega

/-- Only the end of the input is an end of input. -/
theorem kind_ne_stop_of_mem_scan {line : Int} {s : List Char} {token : Token}
    (h : token ∈ scan line s) : token.kind ≠ .stop := by
  fun_induction scan line s with
  | case1 => simp at h
  | case2 line rest ih => exact ih h
  | case3 line rest ih => exact ih h
  | case4 line c rest _ _ _ ih => exact ih h
  | case5 line c rest _ _ _ found ih =>
      rcases List.mem_cons.mp h with rfl | later
      · exact kind_lexeme_ne_stop c rest
      · exact ih later

def lastLine (text : String) : Int := 1 + text.toList.count '\n'

def endOfInput (line : Int) : Token := ⟨.stop, "", line⟩

def tokenise (text : String) : List Token :=
  scan 1 text.toList ++ [endOfInput (lastLine text)]

end Secrecy.Token
