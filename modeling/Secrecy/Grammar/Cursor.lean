import Secrecy.Grammar.Fault
import Secrecy.Token.Lexer

/-!
# Reading tokens in order

A cursor stands between two tokens.  Ahead lie the tokens up to the first end
of input, which is never passed; behind, only the last token is remembered, for
diagnostics.  A reader moves a cursor forward and yields a value, or stops with
a fault.
-/

namespace Secrecy.Grammar

structure Cursor where
  before : Option Token
  ahead : List Token
  stop : Token
  deriving DecidableEq, Repr

namespace Cursor

def peek (cursor : Cursor) : Token := cursor.ahead.headD cursor.stop

def peekSecond (cursor : Cursor) : Token := cursor.ahead.tail.headD cursor.stop

def advance (cursor : Cursor) : Cursor :=
  match cursor.ahead with
  | [] => cursor
  | token :: rest => { cursor with before := some token, ahead := rest }

/--
A token list is readable when it is closed by an end of input.  One that holds
several is read up to the first.
-/
def ofTokens? (tokens : List Token) : Option Cursor :=
  match tokens.getLast? with
  | none => none
  | some last =>
      if last.kind = .stop then
        some ⟨none, tokens.takeWhile (·.kind ≠ .stop),
          (tokens.find? (·.kind = .stop)).getD last⟩
      else none

def unclosedMessage : String := "token list must end with an EOF token"

def ofText (text : String) : Cursor :=
  ⟨none, Token.scan 1 text.toList, Token.endOfInput (Token.lastLine text)⟩

theorem ofTokens?_tokenise (text : String) :
    ofTokens? (Token.tokenise text) = some (ofText text) := by
  have words : ∀ token ∈ Token.scan 1 text.toList, token.kind ≠ .stop :=
    fun _ h => Token.kind_ne_stop_of_mem_scan h
  have ahead : (Token.tokenise text).takeWhile (·.kind ≠ .stop) =
      Token.scan 1 text.toList := by
    rw [Token.tokenise, List.takeWhile_append_of_pos (by simpa using words)]
    simp [Token.endOfInput]
  have nothing : (Token.scan 1 text.toList).find? (·.kind = .stop) = none := by
    simpa using words
  rw [ofTokens?, ahead]
  simp [ofText, Token.tokenise, Token.endOfInput, List.find?_append, nothing]

end Cursor

abbrev Reader := StateT Cursor (Except GrammarFault)

variable {α : Type}

def peek : Reader Token := fun cursor => .ok (cursor.peek, cursor)

def peekSecond : Reader Token := fun cursor => .ok (cursor.peekSecond, cursor)

def advance : Reader Token := fun cursor => .ok (cursor.peek, cursor.advance)

def refuse (wanted : Expected) : Reader α := fun cursor =>
  .error (.unexpected wanted cursor.before cursor.peek)

def expect (kind : Token.Kind) (wanted : Expected) : Reader Token := do
  if (← peek).kind = kind then advance else refuse wanted

def keyword (word : Keyword) : Reader Token :=
  expect (.keyword word) (.keyword word)

def operator (symbol : Operator) : Reader Token :=
  expect (.operator symbol) (.operator symbol)

def identifier (wanted : Expected) : Reader Identifier := do
  let token ← expect .name wanted
  return ⟨token.text, token.line⟩

def repeated (opens : Token → Option (Reader α)) : Nat → Reader (List α)
  | 0 => return []
  | bound + 1 => do
      match opens (← peek) with
      | none => return []
      | some item =>
          let first ← item
          let others ← repeated opens bound
          return first :: others

/--
Reads items as long as the next token opens one.  An item takes at least the
token that opens it, so there are at most as many as tokens ahead.
-/
def many (opens : Token → Option (Reader α)) : Reader (List α) := fun cursor =>
  repeated opens cursor.ahead.length cursor

/-- Chooses a reader when the next token is of the given kind. -/
def onKind (kind : Token.Kind) (item : Reader α) (token : Token) :
    Option (Reader α) :=
  if token.kind = kind then some item else none

section OnKind

variable {kind : Token.Kind} {item : Reader α} {token : Token}

theorem onKind_eq_none :
    onKind kind item token = none ↔ token.kind ≠ kind := by
  simp [onKind]

theorem isSome_onKind :
    (onKind kind item token).isSome ↔ token.kind = kind := by
  simp [onKind, Option.isSome_ite]

end OnKind

def identifierList (wanted : Expected) : Reader (List Identifier) := do
  let first ← identifier wanted
  let others ← many (onKind (.operator .comma) do
    let _ ← advance
    identifier wanted)
  return first :: others

end Secrecy.Grammar
