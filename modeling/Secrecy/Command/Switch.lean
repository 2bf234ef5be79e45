import Secrecy.Command.Argument
import Secrecy.Text.Digit
import Secrecy.Text.Occurrence

/-!
# Switches of a command line

A switch is written with one or two dashes, alone, with its value in the next
word, or with a text attached.  Long switches may be cut short as long as only
one remains possible; short ones may share a dash.  Every word is recognised
before the first one takes effect, and `--` ends recognition.  A `--` that is
attached to a switch stands for no value.
-/

namespace Secrecy.Command

open Text

inductive Ending where
  | help
  | version
  | misuse
  deriving DecidableEq, Repr

variable {σ : Type}

abbrev Act (σ : Type) := σ → Except Ending σ

/-- What a switch does; one that takes a value may be given none. -/
inductive Effect (σ : Type) where
  | flag (act : Act σ)
  | value (act : Option Argument → Act σ)

structure Switch (σ : Type) where
  spelling : String
  effect : Effect σ

/-- A switch comes with the text that is written in the same word, if any. -/
inductive Reading (σ : Type) where
  | operand
  | separator
  | unknown
  | switch (switch : Switch σ) (attached : Option Argument)

structure Word (σ : Type) where
  text : Argument
  reading : Reading σ

/-! ## Recognising words -/

def Switch.word (switch : Switch σ) : Argument := .ofText switch.spelling

def withSpelling? (switches : List (Switch σ)) (spelling : Argument) :
    Option (Switch σ) :=
  switches.find? (·.word = spelling)

def beforeEquals (s : Argument) : Argument := s.takeWhile (· ≠ .char '=')

/-- The text after the first equals sign, if there is one. -/
def afterEquals? (s : Argument) : Option Argument :=
  (s.dropWhile (· ≠ .char '=')).tail?

def assigned? (switches : List (Switch σ)) (s : Argument) :
    Option (Reading σ) :=
  match afterEquals? s, withSpelling? switches (beforeEquals s) with
  | some text, some switch => some (.switch switch (some text))
  | _, _ => none

def candidates (switches : List (Switch σ)) : Argument → List (Reading σ)
  | s@(.char '-' :: .char '-' :: _) =>
      (switches.filter fun switch =>
        (beforeEquals s).isPrefixOf switch.word).map
        (.switch · (afterEquals? s))
  | .char '-' :: piece :: text =>
      (switches.filter (·.word = [.char '-', piece])).map
        (.switch · (some text))
  | _ => []

def Piece.isDigit (piece : Piece) : Bool := piece.char?.any isDecimalDigit

/-- A number is an operand even with a minus sign. -/
def isNegativeNumber : Argument → Bool
  | .char '-' :: digits =>
      let digits :=
        if digits.getLast? = some (.char '\n') then digits.dropLast else digits
      let fraction := digits.dropWhile Piece.isDigit
      match fraction with
      | [] => !digits.isEmpty
      | .char '.' :: places => !places.isEmpty && places.all Piece.isDigit
      | _ => false
  | _ => false

def looksLikeOperand : Argument → Bool
  | [] => true
  | [.char '-'] => true
  | piece :: _ => piece ≠ .char '-'

def reading (switches : List (Switch σ)) (s : Argument) :
    Except Ending (Reading σ) :=
  if looksLikeOperand s then .ok .operand
  else
    match withSpelling? switches s with
    | some switch => .ok (.switch switch none)
    | none =>
        match assigned? switches s with
        | some found => .ok found
        | none =>
            match candidates switches s with
            | [] =>
                if isNegativeNumber s ∨ .char ' ' ∈ s then .ok .operand
                else .ok .unknown
            | [found] => .ok found
            | _ => .error .misuse

def words (switches : List (Switch σ)) :
    List Argument → Except Ending (List (Word σ))
  | [] => .ok []
  | text :: rest =>
      if text = .ofText "--" then
        .ok (⟨text, .separator⟩ :: rest.map (⟨·, .operand⟩))
      else do
        let found ← reading switches text
        let others ← words switches rest
        return ⟨text, found⟩ :: others

/-! ## Taking effect -/

/-- What one word brings about, and whether the next word was its value. -/
structure Outcome (σ : Type) where
  acts : List (Act σ)
  tookNext : Bool

def Outcome.run (outcome : Outcome σ) (settings : σ) : Except Ending σ :=
  outcome.acts.foldlM (fun settings act => act settings) settings

def alone (next : Option Argument) : Effect σ → Except Ending (Outcome σ)
  | .flag act => .ok ⟨[act], false⟩
  | .value act =>
      match next with
      | none => .error .misuse
      | some text => .ok ⟨[act (some text)], true⟩

def attachedValue (text : Argument) : Option Argument :=
  if text = .ofText "--" then none else some text

/--
A flag with a text attached is a short one that shares its dash; the first
piece of the text is the next switch.
-/
def withText (switches : List (Switch σ)) (next : Option Argument)
    (short : Bool) : Effect σ → Argument → Except Ending (Outcome σ)
  | .value act, text => .ok ⟨[act (attachedValue text)], false⟩
  | .flag _, [] => .error .misuse
  | .flag act, piece :: text =>
      if !short then .error .misuse
      else
        match withSpelling? switches [.char '-', piece] with
        | none => .error .misuse
        | some switch => do
            let others ←
              if text.isEmpty then alone next switch.effect
              else withText switches next true switch.effect text
            return { others with acts := act :: others.acts }

def isShort (switch : Switch σ) : Bool :=
  switch.spelling.toList[1]? ≠ some '-'

def outcome (switches : List (Switch σ)) (next : Option Argument)
    (switch : Switch σ) : Option Argument → Except Ending (Outcome σ)
  | none => alone next switch.effect
  | some text => withText switches next (isShort switch) switch.effect text

def nextOperand : List (Word σ) → Option Argument
  | ⟨text, .operand⟩ :: _ => some text
  | _ => none

def afterOutcome (outcome : Outcome σ) (rest : List (Word σ)) :
    List (Word σ) :=
  if outcome.tookNext then rest.tail else rest

theorem length_afterOutcome_le (outcome : Outcome σ) (rest : List (Word σ)) :
    (afterOutcome outcome rest).length ≤ rest.length := by
  unfold afterOutcome
  split
  · simp
  · exact Nat.le_refl _

/-! ## Whole command lines -/

structure Gathered (σ : Type) where
  settings : σ
  operands : List Argument
  surplus : Bool

/-- Reads switches up to the first operand, and leaves all words from there. -/
def gatherLeading (switches : List (Switch σ)) (settings : σ) (surplus : Bool) :
    List (Word σ) → Except Ending (Gathered σ)
  | [] => .ok ⟨settings, [], surplus⟩
  | ⟨text, .operand⟩ :: rest =>
      .ok ⟨settings, text :: rest.map Word.text, surplus⟩
  | ⟨_, .separator⟩ :: rest =>
      if rest.isEmpty then .ok ⟨settings, [], true⟩ else .error .misuse
  | ⟨_, .unknown⟩ :: rest => gatherLeading switches settings true rest
  | ⟨_, .switch switch attached⟩ :: rest => do
      let found ← outcome switches (nextOperand rest) switch attached
      let settings ← found.run settings
      gatherLeading switches settings surplus (afterOutcome found rest)
termination_by words => words.length
decreasing_by
  · simp
  · have := length_afterOutcome_le found rest
    simp only [List.length_cons]
    omega

def dropSeparator : List (Word σ) → List (Word σ)
  | ⟨_, .separator⟩ :: rest => rest
  | rest => rest

theorem length_dropSeparator_le (rest : List (Word σ)) :
    (dropSeparator rest).length ≤ rest.length := by
  unfold dropSeparator
  split
  · simp
  · exact Nat.le_refl _

/--
Reads a whole command line that has room for one operand.  A separator next to
that operand goes with it; any other is surplus, like further operands.
-/
def gatherAll (switches : List (Switch σ)) (settings : σ)
    (operand : Option Argument) (surplus : Bool) :
    List (Word σ) → Except Ending (Gathered σ)
  | [] => .ok ⟨settings, operand.toList, surplus⟩
  | ⟨text, .operand⟩ :: rest =>
      match operand with
      | some _ => gatherAll switches settings operand true rest
      | none =>
          gatherAll switches settings (some text) surplus (dropSeparator rest)
  | ⟨_, .separator⟩ :: rest =>
      gatherAll switches settings operand (surplus || operand.isSome) rest
  | ⟨_, .unknown⟩ :: rest => gatherAll switches settings operand true rest
  | ⟨_, .switch switch attached⟩ :: rest => do
      let found ← outcome switches (nextOperand rest) switch attached
      let settings ← found.run settings
      gatherAll switches settings operand surplus (afterOutcome found rest)
termination_by words => words.length
decreasing_by
  · simp
  · have := length_dropSeparator_le rest
    simp only [List.length_cons]
    omega
  · simp
  · simp
  · have := length_afterOutcome_le found rest
    simp only [List.length_cons]
    omega

end Secrecy.Command
