import Secrecy.Protocol.Label
import Secrecy.Text.Occurrence

/-!
# Sealed terms

A sealed term is a structured term as an observer holds it: what made it and
under which key, and of its parts only their labels and whether each is a bare
name.  Terms may be made by hand, in any shape; the label of a concatenation
exists only when the term has the two parts that it needs.
-/

namespace Secrecy

namespace SealedTerm

inductive Maker where
  | enc
  | mac
  | hash
  | sign
  | verify
  | concat
  deriving DecidableEq, Repr

namespace Maker

def all : List Maker := [.enc, .mac, .hash, .sign, .verify, .concat]

def tag : Maker → String
  | .enc => "ENC"
  | .mac => "MAC"
  | .hash => "HASH"
  | .sign => "SIGN"
  | .verify => "VERIFY"
  | .concat => "CONCAT"

def ofTag? (tag : String) : Option Maker := all.find? (fun maker => maker.tag = tag)

def word : Maker → String
  | .enc => "Enc"
  | .mac => "Mac"
  | .hash => "H"
  | .sign => "Sign"
  | .verify => "Verify"
  | .concat => "||"

end Maker

end SealedTerm

structure SealedTerm where
  maker : SealedTerm.Maker
  key : Option String
  parts : List String
  bare : List Bool
  deriving DecidableEq, Repr

namespace SealedTerm

inductive LabelFault where
  | notTwoParts
  | rightPartUnmarked
  deriving DecidableEq, Repr

def bars : String := " || "

/-- The right part of a concatenation, in parentheses if it is one itself. -/
def rightLabel (bare : Bool) (label : String) : String :=
  if !bare && Text.occursIn bars.toList label.toList then "(" ++ label ++ ")"
  else label

def label (term : SealedTerm) : Except LabelFault String :=
  match term.maker with
  | .concat =>
      match term.parts with
      | [left, right] =>
          match term.bare[1]? with
          | none => .error .rightPartUnmarked
          | some bare => .ok (left ++ bars ++ rightLabel bare right)
      | _ => .error .notTwoParts
  | maker => .ok (applied maker.word (term.key.toList ++ term.parts))

def shown (term : SealedTerm) : String :=
  match term.label with
  | .ok label => label
  | .error _ => ""

/--
The key that opens a term, and the name it then gives away.  Only an encryption
of a single bare name can be opened.
-/
def opening? : SealedTerm → Option (String × String)
  | ⟨.enc, some key, [plain], [true]⟩ => some (key, plain)
  | _ => none

def byLabel (terms : List SealedTerm) : List SealedTerm :=
  terms.mergeSort (fun a b => decide (a.shown ≤ b.shown))

@[simp] theorem mem_byLabel {terms : List SealedTerm} {term : SealedTerm} :
    term ∈ byLabel terms ↔ term ∈ terms := by
  simp [byLabel, List.mem_mergeSort]

end SealedTerm

end Secrecy
