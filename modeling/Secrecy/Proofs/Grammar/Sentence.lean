import Mathlib.Computability.Language
import Mathlib.Order.FixedPoints
import Mathlib.Order.CompletePartialOrder
import Secrecy.Token

/-!
# Sentences

The bare notation, as a language of kinds of tokens in which all names are
alike:

    protocol   ::= roles key* message* assertion*
    roles      ::= "roles" ":" names
    key        ::= "shared" name "for" names
                 | ("public" | "private") name "for" name
    message    ::= name "->" name ":" body
    body       ::= name "=" expression | expression
    expression ::= term ("||" term)*
    term       ::= "Enc" "(" expression "," expression ")"
                 | "Mac" "(" expression "," expression ")"
                 | "Sign" "(" name "," expression ")"
                 | "Verify" "(" name "," expression "," expression ")"
                 | "H" "(" expression ")"
                 | name
    assertion  ::= "assert" "secret" "(" name ")" ("for" names)?
    names      ::= name ("," name)*

How deep an expression may be, and that the key of `Enc` and `Mac` has to turn
out to be a name, are rules beyond the notation.
-/

namespace Secrecy.Grammar.Phrase

open Computability

variable {L M : Language Token.Kind} {kind first : Token.Kind}
  {rest : List Token.Kind}

/-! ## The notation -/

def one (kind : Token.Kind) : Language Token.Kind := {[kind]}

abbrev word (word : Keyword) : Language Token.Kind := one (.keyword word)

abbrev symbol (symbol : Operator) : Language Token.Kind :=
  one (.operator symbol)

abbrev name : Language Token.Kind := one .name

def names : Language Token.Kind := name * (symbol .comma * name)∗

def applied (function : Keyword) (arguments : Language Token.Kind) :
    Language Token.Kind :=
  word function * (symbol .leftParen * (arguments * symbol .rightParen))

def termOver (inner : Language Token.Kind) : Language Token.Kind :=
  applied .enc (inner * (symbol .comma * inner)) +
    applied .mac (inner * (symbol .comma * inner)) +
    applied .sign (name * (symbol .comma * inner)) +
    applied .verify (name * (symbol .comma * (inner *
      (symbol .comma * inner)))) +
    applied .hash inner + name

def chainOver (inner : Language Token.Kind) : Language Token.Kind :=
  termOver inner * (symbol .bars * termOver inner)∗

theorem monotone_chainOver : Monotone chainOver := by
  intro inner outer le
  unfold chainOver termOver applied
  gcongr

/-- The least language in which terms have arguments of the language itself. -/
def expression : Language Token.Kind :=
  OrderHom.lfp ⟨chainOver, monotone_chainOver⟩

def body : Language Token.Kind :=
  name * (symbol .equals * expression) + expression

def roles : Language Token.Kind := word .roles * (symbol .colon * names)

def key : Language Token.Kind :=
  word .sharedKey * (name * (word .forWhom * names)) +
    (word .publicKey + word .privateKey) *
      (name * (word .forWhom * name))

def message : Language Token.Kind :=
  name * (symbol .arrow * (name * (symbol .colon * body)))

def permitted : Language Token.Kind := 1 + word .forWhom * names

def assertion : Language Token.Kind :=
  word .assertion * (applied .secret name * permitted)

def protocol : Language Token.Kind :=
  roles * (key∗ * (message∗ * assertion∗))

/-- Whether a list of kinds can be continued to a whole sentence and its end. -/
def Viable (kinds : List Token.Kind) : Prop :=
  ∃ rest, kinds ++ rest ∈ protocol * one .stop

/-! ## First kinds -/

theorem mem_one_mul {kinds : List Token.Kind} :
    kinds ∈ one kind * L ↔ ∃ rest, kinds = kind :: rest ∧ rest ∈ L := by
  simp only [Language.mem_mul, one]
  constructor
  · rintro ⟨_, rfl, rest, mem, rfl⟩
    exact ⟨rest, rfl, mem⟩
  · rintro ⟨rest, rfl, mem⟩
    exact ⟨[kind], rfl, rest, mem, rfl⟩

@[simp] theorem cons_mem_one_mul :
    first :: rest ∈ one kind * L ↔ first = kind ∧ rest ∈ L := by
  rw [mem_one_mul]
  simp [and_assoc]

theorem nil_notMem_one_mul : [] ∉ one kind * L := by
  rw [mem_one_mul]
  simp

@[simp] theorem cons_mem_one :
    first :: rest ∈ one kind ↔ first = kind ∧ rest = [] := by
  rw [← mul_one (one kind), cons_mem_one_mul, Language.mem_one]

theorem mem_add_mul {N : Language Token.Kind} :
    rest ∈ (L + M) * N ↔ rest ∈ L * N ∨ rest ∈ M * N := by
  rw [add_mul, Language.mem_add]

theorem mem_kstar_mul : rest ∈ L∗ * M ↔ rest ∈ M ∨ rest ∈ L * (L∗ * M) := by
  nth_rewrite 1 [← Language.one_add_self_mul_kstar_eq_kstar]
  rw [mem_add_mul, one_mul, mul_assoc]

theorem expression_eq : expression = chainOver expression :=
  (OrderHom.map_lfp ⟨chainOver, monotone_chainOver⟩).symm

theorem expression_mul :
    expression * M = termOver expression *
      ((symbol .bars * termOver expression)∗ * M) := by
  rw [← mul_assoc]
  nth_rewrite 1 [expression_eq]
  rfl

end Secrecy.Grammar.Phrase
