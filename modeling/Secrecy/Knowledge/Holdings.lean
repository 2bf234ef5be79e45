import Secrecy.Knowledge.Observation
import Secrecy.Protocol.Mentions

/-!
# What one principal holds

Names held in the clear come in two halves: those a principal wrote into its
own messages, and those it learned, from the wire, from owning a key, or by
opening a sealed term.  A sweep tries the sealed terms once, in the order of
their labels.
-/

namespace Secrecy

structure Holdings where
  authored : List String
  learned : List String
  sealedTerms : List SealedTerm
  deriving DecidableEq, Repr

namespace Holdings

def nothing : Holdings := ⟨[], [], []⟩

/-- Every name held in the clear. -/
def clear (holdings : Holdings) : List String :=
  adjoinAll holdings.authored holdings.learned

def knows (holdings : Holdings) (name : String) : Bool :=
  name ∈ holdings.authored ∨ name ∈ holdings.learned

@[simp] theorem mem_clear {holdings : Holdings} {name : String} :
    name ∈ holdings.clear ↔
      name ∈ holdings.authored ∨ name ∈ holdings.learned := by
  simp [clear]

theorem knows_iff {holdings : Holdings} {name : String} :
    holdings.knows name = true ↔ name ∈ holdings.clear := by
  simp [knows]

/-! ## Gaining knowledge -/

def learn (names : List String) (holdings : Holdings) : Holdings :=
  { holdings with learned := adjoinAll holdings.learned names }

def author (names : List String) (holdings : Holdings) : Holdings :=
  { holdings with authored := adjoinAll holdings.authored names }

def store (terms : List SealedTerm) (holdings : Holdings) : Holdings :=
  { holdings with sealedTerms := adjoinAll holdings.sealedTerms terms }

def send (body : Expr) (holdings : Holdings) : Holdings :=
  (holdings.author (body.observed.names ++ body.occurrences)).store
    body.observed.sealedTerms

def receive (body : Expr) (holdings : Holdings) : Holdings :=
  (holdings.learn body.observed.names).store body.observed.sealedTerms

/-! ## Opening sealed terms -/

def tryOpen (holdings : Holdings) (term : SealedTerm) : Holdings :=
  match term.opening? with
  | none => holdings
  | some (key, plain) =>
      if holdings.knows key ∧ ¬ holdings.knows plain then
        { holdings with learned := adjoin holdings.learned plain }
      else holdings

def sweep (holdings : Holdings) : Holdings :=
  (SealedTerm.byLabel holdings.sealedTerms).foldl tryOpen holdings

theorem tryOpen_sealedTerms (holdings : Holdings) (term : SealedTerm) :
    (holdings.tryOpen term).sealedTerms = holdings.sealedTerms := by
  unfold tryOpen
  split
  · rfl
  · split <;> rfl

end Holdings

end Secrecy
