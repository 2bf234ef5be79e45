import Secrecy.Command.Invocation
import Secrecy.Proofs.Outcome

/-!
# What switches leave alone

Whichever way a word is recognised, as it stands, cut short, with a text or with
others at one dash, it only stands for switches that the command has, and all
texts come from the words of the command line.  So what all switches keep, when
they are given pieces of some kind, is kept by the whole command line.
-/

namespace Secrecy.Command

def Argument.Of (kind : Piece → Prop) (argument : Argument) : Prop :=
  ∀ piece ∈ argument, kind piece

section Keeps

variable {σ : Type} {kind : Piece → Prop} {holds : σ → Prop}
  {switches : List (Switch σ)} {next : Option Argument}

def Keeps (holds : σ → Prop) (act : Act σ) : Prop :=
  ∀ before after, act before = .ok after → holds before → holds after

def Effect.Keeps (kind : Piece → Prop) (holds : σ → Prop) : Effect σ → Prop
  | .flag act => Command.Keeps holds act
  | .value act => ∀ text : Option Argument, (∀ given ∈ text, given.Of kind) →
      Command.Keeps holds (act text)

def KeptBy (kind : Piece → Prop) (holds : σ → Prop)
    (switches : List (Switch σ)) : Prop :=
  ∀ switch ∈ switches, switch.effect.Keeps kind holds

theorem KeptBy.append {others : List (Switch σ)}
    (h : KeptBy kind holds switches) (h' : KeptBy kind holds others) :
    KeptBy kind holds (switches ++ others) :=
  List.forall_mem_append.mpr ⟨h, h'⟩

/-! ## Recognising words -/

/-- A switch of the command, with a text that comes from the word. -/
def Reading.Within (switches : List (Switch σ)) (s : Argument) :
    Reading σ → Prop
  | .switch found attached =>
      found ∈ switches ∧ ∀ text ∈ attached, text ⊆ s
  | _ => True

def Recognised (kind : Piece → Prop) (switches : List (Switch σ))
    (found : List (Word σ)) : Prop :=
  ∀ word ∈ found, word.text.Of kind ∧ word.reading.Within switches word.text

theorem Recognised.later {word : Word σ} {rest later : List (Word σ)}
    (h : Recognised kind switches (word :: rest)) (part : later ⊆ rest) :
    Recognised kind switches later :=
  fun other mem => h other (List.mem_cons_of_mem word (part mem))

theorem Recognised.nextOperand {rest : List (Word σ)}
    (h : Recognised kind switches rest) :
    ∀ text ∈ nextOperand rest, text.Of kind := by
  intro text next
  unfold Command.nextOperand at next
  split at next
  · cases next
    exact (h _ List.mem_cons_self).1
  · cases next

/-! ## Taking effect -/

end Keeps

/-! ## Settings that the switches keep -/

variable {kind : Piece → Prop}

/-- Names are checked, and a title is of one kind with the words. -/
structure Settings.Plain (kind : Piece → Prop) (task : Task)
    (settings : Settings) : Prop where
  checkNames : task ≠ .parse → settings.checkNames = true
  title : ∀ title ∈ settings.title, title.Of kind

structure Invocation.Plain (kind : Piece → Prop) (invocation : Invocation) :
    Prop where
  file : invocation.file.Of kind
  settings : invocation.settings.Plain kind invocation.task

section Through

variable {σ : Type} {switches : List (Switch σ)} {settings settings' : σ}

end Through

end Secrecy.Command
