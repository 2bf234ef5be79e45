import Secrecy.Command.Reply
import Secrecy.Proofs.Chart.Diagram
import Secrecy.Proofs.Command.Gathering
import Secrecy.Proofs.Json
import Secrecy.Proofs.Knowledge.Totality
import Secrecy.Proofs.Layout

/-!
# What the exit code tells

A command reads before it writes, and it writes only when all else is done.  So
nothing is written unless there is a page, and of an analysis the exit code
tells whether the text was refused, an assertion failed or all of them held.  In
what style the page is and where it goes have no part in that.

A file is opened before its page turns out to be no text.  That happens only to
pages that name what a command line holds besides texts.
-/

namespace Secrecy

namespace Command

variable {world : World} {invocation : Invocation} {source : String}

namespace Output

def Writable (world : World) : Output → Prop
  | .standard => True
  | .file path =>
      ∃ place, world.locate path = .ok place ∧ world.obstacle? place = none
  | .unnamed => False

/-- The page goes to the place that was asked for and to no other. -/
def Receives (world : World) (reply : Reply) (page : String) : Output → Prop
  | .standard =>
      reply.stdout = .text page ∧ reply.made = [] ∧ reply.written = none
  | .file path =>
      ∃ place, world.locate path = .ok place ∧ reply.stdout = .text "" ∧
        reply.made = world.missingFolders place.folder ∧
        reply.written = some (place, page)
  | .unnamed => False

end Output

def Argument.IsText (argument : Argument) : Prop :=
  argument.Of (·.char?.isSome)

theorem Argument.text?_isSome {argument : Argument} :
    argument.text?.isSome ↔ argument.IsText := by
  unfold text? IsText Of
  split
  · next each => exact iff_of_true rfl (List.all_eq_true.mp each)
  · next each => exact iff_of_false nofun (mt List.all_eq_true.mpr each)

theorem Argument.text?_eq_none {argument : Argument} :
    argument.text? = none ↔ ¬ argument.IsText := by
  rw [← text?_isSome, Option.not_isSome_iff_eq_none]

namespace Invocation

/-- All that a page says of the command line is texts. -/
structure Legible (invocation : Invocation) : Prop where
  file : invocation.task = .check → invocation.file.IsText
  title : invocation.task = .dot →
    ∀ title ∈ invocation.settings.title, title.IsText

/-- The place that was asked for is left empty instead of a page. -/
def Blots (invocation : Invocation) (world : World) (reply : Reply) : Prop :=
  ¬ invocation.Legible ∧ invocation.settings.output.Receives world reply ""

inductive Reads (invocation : Invocation) (world : World) : String → Prop
  | input (standard : invocation.file = .ofText "-") :
      Reads invocation world (Text.unifyLineEnds world.input)
  | file {place : Place} {source : String}
      (named : invocation.file ≠ .ofText "-")
      (located : world.locate invocation.file = .ok place)
      (read : world.read place = .ok source) : Reads invocation world source

def CannotRead (invocation : Invocation) (world : World) : Prop :=
  invocation.file ≠ .ofText "-" ∧ ∃ place unreadable,
    world.locate invocation.file = .ok place ∧
      world.read place = .error unreadable

theorem Reads.withSource (reads : invocation.Reads world source)
    (proceed : String → Reply) :
    invocation.withSource world proceed = proceed source := by
  unfold Invocation.withSource
  cases reads with
  | input standard => rw [if_pos standard]
  | file named located read =>
      rw [if_neg named, located]
      simp only [read]

theorem Reads.withProtocol_of_ok (reads : invocation.Reads world source)
    {protocol : Protocol} (accepted : Protocol.ofSource source
      invocation.settings.checkNames = .ok protocol)
    {proceed : Protocol → Reply} :
    invocation.withProtocol world proceed = proceed protocol := by
  rw [withProtocol, reads.withSource]
  simp only [accepted]

theorem CannotRead.withSource (h : invocation.CannotRead world)
    (proceed : String → Reply) :
    ∃ messages, invocation.withSource world proceed = .failure messages := by
  obtain ⟨named, place, unreadable, located, read⟩ := h
  refine ⟨[unreadable.message], ?_⟩
  unfold Invocation.withSource
  rw [if_neg named, located]
  simp only [read]

/-- A page that is no text fails after its place was opened. -/
theorem deliver_of_writable (writable : invocation.settings.output.Writable world)
    (page : Option String) (exit : Nat) (log : List Record) :
    (invocation.deliver world page exit log).exit = page.elim 1 (fun _ => exit) ∧
      invocation.settings.output.Receives world
        (invocation.deliver world page exit log) (page.elim "" closedLine) := by
  cases output : invocation.settings.output with
  | standard =>
      cases page <;> simp [deliver, output, Output.Receives]
  | unnamed =>
      rw [output] at writable
      exact writable.elim
  | file path =>
      rw [output] at writable
      obtain ⟨place, located, free⟩ := writable
      cases page <;> simp [deliver, output, located, free, Output.Receives]

theorem Legible.checkPage (legible : invocation.Legible)
    (task : invocation.task = .check) (protocol : Protocol) :
    invocation.checkPage protocol ≠ none := by
  have file := legible.file task
  rw [← Argument.text?_isSome, Option.isSome_iff_exists] at file
  obtain ⟨name, text⟩ := file
  rw [Invocation.checkPage, text]
  nofun

theorem any_isNone_text? {title : Option Argument} :
    title.any (·.text?.isNone) = true ↔ ¬ ∀ given ∈ title, given.IsText := by
  cases title with
  | none => simp
  | some given => simp [Argument.text?_eq_none]

theorem Plain.legible (plain : invocation.Plain (·.char?.isSome)) :
    invocation.Legible :=
  ⟨fun _ => plain.file, fun _ => plain.settings.title⟩

/-- All else being well, a page that is no text leaves its place empty. -/
theorem blots_of_not_legible (illegible : ¬ invocation.Legible)
    (reads : invocation.Reads world source)
    (writable : invocation.settings.output.Writable world)
    (checks : invocation.settings.checkNames = true) {protocol : Protocol}
    (accepted : Protocol.ofSource source true = .ok protocol) :
    (invocation.reply world).exit = 1 ∧
      invocation.Blots world (invocation.reply world) := by
  have told : invocation.task = .check ∧ ¬ invocation.file.IsText ∨
      invocation.task = .dot ∧
        ¬ ∀ title ∈ invocation.settings.title, title.IsText := by
    by_contra h
    simp only [not_or, not_and, not_not] at h
    exact illegible ⟨h.1, h.2⟩
  -- Everything else is done by then, so there is no page but for that.
  have pageless : invocation.reply world =
      invocation.deliver world none 0 [] := by
    rcases told with ⟨task, file⟩ | ⟨task, title⟩
    · unfold reply
      rw [task]
      dsimp only
      rw [reads.withProtocol_of_ok (checks ▸ accepted), checkPage,
        Argument.text?_eq_none.mpr file]
      rfl
    · have wellScoped := (Protocol.ofSource_eq_ok.mp accepted).2 rfl
      unfold reply
      rw [task]
      dsimp only
      rw [reads.withProtocol_of_ok (checks ▸ accepted), dotReply, Chart.dot,
        Protocol.statements_chart wellScoped.roles wellScoped.endpoints]
      exact congrArg (invocation.deliver world · 0 [])
        (if_pos (any_isNone_text?.mpr title))
  obtain ⟨exit, received⟩ := deliver_of_writable writable none 0 []
  rw [pageless]
  exact ⟨exit, illegible, received⟩

theorem Reads.same {other : Invocation} (reads : invocation.Reads world source)
    (file : other.file = invocation.file) : other.Reads world source := by
  cases reads with
  | input standard => exact .input (file.trans standard)
  | file named located read =>
      exact .file (file ▸ named) (file ▸ located) read

end Invocation

end Command

end Secrecy
