import Secrecy.Text.Lines

/-!
# Texts made of lines

A text whose lines are each ended by a line feed falls into just these lines,
if none of them holds a line boundary itself.
-/

namespace Secrecy.Text

def OneLine (s : String) : Prop := ∀ c ∈ s.toList, c ∉ lineBoundaries

instance (s : String) : Decidable (OneLine s) :=
  List.decidableBAll (fun c => c ∉ lineBoundaries) s.toList

variable {s t : String}

/-- What is to be decided of some characters is decided of these alone. -/
theorem forall_mem_of_all {P : Char → Prop} [DecidablePred P] {cs : List Char}
    (holds : cs.all P = true) : ∀ c ∈ cs, P c := by
  simpa using holds

@[simp] theorem oneLine_append : OneLine (s ++ t) ↔ OneLine s ∧ OneLine t := by
  simp only [OneLine, String.toList_append, List.mem_append, or_imp,
    forall_and]

theorem forall_mem_intercalate {P : Char → Prop} {items : List String}
    (separator : ∀ c ∈ s.toList, P c)
    (each : ∀ item ∈ items, ∀ c ∈ item.toList, P c) :
    ∀ c ∈ (String.intercalate s items).toList, P c := by
  induction items with
  | nil => simp
  | cons first others ih =>
      rw [List.forall_mem_cons] at each
      cases others with
      | nil => simpa using each.1
      | cons second others =>
          rw [String.intercalate_cons_cons]
          simp only [String.toList_append, List.forall_mem_append]
          exact ⟨⟨each.1, separator⟩, ih each.2⟩

theorem oneLine_intercalate {items : List String} (separator : OneLine s)
    (each : ∀ item ∈ items, OneLine item) :
    OneLine (String.intercalate s items) :=
  forall_mem_intercalate separator each

theorem firstLine_append {line rest : List Char}
    (unbroken : ∀ c ∈ line, c ∉ lineBoundaries) :
    firstLine (line ++ '\n' :: rest) = (line, some rest) := by
  induction line with
  | nil => simp [firstLine, lineBoundaries]
  | cons c line ih =>
      rw [List.forall_mem_cons] at unbroken
      rw [List.cons_append, firstLine, if_neg unbroken.1, ih unbroken.2]

theorem splitLines_append {line rest : List Char}
    (unbroken : ∀ c ∈ line, c ∉ lineBoundaries) :
    splitLines (line ++ '\n' :: rest) = line :: splitLines rest := by
  rw [splitLines, firstLine_append unbroken]
  simp

def unlines (lines : List String) : String :=
  String.join (lines.map (· ++ "\n"))

theorem linesOf_unlines {lines : List String}
    (each : ∀ line ∈ lines, OneLine line) : linesOf (unlines lines) = lines := by
  induction lines with
  | nil => simp [unlines, linesOf, splitLines]
  | cons line lines ih =>
      rw [List.forall_mem_cons] at each
      have split : (unlines (line :: lines)).toList =
          line.toList ++ '\n' :: (unlines lines).toList := by
        simp [unlines]
      rw [linesOf, split, splitLines_append each.1, List.map_cons,
        String.ofList_toList]
      exact congrArg (line :: ·) (ih each.2)

theorem intercalate_newline {lines : List String} (nonempty : lines ≠ []) :
    String.intercalate "\n" lines ++ "\n" = unlines lines := by
  induction lines with
  | nil => exact absurd rfl nonempty
  | cons first others ih =>
      cases others with
      | nil => simp [unlines]
      | cons second others =>
          rw [String.intercalate_cons_cons, String.append_assoc,
            ih (List.cons_ne_nil _ _)]
          simp [unlines]

end Secrecy.Text
