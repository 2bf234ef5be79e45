import Mathlib.Data.List.DropRight
import Secrecy.Proofs.Text.Lines

/-!
# Lines that are shown and lines that are counted

A text is cut for display at every line boundary, while its lines are counted at
line feeds.  What stands behind a boundary of another kind is shown further down
than it is counted, unless that was a carriage return before a line feed.
-/

namespace Secrecy.Text

variable {c : Char} {s before rest : List Char}

def isBoundary (c : Char) : Bool := c ∈ lineBoundaries

/-- A carriage return before a line feed leaves it to that to end the line. -/
def EndsLine (c : Char) (rest : List Char) : Prop :=
  c ∈ lineBoundaries ∧ (c = '\r' → rest.head? ≠ some '\n')

instance (c : Char) (rest : List Char) : Decidable (EndsLine c rest) :=
  inferInstanceAs (Decidable (_ ∧ (_ → _)))

def lineEnds : List Char → Nat
  | [] => 0
  | c :: rest => lineEnds rest + if EndsLine c rest then 1 else 0

/-- What stands about a word, up to the next line ends on either side. -/
def lineAround (ends : Char → Bool) (before word after : List Char) :
    List Char :=
  before.rtakeWhile (!ends ·) ++ word ++ after.takeWhile (!ends ·)

def dropReturn (line : List Char) : List Char :=
  if line.getLast? = some '\r' then line.dropLast else line

/-! ## Cutting for display -/

theorem firstLine_fst (s : List Char) :
    (firstLine s).1 = s.takeWhile (!isBoundary ·) := by
  induction s with
  | nil => rfl
  | cons c s ih =>
      rw [firstLine]
      split
      next boundary => simp [isBoundary, boundary]
      next inside => simp [isBoundary, inside, ih]

theorem splitLines_cons {line : List Char} {following : Option (List Char)}
    (first : firstLine (c :: s) = (line, following)) :
    splitLines (c :: s) = line :: (following.map splitLines).getD [] := by
  rw [splitLines, first]
  cases following <;> rfl

theorem splitLines_of_endsLine (ends : EndsLine c rest) :
    splitLines (c :: rest) = [] :: splitLines rest := by
  obtain ⟨boundary, lone⟩ := ends
  have following : (if c = '\r' then afterReturn rest else rest) = rest := by
    split
    next isReturn =>
      unfold afterReturn
      split
      · exact absurd rfl (lone isReturn)
      · rfl
    · rfl
  rw [splitLines_cons (firstLine.eq_2 c rest ▸ if_pos boundary), following]
  rfl

theorem endsLine_newline : EndsLine '\n' rest :=
  ⟨by decide, fun isReturn => absurd isReturn (by decide)⟩

theorem splitLines_return :
    splitLines ('\r' :: '\n' :: rest) = splitLines ('\n' :: rest) := by
  rw [splitLines_cons (firstLine.eq_2 '\r' _ ▸ if_pos (by decide)),
    splitLines_of_endsLine endsLine_newline]
  rfl

theorem splitLines_inside (inside : c ∉ lineBoundaries) (more : s ≠ []) :
    splitLines (c :: s) = (splitLines s).modifyHead (c :: ·) := by
  obtain ⟨d, s, rfl⟩ := List.exists_cons_of_ne_nil more
  rw [splitLines_cons (firstLine.eq_2 c (d :: s) ▸ if_neg inside),
    splitLines_cons (Prod.eta (firstLine (d :: s))).symm]
  rfl

/-! ## Line ends before a place -/

theorem eq_return_of_not_endsLine (boundary : c ∈ lineBoundaries)
    (goesOn : ¬ EndsLine c rest) : c = '\r' ∧ ∃ more, rest = '\n' :: more := by
  rw [EndsLine, not_and, Classical.not_imp, not_not] at goesOn
  obtain ⟨isReturn, next⟩ := goesOn boundary
  exact ⟨isReturn, List.head?_eq_some_iff.mp next⟩

theorem lineEnds_eq_zero : lineEnds s = 0 ↔ ∀ c ∈ s, c ∉ lineBoundaries := by
  induction s with
  | nil => simp [lineEnds]
  | cons c s ih =>
      rw [List.forall_mem_cons, ← ih, lineEnds]
      constructor
      · intro unended
        refine ⟨fun boundary => ?_, by omega⟩
        by_cases ends : EndsLine c s
        · simp [ends] at unended
        · obtain ⟨-, more, rfl⟩ := eq_return_of_not_endsLine boundary ends
          have newline : '\n' ∉ lineBoundaries :=
            ih.mp (by omega) _ List.mem_cons_self
          exact newline (by decide)
      · rintro ⟨inside, unended⟩
        have goesOn : ¬ EndsLine c s := fun ends => inside ends.1
        simp [goesOn, unended]

theorem all_iff_lineEnds :
    s.all (!isBoundary ·) = true ↔ lineEnds s = 0 := by
  simp [lineEnds_eq_zero, isBoundary]

theorem rtakeWhile_cons (p : Char → Bool) :
    (c :: s).rtakeWhile p =
      (if (c :: s).all p = true then [c] else []) ++ s.rtakeWhile p := by
  rw [List.rtakeWhile, List.rtakeWhile, List.reverse_cons, List.takeWhile_append]
  by_cases each : ∀ d ∈ s, p d = true
  · have whole : s.reverse.takeWhile p = s.reverse := by
      simpa [List.takeWhile_eq_self_iff] using each
    rw [whole, if_pos rfl, List.takeWhile_cons, List.all_cons,
      List.all_eq_true.mpr each, Bool.and_true]
    split <;> simp
  · have part : (s.reverse.takeWhile p).length ≠ s.reverse.length := by
      intro same
      have whole := (List.takeWhile_prefix p).eq_of_length same
      rw [List.takeWhile_eq_self_iff] at whole
      exact each fun d mem => whole d (List.mem_reverse.mpr mem)
    have stops : (c :: s).all p ≠ true := by
      intro same
      rw [List.all_cons, Bool.and_eq_true, List.all_eq_true] at same
      exact each same.2
    rw [if_neg part, if_neg stops, List.nil_append]

/-- Where the line is shown that goes on behind a place, and what begins it. -/
theorem getElem?_splitLines (more : rest ≠ [])
    (inside : ∀ c ∈ rest.head?, c ∉ lineBoundaries) :
    (splitLines (before ++ rest))[lineEnds before]? =
      some (before.rtakeWhile (!isBoundary ·) ++
        rest.takeWhile (!isBoundary ·)) := by
  induction before with
  | nil =>
      obtain ⟨c, rest, rfl⟩ := List.exists_cons_of_ne_nil more
      rw [List.nil_append,
        splitLines_cons (Prod.eta (firstLine (c :: rest))).symm, firstLine_fst]
      rfl
  | cons c before ih =>
      by_cases boundary : c ∈ lineBoundaries
      · have stops : (c :: before).all (!isBoundary ·) ≠ true := by
          simp [isBoundary, boundary]
        rw [List.cons_append, rtakeWhile_cons, if_neg stops, List.nil_append, ← ih,
          lineEnds]
        by_cases ends : EndsLine c before
        · -- What follows begins with no line feed, so this is an end there too.
          have ends' : EndsLine c (before ++ rest) := by
            refine ⟨boundary, fun isReturn newline => ?_⟩
            cases before with
            | nil => exact inside _ newline (by decide)
            | cons d before => exact ends.2 isReturn newline
          rw [splitLines_of_endsLine ends', if_pos ends, List.getElem?_cons_succ]
        · obtain ⟨rfl, others, rfl⟩ := eq_return_of_not_endsLine boundary ends
          rw [if_neg ends, List.cons_append, splitLines_return, Nat.add_zero]
      · have goesOn : ¬ EndsLine c before := fun ends => boundary ends.1
        have none : (c :: before).all (!isBoundary ·) = true ↔ lineEnds before = 0 := by
          rw [all_iff_lineEnds, lineEnds, if_neg goesOn, Nat.add_zero]
        rw [List.cons_append, splitLines_inside boundary (by simp [more]), lineEnds,
          if_neg goesOn, Nat.add_zero, List.getElem?_modifyHead, ih,
          rtakeWhile_cons, if_congr none rfl rfl]
        split <;> simp

/-! ## Lines that agree -/

theorem count_le_lineEnds : s.count '\n' ≤ lineEnds s := by
  induction s with
  | nil => exact Nat.le_refl _
  | cons c s ih =>
      rw [List.count_cons, lineEnds]
      by_cases newline : c = '\n'
      · subst newline
        simpa [endsLine_newline] using ih
      · simp only [beq_iff_eq, newline, if_false]
        omega

theorem rtakeWhile_of_lineEnds (same : lineEnds s = s.count '\n') :
    s.rtakeWhile (!isBoundary ·) = s.rtakeWhile fun c => !(c == '\n') := by
  induction s with
  | nil => rfl
  | cons c s ih =>
      have same' : lineEnds s = s.count '\n' := by
        have bound := @count_le_lineEnds s
        rw [lineEnds, List.count_cons] at same
        by_cases newline : c = '\n'
        · subst newline
          simpa [endsLine_newline] using same
        · simp only [beq_iff_eq, newline, if_false] at same
          omega
      have agree : (c :: s).all (!isBoundary ·) = true ↔
          ((c :: s).all fun c => !(c == '\n')) = true := by
        rw [all_iff_lineEnds, same, List.count_eq_zero, List.all_eq_true]
        simp only [Bool.not_eq_true', beq_eq_false_iff_ne]
        exact ⟨fun free d mem isNewline => free (isNewline ▸ mem),
          fun free mem => free _ mem rfl⟩
      rw [rtakeWhile_cons, rtakeWhile_cons, if_congr agree rfl rfl, ih same']

theorem dropReturn_append {line rest : List Char}
    (last : line.getLast? ≠ some '\r') :
    dropReturn (line ++ rest) = line ++ dropReturn rest := by
  cases rest with
  | nil => simp [dropReturn, last]
  | cons c rest =>
      have nonempty : c :: rest ≠ [] := List.cons_ne_nil _ _
      rw [dropReturn, dropReturn, List.getLast?_append_of_ne_nil _ nonempty,
        List.dropLast_append_of_ne_nil nonempty]
      split <;> rfl

theorem dropReturn_eq_nil {line : List Char} :
    dropReturn line = [] ↔ line = [] ∨ line = ['\r'] := by
  unfold dropReturn
  split
  next last =>
    obtain ⟨others, rfl⟩ := List.getLast?_eq_some_iff.mp last
    simp
  next other =>
    refine ⟨.inl, ?_⟩
    rintro (rfl | rfl)
    · rfl
    · exact absurd rfl other

theorem takeWhile_eq_dropReturn_iff (oneLine : '\n' ∉ s) :
    s.takeWhile (!isBoundary ·) = dropReturn s ↔ lineEnds (s ++ ['\n']) = 1 := by
  induction s with
  | nil => exact iff_of_true rfl rfl
  | cons c s ih =>
      rw [List.mem_cons, not_or] at oneLine
      obtain ⟨newline, oneLine⟩ := oneLine
      have ended : 1 ≤ lineEnds (s ++ ['\n']) := by
        have bound := @count_le_lineEnds (s ++ ['\n'])
        simp [List.count_eq_zero_of_not_mem oneLine] at bound
        exact bound
      rw [List.cons_append, lineEnds]
      by_cases boundary : c ∈ lineBoundaries
      · have stops : (!isBoundary c) = false := by simp [isBoundary, boundary]
        rw [List.takeWhile_cons, stops, if_neg Bool.false_ne_true, eq_comm,
          dropReturn_eq_nil]
        by_cases ends : EndsLine c (s ++ ['\n'])
        · rw [if_pos ends]
          refine iff_of_false ?_ (by omega)
          rintro (nothing | same)
          · cases nothing
          · obtain ⟨rfl, rfl⟩ := List.cons_eq_cons.mp same
            exact ends.2 rfl rfl
        · obtain ⟨rfl, more, same⟩ := eq_return_of_not_endsLine boundary ends
          cases s with
          | nil => exact iff_of_true (.inr rfl) rfl
          | cons d s =>
              obtain ⟨rfl, -⟩ := List.cons_eq_cons.mp same
              exact absurd List.mem_cons_self oneLine
      · have goesOn : ¬ EndsLine c (s ++ ['\n']) := fun ends => boundary ends.1
        have begins : dropReturn (c :: s) = c :: dropReturn s := by
          refine @dropReturn_append [c] s ?_
          rintro ⟨⟩
          exact boundary (by decide)
        rw [List.takeWhile_cons_of_pos (by simp [isBoundary, boundary]), begins,
          List.cons.injEq, if_neg goesOn, Nat.add_zero, ← ih oneLine]
        simp

/-! ## The line about a word -/

section Word

variable {word after : List Char}

theorem getElem?_linesOf {text : String} (whole : text.toList = before ++ word ++ after)
    (nonempty : word ≠ []) (inside : ∀ c ∈ word, c ∉ lineBoundaries) :
    (linesOf text)[lineEnds before]? =
      .some (String.ofList (lineAround isBoundary before word after)) := by
  have clear : ∀ c ∈ word, (!isBoundary c) = true := by
    intro c mem
    simp [isBoundary, inside c mem]
  have begins : ∀ c ∈ (word ++ after).head?, c ∉ lineBoundaries := by
    intro c mem
    rw [List.head?_append_of_ne_nil _ nonempty] at mem
    exact inside c (List.mem_of_mem_head? mem)
  rw [linesOf, List.getElem?_map, whole, List.append_assoc,
    getElem?_splitLines (by simp [nonempty]) begins,
    List.takeWhile_append_of_pos clear, lineAround, List.append_assoc]
  rfl

theorem lineAround_eq_dropReturn_iff (same : lineEnds before = before.count '\n')
    (nonempty : word ≠ []) (inside : ∀ c ∈ word, c ∉ lineBoundaries) :
    lineAround isBoundary before word after =
        dropReturn (lineAround (· == '\n') before word after) ↔
      lineEnds (after.takeWhile (· != '\n') ++ ['\n']) = 1 := by
  have oneLine : '\n' ∉ after.takeWhile (· != '\n') := by
    intro mem
    exact absurd (List.mem_takeWhile_imp mem) (by decide)
  have last : (before.rtakeWhile (!isBoundary ·) ++ word).getLast? ≠ .some '\r' := by
    intro isReturn
    rw [List.getLast?_append_of_ne_nil _ nonempty] at isReturn
    exact inside _ (List.mem_of_getLast? isReturn) (by decide)
  have shorter : after.takeWhile (!isBoundary ·) =
      (after.takeWhile (· != '\n')).takeWhile (!isBoundary ·) := by
    rw [List.takeWhile_takeWhile]
    congr 1
    funext c
    by_cases newline : c = '\n' <;> simp [newline, isBoundary, lineBoundaries]
  rw [← takeWhile_eq_dropReturn_iff oneLine, lineAround, lineAround,
    ← rtakeWhile_of_lineEnds same, dropReturn_append last, shorter]
  exact List.append_right_inj _

end Word

end Secrecy.Text
