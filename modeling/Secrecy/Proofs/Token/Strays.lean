import Mathlib.Algebra.Group.Nat.Even
import Mathlib.Data.List.DropRight
import Mathlib.Data.List.Infix
import Secrecy.Proofs.Token.Cutting

/-!
# Stray characters

Between two tokens there is a seam: a place that splits no word, no arrow and
no pair of bars, and that no comment covers.  A text is cut alike on both sides
of a seam, whatever stands on the other side.  A stray character is one that
belongs to nothing, with a seam before it and one after it, and the lexer reads
it as a name of its own.  There are no other names but words.
-/

namespace Secrecy.Token

open Text

/-! ## Seams -/

def lineSoFar (before : List Char) : List Char :=
  before.rtakeWhile (· != '\n')

def barsBefore (before : List Char) : Nat :=
  (before.rtakeWhile (· == '|')).length

def Uncovered (before after : List Char) : Prop :=
  ∀ c ∈ after.head?, c ≠ '\n' → ¬ ['/', '/'] <:+: lineSoFar before ++ [c]

/-- Bars make pairs from the left, so a bar is the first of one or alone. -/
structure Seam (before after : List Char) : Prop where
  words : Unsplit before after
  arrow : before.getLast? = some '-' → after.head? ≠ some '>'
  bars : after.head? = some '|' → Even (barsBefore before)
  comment : Uncovered before after

/-- Neither blank nor in a word, an operator or a comment. -/
structure Stray (before : List Char) (c : Char) (after : List Char) : Prop where
  inked : isBlank c = false
  odd : isWordChar c = false
  single : ∀ symbol : Operator, symbol.text.toList ≠ [c]
  seamBefore : Seam before (c :: after)
  seamAfter : Seam (before ++ [c]) after

/-! Where a text has seams and stray characters is decided by looking at it. -/

instance (before after : List Char) : Decidable (Unsplit before after) :=
  have : Decidable (∀ d ∈ after.head?, isWordChar d = false) :=
    Option.decidableForallMem _
  Option.decidableForallMem _

instance (before after : List Char) : Decidable (Uncovered before after) :=
  Option.decidableForallMem _

instance (before after : List Char) : Decidable (Seam before after) :=
  decidable_of_iff
    (Unsplit before after ∧
      (before.getLast? = some '-' → after.head? ≠ some '>') ∧
      (after.head? = some '|' → Even (barsBefore before)) ∧
      Uncovered before after)
    ⟨fun ⟨words, arrow, bars, comment⟩ => ⟨words, arrow, bars, comment⟩,
      fun ⟨words, arrow, bars, comment⟩ => ⟨words, arrow, bars, comment⟩⟩

instance (before : List Char) (c : Char) (after : List Char) :
    Decidable (Stray before c after) :=
  decidable_of_iff
    (isBlank c = false ∧ isWordChar c = false ∧ singleOperator? c = none ∧
      Seam before (c :: after) ∧ Seam (before ++ [c]) after)
    ⟨fun ⟨inked, odd, single, seamBefore, seamAfter⟩ =>
        ⟨inked, odd, singleOperator?_eq_none.mp single, seamBefore, seamAfter⟩,
      fun ⟨inked, odd, single, seamBefore, seamAfter⟩ =>
        ⟨inked, odd, singleOperator?_eq_none.mpr single, seamBefore,
          seamAfter⟩⟩

variable {before after s gap word rest : List Char} {kind : Kind}
  {tokens : List Token} {c : Char}

theorem seam_nil (after : List Char) : Seam [] after where
  words := nofun
  arrow := nofun
  bars _ := by simp [barsBefore]
  comment c _ _ h := by simpa [lineSoFar] using h.length_le

theorem Seam.congr (seam : Seam before after) (same : after.head? = s.head?) :
    Seam before s := by
  constructor
  · unfold Unsplit
    rw [← same]
    exact seam.words
  · rw [← same]
    exact seam.arrow
  · rw [← same]
    exact seam.bars
  · unfold Uncovered
    rw [← same]
    exact seam.comment

/-- Where a text goes on after a seam, it may as well end or start. -/
theorem Seam.extend (seam : Seam before s) (later : Seam (before ++ s) rest) :
    Seam before (s ++ rest) := by
  cases s with
  | nil => simpa using later
  | cons c s => exact seam.congr rfl

/-! ## Going past a character -/

theorem lineSoFar_append (before : List Char) (oneLine : '\n' ∉ word) :
    lineSoFar (before ++ word) = lineSoFar before ++ word := by
  have inside : ∀ c ∈ word.reverse, (c != '\n') = true := by
    intro c mem
    rw [bne_iff_ne]
    rintro rfl
    exact oneLine (List.mem_reverse.mp mem)
  rw [lineSoFar, List.rtakeWhile, List.reverse_append,
    List.takeWhile_append_of_pos inside, List.reverse_append,
    List.reverse_reverse]
  rfl

theorem lineSoFar_concat (before : List Char) (other : c ≠ '\n') :
    lineSoFar (before ++ [c]) = lineSoFar before ++ [c] :=
  lineSoFar_append before (by simpa using other.symm)

theorem lineSoFar_newline : lineSoFar (before ++ ['\n']) = [] :=
  List.rtakeWhile_concat_neg _ _ _ (by simp)

theorem barsBefore_bar (before : List Char) :
    barsBefore (before ++ ['|']) = barsBefore before + 1 := by
  rw [barsBefore, List.rtakeWhile_concat_pos _ _ _ (by simp),
    List.length_append]
  rfl

theorem barsBefore_other (before : List Char) (other : c ≠ '|') :
    barsBefore (before ++ [c]) = 0 := by
  rw [barsBefore, List.rtakeWhile_concat_neg _ _ _ (by simpa using other)]
  rfl

theorem slashes_concat {line : List Char} :
    ['/', '/'] <:+: line ++ [c] ↔
      (c = '/' ∧ line.getLast? = some '/') ∨ ['/', '/'] <:+: line := by
  rw [List.infix_concat_iff]
  refine or_congr_left ⟨?_, ?_⟩
  · rintro ⟨early, same⟩
    have whole : early ++ ['/'] ++ ['/'] = line ++ [c] := by simpa using same
    obtain ⟨rfl, last⟩ := List.append_inj' whole rfl
    exact ⟨(List.cons_eq_cons.mp last).1.symm, by simp⟩
  · rintro ⟨rfl, isLast⟩
    obtain ⟨early, rfl⟩ := List.getLast?_eq_some_iff.mp isLast
    exact ⟨early, by simp⟩

theorem Uncovered.next (clear : Uncovered before (c :: after))
    (slashes : c = '/' → after.head? ≠ some '/') :
    Uncovered (before ++ [c]) after := by
  intro d mem other covered
  by_cases newline : c = '\n'
  · rw [newline, lineSoFar_newline] at covered
    simpa using covered.length_le
  · rw [lineSoFar_concat _ newline, slashes_concat] at covered
    rcases covered with ⟨rfl, isLast⟩ | covered
    · have : c = '/' := by simpa using isLast
      exact slashes this (Option.mem_def.mp mem)
    · exact clear c rfl newline covered

theorem Uncovered.past (clear : Uncovered before (word ++ after))
    (slashless : '/' ∉ word) : Uncovered (before ++ word) after := by
  induction word generalizing before with
  | nil => simpa using clear
  | cons c word ih =>
      have other := List.ne_of_not_mem_cons slashless
      have next := clear.next fun slash => absurd slash.symm other
      simpa using ih next (List.not_mem_of_not_mem_cons slashless)

theorem Seam.next (seam : Seam before (c :: after))
    (words : isWordChar c = false) (arrow : c = '-' → after.head? ≠ some '>')
    (bars : c = '|' → after.head? ≠ some '|')
    (slashes : c = '/' → after.head? ≠ some '/') :
    Seam (before ++ [c]) after where
  words := unsplit_of_odd words before after
  arrow h := arrow (by simpa using h)
  bars h := by
    rw [barsBefore_other before fun bar => bars bar h]
    exact Even.zero
  comment := seam.comment.next slashes

/-! ## Going past gaps and words -/

theorem seam_newline (ends : ∀ c ∈ after.head?, c = '\n') (before : List Char) :
    Seam before after where
  words := by
    apply unsplit_of_ends
    intro c mem
    rw [ends c mem]
    decide
  arrow _ h := absurd (ends _ h) (by decide)
  bars h := absurd (ends _ h) (by decide)
  comment c mem other := absurd (ends c mem) other

theorem Gap.seam (skipped : Gap after gap) (seam : Seam before (gap ++ after)) :
    Seam (before ++ gap) after := by
  induction skipped generalizing before with
  | nil => simpa using seam
  | @blank c gap blank _ ih =>
      have next := seam.next (isWordChar_of_isBlank blank)
        (fun dash => absurd dash (ne_of_isBlank blank (by decide)))
        (fun bar => absurd bar (ne_of_isBlank blank (by decide)))
        (fun slash => absurd slash (ne_of_isBlank blank (by decide)))
      simpa using ih next
  | @comment remark gap oneLine ends _ ih =>
      have next := seam_newline ends (before ++ '/' :: '/' :: remark)
      simpa using ih next

theorem IsWord.extend (isWord : IsWord before after kind word)
    {earlier : List Char} (seam : Seam (earlier ++ word) rest) :
    IsWord before rest kind word := by
  have ends (run : WholeRun before word after) : WholeRun before word rest := by
    refine ⟨run.nonempty, run.wordy, run.starts, ?_⟩
    obtain ⟨init, c, rfl⟩ := (List.eq_nil_or_concat' word).resolve_left run.nonempty
    exact seam.words c (by simp) (run.wordy c (by simp))
  cases isWord with
  | operator symbol => exact .operator symbol
  | keyword keyword run => exact .keyword keyword (ends run)
  | name run free => exact .name (ends run) free
  | sign inked odd free => exact .sign inked odd free

theorem WholeRun.seam {earlier : List Char}
    (run : WholeRun earlier word after) (seam : Seam before (word ++ after)) :
    Seam (before ++ word) after := by
  have other {d : Char} (odd : isWordChar d = false) : d ∉ word := by
    intro mem
    rw [run.wordy d mem] at odd
    cases odd
  obtain ⟨init, c, rfl⟩ := (List.eq_nil_or_concat' word).resolve_left run.nonempty
  refine ⟨unsplit_of_ends run.ends _, fun dash => ?_, fun _ => ?_,
    seam.comment.past (other (by decide))⟩
  · have isLast : c = '-' := by simpa using dash
    exact absurd (by simp [isLast]) (other (d := '-') (by decide))
  · have notBar : c ≠ '|' := by
      rintro rfl
      exact absurd (by simp) (other (d := '|') (by decide))
    rw [← List.append_assoc, barsBefore_other _ notBar]
    exact Even.zero

theorem IsWord.seam {earlier : List Char}
    (isWord : IsWord earlier after kind word)
    (uncommented : ¬ ['/', '/'] <+: word ++ after)
    (whole : word.length = 1 →
      ¬ ['-', '>'] <+: word ++ after ∧ ¬ ['|', '|'] <+: word ++ after)
    (seam : Seam before (word ++ after)) : Seam (before ++ word) after := by
  have alone {c : Char} (same : word = [c]) (odd : isWordChar c = false) :
      Seam (before ++ [c]) after := by
    subst same
    obtain ⟨noArrow, noBars⟩ := whole rfl
    have follows {d e : Char} (apart : ¬ [d, e] <+: [c] ++ after)
        (here : c = d) : after.head? ≠ some e := by
      rintro head
      obtain ⟨more, rfl⟩ := List.head?_eq_some_iff.mp head
      exact apart (by simp [here])
    exact seam.next odd (follows noArrow) (follows noBars) (follows uncommented)
  have words := isWord.unsplit before
  cases isWord with
  | keyword keyword run => exact run.seam seam
  | name run free => exact run.seam seam
  | sign inked odd free => exact alone rfl odd
  | operator symbol =>
      cases symbol with
      | arrow =>
          refine ⟨words, fun dash => ?_, fun _ => ?_,
            seam.comment.past (by decide)⟩
          · simp [Operator.text] at dash
          · change Even (barsBefore (before ++ ['-', '>']))
            rw [List.append_cons, barsBefore_other _ (by decide)]
            exact Even.zero
      | bars =>
          refine ⟨words, fun dash => ?_, fun _ => ?_,
            seam.comment.past (by decide)⟩
          · simp [Operator.text] at dash
          · change Even (barsBefore (before ++ ['|', '|']))
            rw [List.append_cons, barsBefore_bar, barsBefore_bar, add_assoc]
            exact (seam.bars rfl).add ⟨1, rfl⟩
      | _ => exact alone rfl (by decide)

theorem IsWord.seams (isWord : IsWord (before ++ gap) after kind word)
    (skipped : Gap (word ++ after) gap)
    (uncommented : ¬ ['/', '/'] <+: word ++ after)
    (whole : word.length = 1 →
      ¬ ['-', '>'] <+: word ++ after ∧ ¬ ['|', '|'] <+: word ++ after)
    (start : Seam before (gap ++ word ++ after)) :
    Seam (before ++ gap) (word ++ after) ∧
      Seam (before ++ gap ++ word) after := by
  have atWord : Seam (before ++ gap) (word ++ after) :=
    skipped.seam (by simpa using start)
  exact ⟨atWord, isWord.seam uncommented whole atWord⟩

/-! ## Cutting at a seam -/

theorem Gap.extend (skipped : Gap after gap) (seam : Seam (before ++ gap) rest)
    (same : after = [] ∨ after.head? = rest.head?) : Gap rest gap := by
  induction skipped generalizing before with
  | nil => exact .nil
  | @blank c gap blank _ ih =>
      have inner : Seam (before ++ [c] ++ gap) rest := by simpa using seam
      exact .blank blank (ih inner)
  | @comment remark gap oneLine ends _ ih =>
      have inner : Seam (before ++ '/' :: '/' :: remark ++ gap) rest := by
        simpa using seam
      refine .comment oneLine (fun c mem => ?_) (ih inner)
      cases gap with
      | cons d gap => exact ends c mem
      | nil =>
          -- The comment has no end of its own, so it would cover the seam.
          rcases same with rfl | same
          · by_contra other
            apply seam.comment c mem other
            have unbroken : '\n' ∉ '/' :: '/' :: (remark ++ []) := by
              simpa using oneLine
            rw [lineSoFar_append before unbroken]
            exact ⟨lineSoFar before, remark ++ [c], by simp⟩
          · exact ends c (by simpa [same] using mem)

theorem Seam.whole (seam : Seam before (c :: after))
    (later : Seam (before ++ [c]) after) :
    ¬ ['/', '/'] <+: c :: after ∧ ¬ ['-', '>'] <+: c :: after ∧
      ¬ ['|', '|'] <+: c :: after := by
  refine ⟨?_, ?_, ?_⟩
  · rintro ⟨more, same⟩
    obtain ⟨rfl, rfl⟩ := List.cons_eq_cons.mp same
    apply later.comment '/' rfl (by decide)
    rw [lineSoFar_concat _ (by decide), slashes_concat]
    simp
  · rintro ⟨more, same⟩
    obtain ⟨rfl, rfl⟩ := List.cons_eq_cons.mp same
    exact later.arrow (by simp) rfl
  · rintro ⟨more, same⟩
    obtain ⟨rfl, rfl⟩ := List.cons_eq_cons.mp same
    have second := later.bars rfl
    rw [barsBefore_bar, Nat.even_add_one] at second
    exact second (seam.bars rfl)

/-- A word between seams is read there, whatever followed where it was cut. -/
theorem IsWord.scan_between (isWord : IsWord before after kind word)
    (uncommented : ¬ ['/', '/'] <+: word ++ after) {earlier : List Char}
    (atWord : Seam earlier (word ++ rest)) (past : Seam (earlier ++ word) rest)
    (line : Int) :
    scan line (word ++ rest) =
      ⟨kind, String.ofList word, line⟩ :: scan line rest := by
  -- Only a word of one character can be mistaken for the start of another.
  have alone {c : Char} (one : word = [c]) :
      ¬ ['/', '/'] <+: word ++ rest ∧ ¬ ['-', '>'] <+: word ++ rest ∧
        ¬ ['|', '|'] <+: word ++ rest := by
    subst one
    exact atWord.whole past
  have uncommented : ¬ ['/', '/'] <+: word ++ rest := by
    match word with
    | [] => exact absurd rfl isWord.ne_nil
    | [c] => exact (alone rfl).1
    | c :: d :: others => simpa using uncommented
  have whole (one : word.length = 1) :
      ¬ ['-', '>'] <+: word ++ rest ∧ ¬ ['|', '|'] <+: word ++ rest := by
    obtain ⟨c, one⟩ := List.length_eq_one_iff.mp one
    exact (alone one).2
  exact (isWord.extend past).scan_append uncommented whole line

/-- Up to a seam the lexer finds what it finds if the text ends there. -/
theorem Cuts.scan_append (cut : Cuts before s tokens) (start : Seam before s)
    (seam : Seam (before ++ s) rest) :
    scan (lineAfter before) (s ++ rest) =
      tokens ++ scan (lineAfter (before ++ s)) rest := by
  -- Seams are carried along from the start, and the last one is given.
  induction cut with
  | @last before gap skipped =>
      rw [(skipped.extend seam (.inl rfl)).scan_append, lineAfter_append,
        List.nil_append]
  | @next before gap word after kind tokens skipped isWord uncommented whole
      later ih =>
      obtain ⟨atWord, past⟩ := isWord.seams skipped uncommented whole start
      have seam : Seam (before ++ gap ++ word ++ after) rest := by
        simpa using seam
      have same : (word ++ after).head? = (word ++ (after ++ rest)).head? := by
        simp [List.head?_append_of_ne_nil _ isWord.ne_nil]
      have atWord := atWord.congr same
      have gapped := skipped.extend atWord (.inr same)
      have reads := isWord.scan_between uncommented atWord (past.extend seam)
      have here : lineAfter (before ++ gap ++ word) =
          lineAfter before + gap.count '\n' := by
        simp [lineAfter_append, isWord.count_newline]
      rw [List.append_assoc, List.append_assoc, gapped.scan_append, reads,
        ← here, ih past seam, here, ← lineAfter_append]
      simp

/-! ## Stray characters -/

theorem Stray.isWord (stray : Stray before c after) :
    IsWord before after .name [c] :=
  .sign stray.inked stray.odd stray.single

theorem Stray.scan_eq (stray : Stray before c after) (line : Int) :
    scan line (c :: after) =
      ⟨.name, String.ofList [c], line⟩ :: scan line after := by
  obtain ⟨uncommented, whole⟩ := stray.seamBefore.whole stray.seamAfter
  exact stray.isWord.scan_append uncommented (fun _ => whole) line

theorem Stray.scan_append (stray : Stray before c after) :
    scan 1 (before ++ c :: after) =
      scan 1 before ++ ⟨.name, String.ofList [c], lineAfter before⟩ ::
        scan (lineAfter before) after := by
  have cut : Cuts [] before (scan 1 before) := cuts_scan [] rfl nofun
  have whole := cut.scan_append (seam_nil before) stray.seamBefore
  rwa [List.nil_append, stray.scan_eq] at whole

/-- A name that is no word is a stray character. -/
theorem Cuts.exists_stray (cut : Cuts before s tokens) (start : Seam before s)
    {token : Token} (mem : token ∈ tokens) (isName : token.kind = .name)
    (broken : ¬ ∀ c ∈ token.text.toList, isWordChar c = true) :
    ∃ earlier c after, before ++ s = earlier ++ c :: after ∧
      Stray earlier c after ∧ token.text = String.ofList [c] ∧
      token.line = lineAfter earlier := by
  induction cut with
  | last skipped => cases mem
  | @next before gap word after kind tokens skipped isWord uncommented whole
      later ih =>
      obtain ⟨atWord, past⟩ := isWord.seams skipped uncommented whole start
      rcases List.mem_cons.mp mem with rfl | mem
      · obtain rfl : kind = .name := isName
        rw [String.toList_ofList] at broken
        cases isWord with
        | name run free => exact absurd run.wordy broken
        | sign inked odd single =>
            exact ⟨_, _, after, by simp,
              ⟨inked, odd, single, atWord, past⟩, rfl, rfl⟩
      · obtain ⟨earlier, c, after, same, found⟩ := ih past mem
        exact ⟨earlier, c, after, by simpa using same, found⟩

theorem exists_stray {text : String} {token : Token}
    (mem : token ∈ tokenise text) (isName : token.kind = .name)
    (broken : ¬ ∀ c ∈ token.text.toList, isWordChar c = true) :
    ∃ before c after, text.toList = before ++ c :: after ∧
      Stray before c after ∧ token.text = String.ofList [c] ∧
      token.line = lineAfter before := by
  rcases List.mem_append.mp mem with mem | isEnd
  · have cut : Cuts [] text.toList (scan 1 text.toList) :=
      cuts_scan [] rfl nofun
    exact cut.exists_stray (seam_nil _) mem isName broken
  · rw [List.mem_singleton.mp isEnd] at isName
    cases isName

end Secrecy.Token
