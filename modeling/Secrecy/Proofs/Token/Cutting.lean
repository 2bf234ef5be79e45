import Secrecy.Proofs.Token.Lexing

/-!
# How a text is cut

A text is a row of words with gaps between them.  What may be a gap and what a
word is said here of a place in the text, by what stands before and after it,
and not by going through the text from one end to the other.  There is just one
way to cut a text like that, and its words are the tokens of the text.
-/

namespace Secrecy.Token

open Text

/-! ## Gaps and words -/

/-- Blanks and comments; a comment goes on to the end of its line. -/
inductive Gap (after : List Char) : List Char → Prop where
  | nil : Gap after []
  | blank {c : Char} {gap : List Char} (blank : isBlank c = true)
      (rest : Gap after gap) : Gap after (c :: gap)
  | comment {remark gap : List Char} (oneLine : '\n' ∉ remark)
      (ends : ∀ c ∈ (gap ++ after).head?, c = '\n')
      (rest : Gap after gap) : Gap after ('/' :: '/' :: (remark ++ gap))

/-- A run of word characters that goes on neither to the left nor to the right. -/
structure WholeRun (before word after : List Char) : Prop where
  nonempty : word ≠ []
  wordy : ∀ c ∈ word, isWordChar c = true
  starts : ∀ c ∈ before.getLast?, isWordChar c = false
  ends : ∀ c ∈ after.head?, isWordChar c = false

inductive IsWord (before after : List Char) : Kind → List Char → Prop where
  | operator (symbol : Operator) :
      IsWord before after (.operator symbol) symbol.text.toList
  | keyword (keyword : Keyword)
      (run : WholeRun before keyword.text.toList after) :
      IsWord before after (.keyword keyword) keyword.text.toList
  | name {word : List Char} (run : WholeRun before word after)
      (free : ∀ keyword : Keyword, keyword.text.toList ≠ word) :
      IsWord before after .name word
  | sign {c : Char} (inked : isBlank c = false) (odd : isWordChar c = false)
      (free : ∀ symbol : Operator, symbol.text.toList ≠ [c]) :
      IsWord before after .name [c]

def lineAfter (before : List Char) : Int := 1 + before.count '\n'

/--
What follows `before` is cut into words with gaps between them.  No word starts
where the text has a comment, and none of a single character where it has an
operator of two.
-/
inductive Cuts : List Char → List Char → List Token → Prop where
  | last {before gap : List Char} (skipped : Gap [] gap) : Cuts before gap []
  | next {before gap word after : List Char} {kind : Kind}
      {tokens : List Token} (skipped : Gap (word ++ after) gap)
      (isWord : IsWord (before ++ gap) after kind word)
      (uncommented : ¬ ['/', '/'] <+: word ++ after)
      (whole : word.length = 1 →
        ¬ ['-', '>'] <+: word ++ after ∧ ¬ ['|', '|'] <+: word ++ after)
      (rest : Cuts (before ++ gap ++ word) after tokens) :
      Cuts before (gap ++ word ++ after)
        (⟨kind, String.ofList word, lineAfter (before ++ gap)⟩ :: tokens)

variable {before after s gap word : List Char} {kind : Kind}
  {tokens : List Token} {c : Char}

/-! ## Skipping gaps -/

theorem skipComment_append (oneLine : '\n' ∉ word)
    (ends : ∀ c ∈ after.head?, c = '\n') :
    skipComment (word ++ after) = after := by
  have inside : ∀ c ∈ word, decide (c ≠ '\n') = true := by
    intro c mem
    rw [decide_eq_true_iff]
    rintro rfl
    exact oneLine mem
  rw [skipComment, List.dropWhile_append_of_pos inside]
  cases after with
  | nil => rfl
  | cons c after => simp [ends c rfl]

theorem Gap.scan_append (skipped : Gap after gap) (line : Int) :
    scan line (gap ++ after) = scan (line + gap.count '\n') after := by
  induction skipped generalizing line with
  | nil => simp
  | @blank c gap blank _ ih =>
      have counted :
          (c :: gap).count '\n' = [c].count '\n' + gap.count '\n' := by
        rw [← List.count_append]
        rfl
      rw [List.cons_append, scan_blank blank, ih, counted]
      congr 1
      omega
  | @comment remark gap oneLine ends _ ih =>
      have counted :
          ('/' :: '/' :: (remark ++ gap)).count '\n' = gap.count '\n' := by
        simp [List.count_append, List.count_eq_zero_of_not_mem oneLine]
      rw [List.cons_append, List.cons_append, List.append_assoc, scan,
        skipComment_append oneLine ends, ih, counted]

/-! ## Reading words -/

theorem wordKind_keyword (keyword : Keyword) :
    wordKind keyword.text.toList = .keyword keyword := by
  cases keyword <;> decide

theorem wordKind_of_free (free : ∀ keyword : Keyword, keyword.text.toList ≠ word) :
    wordKind word = .name := by
  have unlisted : Keyword.ofText? (String.ofList word) = none := by
    apply List.find?_eq_none.mpr
    intro keyword _ same
    apply free keyword
    rw [of_decide_eq_true same, String.toList_ofList]
  rw [wordKind, unlisted]

theorem WholeRun.isWord (run : WholeRun before word after) :
    IsWord before after (wordKind word) word := by
  by_cases free : ∀ keyword : Keyword, keyword.text.toList ≠ word
  · rw [wordKind_of_free free]
    exact .name run free
  · simp only [ne_eq, Classical.not_forall, Classical.not_not] at free
    obtain ⟨keyword, rfl⟩ := free
    rw [wordKind_keyword]
    exact .keyword keyword run

theorem singleOperator?_eq_some {symbol : Operator} :
    singleOperator? c = some symbol ↔ symbol.text.toList = [c] := by
  constructor
  · intro h
    unfold singleOperator? at h
    split at h <;> cases h <;> rfl
  · intro h
    cases symbol <;> simp [Operator.text] at h <;> subst h <;> rfl

theorem singleOperator?_eq_none :
    singleOperator? c = none ↔ ∀ symbol : Operator, symbol.text.toList ≠ [c] := by
  simp only [Option.eq_none_iff_forall_ne_some, ne_eq, singleOperator?_eq_some]

theorem WholeRun.inked (run : WholeRun before word after) :
    ∀ c ∈ word, isBlank c = false :=
  fun c mem => isBlank_of_isWordChar (run.wordy c mem)

theorem IsWord.inked (isWord : IsWord before after kind word) :
    ∀ c ∈ word, isBlank c = false := by
  cases isWord with
  | operator symbol => cases symbol <;> simp [Operator.text] <;> decide
  | keyword keyword run => exact run.inked
  | name run free => exact run.inked
  | sign inked odd free => simpa using inked

theorem IsWord.ne_nil (isWord : IsWord before after kind word) : word ≠ [] := by
  cases isWord with
  | operator symbol => cases symbol <;> decide
  | keyword keyword run => exact run.nonempty
  | name run free => exact run.nonempty
  | sign inked odd free => exact List.cons_ne_nil _ _

theorem IsWord.count_newline (isWord : IsWord before after kind word) :
    word.count '\n' = 0 := by
  apply List.count_eq_zero.mpr
  intro mem
  exact absurd (isWord.inked _ mem) (by decide)

theorem WholeRun.lexeme_eq {others : List Char}
    (run : WholeRun before (c :: others) after) :
    lexeme c (others ++ after) =
      ⟨wordKind (c :: others), c :: others, after⟩ :=
  lexeme_word run.wordy run.ends

theorem IsWord.lexeme_eq {others : List Char}
    (isWord : IsWord before after kind (c :: others))
    (whole : (c :: others).length = 1 →
      ¬ ['-', '>'] <+: c :: (others ++ after) ∧
        ¬ ['|', '|'] <+: c :: (others ++ after)) :
    lexeme c (others ++ after) = ⟨kind, c :: others, after⟩ := by
  generalize same : c :: others = word at isWord
  cases isWord with
  | operator symbol =>
      cases symbol <;> simp [Operator.text] at same <;>
        obtain ⟨rfl, rfl⟩ := same <;> rfl
  | keyword keyword run =>
      rw [← same] at run
      rw [run.lexeme_eq, same, wordKind_keyword]
  | name run free =>
      rw [← same] at run
      rw [run.lexeme_eq, same, wordKind_of_free free]
  | sign inked odd free =>
      obtain ⟨rfl, rfl⟩ := List.cons_eq_cons.mp same
      obtain ⟨noArrow, noBars⟩ := whole rfl
      have single := singleOperator?_eq_none.mpr free
      rw [Token.lexeme_eq single, odd]
      · rfl
      · rintro rfl head
        obtain ⟨rest, same⟩ := List.head?_eq_some_iff.mp head
        apply noArrow
        simp [same]
      · rintro rfl head
        obtain ⟨rest, same⟩ := List.head?_eq_some_iff.mp head
        apply noBars
        simp [same]

theorem IsWord.scan_append (isWord : IsWord before after kind word)
    (uncommented : ¬ ['/', '/'] <+: word ++ after)
    (whole : word.length = 1 →
      ¬ ['-', '>'] <+: word ++ after ∧ ¬ ['|', '|'] <+: word ++ after)
    (line : Int) :
    scan line (word ++ after) =
      ⟨kind, String.ofList word, line⟩ :: scan line after := by
  obtain ⟨c, others, rfl⟩ := List.exists_cons_of_ne_nil isWord.ne_nil
  have inked := isWord.inked c List.mem_cons_self
  have slashes : c = '/' → (others ++ after).head? ≠ some '/' := by
    rintro rfl head
    obtain ⟨more, same⟩ := List.head?_eq_some_iff.mp head
    apply uncommented
    simp [same]
  rw [List.cons_append, scan_lexeme inked slashes, isWord.lexeme_eq whole]

/-! ## There is no other way to cut -/

theorem lineAfter_append (before gap : List Char) :
    lineAfter (before ++ gap) = lineAfter before + gap.count '\n' := by
  simp [lineAfter, List.count_append]
  omega

/-- However a text is cut, its words are what the lexer finds. -/
theorem Cuts.eq_scan (cut : Cuts before s tokens) :
    tokens = scan (lineAfter before) s := by
  induction cut with
  | @last before gap skipped =>
      have nothing := skipped.scan_append (lineAfter before)
      rw [List.append_nil, scan] at nothing
      exact nothing.symm
  | @next before gap word after kind tokens skipped isWord uncommented whole
      rest ih =>
      have here : lineAfter (before ++ gap ++ word) =
          lineAfter before + gap.count '\n' := by
        simp [lineAfter_append, isWord.count_newline]
      rw [List.append_assoc, skipped.scan_append,
        isWord.scan_append uncommented whole, ih, here, lineAfter_append]

/-! ## There is a way to cut -/

theorem Cuts.skip (skipped : List Char)
    (widens : ∀ gap after : List Char, gap ++ after = s →
      Gap after gap → Gap after (skipped ++ gap))
    (cut : Cuts (before ++ skipped) s tokens) :
    Cuts before (skipped ++ s) tokens := by
  cases cut with
  | last gapped => exact .last (widens s [] (List.append_nil s) gapped)
  | @next _ gap word after kind tokens gapped isWord uncommented whole rest =>
      have gapped := widens gap (word ++ after) (by simp) gapped
      rw [List.append_assoc before skipped gap] at isWord rest ⊢
      rw [← List.append_assoc, ← List.append_assoc]
      exact .next gapped isWord uncommented whole rest

theorem Cuts.blank (blank : isBlank c = true)
    (cut : Cuts (before ++ [c]) s tokens) : Cuts before (c :: s) tokens := by
  apply Cuts.skip [c] _ cut
  intro gap after _ gapped
  exact .blank blank gapped

theorem Cuts.comment {remark : List Char} (oneLine : '\n' ∉ remark)
    (ends : ∀ c ∈ s.head?, c = '\n')
    (cut : Cuts (before ++ '/' :: '/' :: remark) s tokens) :
    Cuts before ('/' :: '/' :: (remark ++ s)) tokens := by
  apply Cuts.skip ('/' :: '/' :: remark) _ cut
  intro gap after same gapped
  exact .comment oneLine (same ▸ ends) gapped

def Unsplit (before after : List Char) : Prop :=
  ∀ c ∈ before.getLast?, isWordChar c = true →
    ∀ d ∈ after.head?, isWordChar d = false

theorem unsplit_of_odd (odd : isWordChar c = false) (before after : List Char) :
    Unsplit (before ++ [c]) after := by
  intro d mem wordy
  obtain rfl : c = d := by simpa using mem
  rw [odd] at wordy
  cases wordy

theorem unsplit_of_ends (ends : ∀ d ∈ after.head?, isWordChar d = false)
    (before : List Char) : Unsplit before after :=
  fun _ _ _ => ends

theorem IsWord.unsplit (isWord : IsWord before after kind word)
    (earlier : List Char) : Unsplit (earlier ++ word) after := by
  cases isWord with
  | operator symbol =>
      cases symbol with
      | arrow =>
          have odd : isWordChar '>' = false := by decide
          simpa [Operator.text] using
            unsplit_of_odd odd (earlier ++ ['-']) after
      | bars =>
          have odd : isWordChar '|' = false := by decide
          simpa [Operator.text] using
            unsplit_of_odd odd (earlier ++ ['|']) after
      | _ => exact unsplit_of_odd (by decide) earlier after
  | keyword keyword run => exact unsplit_of_ends run.ends _
  | name run free => exact unsplit_of_ends run.ends _
  | sign inked odd free => exact unsplit_of_odd odd earlier after

theorem isWord_lexeme {rest : List Char} (inked : isBlank c = false)
    (unsplit : Unsplit before (c :: rest)) :
    IsWord before (lexeme c rest).rest (lexeme c rest).kind
      (lexeme c rest).text := by
  unfold lexeme
  split
  · exact .operator .arrow
  · exact .operator .bars
  · split
    next symbol single =>
      rw [← singleOperator?_eq_some.mp single]
      exact .operator symbol
    next single =>
      split
      next wordy =>
        apply WholeRun.isWord
        constructor
        · exact List.cons_ne_nil _ _
        · rw [List.forall_mem_cons]
          exact ⟨wordy, List.all_eq_true.mp List.all_takeWhile⟩
        · intro d mem
          rw [← Bool.not_eq_true]
          intro isLast
          have := unsplit d mem isLast c rfl
          rw [wordy] at this
          cases this
        · intro d mem
          have stops := List.head?_dropWhile_not isWordChar rest
          rw [mem] at stops
          simpa using stops
      next odd =>
        exact .sign inked (by simpa using odd)
          (singleOperator?_eq_none.mp single)

theorem lexeme_whole {rest : List Char}
    (single : (lexeme c rest).text.length = 1) :
    ¬ ['-', '>'] <+: c :: rest ∧ ¬ ['|', '|'] <+: c :: rest := by
  constructor
  · rintro ⟨more, same⟩
    obtain ⟨rfl, rfl⟩ := List.cons_eq_cons.mp same
    exact absurd single (by simp [lexeme])
  · rintro ⟨more, same⟩
    obtain ⟨rfl, rfl⟩ := List.cons_eq_cons.mp same
    exact absurd single (by simp [lexeme])

/-- A comment is what stands between two slashes and the end of the line. -/
theorem exists_remark (rest : List Char) :
    ∃ remark, rest = remark ++ skipComment rest ∧ '\n' ∉ remark ∧
      ∀ c ∈ (skipComment rest).head?, c = '\n' := by
  refine ⟨rest.takeWhile (· ≠ '\n'), List.takeWhile_append_dropWhile.symm,
    fun mem => ?_, fun c mem => ?_⟩
  · have inside := List.all_eq_true.mp List.all_takeWhile _ mem
    simp at inside
  · have stops := List.head?_dropWhile_not (· ≠ '\n') rest
    rw [skipComment] at mem
    rw [mem] at stops
    simpa using stops

/-- The tokens that the lexer finds are a way to cut the text. -/
theorem cuts_scan (before : List Char) {line : Int}
    (here : lineAfter before = line) (unsplit : Unsplit before s) :
    Cuts before s (scan line s) := by
  fun_induction scan line s generalizing before with
  | case1 line => exact .last .nil
  | case2 line rest ih =>
      apply Cuts.blank (by decide)
      apply ih _ _ (unsplit_of_odd (by decide) before rest)
      simp [lineAfter_append, here]
  | case3 line rest ih =>
      obtain ⟨remark, whole, oneLine, ends⟩ := exists_remark rest
      have goesOn :
          Unsplit (before ++ '/' :: '/' :: remark) (skipComment rest) := by
        apply unsplit_of_ends
        intro d mem
        rw [ends d mem]
        decide
      have sameLine : lineAfter (before ++ '/' :: '/' :: remark) = line := by
        simp [lineAfter_append, List.count_eq_zero_of_not_mem oneLine, here]
      have skipped := (ih _ sameLine goesOn).comment oneLine ends
      rwa [← whole] at skipped
  | case4 line c rest newline uncommented blank ih =>
      have odd := isWordChar_of_isBlank blank
      have other : c ≠ '\n' := newline
      apply Cuts.blank blank
      apply ih _ _ (unsplit_of_odd odd before rest)
      simp [lineAfter_append, here, other]
  | case5 line c rest newline uncommented inked found ih =>
      have whole := lexeme_append c rest
      have isWord := isWord_lexeme (by simpa using inked) unsplit
      have sameLine : lineAfter (before ++ found.text) = line := by
        simp [lineAfter_append, found, isWord.count_newline, here]
      have cut := ih _ sameLine (isWord.unsplit before)
      have slashes : ¬ ['/', '/'] <+: c :: rest := by
        rintro ⟨more, same⟩
        obtain ⟨rfl, rfl⟩ := List.cons_eq_cons.mp same
        exact uncommented more rfl rfl
      have first : Cuts before ([] ++ found.text ++ found.rest)
          (⟨found.kind, String.ofList found.text, lineAfter (before ++ [])⟩ ::
            scan line found.rest) := by
        apply Cuts.next .nil
        · rwa [List.append_nil]
        · rwa [whole]
        · rw [whole]
          exact lexeme_whole
        · rwa [List.append_nil]
      rwa [List.nil_append, List.append_nil, whole, here] at first

/--
A text can be cut in just one way, and its tokens are the words of that one,
closed by the one end of input.
-/
theorem cuts_iff_tokenise (text : String) :
    ∃ tokens, tokenise text =
        tokens ++ [⟨.stop, "", 1 + text.toList.count '\n'⟩] ∧
      (∀ token ∈ tokens, token.kind ≠ .stop) ∧
      ∀ others, Cuts [] text.toList others ↔ others = tokens := by
  refine ⟨scan 1 text.toList, rfl, fun _ => kind_ne_stop_of_mem_scan,
    fun others => ⟨Cuts.eq_scan, ?_⟩⟩
  rintro rfl
  exact cuts_scan [] rfl nofun

/-! ## Where a token is found -/

structure FoundAt (token : Token) (text : String)
    (before word after : List Char) : Prop where
  whole : text.toList = before ++ word ++ after
  isWord : IsWord before after token.kind word
  spelt : token.text = String.ofList word
  line : token.line = lineAfter before

theorem Cuts.exists_word {token : Token} (cut : Cuts before s tokens)
    (mem : token ∈ tokens) :
    ∃ earlier word after, before ++ s = earlier ++ word ++ after ∧
      IsWord earlier after token.kind word ∧ token.text = String.ofList word ∧
      token.line = lineAfter earlier := by
  induction cut with
  | last skipped => cases mem
  | @next before gap word after kind tokens skipped isWord uncommented whole
      rest ih =>
      rcases List.mem_cons.mp mem with rfl | later
      · exact ⟨before ++ gap, word, after, by simp, isWord, rfl, rfl⟩
      · obtain ⟨earlier, word', after', same, found⟩ := ih later
        exact ⟨earlier, word', after', by rw [← same]; simp, found⟩

theorem exists_foundAt {text : String} {token : Token}
    (mem : token ∈ scan 1 text.toList) :
    ∃ before word after, token.FoundAt text before word after := by
  obtain ⟨before, word, after, whole, isWord, spelt, line⟩ :=
    (cuts_scan [] rfl nofun).exists_word mem
  exact ⟨before, word, after, whole, isWord, spelt, line⟩

end Secrecy.Token
