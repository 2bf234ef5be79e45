import Secrecy.Proofs.Token.Cutting

/-!
# Spacing tokens anew

The tokens of a text may have stood side by side, and some of them were cut
there from what would otherwise be an operator or open a comment.  With a blank
between any two of them each is read alone, so that its neighbours in the text
it comes from play no part.
-/

namespace Secrecy.Token

open Text

variable {before after rest word : List Char} {kind : Kind}

/-! ## Gaps that end themselves -/

inductive Spacing : List Char → Prop where
  | nil : Spacing []
  | blank {c : Char} {gap : List Char} (blank : isBlank c = true)
      (rest : Spacing gap) : Spacing (c :: gap)
  | comment {remark gap : List Char} (oneLine : '\n' ∉ remark)
      (rest : Spacing gap) : Spacing ('/' :: '/' :: (remark ++ '\n' :: gap))

theorem Spacing.isGap {gap : List Char} (spacing : Spacing gap)
    (after : List Char) : Gap after gap := by
  induction spacing with
  | nil => exact .nil
  | blank blank _ ih => exact .blank blank ih
  | comment oneLine _ ih =>
      have newline : isBlank '\n' = true := by decide
      exact .comment oneLine (by simp) (.blank newline ih)

theorem Spacing.shapes_append {gap : List Char} (spacing : Spacing gap)
    (rest : List Char) : shapes (gap ++ rest) = shapes rest := by
  rw [shapes, (spacing.isGap rest).scan_append]
  exact map_shape_scan _ _ rest

/-! ## Words in other texts -/

theorem parts_of_isBlank {c : Char} (blank : isBlank c = true) : Parts c :=
  ⟨isWordChar_of_isBlank blank, ne_of_isBlank blank (by decide),
    ne_of_isBlank blank (by decide), ne_of_isBlank blank (by decide)⟩

theorem IsWord.shapes_append (isWord : IsWord before after kind word)
    (apart : Apart rest) :
    shapes (word ++ rest) = (kind, String.ofList word) :: shapes rest := by
  cases isWord with
  | operator symbol => rw [shapes_operator, String.ofList_toList]
  | keyword keyword run =>
      rw [shapes_keyword keyword apart, String.ofList_toList]
  | name run free =>
      obtain ⟨c, others, rfl⟩ := List.exists_cons_of_ne_nil run.nonempty
      have inked := run.inked c List.mem_cons_self
      rw [shapes_word inked (List.all_eq_true.mpr run.wordy) apart,
        wordKind_of_free free]
  | sign inked odd free =>
      exact shapes_sign inked (singleOperator?_eq_none.mpr free) odd apart

theorem shapes_append_of_mem_scan {text : String} {token : Token}
    (mem : token ∈ scan 1 text.toList) (apart : Apart rest) :
    shapes (token.text.toList ++ rest) = token.shape :: shapes rest := by
  obtain ⟨before, word, after, found⟩ := exists_foundAt mem
  rw [found.spelt, String.toList_ofList, found.isWord.shapes_append apart,
    shape, found.spelt]

/-! ## Rows of words -/

/--
Gaps that part the words they follow: each begins with a blank, or is empty,
which only the last may be.
-/
structure Separators (gaps : List (List Char)) : Prop where
  spacing : ∀ gap ∈ gaps, Spacing gap
  loose : ∀ gap ∈ gaps, ∀ c ∈ gap.head?, isBlank c = true
  parted : ∀ gap ∈ gaps.dropLast, gap ≠ []

theorem Separators.of_cons {gap : List Char} {gaps : List (List Char)}
    (separators : Separators (gap :: gaps)) : Separators gaps where
  spacing other mem := separators.spacing other (List.mem_cons_of_mem _ mem)
  loose other mem := separators.loose other (List.mem_cons_of_mem _ mem)
  parted other mem := by
    cases gaps with
    | nil => cases mem
    | cons next gaps =>
        apply separators.parted other
        rw [List.dropLast_cons_cons]
        exact List.mem_cons_of_mem _ mem

def spread (tokens : List Token) (gaps : List (List Char)) : List Char :=
  (List.zipWith (fun token gap => token.text.toList ++ gap) tokens gaps).flatten

theorem Separators.apart {gap : List Char} {gaps : List (List Char)}
    {tokens : List Token} (separators : Separators (gap :: gaps)) :
    Apart (gap ++ spread tokens gaps) := by
  cases gap with
  | nil =>
      cases gaps with
      | nil =>
          rw [spread, List.zipWith_nil_right]
          exact apart_nil
      | cons next gaps =>
          exact absurd rfl (separators.parted [] List.mem_cons_self)
  | cons c gap =>
      exact apart_cons (parts_of_isBlank
        (separators.loose _ List.mem_cons_self c rfl))

theorem shapes_spread {tokens : List Token} {gaps : List (List Char)}
    (words : ∀ token ∈ tokens, ∀ rest, Apart rest →
      shapes (token.text.toList ++ rest) = token.shape :: shapes rest)
    (separators : Separators gaps) (enough : gaps.length = tokens.length) :
    shapes (spread tokens gaps) = tokens.map shape := by
  induction tokens generalizing gaps with
  | nil =>
      rw [spread, List.zipWith_nil_left]
      exact shapes_nil
  | cons token tokens ih =>
      obtain ⟨gap, gaps, rfl⟩ :=
        List.exists_cons_of_length_eq_add_one enough
      obtain ⟨word, words⟩ := List.forall_mem_cons.mp words
      have spacing := separators.spacing gap List.mem_cons_self
      have others := ih words separators.of_cons (by simpa using enough)
      calc shapes (spread (token :: tokens) (gap :: gaps))
          = shapes (token.text.toList ++ (gap ++ spread tokens gaps)) := by
            simp [spread]
        _ = token.shape :: shapes (gap ++ spread tokens gaps) :=
            word _ separators.apart
        _ = token.shape :: tokens.map shape := by
            rw [spacing.shapes_append, others]

def respaced (text : String) (first : List Char) (gaps : List (List Char)) :
    String :=
  String.ofList (first ++ spread (scan 1 text.toList) gaps)

/--
Whatever stood between the tokens of a text, they are read again from any text
that has them in the same order with separators in between.
-/
theorem tokenise_respaced {text : String} {first : List Char}
    {gaps : List (List Char)} (leading : Spacing first)
    (separators : Separators gaps)
    (enough : gaps.length + 1 = (tokenise text).length) :
    (tokenise (respaced text first gaps)).map shape =
      (tokenise text).map shape := by
  have words : ∀ token ∈ scan 1 text.toList, ∀ rest, Apart rest →
      shapes (token.text.toList ++ rest) = token.shape :: shapes rest :=
    fun _ mem _ apart => shapes_append_of_mem_scan mem apart
  have each : gaps.length = (scan 1 text.toList).length := by
    simpa [tokenise] using enough
  rw [map_shape_tokenise, map_shape_tokenise, respaced, String.toList_ofList,
    leading.shapes_append, shapes_spread words separators each]
  rfl

def crowdedText : String := "a-/|b||>->//->"

def crowdedLead : List Char := "//->\n".toList

def crowdedGaps : List (List Char) :=
  ["\n//-\n".toList, " ".toList, "\t//|\n".toList, " ".toList,
    " //\n//\n".toList, "\r".toList, " ".toList, []]

theorem tokenise_respaced_crowded :
    Spacing crowdedLead ∧ Separators crowdedGaps ∧
      crowdedGaps.length + 1 = (tokenise crowdedText).length ∧
      respaced crowdedText crowdedLead crowdedGaps =
        "//->\na\n//-\n- /\t//|\n| b //\n//\n||\r> ->" ∧
      (tokenise "//->\na\n//-\n- /\t//|\n| b //\n//\n||\r> ->").map shape =
        (tokenise crowdedText).map shape := by
  have leading : Spacing crowdedLead :=
    @Spacing.comment ['-', '>'] _ (by decide) .nil
  have loose : ∀ gap ∈ crowdedGaps, gap.head?.all isBlank = true := by decide
  have separators : Separators crowdedGaps := by
    refine ⟨?_, fun gap mem => Option.all_eq_true _ _ |>.mp (loose gap mem),
      by decide⟩
    simp only [crowdedGaps, List.forall_mem_cons]
    have line (remark : List Char) (oneLine : '\n' ∉ remark) :
        Spacing ('/' :: '/' :: (remark ++ ['\n'])) := .comment oneLine .nil
    exact ⟨.blank (by decide) (line ['-'] (by decide)),
      .blank (by decide) .nil, .blank (by decide) (line ['|'] (by decide)),
      .blank (by decide) .nil,
      .blank (by decide) (@Spacing.comment [] _ (by decide)
        (line [] (by decide))),
      .blank (by decide) .nil, .blank (by decide) .nil, .nil, by simp⟩
  have enough : crowdedGaps.length + 1 = (tokenise crowdedText).length := by
    decide +kernel
  have same : respaced crowdedText crowdedLead crowdedGaps =
      "//->\na\n//-\n- /\t//|\n| b //\n//\n||\r> ->" := by
    decide +kernel
  have again := tokenise_respaced leading separators enough
  rw [same] at again
  exact ⟨leading, separators, enough, same, again⟩

end Secrecy.Token
