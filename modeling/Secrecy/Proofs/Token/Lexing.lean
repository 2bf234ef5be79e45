import Secrecy.Token.Lexer

/-!
# What a text shows

Apart from their lines, the tokens of a text depend on the text alone: blanks
show nothing, an operator shows wherever it stands, and a name or a keyword
shows if what follows cannot prolong it.
-/

namespace Secrecy.Token

open Text

/-- A token but for its line. -/
def shape (token : Token) : Kind × String := (token.kind, token.text)

def shapes (s : List Char) : List (Kind × String) := (scan 1 s).map shape

theorem map_shape_scan (line line' : Int) (s : List Char) :
    (scan line s).map shape = (scan line' s).map shape := by
  fun_induction scan line s generalizing line' with
  | case1 => rw [scan]
  | case2 line rest ih =>
      rw [scan]
      exact ih (line' + 1)
  | case3 line rest ih =>
      rw [scan]
      exact ih line'
  | case4 line c rest other uncommented blank ih =>
      rw [scan.eq_4 _ _ _ other uncommented, if_pos blank]
      exact ih line'
  | case5 line c rest other uncommented inked found ih =>
      rw [scan.eq_4 _ _ _ other uncommented, if_neg inked]
      simp only [List.map_cons, ih line']
      rfl

theorem map_shape_tokenise (text : String) :
    (tokenise text).map shape = shapes text.toList ++ [(.stop, "")] := by
  simp [tokenise, shapes, endOfInput, shape]

theorem shapes_nil : shapes [] = [] := by
  simp [shapes, scan]

theorem isBlank_of_isWordChar {c : Char} (wordy : isWordChar c = true) :
    isBlank c = false := by
  have apart : (blankRanges.all fun blank => letterOrNumberRanges.all fun word =>
      blank.2 < word.1 || word.2 < blank.1) = true := by decide +kernel
  simp only [List.all_eq_true, Bool.or_eq_true, decide_eq_true_eq] at apart
  rw [isWordChar, Bool.or_eq_true, decide_eq_true_iff] at wordy
  rcases wordy with rfl | wordy
  · decide
  · rw [← Bool.not_eq_true]
    intro blank
    obtain ⟨range, mem, within⟩ := exists_range_of_inRanges blank
    obtain ⟨range', mem', within'⟩ := exists_range_of_inRanges wordy
    have := apart range mem range' mem'
    omega

theorem isWordChar_of_isBlank {c : Char} (blank : isBlank c = true) :
    isWordChar c = false := by
  rw [← Bool.not_eq_true]
  intro wordy
  rw [isBlank_of_isWordChar wordy] at blank
  cases blank

theorem ne_of_isBlank {c d : Char} (blank : isBlank c = true)
    (inked : isBlank d = false) : c ≠ d := by
  rintro rfl
  rw [blank] at inked
  cases inked

theorem scan_blank {c : Char} (blank : isBlank c = true) (line : Int)
    (rest : List Char) :
    scan line (c :: rest) = scan (line + [c].count '\n') rest := by
  by_cases newline : c = '\n'
  · subst newline
    rw [scan]
    rfl
  · have uncommented (others : List Char) (slash : c = '/') : False := by
      subst slash
      revert blank
      decide
    rw [scan.eq_4 _ _ _ newline fun others slash _ => uncommented others slash,
      if_pos blank]
    simp [newline]

theorem shapes_blank {c : Char} (blank : isBlank c = true) (rest : List Char) :
    shapes (c :: rest) = shapes rest := by
  rw [shapes, scan_blank blank]
  exact map_shape_scan _ _ rest

/-- A comment is opened by two slashes and by nothing else. -/
theorem scan_lexeme {c : Char} {rest : List Char} (inked : isBlank c = false)
    (uncommented : c = '/' → rest.head? ≠ some '/') (line : Int) :
    scan line (c :: rest) =
      ⟨(lexeme c rest).kind, String.ofList (lexeme c rest).text, line⟩ ::
        scan line (lexeme c rest).rest := by
  have newline : c = '\n' → False := by
    rintro rfl
    revert inked
    decide
  have slashes (others : List Char) (slash : c = '/')
      (more : rest = '/' :: others) : False :=
    uncommented slash (by rw [more]; rfl)
  rw [scan.eq_4 _ _ _ newline slashes, if_neg (by simp [inked])]

theorem shapes_lexeme {c : Char} {rest : List Char}
    (inked : isBlank c = false)
    (uncommented : c = '/' → rest.head? ≠ some '/') :
    shapes (c :: rest) =
      ((lexeme c rest).kind, String.ofList (lexeme c rest).text) ::
        shapes (lexeme c rest).rest := by
  rw [shapes, scan_lexeme inked uncommented]
  rfl

/-! ## Operators -/

theorem shapes_arrow (rest : List Char) :
    shapes ('-' :: '>' :: rest) = (.operator .arrow, "->") :: shapes rest := by
  rw [shapes_lexeme (by decide) (by simp)]
  rfl

theorem shapes_bars (rest : List Char) :
    shapes ('|' :: '|' :: rest) = (.operator .bars, "||") :: shapes rest := by
  rw [shapes_lexeme (by decide) (by simp)]
  rfl

theorem shapes_single {c : Char} {symbol : Operator}
    (single : singleOperator? c = some symbol) (rest : List Char) :
    shapes (c :: rest) = (.operator symbol, symbol.text) :: shapes rest := by
  unfold singleOperator? at single
  split at single <;> cases single
  all_goals
    rw [shapes_lexeme (by decide) (by simp)]
    rfl

theorem shapes_operator (symbol : Operator) (rest : List Char) :
    shapes (symbol.text.toList ++ rest) =
      (.operator symbol, symbol.text) :: shapes rest := by
  cases symbol with
  | arrow => exact shapes_arrow rest
  | bars => exact shapes_bars rest
  | _ => exact shapes_single rfl rest

/-! ## Words and signs -/

/-- What cannot prolong a name that it follows, nor turn it into an operator. -/
def Parts (c : Char) : Prop :=
  isWordChar c = false ∧ c ≠ '>' ∧ c ≠ '|' ∧ c ≠ '/'

instance (c : Char) : Decidable (Parts c) :=
  inferInstanceAs (Decidable (_ ∧ _ ∧ _ ∧ _))

def Apart (rest : List Char) : Prop := ∀ c ∈ rest.head?, Parts c

theorem apart_nil : Apart [] := nofun

theorem apart_cons {c : Char} {rest : List Char} (parts : Parts c) :
    Apart (c :: rest) := by
  intro d mem
  obtain rfl : c = d := by simpa using mem
  exact parts

theorem lexeme_eq {c : Char} {rest : List Char}
    (single : singleOperator? c = none)
    (notArrow : c = '-' → rest.head? ≠ some '>')
    (notBars : c = '|' → rest.head? ≠ some '|') :
    lexeme c rest =
      if isWordChar c then
        ⟨wordKind (c :: rest.takeWhile isWordChar),
          c :: rest.takeWhile isWordChar, rest.dropWhile isWordChar⟩
      else ⟨.name, [c], rest⟩ := by
  unfold lexeme
  split
  · exact absurd rfl (notArrow rfl)
  · exact absurd rfl (notBars rfl)
  · rw [single]

theorem singleOperator?_of_isWordChar {c : Char} (wordy : isWordChar c = true) :
    singleOperator? c = none := by
  unfold singleOperator?
  split
  case h_6 => rfl
  all_goals
    revert wordy
    decide

theorem lexeme_word {c : Char} {word rest : List Char}
    (wordy : ∀ d ∈ c :: word, isWordChar d = true)
    (ends : ∀ d ∈ rest.head?, isWordChar d = false) :
    lexeme c (word ++ rest) = ⟨wordKind (c :: word), c :: word, rest⟩ := by
  obtain ⟨first, others⟩ := List.forall_mem_cons.mp wordy
  have stops : rest.takeWhile isWordChar = [] ∧
      rest.dropWhile isWordChar = rest := by
    cases rest with
    | nil => exact ⟨rfl, rfl⟩
    | cons d rest => simp [ends d rfl]
  have differs {d : Char} (parts : isWordChar d = false) : c ≠ d := by
    rintro rfl
    rw [first] at parts
    cases parts
  rw [lexeme_eq (singleOperator?_of_isWordChar first)
      (fun same => absurd same (differs (by decide)))
      (fun same => absurd same (differs (by decide))),
    if_pos first, List.takeWhile_append_of_pos others,
    List.dropWhile_append_of_pos others, stops.1, stops.2, List.append_nil]

theorem shapes_word {c : Char} {word rest : List Char}
    (inked : isBlank c = false) (wordy : (c :: word).all isWordChar = true)
    (apart : Apart rest) :
    shapes (c :: word ++ rest) =
      (wordKind (c :: word), String.ofList (c :: word)) :: shapes rest := by
  have each := List.all_eq_true.mp wordy
  have found := lexeme_word each fun d mem => (apart d mem).1
  have uncommented (slash : c = '/') : (word ++ rest).head? ≠ some '/' := by
    subst slash
    exact absurd (each _ List.mem_cons_self) (by decide)
  rw [List.cons_append, shapes_lexeme inked uncommented, found]

theorem shapes_sign {c : Char} {rest : List Char} (inked : isBlank c = false)
    (single : singleOperator? c = none) (odd : isWordChar c = false)
    (apart : Apart rest) :
    shapes (c :: rest) = (.name, String.ofList [c]) :: shapes rest := by
  have follows {d : Char} (parts : ¬ Parts d) : rest.head? ≠ some d := by
    intro head
    exact parts (apart d head)
  have noArrow : rest.head? ≠ some '>' := follows fun parts => parts.2.1 rfl
  have noBars : rest.head? ≠ some '|' := follows fun parts => parts.2.2.1 rfl
  have noSlash : rest.head? ≠ some '/' := follows fun parts => parts.2.2.2 rfl
  have found : lexeme c rest = ⟨.name, [c], rest⟩ := by
    rw [lexeme_eq single (fun _ => noArrow) (fun _ => noBars), odd]
    rfl
  rw [shapes_lexeme inked (fun _ => noSlash), found]

/-! ## Keywords and names -/

theorem shapes_keyword (word : Keyword) {rest : List Char}
    (apart : Apart rest) :
    shapes (word.text.toList ++ rest) =
      (.keyword word, word.text) :: shapes rest := by
  have kind : wordKind word.text.toList = .keyword word := by
    cases word <;> decide
  have inked : ∃ c others, word.text.toList = c :: others ∧
      isBlank c = false ∧ (c :: others).all isWordChar = true := by
    cases word <;> exact ⟨_, _, rfl, by decide, by decide⟩
  obtain ⟨c, others, spelt, inked, wordy⟩ := inked
  rw [spelt, shapes_word inked wordy apart, ← spelt, kind,
    String.ofList_toList]

inductive NameText : List Char → Prop where
  | word {c : Char} {others : List Char} (inked : isBlank c = false)
      (wordy : (c :: others).all isWordChar = true)
      (free : wordKind (c :: others) = .name) : NameText (c :: others)
  | sign {c : Char} (inked : isBlank c = false)
      (single : singleOperator? c = none) (odd : isWordChar c = false) :
      NameText [c]

theorem nameText_cons {c : Char} {others : List Char} :
    NameText (c :: others) ↔ isBlank c = false ∧
      ((c :: others).all isWordChar = true ∧ wordKind (c :: others) = .name ∨
        others = [] ∧ singleOperator? c = none ∧ isWordChar c = false) := by
  constructor
  · intro spelt
    cases spelt with
    | word inked wordy free => exact ⟨inked, .inl ⟨wordy, free⟩⟩
    | sign inked single odd => exact ⟨inked, .inr ⟨rfl, single, odd⟩⟩
  · rintro ⟨inked, ⟨wordy, free⟩ | ⟨rfl, single, odd⟩⟩
    · exact .word inked wordy free
    · exact .sign inked single odd

theorem NameText.inked {name : List Char} (spelt : NameText name) :
    ∀ c ∈ name, isBlank c = false := by
  cases spelt with
  | word _ wordy _ =>
      intro c mem
      exact isBlank_of_isWordChar (List.all_eq_true.mp wordy c mem)
  | sign inked => simpa using inked

instance : DecidablePred NameText
  | [] => isFalse nofun
  | _ :: _ => decidable_of_iff _ nameText_cons.symm

theorem shapes_name {name rest : List Char} (spelt : NameText name)
    (apart : Apart rest) :
    shapes (name ++ rest) = (.name, String.ofList name) :: shapes rest := by
  cases spelt with
  | word inked wordy free => rw [shapes_word inked wordy apart, free]
  | sign inked single odd => exact shapes_sign inked single odd apart

theorem nameText_of_lexeme {c : Char} {rest : List Char}
    (inked : isBlank c = false) :
    (lexeme c rest).kind = .name → NameText (lexeme c rest).text := by
  unfold lexeme
  split
  · nofun
  · nofun
  · split
    · nofun
    next single =>
      split
      next wordy =>
        intro free
        refine .word inked ?_ free
        rw [List.all_cons, wordy, List.all_takeWhile]
        rfl
      next odd =>
        intro _
        exact .sign inked single (by simpa using odd)

theorem nameText_of_mem_scan {line : Int} {s : List Char} {token : Token}
    (mem : token ∈ scan line s) (name : token.kind = .name) :
    NameText token.text.toList := by
  fun_induction scan line s with
  | case1 => simp at mem
  | case2 line rest ih => exact ih mem
  | case3 line rest ih => exact ih mem
  | case4 line c rest _ _ _ ih => exact ih mem
  | case5 line c rest _ _ inked found ih =>
      rcases List.mem_cons.mp mem with rfl | later
      · rw [String.toList_ofList]
        exact nameText_of_lexeme (by simpa using inked) name
      · exact ih later

end Secrecy.Token
