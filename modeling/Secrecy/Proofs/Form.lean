import Secrecy.Form

/-!
# Forms in print

A printed form can be told from what follows it.  A symbol ends at the first
space or parenthesis that no backslash stands before, and a list ends where its
parenthesis closes.  Only an empty list would pass for the list of an empty
symbol, so forms are told apart as long as no list in them is empty.
-/

namespace Secrecy.Form

/-- Items are one space apart, and in symbols reserved characters are escaped. -/
structure Printing (print : Form → String) : Prop where
  symbol (name : String) : print (.symbol name) = escaped name
  list (items : List Form) :
    print (.list items) =
      "(" ++ String.intercalate " " (items.map print) ++ ")"

theorem renderItems_eq_map (items : List Form) :
    renderItems items = items.map render := by
  induction items with
  | nil => rw [renderItems, List.map_nil]
  | cons item items ih => rw [renderItems, ih, List.map_cons]

theorem printing_render : Printing render where
  symbol name := by rw [render]
  list items := by rw [render, renderItems_eq_map]

/-- No list in the form is empty. -/
inductive Filled : Form → Prop where
  | symbol (name : String) : Filled (.symbol name)
  | list (first : Form) (others : List Form) (headFilled : Filled first)
      (othersFilled : ∀ item ∈ others, Filled item) :
      Filled (.list (first :: others))

/-! ## Symbols -/

def Ends (rest : List Char) : Prop := ∀ c ∈ rest.head?, c = ' ' ∨ c = ')'

theorem ends_nil : Ends [] := nofun

theorem ends_cons {c : Char} {rest : List Char} (ends : c = ' ' ∨ c = ')') :
    Ends (c :: rest) := by
  simpa [Ends] using ends

variable {r r' s : List Char} {c d : Char}

theorem escapedChar_append_inj (same : escapedChar c ++ r = escapedChar d ++ r') :
    c = d ∧ r = r' := by
  unfold escapedChar at same
  split at same <;> split at same
  · simpa using same
  · next plain =>
      simp only [List.cons_append, List.cons.injEq] at same
      exact absurd (show d ∈ reserved by simp [← same.1, reserved]) plain
  · next plain _ =>
      simp only [List.cons_append, List.cons.injEq] at same
      exact absurd (show c ∈ reserved by simp [same.1, reserved]) plain
  · simpa using same

theorem head?_escapedChar (c : Char) (rest : List Char) :
    ∀ d ∈ (escapedChar c ++ rest).head?, d ≠ ' ' ∧ d ≠ ')' ∧ d ≠ '(' := by
  unfold escapedChar
  split
  · simp
  · next plain =>
      intro d first
      obtain rfl : c = d := by simpa using first
      simp only [reserved, List.mem_cons, not_or] at plain
      simp [plain]

theorem not_ends_escapedChar (c : Char) (rest : List Char) :
    ¬ Ends (escapedChar c ++ rest) := by
  intro ends
  obtain ⟨d, others, split⟩ : ∃ d others, escapedChar c ++ rest = d :: others := by
    unfold escapedChar
    split <;> simp
  have first : d ∈ (escapedChar c ++ rest).head? := by simp [split]
  have looks := head?_escapedChar c rest d first
  rcases ends d first with same | same
  · exact looks.1 same
  · exact looks.2.1 same

theorem escaped_append_inj {name name' : List Char} (ends : Ends r)
    (ends' : Ends r')
    (same : name.flatMap escapedChar ++ r = name'.flatMap escapedChar ++ r') :
    name = name' ∧ r = r' := by
  induction name generalizing name' with
  | nil =>
      cases name' with
      | nil => simpa using same
      | cons d name' =>
          rw [List.flatMap_nil, List.nil_append] at same
          rw [same, List.flatMap_cons, List.append_assoc] at ends
          exact absurd ends (not_ends_escapedChar d _)
  | cons c name ih =>
      cases name' with
      | nil =>
          rw [List.flatMap_nil, List.nil_append] at same
          rw [← same, List.flatMap_cons, List.append_assoc] at ends'
          exact absurd ends' (not_ends_escapedChar c _)
      | cons d name' =>
          simp only [List.flatMap_cons, List.append_assoc] at same
          have first := escapedChar_append_inj same
          have rest := ih first.2
          exact ⟨by rw [first.1, rest.1], rest.2⟩

/-! ## Lists -/

section Printing

variable {print : Form → String} (printing : Printing print)
include printing

theorem Printing.toList_symbol (name : String) :
    (print (.symbol name)).toList = name.toList.flatMap escapedChar := by
  rw [printing.symbol, escaped, String.toList_ofList]

def following (print : Form → String) (items : List Form) (rest : List Char) :
    List Char :=
  items.flatMap (fun item => ' ' :: (print item).toList) ++ ')' :: rest

omit printing in
theorem ends_following (items : List Form) (rest : List Char) :
    Ends (following print items rest) := by
  cases items with
  | nil => exact ends_cons (.inr rfl)
  | cons item items => exact ends_cons (.inl rfl)

theorem Printing.toList_list (first : Form) (others : List Form)
    (rest : List Char) :
    (print (.list (first :: others))).toList ++ rest =
      '(' :: ((print first).toList ++ following print others rest) := by
  have joined : (String.intercalate " " ((first :: others).map print)).toList =
      (print first).toList ++
        others.flatMap fun item => ' ' :: (print item).toList := by
    induction others generalizing first with
    | nil => simp
    | cons second others ih =>
        rw [List.map_cons, List.map_cons, String.intercalate_cons_cons,
          String.toList_append, ← List.map_cons, ih]
        simp
  rw [printing.list, String.toList_append, String.toList_append, joined]
  simp [following]

/-- A form that is told from other forms, whatever follows them. -/
def Told (print : Form → String) (form : Form) : Prop :=
  ∀ other r r', Filled other → Ends r → Ends r' →
    (print form).toList ++ r = (print other).toList ++ r' →
      form = other ∧ r = r'

omit printing in
theorem following_inj {items items' : List Form}
    (told : ∀ item ∈ items, Told print item)
    (filled : ∀ item ∈ items', Filled item)
    (same : following print items r = following print items' r') :
    items = items' ∧ r = r' := by
  induction items generalizing items' with
  | nil =>
      cases items' with
      | nil => simpa [following] using same
      | cons item items' => simp [following] at same
  | cons item items ih =>
      cases items' with
      | nil => simp [following] at same
      | cons item' items' =>
          rw [List.forall_mem_cons] at told filled
          have unfolded (first : Form) (others : List Form) (rest : List Char) :
              following print (first :: others) rest =
                ' ' :: ((print first).toList ++
                  following print others rest) := by
            simp [following]
          rw [unfolded, unfolded, List.cons.injEq] at same
          have first := told.1 item' _ _ filled.1 (ends_following items r)
            (ends_following items' r') same.2
          have rest := ih told.2 filled.2 first.2
          exact ⟨by rw [first.1, rest.1], rest.2⟩

theorem Printing.symbol_ne_list {name : String} {first : Form}
    {others : List Form} (ends : Ends r) :
    (print (.symbol name)).toList ++ r ≠
      (print (.list (first :: others))).toList ++ r' := by
  intro same
  rw [printing.toList_symbol, printing.toList_list] at same
  cases spelt : name.toList with
  | nil =>
      rw [spelt, List.flatMap_nil, List.nil_append] at same
      rw [same] at ends
      simp [Ends] at ends
  | cons c others =>
      rw [spelt, List.flatMap_cons, List.append_assoc] at same
      have looks := head?_escapedChar c _ '(' (by rw [same]; rfl)
      exact looks.2.2 rfl

theorem Filled.told {form : Form} (filled : Filled form) :
    Told print form := by
  induction filled with
  | symbol name =>
      intro other r r' filled' ends ends' same
      cases filled' with
      | symbol name' =>
          rw [printing.toList_symbol, printing.toList_symbol] at same
          have parts := escaped_append_inj ends ends' same
          exact ⟨by rw [String.toList_injective parts.1], parts.2⟩
      | list => exact absurd same (printing.symbol_ne_list ends)
  | list first others _ _ ihFirst ihOthers =>
      intro other r r' filled' ends ends' same
      cases filled' with
      | symbol name => exact absurd same.symm (printing.symbol_ne_list ends')
      | list first' others' filledFirst filledOthers =>
          rw [printing.toList_list, printing.toList_list,
            List.cons.injEq] at same
          have head := ihFirst first' _ _ filledFirst
            (ends_following others r) (ends_following others' r') same.2
          have rest := following_inj ihOthers filledOthers head.2
          exact ⟨by rw [head.1, rest.1], rest.2⟩

theorem Filled.print_inj {form form' : Form} (filled : Filled form)
    (filled' : Filled form') (same : print form = print form') :
    form = form' :=
  (filled.told printing form' [] [] filled' ends_nil ends_nil
    (by rw [same])).1

end Printing

end Secrecy.Form
