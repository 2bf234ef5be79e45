import Mathlib.Algebra.Group.Nat.Defs
import Secrecy.Json
import Secrecy.Proofs.Text.Lines
import Secrecy.Proofs.Text.Scanning

/-!
# Reading JSON

A text is read in two passes: into marks, words and strings, and from these into
a document, with what is still open on a stack.  What is written of a document,
on one line or with an indent, is read as this document.
-/

namespace Secrecy.Json

open Text

/-! ## Lexemes -/

inductive Lexeme where
  | mark (c : Char)
  | word (letters : List Char)
  | string (text : String)
  deriving DecidableEq, Repr

inductive Pending where
  | gap
  | word (letters : List Char)
  | string (read : List Char)
  | escape (read : List Char)
  | unit (read : List Char) (high : Option Nat) (digits value : Nat)
  | high (read : List Char) (high : Nat)
  | highEscape (read : List Char) (high : Nat)
  deriving DecidableEq, Repr

def isWordChar (c : Char) : Bool := c.isAlphanum || c = '-'

def marks : List Char := ['\x7b', '\x7d', '[', ']', ':', ',']

def opens (c : Char) : Option (List Lexeme × Pending) :=
  if isWordChar c then some ([], .word [c])
  else if c = ' ' ∨ c = '\n' then some ([], .gap)
  else if c = '\x22' then some ([], .string [])
  else if c ∈ marks then some ([.mark c], .gap)
  else none

def escapes : List (Char × Char) :=
  [('\x22', '\x22'), ('\\', '\\'), ('/', '/'), ('n', '\n'), ('r', '\r'),
    ('t', '\t'), ('b', '\x08'), ('f', '\x0c')]

def hexDigit? (c : Char) : Option Nat :=
  ((List.range 16).find? fun digit => Nat.digitChar digit = c)

/-- Two units stand for one character past the first plane. -/
def completed (read : List Char) : Option Nat → Nat → Option Pending
  | none, unit =>
      if 0xD800 ≤ unit ∧ unit < 0xDC00 then some (.high read unit)
      else if 0xDC00 ≤ unit ∧ unit < 0xE000 then none
      else some (.string (read ++ [Char.ofNat unit]))
  | some high, unit =>
      if 0xDC00 ≤ unit ∧ unit < 0xE000 then
        some (.string (read ++
          [Char.ofNat (0x10000 + (high - 0xD800) * 0x400 + (unit - 0xDC00))]))
      else none

def lexer : Scanner Pending Lexeme
  | .gap, c => opens c
  | .word letters, c =>
      if isWordChar c then some ([], .word (letters ++ [c]))
      else
        (opens c).map fun (found, pending) => (.word letters :: found, pending)
  | .string read, c =>
      if c = '\x22' then some ([.string (String.ofList read)], .gap)
      else if c = '\\' then some ([], .escape read)
      else if c.toNat < 0x20 then none
      else some ([], .string (read ++ [c]))
  | .escape read, c =>
      if c = 'u' then some ([], .unit read none 0 0)
      else (escapes.lookup c).map fun d => ([], .string (read ++ [d]))
  | .unit read high digits value, c => do
      let value := value * 16 + (← hexDigit? c)
      if digits < 3 then return ([], .unit read high (digits + 1) value)
      else return ([], ← completed read high value)
  | .high read high, c =>
      if c = '\\' then some ([], .highEscape read high) else none
  | .highEscape read high, c =>
      if c = 'u' then some ([], .unit read (some high) 0 0) else none

/-- The blank after a text ends its last word. -/
def lexemes? (text : String) : Option (List Lexeme) :=
  match lexer.scan .gap (text.toList ++ [' ']) with
  | some (found, .gap) => some found
  | _ => none

/-! ## Documents -/

inductive Frame where
  | items (before : List Json)
  | member (before : List (String × Json)) (name : String)

inductive Stage where
  | value (frames : List Frame)
  | name (before : List (String × Json)) (frames : List Frame)
  | colon (before : List (String × Json)) (name : String) (frames : List Frame)
  | done (document : Json) (frames : List Frame)

def ofDigits? (digits : List Char) : Option Nat :=
  if digits ≠ [] ∧ digits.all Char.isDigit then
    some (Nat.ofDigitChars 10 digits 0)
  else none

def ofInteger? : List Char → Option Int
  | '-' :: digits => (ofDigits? digits).map fun n => -(n : Int)
  | digits => (ofDigits? digits).map Int.ofNat

def ofWord? (letters : List Char) : Option Json :=
  match ofInteger? letters with
  | some value => some (.int value)
  | none =>
      [("null".toList, Json.null), ("true".toList, .bool true),
        ("false".toList, .bool false)].lookup letters

/-- Nothing but a value may follow a comma in an array, or a name in an object. -/
def advance : Stage → Lexeme → Option Stage
  | .value frames, .string text => some (.done (.str text) frames)
  | .value frames, .word letters => (ofWord? letters).map (.done · frames)
  | .value frames, .mark '[' => some (.value (.items [] :: frames))
  | .value (.items [] :: frames), .mark ']' => some (.done (.arr []) frames)
  | .value frames, .mark '\x7b' => some (.name [] frames)
  | .name before frames, .string name => some (.colon before name frames)
  | .name [] frames, .mark '\x7d' => some (.done (.obj []) frames)
  | .colon before name frames, .mark ':' =>
      some (.value (.member before name :: frames))
  | .done item (.items before :: frames), .mark ',' =>
      some (.value (.items (before ++ [item]) :: frames))
  | .done item (.items before :: frames), .mark ']' =>
      some (.done (.arr (before ++ [item])) frames)
  | .done value (.member before name :: frames), .mark ',' =>
      some (.name (before ++ [(name, value)]) frames)
  | .done value (.member before name :: frames), .mark '\x7d' =>
      some (.done (.obj (before ++ [(name, value)])) frames)
  | _, _ => none

theorem hexDigit?_digitChar {digit : Nat} (h : digit < 16) :
    hexDigit? (Nat.digitChar digit) = some digit := by
  have each : ∀ digit < 16, hexDigit? (Nat.digitChar digit) = some digit := by
    decide
  exact each digit h

theorem scan_digitChar (read : List Char) (high : Option Nat)
    (digits value : Nat) {digit : Nat} (h : digit < 16) :
    lexer.scan (.unit read high digits value) [Nat.digitChar digit] =
      if digits < 3 then
        some ([], .unit read high (digits + 1) (value * 16 + digit))
      else (completed read high (value * 16 + digit)).map ([], ·) := by
  rw [Scanner.scan_singleton, lexer, hexDigit?_digitChar h]
  by_cases more : digits < 3
  · simp [more]
  · simp only [Option.bind_eq_bind, Option.bind_some, more, if_false]
    cases completed read high (value * 16 + digit) <;> rfl

theorem scan_hexDigits (read : List Char) (high : Option Nat) {width : Nat}
    (short : width ≤ 3) (n : Nat) :
    lexer.scan (.unit read high 0 0) (hexDigits width n) =
      some ([], .unit read high width (n % 16 ^ width)) := by
  induction width generalizing n with
  | zero => simp [hexDigits, Scanner.scan, Nat.mod_one]
  | succ width ih =>
      have first := ih (by omega) (n / 16)
      have last := scan_digitChar read high width (n / 16 % 16 ^ width)
        (Nat.mod_lt n (by decide : 16 > 0))
      have value : n / 16 % 16 ^ width * 16 + n % 16 = n % 16 ^ (width + 1) := by
        rw [Nat.pow_succ', Nat.mod_mul]
        omega
      rw [if_pos (by omega), value] at last
      exact Scanner.scan_append first last

theorem scan_unit {read : List Char} {high : Option Nat} {unit : Nat}
    {next : Pending} (small : unit < 0x10000)
    (ends : completed read high unit = some next) :
    lexer.scan (.unit read high 0 0) (hexDigits 4 unit) = some ([], next) := by
  have first := scan_hexDigits read high (Nat.le_refl 3) (unit / 16)
  have last := scan_digitChar read high 3 (unit / 16 % 16 ^ 3)
    (Nat.mod_lt unit (by decide : 16 > 0))
  have value : unit / 16 % 16 ^ 3 * 16 + unit % 16 = unit := by omega
  rw [if_neg (by decide), value, ends] at last
  exact Scanner.scan_append first last

theorem scan_utf16Unit (read : List Char) {unit : Nat} {next : Pending}
    (small : unit < 0x10000) (ends : completed read none unit = some next) :
    lexer.scan (.string read) (utf16Unit unit) = some ([], next) := by
  have opened : lexer.scan (.string read) ['\\', 'u'] =
      some ([], .unit read none 0 0) := rfl
  exact Scanner.scan_append opened (scan_unit small ends)

/-- A character past the first plane is read from its two units. -/
theorem scan_pair (read : List Char) {c : Char} (large : 0x10000 ≤ c.toNat) :
    lexer.scan (.string read)
        (utf16Unit (0xD800 + (c.toNat - 0x10000) / 0x400) ++
          utf16Unit (0xDC00 + (c.toNat - 0x10000) % 0x400)) =
      some ([], .string (read ++ [c])) := by
  have range : c.toNat < 0xD800 ∨ 0xDFFF < c.toNat ∧ c.toNat < 0x110000 :=
    c.valid
  have high : completed read none (0xD800 + (c.toNat - 0x10000) / 0x400) =
      some (.high read (0xD800 + (c.toNat - 0x10000) / 0x400)) := by
    rw [completed, if_pos (by omega)]
  have value : 0x10000 + (0xD800 + (c.toNat - 0x10000) / 0x400 - 0xD800) *
      0x400 + (0xDC00 + (c.toNat - 0x10000) % 0x400 - 0xDC00) = c.toNat := by
    omega
  have low : completed read (some (0xD800 + (c.toNat - 0x10000) / 0x400))
      (0xDC00 + (c.toNat - 0x10000) % 0x400) =
        some (.string (read ++ [c])) := by
    rw [completed, if_pos (by omega), value, Char.ofNat_toNat]
  have reopened (unit : Nat) : lexer.scan (.high read unit) ['\\', 'u'] =
      some ([], .unit read (some unit) 0 0) := rfl
  exact Scanner.scan_append (scan_utf16Unit read (by omega) high)
    (Scanner.scan_append (reopened _) (scan_unit (by omega) low))

theorem scan_escapedChar (read : List Char) (c : Char) :
    lexer.scan (.string read) (escapedChar c) =
      some ([], .string (read ++ [c])) := by
  unfold escapedChar
  dsimp only
  split
  · next special => rcases special with rfl | rfl <;> rfl
  split
  · next feed => cases feed; rfl
  split
  · next ret => cases ret; rfl
  split
  · next tab => cases tab; rfl
  split
  · next back => cases back; rfl
  split
  · next form => cases form; rfl
  split
  · next special _ _ _ _ _ plain =>
      have visible : ¬ c.toNat < 0x20 := by omega
      rw [not_or] at special
      simp [Scanner.scan, lexer, special, visible]
  split
  · next small =>
      -- A character is no half of a pair, so its unit stands for it alone.
      have range : c.toNat < 0xD800 ∨ 0xDFFF < c.toNat ∧ c.toNat < 0x110000 :=
        c.valid
      refine scan_utf16Unit read small ?_
      rw [completed, if_neg (by omega), if_neg (by omega), Char.ofNat_toNat]
  · next large => exact scan_pair read (Nat.le_of_not_lt large)

/-! ## Stages -/

/-- A text that leads from one stage of reading to another. -/
def Leads (stage : Stage) (text : List Char) (next : Stage) : Prop :=
  ∃ found, lexer.scan .gap text = some (found, .gap) ∧
    found.foldlM advance stage = some next

def Parts (text : List Char) : Prop := ∃ c ∈ text.head?, isWordChar c = false

/-- A text that stands for a document wherever a value may be. -/
def Spells (text : List Char) (document : Json) : Prop :=
  ∀ frames rest next, Parts rest → Leads (.done document frames) rest next →
    Leads (.value frames) (text ++ rest) next

variable {stage middle next : Stage} {s t : List Char}

theorem Leads.append (h : Leads stage s middle) (h' : Leads middle t next) :
    Leads stage (s ++ t) next := by
  obtain ⟨first, scanned, advanced⟩ := h
  obtain ⟨others, scanned', advanced'⟩ := h'
  refine ⟨first ++ others, Scanner.scan_append scanned scanned', ?_⟩
  rw [List.foldlM_append, advanced]
  exact advanced'

theorem Parts.append (h : Parts s) (t : List Char) : Parts (s ++ t) := by
  obtain ⟨c, first, other⟩ := h
  exact ⟨c, by simp [Option.mem_def.mp first], other⟩

theorem spells_of_leads {document : Json}
    (leads : ∀ frames, Leads (.value frames) s (.done document frames)) :
    Spells s document :=
  fun frames _ _ _ => (leads frames).append

theorem scan_word {letters : List Char} {found : List Lexeme}
    {pending : Pending}
    (parts : Parts s) (scanned : lexer.scan .gap s = some (found, pending)) :
    lexer.scan (.word letters) s = some (.word letters :: found, pending) := by
  obtain ⟨c, first, other⟩ := parts
  obtain ⟨rest, rfl⟩ := List.head?_eq_some_iff.mp first
  simp only [Scanner.scan, Option.bind_eq_bind,
    Option.bind_eq_some_iff] at scanned
  obtain ⟨⟨start, middle⟩, opened, ⟨others, last⟩, later, same⟩ := scanned
  cases same
  have ended : lexer (.word letters) c = some (.word letters :: start, middle) := by
    have alone : opens c = some (start, middle) := opened
    simp [lexer, other, alone]
  exact Scanner.scan_cons ended later

theorem spells_word {letters : List Char} {document : Json}
    (nonempty : letters ≠ []) (each : ∀ c ∈ letters, isWordChar c = true)
    (word : ofWord? letters = some document) : Spells letters document := by
  intro frames rest next parts ⟨found, scanned, advanced⟩
  cases letters with
  | nil => exact absurd rfl nonempty
  | cons c letters =>
      rw [List.forall_mem_cons] at each
      have opened : lexer .gap c = some ([], .word [c]) := by
        simp [lexer, opens, each.1]
      have taken (read : List Char) (d : Char) (letter : isWordChar d = true) :
          lexer (.word read) d = some ([], .word (read ++ [d])) := by
        simp [lexer, letter]
      have read := Scanner.scan_cons opened
        (Scanner.scan_of_forall taken each.2 [c])
      refine ⟨_, Scanner.scan_append read (scan_word parts scanned), ?_⟩
      have first : advance (.value frames) (.word (c :: letters)) =
          some (.done document frames) := by
        simp only [advance]
        rw [word]
        rfl
      simpa [first] using advanced

theorem leads_string (text : String) {stage next : Stage}
    (advanced : advance stage (.string text) = some next) :
    Leads stage (writtenString text).toList next := by
  have inside := Scanner.scan_flatMap scan_escapedChar [] text.toList
  have opened : lexer.scan .gap ['\x22'] = some ([], .string []) := rfl
  have closed : lexer.scan (.string text.toList) ['\x22'] =
      some ([.string text], .gap) := by
    simp [Scanner.scan, lexer]
  have shown : (writtenString text).toList =
      ['\x22'] ++ (text.toList.flatMap escapedChar ++ ['\x22']) := by
    simp [writtenString]
  refine ⟨[.string text], ?_, by simp [advanced]⟩
  rw [shown]
  exact Scanner.scan_append opened (Scanner.scan_append inside closed)

/-! ## Layout -/

theorem leads_lineStart (indent : Indent) (depth : Nat) (stage : Stage) :
    Leads stage (lineStart indent depth).toList stage := by
  refine ⟨[], ?_, rfl⟩
  cases indent with
  | none => rfl
  | some width =>
      have blanks (n : Nat) :
          lexer.scan .gap (List.replicate n ' ') = some ([], .gap) := by
        induction n with
        | zero => rfl
        | succ n ih =>
            have blank : lexer .gap ' ' = some ([], .gap) := rfl
            exact Scanner.scan_cons blank ih
      have feed : lexer.scan .gap ['\n'] = some ([], .gap) := rfl
      have shown : (lineStart (some width) depth).toList =
          ['\n'] ++ List.replicate (width * depth) ' ' := by
        simp [lineStart]
      rw [shown]
      exact Scanner.scan_append feed (blanks _)

theorem leads_mark {c : Char} {stage next : Stage} (mark : c ∈ marks)
    (advanced : advance stage (.mark c) = some next) : Leads stage [c] next := by
  have scanned : ∀ c ∈ marks, lexer.scan .gap [c] = some ([.mark c], .gap) :=
    forall_mem_of_all (by decide)
  exact ⟨[.mark c], scanned c mark, by simp [advanced]⟩

theorem leads_separator (indent : Indent) (depth : Nat) {stage next : Stage}
    (advanced : advance stage (.mark ',') = some next) :
    Leads stage (separator indent depth).toList next := by
  have comma := leads_mark (by decide) advanced
  cases indent with
  | none =>
      have shown : (separator none depth).toList = [','] ++ [' '] := by
        simp [separator]
      have blank : Leads next [' '] next := ⟨[], rfl, rfl⟩
      rw [shown]
      exact comma.append blank
  | some width =>
      have shown : (separator (some width) depth).toList =
          [','] ++ (lineStart (some width) depth).toList := by
        simp [separator]
      rw [shown]
      exact comma.append (leads_lineStart _ _ _)

def ending (indent : Indent) (depth : Nat) (c : Char) : List Char :=
  (lineStart indent depth).toList ++ [c]

theorem parts_ending (indent : Indent) (depth : Nat) {c : Char}
    (mark : c ∈ marks) : Parts (ending indent depth c) := by
  cases indent with
  | none =>
      have other : ∀ c ∈ marks, isWordChar c = false :=
        forall_mem_of_all (by decide)
      exact ⟨c, rfl, other c mark⟩
  | some width => exact ⟨'\n', by simp [ending, lineStart], by decide⟩

theorem parts_separator (indent : Indent) (depth : Nat) :
    Parts (separator indent depth).toList := by
  refine ⟨',', ?_, by decide⟩
  cases indent <;> simp [separator]

theorem leads_joined {α : Type} (indent : Indent) (depth : Nat)
    (final : List α → Stage) {enter : List α → Stage}
    {after : List α → α → Stage} {text : α → String} {close : List Char}
    {as : List α}
    (each : ∀ a ∈ as, ∀ before rest next, Parts rest →
      Leads (after before a) rest next →
        Leads (enter before) ((text a).toList ++ rest) next)
    (proceeds : ∀ before a, advance (after before a) (.mark ',') =
      some (enter (before ++ [a])))
    (parts : Parts close)
    (closes : ∀ before a, Leads (after before a) close (final (before ++ [a])))
    (nonempty : as ≠ []) (before : List α) :
    Leads (enter before)
      ((String.intercalate (separator indent depth) (as.map text)).toList ++
        close) (final (before ++ as)) := by
  induction as generalizing before with
  | nil => exact absurd rfl nonempty
  | cons a as ih =>
      rw [List.forall_mem_cons] at each
      cases as with
      | nil =>
          have last := each.1 before close _ parts (closes before a)
          simpa using last
      | cons b as =>
          have later := ih each.2 (List.cons_ne_nil b as) (before ++ [a])
          have apart := (leads_separator indent depth (proceeds before a)).append
            later
          have whole := each.1 before _ _
            ((parts_separator indent depth).append _) apart
          simpa [String.intercalate_cons_cons] using whole

/-! ## Documents -/

theorem writtenItems_eq (indent : Indent) (depth : Nat) (items : List Json) :
    writtenItems indent depth items = items.map (written indent depth) := by
  induction items with
  | nil => rfl
  | cons item items ih => rw [writtenItems, ih, List.map_cons]

theorem writtenMembers_eq (indent : Indent) (depth : Nat)
    (members : List (String × Json)) :
    writtenMembers indent depth members = members.map fun member =>
      writtenString member.1 ++ ": " ++ written indent depth member.2 := by
  induction members with
  | nil => rfl
  | cons member members ih => rw [writtenMembers, ih, List.map_cons]

theorem ofDigits?_toDigits (n : Nat) :
    ofDigits? (Nat.toDigits 10 n) = some n := by
  have digits : (Nat.toDigits 10 n).all Char.isDigit = true := by
    rw [List.all_eq_true]
    exact fun c mem =>
      Nat.isDigit_of_mem_toDigits (by decide) (by decide) mem
  rw [ofDigits?, if_pos ⟨by simp, digits⟩, Nat.ofDigitChars_ten_toDigits]

theorem spells_int (value : Int) :
    Spells (toString value).toList (.int value) := by
  have letters (n : Nat) : ∀ c ∈ Nat.toDigits 10 n, isWordChar c = true := by
    intro c mem
    have digit := Nat.isDigit_of_mem_toDigits (by decide) (by decide) mem
    simp [isWordChar, Char.isAlphanum, digit]
  rw [Int.toString_eq_repr, Int.repr_eq_if]
  split
  · next positive =>
      have read : ofInteger? (Nat.toDigits 10 value.toNat) = some value := by
        rw [ofInteger?, ofDigits?_toDigits]
        · exact congrArg some (Int.toNat_of_nonneg positive)
        · intro digits same
          have sign := letters value.toNat '-'
          have digit : '-'.isDigit = true :=
            Nat.isDigit_of_mem_toDigits (b := 10) (n := value.toNat)
              (by decide) (by decide) (same ▸ List.mem_cons_self)
          cases digit
      rw [Nat.toList_repr]
      exact spells_word (by simp) (letters _) (by rw [ofWord?, read])
  · next negative =>
      have read : ofInteger? ('-' :: Nat.toDigits 10 (-value).toNat) =
          some value := by
        rw [ofInteger?, ofDigits?_toDigits]
        have value : -((-value).toNat : Int) = value := by omega
        exact congrArg some value
      have shown : ("-" ++ Nat.repr (-value).toNat).toList =
          '-' :: Nat.toDigits 10 (-value).toNat := by
        simp
      rw [shown]
      exact spells_word (by simp)
        (List.forall_mem_cons.mpr ⟨by decide, letters _⟩)
        (by rw [ofWord?, read])

theorem toList_enclosed (indent : Indent) (depth : Nat)
    (opening closing : String) {items : List String} (nonempty : items ≠ []) :
    (enclosed indent depth opening closing items).toList =
      opening.toList ++ ((lineStart indent (depth + 1)).toList ++
        ((String.intercalate (separator indent (depth + 1)) items).toList ++
          ((lineStart indent depth).toList ++ closing.toList))) := by
  simp [enclosed, nonempty]

theorem spells_arr {indent : Indent} {depth : Nat} {items : List Json}
    (each : ∀ item ∈ items,
      Spells (written indent (depth + 1) item).toList item) :
    Spells (written indent depth (.arr items)).toList (.arr items) := by
  refine spells_of_leads fun frames => ?_
  have opened : Leads (.value frames) ['['] (.value (.items [] :: frames)) :=
    leads_mark (by decide) rfl
  rw [written, writtenItems_eq]
  by_cases empty : items = []
  · subst empty
    have closed : Leads (.value (.items [] :: frames)) [']']
        (.done (.arr []) frames) := leads_mark (by decide) rfl
    have shown : (enclosed indent depth "[" "]" []).toList = ['['] ++ [']'] := by
      simp [enclosed]
    rw [List.map_nil, shown]
    exact opened.append closed
  · rw [toList_enclosed _ _ _ _ (by simpa using empty)]
    have closes (before : List Json) (item : Json) :
        Leads (.done item (.items before :: frames)) (ending indent depth ']')
          (.done (.arr (before ++ [item])) frames) :=
      (leads_lineStart indent depth _).append (leads_mark (by decide) rfl)
    have entry : ∀ item ∈ items, ∀ before rest next, Parts rest →
        Leads (.done item (.items before :: frames)) rest next →
          Leads (.value (.items before :: frames))
            ((written indent (depth + 1) item).toList ++ rest) next :=
      fun item mem before => each item mem (.items before :: frames)
    have joined := leads_joined indent (depth + 1)
      (fun items => .done (.arr items) frames) entry
      (fun _ _ => rfl) (parts_ending indent depth (by decide)) closes empty []
    exact opened.append ((leads_lineStart _ _ _).append joined)

theorem spells_obj {indent : Indent} {depth : Nat}
    {members : List (String × Json)}
    (each : ∀ member ∈ members,
      Spells (written indent (depth + 1) member.2).toList member.2) :
    Spells (written indent depth (.obj members)).toList (.obj members) := by
  refine spells_of_leads fun frames => ?_
  have opened : Leads (.value frames) ['\x7b'] (.name [] frames) :=
    leads_mark (by decide) rfl
  rw [written, writtenMembers_eq]
  by_cases empty : members = []
  · subst empty
    have closed : Leads (.name [] frames) ['\x7d'] (.done (.obj []) frames) :=
      leads_mark (by decide) rfl
    have shown : (enclosed indent depth "\x7b" "\x7d" []).toList =
        ['\x7b'] ++ ['\x7d'] := by
      simp [enclosed]
    rw [List.map_nil, shown]
    exact opened.append closed
  · rw [toList_enclosed _ _ _ _ (by simpa using empty)]
    have closes (before : List (String × Json)) (member : String × Json) :
        Leads (.done member.2 (.member before member.1 :: frames))
          (ending indent depth '\x7d')
          (.done (.obj (before ++ [member])) frames) :=
      (leads_lineStart indent depth _).append (leads_mark (by decide) rfl)
    have colon (before : List (String × Json)) (name : String) :
        Leads (.colon before name frames) ": ".toList
          (.value (.member before name :: frames)) :=
      ⟨[.mark ':'], rfl, rfl⟩
    have entry : ∀ member ∈ members, ∀ before rest next, Parts rest →
        Leads (.done member.2 (.member before member.1 :: frames)) rest next →
          Leads (.name before frames)
            ((writtenString member.1 ++ ": " ++
              written indent (depth + 1) member.2).toList ++ rest) next := by
      intro member mem before rest next parts later
      have value := each member mem _ rest next parts later
      have named : Leads (.name before frames) (writtenString member.1).toList
          (.colon before member.1 frames) := leads_string member.1 rfl
      simpa using (named.append (colon before member.1)).append value
    have joined := leads_joined indent (depth + 1)
      (fun members => .done (.obj members) frames) entry
      (fun _ _ => rfl) (parts_ending indent depth (by decide)) closes empty []
    exact opened.append ((leads_lineStart _ _ _).append joined)

mutual

theorem spells_written (indent : Indent) (depth : Nat) :
    (document : Json) → Spells (written indent depth document).toList document
  | .null => (spells_word (by decide) (forall_mem_of_all (by decide)) rfl :
      Spells "null".toList .null)
  | .bool true => (spells_word (by decide) (forall_mem_of_all (by decide)) rfl :
      Spells "true".toList (.bool true))
  | .bool false => (spells_word (by decide) (forall_mem_of_all (by decide)) rfl :
      Spells "false".toList (.bool false))
  | .int value => spells_int value
  | .str text => spells_of_leads fun frames => leads_string text rfl
  | .arr items => spells_arr (spells_items indent (depth + 1) items)
  | .obj members => spells_obj (spells_members indent (depth + 1) members)

theorem spells_items (indent : Indent) (depth : Nat) :
    (items : List Json) → ∀ item ∈ items,
      Spells (written indent depth item).toList item
  | [] => nofun
  | item :: items =>
      List.forall_mem_cons.mpr ⟨spells_written indent depth item,
        spells_items indent depth items⟩

theorem spells_members (indent : Indent) (depth : Nat) :
    (members : List (String × Json)) → ∀ member ∈ members,
      Spells (written indent depth member.2).toList member.2
  | [] => nofun
  | (_, value) :: members =>
      List.forall_mem_cons.mpr ⟨spells_written indent depth value,
        spells_members indent depth members⟩

end

end Secrecy.Json
