import Mathlib.Data.List.Forall2
import Secrecy.Proofs.Chart.Grid
import Secrecy.Proofs.Text.Lines
import Secrecy.Proofs.Text.Scanning

/-!
# Reading DOT

A graph is a series of items: settings of its own or of all nodes, nodes and
edges with their attributes, and groups of nodes.  They are read from the bare
and quoted words and the marks that a text falls into, so neither blanks nor the
ends of lines tell them apart.
-/

namespace Secrecy.Dot

open Text

/-! ## Lexemes -/

inductive Lexeme where
  | word (text : String)
  | quote (text : String)
  | arrow
  | mark (c : Char)
  deriving DecidableEq, Repr

inductive Pending where
  | gap
  | word (read : List Char)
  | dash
  | quote (read : List Char)
  | escape (read : List Char)
  deriving DecidableEq, Repr

def isWordChar (c : Char) : Bool := c.isAlphanum || c = '_' || c = '.'

def marks : List Char := ['\x7b', '\x7d', '[', ']', '=', ',', ';']

def opens (c : Char) : Option (List Lexeme × Pending) :=
  if isWordChar c then some ([], .word [c])
  else if c = ' ' ∨ c = '\n' then some ([], .gap)
  else if c = '\x22' then some ([], .quote [])
  else if c = '-' then some ([], .dash)
  else if c ∈ marks then some ([.mark c], .gap)
  else none

/-- Within quotes a backslash takes the next character as it is. -/
def lexer : Scanner Pending Lexeme
  | .gap, c => opens c
  | .word read, c =>
      if isWordChar c then some ([], .word (read ++ [c]))
      else
        (opens c).map fun (found, pending) =>
          (.word (String.ofList read) :: found, pending)
  | .dash, c => if c = '>' then some ([.arrow], .gap) else none
  | .quote read, c =>
      if c = '\x22' then some ([.quote (String.ofList read)], .gap)
      else if c = '\\' then some ([], .escape read)
      else some ([], .quote (read ++ [c]))
  | .escape read, c => some ([], .quote (read ++ [c]))

def lexemes? (text : String) : Option (List Lexeme) :=
  match lexer.scan .gap text.toList with
  | some (found, .gap) => some found
  | _ => none

/-! ## Items -/

abbrev Attributes := List (String × String)

inductive Item where
  | setting (name value : String)
  | usual (kind : String) (attributes : Attributes)
  | node (name : String) (attributes : Attributes)
  | edge (source target : String) (attributes : Attributes)
  | group (attributes : Attributes) (names : List String)
  deriving DecidableEq, Repr

def Lexeme.name? : Lexeme → Option String
  | .word text | .quote text => some text
  | .arrow | .mark _ => none

def readAttributes : List Lexeme → Option (Attributes × List Lexeme)
  | name :: .mark '=' :: value :: .mark ',' :: rest => do
      let name ← name.name?
      let value ← value.name?
      let (others, rest) ← readAttributes rest
      return ((name, value) :: others, rest)
  | name :: .mark '=' :: value :: .mark ']' :: .mark ';' :: rest => do
      let name ← name.name?
      let value ← value.name?
      return ([(name, value)], rest)
  | _ => none

def readNames : List Lexeme → Option (List String × List Lexeme)
  | [] => none
  | .mark '\x7d' :: rest => some ([], rest)
  | name :: rest => do
      let first ← name.name?
      let (others, rest) ← readNames rest
      return (first :: others, rest)

/-- Three words are no names of nodes. -/
def Item.attributed (name : String) (attributes : Attributes) : Item :=
  if name ∈ ["graph", "node", "edge"] then .usual name attributes
  else .node name attributes

def readItem : List Lexeme → Option (Item × List Lexeme)
  | .mark '\x7b' :: name :: .mark '=' :: value :: .mark ';' :: rest => do
      let name ← name.name?
      let value ← value.name?
      let (names, rest) ← readNames rest
      return (.group [(name, value)] names, rest)
  | source :: .arrow :: target :: .mark '[' :: rest => do
      let source ← source.name?
      let target ← target.name?
      let (attributes, rest) ← readAttributes rest
      return (.edge source target attributes, rest)
  | name :: .mark '[' :: rest => do
      let name ← name.name?
      let (attributes, rest) ← readAttributes rest
      return (.attributed name attributes, rest)
  | name :: .mark '=' :: value :: .mark ';' :: rest => do
      let name ← name.name?
      let value ← value.name?
      return (.setting name value, rest)
  | _ => none

theorem length_readAttributes_lt {lexemes rest : List Lexeme}
    {attributes : Attributes}
    (h : readAttributes lexemes = some (attributes, rest)) :
    rest.length < lexemes.length := by
  fun_induction readAttributes lexemes generalizing attributes with
  | case1 name value later ih =>
      simp only [Option.bind_eq_bind, Option.bind_eq_some_iff] at h
      obtain ⟨_, -, _, -, ⟨others, left⟩, read, same⟩ := h
      cases same
      have shorter : left.length < later.length := ih read
      simp only [List.length_cons]
      omega
  | case2 name value later =>
      simp only [Option.bind_eq_bind, Option.bind_eq_some_iff] at h
      obtain ⟨_, -, _, -, same⟩ := h
      cases same
      simp only [List.length_cons]
      omega
  | case3 => cases h

theorem length_readNames_lt {lexemes rest : List Lexeme} {names : List String}
    (h : readNames lexemes = some (names, rest)) :
    rest.length < lexemes.length := by
  fun_induction readNames lexemes generalizing names with
  | case1 => cases h
  | case2 later =>
      cases h
      simp
  | case3 name later _ ih =>
      simp only [Option.bind_eq_bind, Option.bind_eq_some_iff] at h
      obtain ⟨_, -, ⟨others, left⟩, read, same⟩ := h
      cases same
      have shorter : left.length < later.length := ih read
      simp only [List.length_cons]
      omega

theorem length_readItem_lt {lexemes rest : List Lexeme} {item : Item}
    (h : readItem lexemes = some (item, rest)) :
    rest.length < lexemes.length := by
  revert h
  fun_cases readItem lexemes with
  | case1 name value later =>
      intro h
      simp only [Option.bind_eq_bind, Option.bind_eq_some_iff] at h
      obtain ⟨_, -, _, -, ⟨names, left⟩, read, same⟩ := h
      cases same
      have shorter : left.length < later.length := length_readNames_lt read
      simp only [List.length_cons]
      omega
  | case2 source target later =>
      intro h
      simp only [Option.bind_eq_bind, Option.bind_eq_some_iff] at h
      obtain ⟨_, -, _, -, ⟨attributes, left⟩, read, same⟩ := h
      cases same
      have shorter : left.length < later.length :=
        length_readAttributes_lt read
      simp only [List.length_cons]
      omega
  | case3 name later =>
      intro h
      simp only [Option.bind_eq_bind, Option.bind_eq_some_iff] at h
      obtain ⟨_, -, ⟨attributes, left⟩, read, same⟩ := h
      cases same
      have shorter : left.length < later.length :=
        length_readAttributes_lt read
      simp only [List.length_cons]
      omega
  | case4 name value later =>
      intro h
      simp only [Option.bind_eq_bind, Option.bind_eq_some_iff] at h
      obtain ⟨_, -, _, -, same⟩ := h
      cases same
      simp only [List.length_cons]
      omega
  | case5 => nofun

/-- Items up to a brace with nothing after it. -/
def readItems (lexemes : List Lexeme) : Option (List Item) :=
  if lexemes = [.mark '\x7d'] then some []
  else
    match _read : readItem lexemes with
    | none => none
    | some (item, rest) => (readItems rest).map (item :: ·)
termination_by lexemes.length
decreasing_by exact length_readItem_lt _read

def readGraph : List Lexeme → Option (List Item)
  | .word "digraph" :: .word _ :: .mark '\x7b' :: rest => readItems rest
  | _ => none

/-- The items of the graph that a text describes. -/
def items? (text : String) : Option (List Item) :=
  lexemes? text >>= readGraph

theorem readItems_of_readItem {lexemes rest : List Lexeme} {item : Item}
    (read : readItem lexemes = some (item, rest)) :
    readItems lexemes = (readItems rest).map (item :: ·) := by
  have more : lexemes ≠ [.mark '\x7d'] := by
    rintro rfl
    cases read
  rw [readItems, if_neg more]
  split
  next unread =>
    rw [read] at unread
    cases unread
  next same =>
    rw [read] at same
    cases same
    rfl

/-! ## Words -/

theorem isWordChar_of_mem_id (node : Node) :
    ∀ c ∈ node.id.toList, isWordChar c = true := by
  have digits (n : Nat) : ∀ c ∈ Nat.toDigits 10 n, isWordChar c = true := by
    intro c mem
    have digit := Nat.isDigit_of_mem_toDigits (by decide) (by decide) mem
    simp [isWordChar, Char.isAlphanum, digit]
  cases node with
  | head column =>
      rw [Node.id_head, List.forall_mem_append]
      exact ⟨Text.forall_mem_of_all (by decide), digits column⟩
  | point column row =>
      rw [Node.id_point, List.forall_mem_append, List.forall_mem_append,
        List.forall_mem_cons]
      exact ⟨Text.forall_mem_of_all (by decide), digits column, rfl, digits row⟩

theorem scan_word {c : Char} {s : List Char}
    (each : ∀ d ∈ c :: s, isWordChar d = true) :
    lexer.scan .gap (c :: s) = some ([], .word (c :: s)) := by
  rw [List.forall_mem_cons] at each
  have opened : lexer .gap c = some ([], .word [c]) := by
    simp [lexer, opens, each.1]
  have taken (read : List Char) (d : Char) (letter : isWordChar d = true) :
      lexer (.word read) d = some ([], .word (read ++ [d])) := by
    simp [lexer, letter]
  exact Scanner.scan_cons opened (Scanner.scan_of_forall taken each.2 [c])

theorem scan_id (node : Node) :
    lexer.scan .gap node.id.toList = some ([], .word node.id.toList) := by
  have letters := isWordChar_of_mem_id node
  cases spelt : node.id.toList with
  | nil => cases node <;> simp [Node.id_head, Node.id_point] at spelt
  | cons c s => exact scan_word (spelt ▸ letters)

theorem scan_id_append (node : Node) {s : String} {found : List Lexeme}
    {pending : Pending} (ends : ∀ read, lexer.scan (.word read) s.toList =
      some (.word (String.ofList read) :: found, pending)) :
    lexer.scan .gap (node.id ++ s).toList =
      some (.word node.id :: found, pending) := by
  rw [String.toList_append, ← List.nil_append (_ :: found)]
  exact Scanner.scan_append (scan_id node)
    (by rw [ends, String.ofList_toList])

theorem scan_quoted (s : String) :
    lexer.scan .gap (quoted s).toList = some ([.quote s], .gap) := by
  have taken (read : List Char) (c : Char) :
      lexer.scan (.quote read) (escapedChar c) =
        some ([], .quote (read ++ [c])) := by
    unfold escapedChar
    split
    · simp [Scanner.scan, lexer]
    · simp_all [Scanner.scan, lexer]
  have inside := Scanner.scan_flatMap taken [] s.toList
  have shown : (quoted s).toList =
      ['\x22'] ++ (s.toList.flatMap escapedChar ++ ['\x22']) := by
    simp [quoted, escaped]
  have opened : lexer.scan .gap ['\x22'] = some ([], .quote []) := rfl
  have closed : lexer.scan (.quote s.toList) ['\x22'] =
      some ([.quote s], .gap) := by
    simp [Scanner.scan, lexer]
  rw [shown]
  exact Scanner.scan_append opened (Scanner.scan_append inside closed)

theorem scan_edge (source target : Node) :
    lexer.scan .gap (edge source target).toList =
      some ([.word source.id, .arrow], .word target.id.toList) := by
  rw [edge, String.toList_append]
  exact Scanner.scan_append (scan_id_append source (s := " -> ") fun _ => rfl)
    (scan_id target)

theorem scan_names (nodes : List Node) :
    lexer.scan .gap
        (String.intercalate " " (nodes.map Node.id) ++ " \x7d").toList =
      some (nodes.map (.word ·.id) ++ [.mark '\x7d'], .gap) := by
  induction nodes with
  | nil => rfl
  | cons first others ih =>
      cases others with
      | nil => exact scan_id_append first (s := " \x7d") fun _ => rfl
      | cons second others =>
          have spaced := scan_id_append first (s := " ")
            fun _ => rfl
          have joined := Scanner.scan_append spaced ih
          rw [← String.toList_append, ← String.append_assoc] at joined
          rw [List.map_cons, List.map_cons, String.intercalate_cons_cons]
          exact joined

theorem readNames_words (nodes : List Node) (rest : List Lexeme) :
    readNames (nodes.map (.word ·.id) ++ .mark '\x7d' :: rest) =
      some (nodes.map Node.id, rest) := by
  induction nodes with
  | nil => rfl
  | cons node nodes ih =>
      rw [List.map_cons, List.cons_append, readNames, ih]
      · rfl
      · nofun

/-! ## Statements -/

/-- A text that is one item, whatever comes after it. -/
def Denotes (text : String) (item : Item) : Prop :=
  ∃ found, lexer.scan .gap text.toList = some (found, .gap) ∧
    ∀ rest, readItem (found ++ rest) = some (item, rest)

def boxAttributes (label : String) : Attributes :=
  [("label", label), ("shape", "box"), ("style", "rounded")]

def pointAttributes : Attributes :=
  [("label", ""), ("shape", "point"), ("width", "0.02"), ("height", "0.02")]

def guideAttributes : Attributes := [("style", "invis")]

def arrowAttributes (label : String) : Attributes :=
  [("label", label), ("constraint", "false")]

theorem attributed_id (node : Node) (attributes : Attributes) :
    Item.attributed node.id attributes = .node node.id attributes := by
  have first : node.id.toList.head? ∈ [some 'h', some 'p'] := by
    cases node <;> simp [Node.id_head, Node.id_point]
  have unlike : node.id ∉ ["graph", "node", "edge"] := by
    intro mem
    simp only [List.mem_cons, List.not_mem_nil, or_false] at mem
    rcases mem with same | same | same <;>
      exact absurd (same ▸ first) (by decide)
  rw [Item.attributed, if_neg unlike]

theorem scan_label (read : List Char) :
    lexer.scan (.word read) " [label=".toList =
      some ([.word (String.ofList read), .mark '[', .word "label", .mark '='],
        .gap) :=
  rfl

theorem denotes_title (text : String) :
    Denotes (Statement.title text).text (.setting "label" text) := by
  refine ⟨[.word "label", .mark '=', .quote text, .mark ';'], ?_, fun _ => rfl⟩
  have named : lexer.scan .gap "label=".toList =
      some ([.word "label", .mark '='], .gap) := rfl
  have ended : lexer.scan .gap ";".toList = some ([.mark ';'], .gap) := rfl
  rw [Statement.text, String.append_assoc, String.toList_append,
    String.toList_append]
  exact Scanner.scan_append named (Scanner.scan_append (scan_quoted text) ended)

theorem denotes_box (node : Node) (label : String) :
    Denotes (Statement.box node label).text
      (.node node.id (boxAttributes label)) := by
  have ended : lexer.scan .gap ", shape=box, style=rounded];".toList =
      some ([.mark ',', .word "shape", .mark '=', .word "box", .mark ',',
        .word "style", .mark '=', .word "rounded", .mark ']', .mark ';'],
        .gap) := by decide
  have whole := Scanner.scan_append
    (scan_id_append node scan_label)
    (Scanner.scan_append (scan_quoted label) ended)
  rw [← String.toList_append, ← String.toList_append, ← String.append_assoc]
    at whole
  refine ⟨_, whole, fun rest => ?_⟩
  rw [← attributed_id]
  rfl

theorem denotes_dot (node : Node) :
    Denotes (Statement.dot node).text (.node node.id pointAttributes) := by
  have ended (read : List Char) : lexer.scan (.word read)
      " [label=\"\", shape=point, width=0.02, height=0.02];".toList =
        some ([.word (String.ofList read), .mark '[', .word "label",
          .mark '=', .quote "", .mark ',', .word "shape", .mark '=',
          .word "point", .mark ',', .word "width", .mark '=', .word "0.02",
          .mark ',', .word "height", .mark '=', .word "0.02", .mark ']',
          .mark ';'], .gap) := rfl
  refine ⟨_, scan_id_append node ended, fun rest => ?_⟩
  rw [← attributed_id]
  rfl

theorem denotes_sameRank (nodes : List Node) :
    Denotes (Statement.sameRank nodes).text
      (.group [("rank", "same")] (nodes.map Node.id)) := by
  have opened : lexer.scan .gap "\x7b rank=same; ".toList =
      some ([.mark '\x7b', .word "rank", .mark '=', .word "same", .mark ';'],
        .gap) := by decide
  have whole := Scanner.scan_append opened (scan_names nodes)
  rw [← String.toList_append, ← String.append_assoc] at whole
  refine ⟨_, whole, fun rest => ?_⟩
  have read := readNames_words nodes rest
  simp only [List.cons_append, List.append_assoc, List.nil_append, readItem,
    read]
  rfl

theorem denotes_guide (source target : Node) :
    Denotes (Statement.guide source target).text
      (.edge source.id target.id guideAttributes) := by
  have ended (read : List Char) :
      lexer.scan (.word read) " [style=invis];".toList =
        some ([.word (String.ofList read), .mark '[', .word "style",
          .mark '=', .word "invis", .mark ']', .mark ';'], .gap) := rfl
  have whole := Scanner.scan_append (scan_edge source target) (ended _)
  rw [String.ofList_toList, ← String.toList_append] at whole
  exact ⟨_, whole, fun _ => rfl⟩

theorem denotes_arrow (source target : Node) (label : String) :
    Denotes (Statement.arrow source target label).text
      (.edge source.id target.id (arrowAttributes label)) := by
  have ended : lexer.scan .gap ", constraint=false];".toList =
      some ([.mark ',', .word "constraint", .mark '=', .word "false",
        .mark ']', .mark ';'], .gap) := by decide
  have whole := Scanner.scan_append
    (Scanner.scan_append (scan_edge source target) (scan_label _))
    (Scanner.scan_append (scan_quoted label) ended)
  rw [String.ofList_toList, ← String.toList_append, ← String.toList_append,
    ← String.toList_append, ← String.append_assoc] at whole
  exact ⟨_, whole, fun _ => rfl⟩

/-! ## Graphs -/

def Denoted : List Statement → List Item → Prop :=
  List.Forall₂ fun statement => Denotes statement.text

theorem Denoted.append {statements others : List Statement}
    {items others' : List Item} (h : Denoted statements items)
    (h' : Denoted others others') :
    Denoted (statements ++ others) (items ++ others') :=
  List.rel_append h h'

theorem denoted_map {α : Type} {statement : α → Statement} {item : α → Item}
    (denotes : ∀ a, Denotes (statement a).text (item a)) (as : List α) :
    Denoted (as.map statement) (as.map item) := by
  rw [Denoted, List.forall₂_map_left_iff, List.forall₂_map_right_iff,
    List.forall₂_same]
  exact fun a _ => denotes a

theorem toList_digraph (name : String) (statements : List Statement) :
    (digraph name statements).toList =
      ("digraph " ++ name ++ " \x7b\n").toList ++
        ((statements.flatMap fun statement =>
          "  ".toList ++ (statement.text.toList ++ ['\n'])) ++
            "\x7d\n".toList) := by
  rw [digraph, Text.intercalate_newline (by simp)]
  simp [Text.unlines, List.flatMap_map, Function.comp_def]

theorem items?_digraph {statements : List Statement} {items : List Item}
    (denotes : Denoted statements items) :
    items? (digraph "Protocol" statements) = some items := by
  have body : ∃ found, lexer.scan .gap
      ((statements.flatMap fun statement =>
        "  ".toList ++ (statement.text.toList ++ ['\n'])) ++
          "\x7d\n".toList) = some (found, .gap) ∧
      readItems found = some items := by
    -- On the statements: each is one item, whatever comes after it.
    induction denotes with
    | nil => exact ⟨[.mark '\x7d'], rfl, by rw [readItems]; rfl⟩
    | @cons statement item statements items first _ ih =>
        obtain ⟨found, scanned, read⟩ := first
        obtain ⟨later, rest, others⟩ := ih
        have blank : lexer.scan .gap "  ".toList = some ([], .gap) := rfl
        have feed : lexer.scan .gap ['\n'] = some ([], .gap) := rfl
        have line := Scanner.scan_append blank
          (Scanner.scan_append scanned feed)
        rw [List.nil_append, List.append_nil] at line
        refine ⟨found ++ later, ?_, ?_⟩
        · rw [List.flatMap_cons, List.append_assoc]
          exact Scanner.scan_append line rest
        · rw [readItems_of_readItem (read later), others]
          rfl
  obtain ⟨found, scanned, read⟩ := body
  have start : lexer.scan .gap ("digraph " ++ "Protocol" ++ " \x7b\n").toList =
      some ([.word "digraph", .word "Protocol", .mark '\x7b'], .gap) := by decide
  rw [items?, lexemes?, toList_digraph, Scanner.scan_append start scanned]
  exact read

end Secrecy.Dot
