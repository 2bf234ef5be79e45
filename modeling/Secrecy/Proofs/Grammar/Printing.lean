import Secrecy.Proofs.Grammar.Yield
import Secrecy.Proofs.Token.Lexing

/-!
# Protocols in print

A protocol is printed with one line for each of its parts.  If its names are
spelt as names are, the print shows its yield: the separators keep the names
apart, so that the lexer neither joins nor splits what they stand between.
-/

namespace Secrecy

open Text Token

/-! ## Prints -/

def RoleSet.print (roles : RoleSet) : String :=
  "roles: " ++ commaSeparated (namesOf roles.members)

def KeyDecl.print (key : KeyDecl) : String :=
  key.kind.keyword ++ " " ++ key.name.name ++ " for " ++
    commaSeparated key.ownerNames

def Message.print (message : Message) : String :=
  message.sender.name ++ " -> " ++ message.receiver.name ++ ": " ++
    message.body.label

def Assertion.print (assertion : Assertion) : String :=
  "assert " ++ assertion.label

def Protocol.printedLines (p : Protocol) : List String :=
  p.roles.print :: (p.keys.map KeyDecl.print ++
    (p.messages.map Message.print ++ p.assertions.map Assertion.print))

def Protocol.print (p : Protocol) : String :=
  String.intercalate "\n" p.printedLines

/-! ## Texts and terminals -/

namespace Terminal

def ofShape : Token.Kind × String → Terminal
  | (.keyword word, _) => .keyword word
  | (.operator symbol, _) => .operator symbol
  | (.name, text) => .name text
  | (.stop, _) => .stop

theorem ofShape_shape (token : Token) : ofShape token.shape = token.terminal := by
  obtain ⟨kind, text, line⟩ := token
  cases kind <;> rfl

def ofText (s : List Char) : List Terminal := (shapes s).map ofShape

theorem map_terminal_scan (line : Int) (s : List Char) :
    (scan line s).map Token.terminal = ofText s := by
  rw [ofText, shapes, map_shape_scan 1 line, List.map_map]
  exact List.map_congr_left fun token _ => (ofShape_shape token).symm

theorem ofText_nil : ofText [] = [] := by
  rw [ofText, shapes_nil, List.map_nil]

end Terminal

/-- A text that shows the same whatever comes after it. -/
def Marks (text : String) (shown : List Terminal) : Prop :=
  ∀ rest, Terminal.ofText (text.toList ++ rest) =
    shown ++ Terminal.ofText rest

/-- A text that shows the same as long as what follows stands apart. -/
def Lexes (text : String) (shown : List Terminal) : Prop :=
  ∀ rest, Apart rest →
    Terminal.ofText (text.toList ++ rest) = shown ++ Terminal.ofText rest

structure Separates (text : String) (shown : List Terminal) : Prop where
  apart : ∀ rest, Apart (text.toList ++ rest)
  marks : Marks text shown

variable {s t : String} {a b : List Terminal}

theorem Marks.lexes (h : Marks s a) : Lexes s a := fun rest _ => h rest

theorem Marks.append (h : Marks s a) (h' : Marks t b) :
    Marks (s ++ t) (a ++ b) := by
  intro rest
  rw [String.toList_append, List.append_assoc, h, h', List.append_assoc]

theorem Marks.append_lexes (h : Marks s a) (h' : Lexes t b) :
    Lexes (s ++ t) (a ++ b) := by
  intro rest apart
  rw [String.toList_append, List.append_assoc, h, h' rest apart,
    List.append_assoc]

theorem Lexes.append (h : Lexes s a) (h' : Separates t b) :
    Marks (s ++ t) (a ++ b) := by
  intro rest
  rw [String.toList_append, List.append_assoc, h _ (h'.apart rest), h'.marks,
    List.append_assoc]

theorem Marks.separates {c : Char} {others : List Char} (h : Marks t b)
    (first : t.toList = c :: others) (parts : Parts c) : Separates t b := by
  refine ⟨fun rest => ?_, h⟩
  rw [first]
  exact apart_cons parts

/-! ## Words and separators -/

theorem lexes_keyword (word : Keyword) : Lexes word.text [.keyword word] := by
  intro rest apart
  rw [Terminal.ofText, shapes_keyword word apart, List.map_cons]
  rfl

theorem lexes_name {name : String} (spelt : NameText name.toList) :
    Lexes name [.name name] := by
  intro rest apart
  rw [Terminal.ofText, shapes_name spelt apart, List.map_cons,
    String.ofList_toList]
  rfl

theorem marks_operator (symbol : Operator) :
    Marks symbol.text [.operator symbol] := by
  intro rest
  rw [Terminal.ofText, shapes_operator, List.map_cons]
  rfl

theorem marks_space : Marks " " [] := by
  intro rest
  exact congrArg (List.map Terminal.ofShape) (shapes_blank (by decide) rest)

theorem marks_newline : Marks "\n" [] := by
  intro rest
  exact congrArg (List.map Terminal.ofShape) (shapes_blank (by decide) rest)

theorem separates_space : Separates " " [] :=
  marks_space.separates rfl (by decide)

theorem separates_newline : Separates "\n" [] :=
  marks_newline.separates rfl (by decide)

theorem separates_spaced (symbol : Operator) :
    Separates (" " ++ symbol.text ++ " ") [.operator symbol] := by
  have first : (" " ++ symbol.text ++ " ").toList =
      ' ' :: (symbol.text.toList ++ [' ']) := by
    rw [String.toList_append, String.toList_append]
    rfl
  exact ((marks_space.append (marks_operator symbol)).append
    marks_space).separates first (by decide)

theorem separates_comma : Separates ", " [.operator .comma] :=
  ((marks_operator .comma).append marks_space).separates rfl (by decide)

theorem separates_colon : Separates ": " [.operator .colon] :=
  ((marks_operator .colon).append marks_space).separates rfl (by decide)

theorem separates_open : Separates "(" [.operator .leftParen] :=
  (marks_operator .leftParen).separates rfl (by decide)

theorem separates_close : Separates ")" [.operator .rightParen] :=
  (marks_operator .rightParen).separates rfl (by decide)

theorem separates_for : Separates " for " [.keyword .forWhom] :=
  ((marks_space.append_lexes (lexes_keyword .forWhom)).append
    separates_space).separates rfl (by decide)

/-! ## Lists -/

theorem lexes_applied (word : Keyword) {arguments : String}
    {shown : List Terminal} (h : Lexes arguments shown) :
    Lexes (word.text ++ "(" ++ arguments ++ ")")
      (Terminal.applied word shown) := by
  have marks := ((((lexes_keyword word).append separates_open).append_lexes
    h).append separates_close)
  exact marks.lexes

theorem commaSeparated_cons_cons {first second : String}
    {others : List String} :
    commaSeparated (first :: second :: others) =
      first ++ ", " ++ commaSeparated (second :: others) :=
  String.intercalate_cons_cons

theorem lexes_commaSeparated {names : List Identifier}
    (spelt : ∀ name ∈ names, NameText name.name.toList) :
    Lexes (commaSeparated (namesOf names)) (Identifier.listYield names) := by
  induction names with
  | nil => exact fun _ _ => rfl
  | cons first others ih =>
      obtain ⟨speltFirst, speltOthers⟩ := List.forall_mem_cons.mp spelt
      cases others with
      | nil => exact lexes_name speltFirst
      | cons second others =>
          have rest := ih speltOthers
          have shown := ((lexes_name speltFirst).append
            separates_comma).append_lexes rest
          have printed : commaSeparated (namesOf (first :: second :: others)) =
              first.name ++ ", " ++
                commaSeparated (namesOf (second :: others)) :=
            commaSeparated_cons_cons
          rw [printed]
          exact shown

/-! ## Labels -/

def Named (shown : List Terminal) : Prop :=
  ∀ name, .name name ∈ shown → NameText name.toList

def Terminal.Spelt : Terminal → Prop
  | .name text => NameText text.toList
  | _ => True

instance : DecidablePred Terminal.Spelt
  | .name text => inferInstanceAs (Decidable (NameText text.toList))
  | .keyword _ | .operator _ | .stop => isTrue trivial

theorem named_iff {shown : List Terminal} :
    Named shown ↔ ∀ terminal ∈ shown, terminal.Spelt := by
  constructor
  · intro named terminal mem
    cases terminal with
    | name text => exact named text mem
    | _ => trivial
  · intro spelt name mem
    exact spelt _ mem

instance (shown : List Terminal) : Decidable (Named shown) :=
  decidable_of_iff _ named_iff.symm

@[simp] theorem named_nil : Named [] := nofun

@[simp] theorem named_append : Named (a ++ b) ↔ Named a ∧ Named b := by
  simp only [Named, List.mem_append, or_imp, forall_and]

@[simp] theorem named_cons_keyword {word : Keyword} :
    Named (.keyword word :: a) ↔ Named a := by
  simp [Named]

@[simp] theorem named_cons_operator {symbol : Operator} :
    Named (.operator symbol :: a) ↔ Named a := by
  simp [Named]

@[simp] theorem named_cons_name {name : String} :
    Named (.name name :: a) ↔ NameText name.toList ∧ Named a := by
  simp [Named, or_imp, forall_and]

@[simp] theorem named_applied {word : Keyword} :
    Named (Terminal.applied word a) ↔ Named a := by
  simp [Terminal.applied]

@[simp] theorem named_listYield {names : List Identifier} :
    Named (Identifier.listYield names) ↔
      ∀ name ∈ names, NameText name.name.toList := by
  cases names with
  | nil => simp [Identifier.listYield]
  | cons first others =>
      rw [Identifier.listYield, named_cons_name, List.forall_mem_cons]
      refine and_congr_right fun _ => ⟨fun named name mem => ?_, ?_⟩
      · refine named name.name (List.mem_flatMap.mpr ⟨name, mem, ?_⟩)
        simp
      · intro spelt text mem
        obtain ⟨name, other, shown⟩ := List.mem_flatMap.mp mem
        obtain rfl : text = name.name := by simpa using shown
        exact spelt name other

@[simp] theorem named_permittedYield {permitted : Option (List Identifier)} :
    Named (Identifier.permittedYield permitted) ↔
      ∀ names ∈ permitted, ∀ name ∈ names, NameText name.name.toList := by
  cases permitted <;> simp [Identifier.permittedYield]

theorem lexes_keyed (word : Keyword) {key : Identifier} {message : String}
    (spelt : NameText key.name.toList) (h : Lexes message a) :
    Lexes (applied word.text [key.name, message])
      (Terminal.applied word (.name key.name :: .operator .comma :: a)) := by
  have arguments := ((lexes_name spelt).append separates_comma).append_lexes h
  have printed : commaSeparated [key.name, message] =
      key.name ++ ", " ++ message := by
    simp [commaSeparated, String.intercalate_cons_cons]
  rw [applied, printed]
  exact lexes_applied word arguments

theorem Expr.lexes_label {e : Expr} (grouped : e.Grouped)
    (named : Named e.yield) : Lexes e.label e.yield := by
  induction e with
  | name identifier =>
      simp only [yield, named_cons_name] at named
      exact lexes_name named.1
  | concat left right line ihLeft ihRight =>
      obtain ⟨groupedLeft, groupedRight, single⟩ := grouped
      simp only [yield, named_append, named_cons_operator] at named
      have shown := ((ihLeft groupedLeft named.1).append
        (separates_spaced .bars)).append_lexes (ihRight groupedRight named.2)
      have printed : (concat left right line).label =
          left.label ++ " || " ++ right.label := by
        rw [label, single]
        rfl
      rw [List.append_assoc] at shown
      rw [printed]
      exact shown
  | enc key message line ih =>
      simp only [yield, named_applied, named_cons_name, named_cons_operator]
        at named
      exact lexes_keyed .enc named.1 (ih grouped named.2)
  | mac key message line ih =>
      simp only [yield, named_applied, named_cons_name, named_cons_operator]
        at named
      exact lexes_keyed .mac named.1 (ih grouped named.2)
  | sign key message line ih =>
      simp only [yield, named_applied, named_cons_name, named_cons_operator]
        at named
      exact lexes_keyed .sign named.1 (ih grouped named.2)
  | hash inner line ih =>
      simp only [yield, named_applied] at named
      have shown := lexes_applied .hash (ih grouped named)
      have printed : (hash inner line).label =
          Keyword.hash.text ++ "(" ++ inner.label ++ ")" := by
        simp [label, applied, commaSeparated, Keyword.text]
      rw [printed]
      exact shown
  | verify key message signature line ihMessage ihSignature =>
      simp only [yield, named_applied, named_cons_name, named_cons_operator,
        named_append] at named
      obtain ⟨speltKey, namedMessage, namedSignature⟩ := named
      have arguments := ((((lexes_name speltKey).append
        separates_comma).append_lexes
          (ihMessage grouped.1 namedMessage)).append
            separates_comma).append_lexes
              (ihSignature grouped.2 namedSignature)
      have shown := lexes_applied .verify arguments
      have printed : (verify key message signature line).label =
          Keyword.verify.text ++ "(" ++ (key.name ++ ", " ++ message.label ++
            ", " ++ signature.label) ++ ")" := by
        simp [label, applied, commaSeparated, Keyword.text,
          String.intercalate_cons_cons, String.append_assoc]
      rw [printed]
      simpa [yield] using shown
  | assign => cases grouped

theorem Expr.lexes_body {e : Expr} (grouped : e.GroupedBody)
    (named : Named e.yield) : Lexes e.label e.yield := by
  cases e with
  | assign target value line =>
      simp only [yield, named_cons_name, named_cons_operator] at named
      have shown := ((lexes_name named.1).append
        (separates_spaced .equals)).append_lexes (lexes_label grouped named.2)
      have printed : (assign target value line).label =
          target.name ++ " = " ++ value.label := rfl
      rw [printed]
      exact shown
  | _ => exact lexes_label grouped named

/-! ## Lines -/

theorem RoleSet.lexes_print {roles : RoleSet} (named : Named roles.yield) :
    Lexes roles.print roles.yield := by
  simp only [yield, named_cons_keyword, named_cons_operator, named_listYield]
    at named
  exact ((lexes_keyword .roles).append separates_colon).append_lexes
    (lexes_commaSeparated named)

theorem KeyDecl.lexes_print {key : KeyDecl} (named : Named key.yield) :
    Lexes key.print key.yield := by
  simp only [yield, named_cons_keyword, named_cons_name, named_listYield]
    at named
  have kind : key.kind.keyword = key.kind.word.text := by
    cases key.kind <;> rfl
  rw [print, kind]
  exact ((((lexes_keyword _).append separates_space).append_lexes
    (lexes_name named.1)).append separates_for).append_lexes
      (lexes_commaSeparated named.2)

theorem Message.lexes_print {message : Message}
    (grouped : message.body.GroupedBody) (named : Named message.yield) :
    Lexes message.print message.yield := by
  simp only [yield, named_cons_name, named_cons_operator] at named
  exact ((((lexes_name named.1).append (separates_spaced .arrow)).append_lexes
    (lexes_name named.2.1)).append separates_colon).append_lexes
      (message.body.lexes_body grouped named.2.2)

theorem Assertion.lexes_print {assertion : Assertion}
    (named : Named assertion.yield) :
    Lexes assertion.print assertion.yield := by
  simp only [yield, named_cons_keyword, named_append, named_applied,
    named_cons_name, named_permittedYield] at named
  obtain ⟨⟨speltTerm, -⟩, speltNames⟩ := named
  have claim := ((lexes_keyword .assertion).append
    separates_space).append_lexes
      (lexes_applied .secret (lexes_name speltTerm))
  obtain ⟨term, permitted, line⟩ := assertion
  cases permitted with
  | none =>
      have printed : print ⟨term, none, line⟩ =
          Keyword.assertion.text ++ " " ++
            (Keyword.secret.text ++ "(" ++ term.name ++ ")") := by
        simp [print, label, permittedNames, applied, commaSeparated,
          Keyword.text]
      rw [printed]
      simpa [yield, Identifier.permittedYield] using claim
  | some names =>
      have printed : print ⟨term, some names, line⟩ =
          Keyword.assertion.text ++ " " ++
            (Keyword.secret.text ++ "(" ++ term.name ++ ")") ++ " for " ++
              commaSeparated (namesOf names) := by
        simp [print, label, permittedNames, applied, commaSeparated,
          Keyword.text, String.append_assoc]
      have shown := (claim.append separates_for).append_lexes
        (lexes_commaSeparated (speltNames names rfl))
      rw [printed]
      simpa [yield, Identifier.permittedYield] using shown

theorem lexes_lines {lines : List (String × List Terminal)}
    (each : ∀ line ∈ lines, Lexes line.1 line.2) :
    Lexes (String.intercalate "\n" (lines.map Prod.fst))
      (lines.flatMap Prod.snd) := by
  induction lines with
  | nil => exact fun _ _ => rfl
  | cons first others ih =>
      obtain ⟨shownFirst, shownOthers⟩ := List.forall_mem_cons.mp each
      cases others with
      | nil => simpa using shownFirst
      | cons second others =>
          have shown := (shownFirst.append separates_newline).append_lexes
            (ih shownOthers)
          have printed : String.intercalate "\n"
              ((first :: second :: others).map Prod.fst) =
                first.1 ++ "\n" ++
                  String.intercalate "\n"
                    ((second :: others).map Prod.fst) :=
            String.intercalate_cons_cons
          rw [printed, List.flatMap_cons]
          simpa using shown

def Protocol.shownLines (p : Protocol) : List (String × List Terminal) :=
  (p.roles.print, p.roles.yield) ::
    (p.keys.map (fun key => (key.print, key.yield)) ++
      (p.messages.map (fun message => (message.print, message.yield)) ++
        p.assertions.map fun assertion => (assertion.print, assertion.yield)))

theorem Protocol.map_fst_shownLines (p : Protocol) :
    p.shownLines.map Prod.fst = p.printedLines := by
  simp [shownLines, printedLines, Function.comp_def]

theorem Protocol.flatMap_snd_shownLines (p : Protocol) :
    p.shownLines.flatMap Prod.snd = p.yield := by
  simp [shownLines, yield, List.flatMap_map]

theorem Named.of_mem {α : Type} {items : List α} {shown : α → List Terminal}
    {item : α} (named : Named (items.flatMap shown)) (mem : item ∈ items) :
    Named (shown item) := by
  intro name inside
  exact named name (List.mem_flatMap.mpr ⟨item, mem, inside⟩)

theorem Protocol.lexes_print {p : Protocol} (grammatical : p.Grammatical)
    (named : Named p.yield) : Lexes p.print p.yield := by
  simp only [yield, named_append] at named
  obtain ⟨namedRoles, namedKeys, namedMessages, namedAssertions⟩ := named
  rw [print, ← map_fst_shownLines, ← flatMap_snd_shownLines]
  refine lexes_lines fun line mem => ?_
  simp only [shownLines, List.mem_cons, List.mem_append, List.mem_map] at mem
  rcases mem with rfl | ⟨key, mem, rfl⟩ | ⟨message, mem, rfl⟩ |
    ⟨assertion, mem, rfl⟩
  · exact p.roles.lexes_print namedRoles
  · exact key.lexes_print (namedKeys.of_mem mem)
  · exact message.lexes_print (grammatical.messages message mem).grouped
      (namedMessages.of_mem mem)
  · exact assertion.lexes_print (namedAssertions.of_mem mem)

end Secrecy
