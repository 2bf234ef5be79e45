import Mathlib.Data.List.Basic
import Secrecy.Proofs.Source
import Secrecy.Protocol.Mentions

/-!
# The names of a text and of its protocol

The names of a yield are those of the tokens that it stands for.  A protocol is
not asked for its names in that order, for it leaves out owners, endpoints and
permitted roles; once names resolve those are declared roles, and all roles
have come before.
-/

namespace Secrecy

def Terminal.name? : Terminal → Option String
  | .name text => some text
  | _ => none

def Terminal.names (terminals : List Terminal) : List String :=
  terminals.filterMap name?

def Token.names (tokens : List Token) : List String :=
  (tokens.filter (·.kind = .name)).map Token.text

open Terminal (names)

/-! ## Yields -/

namespace Terminal

@[simp] theorem names_nil : names [] = [] := rfl

@[simp] theorem names_name (text : String) (rest : List Terminal) :
    names (.name text :: rest) = text :: names rest :=
  rfl

@[simp] theorem names_keyword (word : Keyword) (rest : List Terminal) :
    names (.keyword word :: rest) = names rest :=
  rfl

@[simp] theorem names_operator (symbol : Operator) (rest : List Terminal) :
    names (.operator symbol :: rest) = names rest :=
  rfl

@[simp] theorem names_stop (rest : List Terminal) :
    names (.stop :: rest) = names rest :=
  rfl

@[simp] theorem names_append (terminals others : List Terminal) :
    names (terminals ++ others) = names terminals ++ names others :=
  List.filterMap_append

@[simp] theorem names_flatMap {α : Type} (items : List α)
    (yield : α → List Terminal) :
    names (items.flatMap yield) = items.flatMap (names ∘ yield) :=
  List.filterMap_flatMap

@[simp] theorem names_applied (word : Keyword) (arguments : List Terminal) :
    names (applied word arguments) = names arguments := by
  simp [applied]

end Terminal

@[simp] theorem Expr.names_yield (e : Expr) :
    names e.yield = e.occurrences := by
  induction e with
  | name => rfl
  | concat left right line ihLeft ihRight =>
      simp [yield, occurrences, ihLeft, ihRight]
  | enc key message line ih | mac key message line ih
  | sign key message line ih | assign key message line ih =>
      simp [yield, occurrences, ih]
  | hash inner line ih => simp [yield, occurrences, ih]
  | verify key message signature line ihMessage ihSignature =>
      simp [yield, occurrences, ihMessage, ihSignature]

@[simp] theorem Identifier.names_listYield (identifiers : List Identifier) :
    names (listYield identifiers) = namesOf identifiers := by
  cases identifiers with
  | nil => rfl
  | cons first others =>
      simp only [listYield, Terminal.names_name, Terminal.names_flatMap,
        namesOf, List.map_eq_flatMap]
      rfl

theorem KeyDecl.names_yield (key : KeyDecl) :
    names key.yield = key.name.name :: key.ownerNames := by
  simp [yield, ownerNames]

theorem Message.names_yield (message : Message) :
    names message.yield =
      message.sender.name :: message.receiver.name ::
        message.body.occurrences := by
  simp [yield]

theorem Assertion.names_yield (assertion : Assertion) :
    names assertion.yield =
      assertion.term.name :: assertion.permittedNames.getD [] := by
  obtain ⟨term, permitted, line⟩ := assertion
  cases permitted <;>
    simp [yield, permittedNames, Identifier.permittedYield]

/-! ## Tokens -/

theorem Token.names_map_terminal (tokens : List Token) :
    Terminal.names (tokens.map terminal) = names tokens := by
  induction tokens with
  | nil => rfl
  | cons token tokens ih =>
      rw [List.map_cons]
      cases kind : token.kind with
      | name =>
          have shown : token.terminal = .name token.text :=
            terminal_eq_name.mpr ⟨kind, rfl⟩
          rw [shown, Terminal.names_name, ih]
          simp [names, kind]
      | keyword word =>
          rw [terminal_eq_keyword.mpr kind, Terminal.names_keyword, ih]
          simp [names, kind]
      | operator symbol =>
          rw [terminal_eq_operator.mpr kind, Terminal.names_operator, ih]
          simp [names, kind]
      | stop =>
          rw [terminal_eq_stop.mpr kind, Terminal.names_stop, ih]
          simp [names, kind]

namespace Protocol

open Grammar

variable {text : String} {p : Protocol}

/-- A text names what its protocol does, and in the same order. -/
theorem names_yield_of_ofText (h : ofText text = .ok p) :
    Token.names (Token.tokenise text) = names p.yield := by
  rw [← (spelt_of_ofText h).1, Token.names_map_terminal]
  simp [Token.names, Token.tokenise, Token.endOfInput]

theorem names_yield (p : Protocol) :
    names p.yield = p.roleNames ++
      (p.keys.flatMap (fun key => key.name.name :: key.ownerNames) ++
        (p.messages.flatMap (fun message => message.sender.name ::
          message.receiver.name :: message.body.occurrences) ++
        p.assertions.flatMap fun assertion => assertion.term.name ::
          assertion.permittedNames.getD [])) := by
  have roles : names p.roles.yield = p.roleNames := by
    simp [RoleSet.yield, roleNames]
  simp [yield, roles, Function.comp_def, KeyDecl.names_yield,
    Message.names_yield, Assertion.names_yield]

/-! ## Names that are no roles -/

def beyondRoles (p : Protocol) (names : List String) : List String :=
  names.filter (· ∉ p.roleNames)

theorem beyondRoles_append (names others : List String) :
    p.beyondRoles (names ++ others) =
      p.beyondRoles names ++ p.beyondRoles others :=
  List.filter_append _ _

theorem beyondRoles_of_subset {names : List String}
    (declared : names ⊆ p.roleNames) : p.beyondRoles names = [] := by
  rw [beyondRoles, List.filter_eq_nil_iff]
  intro name mem
  simpa using declared mem

theorem beyondRoles_flatMap_congr {α : Type} {items : List α}
    {f g : α → List String}
    (same : ∀ item ∈ items, p.beyondRoles (f item) = p.beyondRoles (g item)) :
    p.beyondRoles (items.flatMap f) = p.beyondRoles (items.flatMap g) := by
  unfold beyondRoles at same ⊢
  rw [List.filter_flatMap, List.filter_flatMap]
  exact List.flatMap_congr same

namespace WellScoped

theorem beyondRoles_keys (wellScoped : p.WellScoped) :
    p.beyondRoles p.keyNames = p.beyondRoles
      (p.keys.flatMap fun key => key.name.name :: key.ownerNames) := by
  rw [keyNames, List.map_eq_flatMap]
  refine beyondRoles_flatMap_congr fun key mem => ?_
  rw [← List.singleton_append (l := key.ownerNames), beyondRoles_append,
    beyondRoles_of_subset (wellScoped.owners key mem), List.append_nil]

theorem beyondRoles_bodies (wellScoped : p.WellScoped) :
    p.beyondRoles (p.messages.flatMap (·.body.occurrences)) =
      p.beyondRoles (p.messages.flatMap fun message => message.sender.name ::
        message.receiver.name :: message.body.occurrences) := by
  refine beyondRoles_flatMap_congr fun message mem => ?_
  obtain ⟨sender, receiver⟩ := wellScoped.endpoints message mem
  simp [beyondRoles, sender, receiver]

theorem beyondRoles_terms (wellScoped : p.WellScoped) :
    p.beyondRoles (p.assertions.map (·.term.name)) = p.beyondRoles
      (p.assertions.flatMap fun assertion => assertion.term.name ::
        assertion.permittedNames.getD []) := by
  rw [List.map_eq_flatMap]
  refine beyondRoles_flatMap_congr fun assertion mem => ?_
  have permitted : assertion.permittedNames.getD [] ⊆ p.roleNames := by
    cases h : assertion.permittedNames with
    | none => exact List.nil_subset _
    | some names => exact wellScoped.permitted assertion mem names h
  rw [← List.singleton_append (l := assertion.permittedNames.getD []),
    beyondRoles_append, beyondRoles_of_subset permitted, List.append_nil]

/-- All that is left out of the names of a protocol are roles. -/
theorem mentions_eq (wellScoped : p.WellScoped) :
    p.mentions = (names p.yield).eraseDups := by
  rw [← distinct_eq_eraseDups, names_yield, mentions]
  simp only [List.append_assoc]
  refine distinct_append_congr ?_
  change p.beyondRoles _ = p.beyondRoles _
  simp only [beyondRoles_append, wellScoped.beyondRoles_keys,
    wellScoped.beyondRoles_bodies, wellScoped.beyondRoles_terms]

end WellScoped

/-- No name is lost, invented or moved between a text and its protocol. -/
theorem ofSource_mentions (h : ofSource text true = .ok p) :
    p.mentions = (Token.names (Token.tokenise text)).eraseDups := by
  obtain ⟨read, wellScoped⟩ := ofSource_eq_ok.mp h
  rw [(wellScoped rfl).mentions_eq, names_yield_of_ofText read]

theorem ofSource_mentions_errand :
    ∃ p, ofSource errandText true = .ok p ∧
      p.mentions = ["A", "B", "k", "c", "-", "|"] ∧
      (Token.names (Token.tokenise errandText)).eraseDups = p.mentions := by
  obtain ⟨p, h, alike⟩ := exists_ofSource_errandText true
  refine ⟨p, h, ?_, (ofSource_mentions h).symm⟩
  rw [← mentions_forgetLines, alike, mentions_forgetLines]
  decide

end Protocol

end Secrecy
