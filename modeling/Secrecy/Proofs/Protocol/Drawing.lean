import Secrecy.Proofs.Outline
import Secrecy.Proofs.Source
import Secrecy.Protocol.Drawing

/-!
# Drawings of protocols

The names of a text hold no line boundary, so a drawing has a line for every
node.  What is drawn of a declaration or an assertion is in the notation
itself, from which the names can be read again, and the tree below a message is
that of its body.  So the drawing of a text's protocol lacks nothing but lines.
-/

namespace Secrecy

open Text Token

/-! ## Labels on one line -/

theorem oneLine_of_nameText {name : String} (spelt : NameText name.toList) :
    OneLine name := by
  have blank : lineBoundaries.all isBlank = true := by decide
  rw [List.all_eq_true] at blank
  intro c mem boundary
  have inked := spelt.inked c mem
  simp [blank c boundary] at inked

theorem oneLine_commaSeparated {items : List String}
    (each : ∀ item ∈ items, OneLine item) : OneLine (commaSeparated items) :=
  oneLine_intercalate (by decide) each

theorem oneLine_applied {function : String} {arguments : List String}
    (here : OneLine function) (each : ∀ item ∈ arguments, OneLine item) :
    OneLine (applied function arguments) := by
  have brackets : OneLine "(" ∧ OneLine ")" := by decide
  simp [applied, here, oneLine_commaSeparated each, brackets]

namespace Outline

theorem each_leaf {good : String → Prop} {label : String} (here : good label) :
    Each good (.node label []) :=
  .node label [] here (List.forall_mem_nil _)

end Outline

open Outline

theorem Identifier.each_outline {identifier : Identifier}
    (spelt : NameText identifier.name.toList) :
    Each OneLine identifier.outline :=
  each_leaf (oneLine_applied (by decide) (by simp [oneLine_of_nameText spelt]))

namespace Expr

theorem oneLine_label {e : Expr} (named : Named e.yield) :
    OneLine e.label := by
  induction e with
  | name identifier =>
      simp only [yield, named_cons_name] at named
      exact oneLine_of_nameText named.1
  | concat left right line ihLeft ihRight =>
      simp only [yield, named_append, named_cons_operator] at named
      have marks : OneLine " || " ∧ OneLine "(" ∧ OneLine ")" := by decide
      rw [label]
      split <;> simp [ihLeft named.1, ihRight named.2, marks]
  | enc key message line ih | mac key message line ih
  | sign key message line ih =>
      simp only [yield, named_applied, named_cons_name, named_cons_operator]
        at named
      exact oneLine_applied (by decide)
        (by simp [oneLine_of_nameText named.1, ih named.2])
  | hash inner line ih =>
      simp only [yield, named_applied] at named
      exact oneLine_applied (by decide) (by simp [ih named])
  | verify key message signature line ihMessage ihSignature =>
      simp only [yield, named_applied, named_cons_name, named_cons_operator,
        named_append] at named
      exact oneLine_applied (by decide)
        (by simp [oneLine_of_nameText named.1, ihMessage named.2.1,
          ihSignature named.2.2])
  | assign target value line ih =>
      simp only [yield, named_cons_name, named_cons_operator] at named
      have equals : OneLine " = " := by decide
      simp [label, oneLine_of_nameText named.1, ih named.2, equals]

theorem each_outline {e : Expr} (named : Named e.yield) :
    Each OneLine e.outline := by
  have shown := oneLine_label named
  induction e with
  | name identifier =>
      simp only [yield, named_cons_name] at named
      exact identifier.each_outline named.1
  | concat left right line ihLeft ihRight =>
      simp only [yield, named_append, named_cons_operator] at named
      refine .node _ _ (by decide) ?_
      simp [ihLeft named.1 (oneLine_label named.1),
        ihRight named.2 (oneLine_label named.2)]
  | enc key message line ih | mac key message line ih
  | sign key message line ih =>
      simp only [yield, named_applied, named_cons_name, named_cons_operator]
        at named
      refine .node _ _ shown ?_
      simp [key.each_outline named.1, ih named.2 (oneLine_label named.2)]
  | hash inner line ih =>
      simp only [yield, named_applied] at named
      refine .node _ _ shown ?_
      simp [ih named (oneLine_label named)]
  | verify key message signature line ihMessage ihSignature =>
      simp only [yield, named_applied, named_cons_name, named_cons_operator,
        named_append] at named
      refine .node _ _ shown ?_
      simp [key.each_outline named.1,
        ihMessage named.2.1 (oneLine_label named.2.1),
        ihSignature named.2.2 (oneLine_label named.2.2)]
  | assign target value line ih =>
      simp only [yield, named_cons_name, named_cons_operator] at named
      have marks : OneLine "Assign(" ∧ OneLine " = ...)" := by decide
      refine .node _ _ (by simp [oneLine_of_nameText named.1, marks]) ?_
      simp [target.each_outline named.1, ih named.2 (oneLine_label named.2)]

end Expr

theorem oneLine_names {identifiers : List Identifier}
    (spelt : ∀ name ∈ identifiers, NameText name.name.toList) :
    OneLine (commaSeparated (namesOf identifiers)) := by
  refine oneLine_commaSeparated ?_
  simp only [namesOf, List.forall_mem_map]
  exact fun identifier mem => oneLine_of_nameText (spelt identifier mem)

theorem RoleSet.each_outline {roles : RoleSet} (named : Named roles.yield) :
    Each OneLine roles.outline := by
  simp only [yield, named_cons_keyword, named_cons_operator, named_listYield]
    at named
  have marks : OneLine "Roles: [" ∧ OneLine "]" := by decide
  exact each_leaf (by simp [oneLine_names named, marks])

theorem KeyDecl.each_outline {key : KeyDecl} (named : Named key.yield) :
    Each OneLine key.outline := by
  simp only [yield, named_cons_keyword, named_cons_name, named_listYield]
    at named
  have marks : OneLine "Key(" ∧ OneLine " " ∧ OneLine " for " ∧ OneLine ")" := by
    decide
  have kind : OneLine key.kind.keyword := by cases key.kind <;> decide
  exact each_leaf (by
    simp [ownerNames, oneLine_of_nameText named.1, oneLine_names named.2, kind,
      marks])

theorem Message.each_outline {message : Message}
    (named : Named message.yield) : Each OneLine message.outline := by
  simp only [yield, named_cons_name, named_cons_operator] at named
  have marks : OneLine "MessageSend(" ∧ OneLine " -> " ∧ OneLine ")" := by
    decide
  refine .node _ _ ?_ ?_
  · simp [oneLine_of_nameText named.1, oneLine_of_nameText named.2.1, marks]
  · simp [message.body.each_outline named.2.2]

theorem Assertion.each_outline {assertion : Assertion}
    (named : Named assertion.yield) : Each OneLine assertion.outline := by
  simp only [yield, named_cons_keyword, named_append, named_applied,
    named_cons_name, named_permittedYield] at named
  have marks : OneLine "Assert " ∧ OneLine " for " := by decide
  have claim : OneLine (applied "secret" [assertion.term.name]) :=
    oneLine_applied (by decide) (by simp [oneLine_of_nameText named.1.1])
  refine each_leaf ?_
  unfold label permittedNames
  cases permitted : assertion.permitted with
  | none => simp [claim, marks]
  | some names =>
      simp [claim, marks, oneLine_names (named.2 names permitted)]

theorem Protocol.each_outline {p : Protocol} (named : Named p.yield) :
    Each OneLine p.outline := by
  simp only [yield, named_append] at named
  refine .node _ _ (by decide) fun part mem => ?_
  simp only [parts, List.mem_cons, List.mem_append, List.mem_map] at mem
  rcases mem with rfl | (⟨key, mem, rfl⟩ | ⟨message, mem, rfl⟩) |
    ⟨assertion, mem, rfl⟩
  · exact p.roles.each_outline named.1
  · exact key.each_outline (named.2.1.of_mem mem)
  · exact message.each_outline (named.2.2.1.of_mem mem)
  · exact assertion.each_outline (named.2.2.2.of_mem mem)

/-! ## What a label tells -/

theorem Identifier.outline_eq_iff {a b : Identifier} :
    a.outline = b.outline ↔ a.name = b.name := by
  simp [outline, applied, commaSeparated]

theorem keyed_outline_inj {label label' : String} {key key' : Identifier}
    {below below' : List Outline}
    (same : Outline.node label (key.outline :: below) =
      .node label' (key'.outline :: below')) :
    key.forgetLines = key'.forgetLines ∧ below = below' := by
  simp only [Outline.node.injEq, List.cons.injEq,
    Identifier.outline_eq_iff] at same
  exact ⟨Identifier.forgetLines_eq_iff.mpr same.2.1, same.2.2⟩

namespace Expr

def initial : Expr → Char
  | .name _ => 'I'
  | .concat .. => 'C'
  | .enc .. => 'E'
  | .mac .. => 'M'
  | .hash .. => 'H'
  | .sign .. => 'S'
  | .verify .. => 'V'
  | .assign .. => 'A'

theorem head?_label_outline (e : Expr) :
    e.outline.label.toList.head? = some e.initial := by
  cases e <;>
    simp [outline, Identifier.outline, Outline.label, label, applied, initial]

@[simp] theorem outline_forgetLines (e : Expr) :
    e.forgetLines.outline = e.outline := by
  induction e with
  | name => rfl
  | concat left right line ihLeft ihRight =>
      simp [forgetLines, outline, ihLeft, ihRight]
  | enc key message line ih | mac key message line ih
  | sign key message line ih =>
      simp [forgetLines, outline, label, ih, Identifier.outline]
  | hash inner line ih => simp [forgetLines, outline, label, ih]
  | verify key message signature line ihMessage ihSignature =>
      simp [forgetLines, outline, label, ihMessage, ihSignature,
        Identifier.outline]
  | assign target value line ih =>
      simp [forgetLines, outline, ih, Identifier.outline]

theorem initial_eq {e e' : Expr} (same : e.outline = e'.outline) :
    e.initial = e'.initial := by
  rw [← Option.some_inj, ← head?_label_outline, same, head?_label_outline]

theorem outline_inj {e e' : Expr} (same : e.outline = e'.outline) :
    e.forgetLines = e'.forgetLines := by
  induction e generalizing e' with
  | name identifier =>
      -- The labels of all other constructors begin with another character.
      have begins := initial_eq same
      cases e' <;> simp [initial] at begins
      have names := Identifier.outline_eq_iff.mp same
      rw [forgetLines, Identifier.forgetLines_eq_iff.mpr names, forgetLines]
  | concat left right line ihLeft ihRight =>
      have begins := initial_eq same
      cases e' <;> simp [initial] at begins
      simp only [outline, Outline.node.injEq, List.cons.injEq] at same
      rw [forgetLines, ihLeft same.2.1, ihRight same.2.2.1, forgetLines]
  | enc key message line ih | mac key message line ih
  | sign key message line ih | assign key message line ih =>
      have begins := initial_eq same
      cases e' <;> simp [initial] at begins
      have parts := keyed_outline_inj same
      rw [forgetLines, parts.1, ih (List.cons.inj parts.2).1, forgetLines]
  | hash inner line ih =>
      have begins := initial_eq same
      cases e' <;> simp [initial] at begins
      simp only [outline, Outline.node.injEq, List.cons.injEq] at same
      rw [forgetLines, ih same.2.1, forgetLines]
  | verify key message signature line ihMessage ihSignature =>
      have begins := initial_eq same
      cases e' <;> simp [initial] at begins
      have parts := keyed_outline_inj same
      simp only [List.cons.injEq] at parts
      rw [forgetLines, parts.1, ihMessage parts.2.1, ihSignature parts.2.2.1,
        forgetLines]

end Expr

@[simp] theorem RoleSet.outline_forgetLines (roles : RoleSet) :
    roles.forgetLines.outline = roles.outline := by
  simp [forgetLines, outline]

@[simp] theorem KeyDecl.outline_forgetLines (key : KeyDecl) :
    key.forgetLines.outline = key.outline := by
  simp [outline]

@[simp] theorem Message.outline_forgetLines (message : Message) :
    message.forgetLines.outline = message.outline := by
  simp [outline]

@[simp] theorem Assertion.outline_forgetLines (assertion : Assertion) :
    assertion.forgetLines.outline = assertion.outline := by
  simp [outline]

/-! ## Labels in the notation -/

theorem Lexes.unique {text : String} {a b : List Terminal}
    (lexes : Lexes text a) (lexes' : Lexes text b) : a = b := by
  have shown := (lexes [] apart_nil).symm.trans (lexes' [] apart_nil)
  rwa [Terminal.ofText_nil, List.append_nil, List.append_nil] at shown

theorem RoleSet.yield_eq_of_outline_eq {a b : RoleSet} (named : Named a.yield)
    (named' : Named b.yield) (same : a.outline = b.outline) :
    a.yield = b.yield := by
  simp only [yield, named_cons_keyword, named_cons_operator, named_listYield]
    at named named'
  simp only [outline, Outline.node.injEq, String.append_right_inj,
    String.append_left_inj] at same
  have lexes := lexes_commaSeparated named
  rw [same.1] at lexes
  rw [yield, lexes.unique (lexes_commaSeparated named'), yield]

theorem KeyDecl.yield_eq_of_outline_eq {a b : KeyDecl} (named : Named a.yield)
    (named' : Named b.yield) (same : a.outline = b.outline) :
    a.yield = b.yield := by
  have printed (key : KeyDecl) :
      key.outline = .node ("Key(" ++ key.print ++ ")") [] := by
    simp [outline, print, String.append_assoc]
  rw [printed, printed, Outline.node.injEq, String.append_left_inj,
    String.append_right_inj] at same
  have lexes := a.lexes_print named
  rw [same.1] at lexes
  exact lexes.unique (b.lexes_print named')

theorem Message.lexes_endpoints {message : Message}
    (named : Named message.yield) :
    Lexes (message.sender.name ++ " -> " ++ message.receiver.name)
      [.name message.sender.name, .operator .arrow,
        .name message.receiver.name] := by
  simp only [yield, named_cons_name, named_cons_operator] at named
  exact ((lexes_name named.1).append (separates_spaced .arrow)).append_lexes
    (lexes_name named.2.1)

theorem Message.yield_eq_of_outline_eq {a b : Message} (named : Named a.yield)
    (named' : Named b.yield) (same : a.outline = b.outline) :
    a.yield = b.yield := by
  have printed (message : Message) : message.outline =
      .node ("MessageSend(" ++ (message.sender.name ++ " -> " ++
        message.receiver.name) ++ ")") [message.body.outline] := by
    simp [outline, String.append_assoc]
  rw [printed, printed, Outline.node.injEq, String.append_left_inj,
    String.append_right_inj, List.cons.injEq] at same
  have lexes := a.lexes_endpoints named
  rw [same.1] at lexes
  have endpoints := lexes.unique (b.lexes_endpoints named')
  have bodies := congrArg Expr.yield (Expr.outline_inj same.2.1)
  rw [Expr.yield_forgetLines, Expr.yield_forgetLines] at bodies
  simp only [List.cons.injEq, Terminal.name.injEq] at endpoints
  rw [yield, endpoints.1, endpoints.2.2.1, bodies, yield]

theorem Assertion.yield_eq_of_outline_eq {a b : Assertion}
    (named : Named a.yield) (named' : Named b.yield)
    (same : a.outline = b.outline) : a.yield = b.yield := by
  rw [outline, outline, Outline.node.injEq, String.append_right_inj] at same
  have lexes := a.lexes_print named
  rw [print, same.1, ← print] at lexes
  exact lexes.unique (b.lexes_print named')

/-! ## Protocols -/

def Outline.rank (outline : Outline) : Nat :=
  match outline.label.toList.head? with
  | some 'M' => 1
  | some 'A' => 2
  | _ => 0

namespace Protocol

variable {p q : Protocol}

theorem ranked_outlines (p : Protocol) :
    Ranked Outline.rank (p.keys.map KeyDecl.outline)
      (p.messages.map Message.outline)
      (p.assertions.map Assertion.outline) where
  first := by
    rw [List.forall_mem_map]
    simp [Outline.rank, KeyDecl.outline, Outline.label]
  second := by
    rw [List.forall_mem_map]
    simp [Outline.rank, Message.outline, Outline.label]
  third := by
    rw [List.forall_mem_map]
    simp [Outline.rank, Assertion.outline, Outline.label]

theorem yield_eq_of_outline_eq (named : Named p.yield) (named' : Named q.yield)
    (same : p.outline = q.outline) : p.yield = q.yield := by
  simp only [yield, named_append] at named named'
  rw [outline, outline, Outline.node.injEq, parts, parts,
    List.cons.injEq] at same
  have rows := p.ranked_outlines.append_inj q.ranked_outlines same.2.2
  have roles := RoleSet.yield_eq_of_outline_eq named.1 named'.1 same.2.1
  have keys := map_eq_map_of rows.1 fun a mem b mem' =>
    KeyDecl.yield_eq_of_outline_eq (named.2.1.of_mem mem)
      (named'.2.1.of_mem mem')
  have messages := map_eq_map_of rows.2.1 fun a mem b mem' =>
    Message.yield_eq_of_outline_eq (named.2.2.1.of_mem mem)
      (named'.2.2.1.of_mem mem')
  have assertions := map_eq_map_of rows.2.2 fun a mem b mem' =>
    Assertion.yield_eq_of_outline_eq (named.2.2.2.of_mem mem)
      (named'.2.2.2.of_mem mem')
  rw [yield, roles, List.flatMap_def, keys, List.flatMap_def, messages,
    List.flatMap_def, assertions, yield, List.flatMap_def, List.flatMap_def,
    List.flatMap_def]

@[simp] theorem outline_forgetLines (p : Protocol) :
    p.forgetLines.outline = p.outline := by
  simp [outline, parts, forgetLines, Function.comp_def]

theorem Alike.outline_eq (alike : p.Alike q) : p.outline = q.outline := by
  rw [← outline_forgetLines p, alike, outline_forgetLines]

/-- The drawing of what was read shows every node on a line of its own, and all
but the lines that the names stood on. -/
theorem draw_faithful {text text' : String} {check check' : Bool}
    (read : ofSource text check = .ok p)
    (read' : ofSource text' check' = .ok q) :
    (∃ order, p.outline.DrawnAs p.outline.draw order) ∧
      (p.outline.draw = q.outline.draw ↔ p.Alike q) := by
  have writable := writable_of_ofText (ofSource_eq_ok.mp read).1
  have writable' := writable_of_ofText (ofSource_eq_ok.mp read').1
  have each := p.each_outline writable.2
  have each' := q.each_outline writable'.2
  refine ⟨⟨_, drawnAs_places each⟩, fun same => ?_, fun alike => ?_⟩
  · have outlines := draw_inj each each' same
    have yields := yield_eq_of_outline_eq writable.2 writable'.2 outlines
    exact alike_of_yield_eq writable.1 writable'.1 yields
  · rw [alike.outline_eq]

theorem draw_faithful_errand :
    ∃ p q, ofSource errandText true = .ok p ∧
      ofSource (errandText ++ "\n") false = .ok q ∧
      (∃ order, p.outline.DrawnAs p.outline.draw order) ∧
      p.outline.draw = q.outline.draw := by
  obtain ⟨p, read, alike⟩ := exists_ofSource_errandText true
  have printed := exists_ofSource_print grammatical_errand named_errand
    wellScoped_errand (List.mem_cons_of_mem _ List.mem_cons_self) false
  rw [print_errand] at printed
  obtain ⟨q, read', alike'⟩ := printed
  have faithful := draw_faithful read read'
  exact ⟨p, q, read, read', faithful.1,
    faithful.2.mpr (alike.trans alike'.symm)⟩

end Protocol

end Secrecy
