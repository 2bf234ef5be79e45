import Mathlib.Data.List.Lex
import Secrecy.Outline
import Secrecy.Proofs.Rows
import Secrecy.Proofs.Text.Lines

/-!
# Outlines and their drawings

A node is found by its place, the numbers of the children on the way from the
root to it.  The drawing goes through all places in ascending order, which is
that of a preorder walk, and each line shows by its columns where its node
stands.  So the lines give back the outline whatever its labels are.
-/

namespace Secrecy.Outline

/-! ## Places -/

def label : Outline → String
  | .node label _ => label

def at? : Outline → List Nat → Option Outline
  | outline, [] => some outline
  | .node _ children, index :: place =>
      (children[index]?).bind fun child => child.at? place

/-- The root is a last child, and so is any other node without a next sibling. -/
def isLast (outline : Outline) (place : List Nat) : Bool :=
  match place.getLast? with
  | none => true
  | some index => (outline.at? (place.dropLast ++ [index + 1])).isNone

mutual

def places : Outline → List (List Nat)
  | .node _ children => [] :: placesFrom 0 children

/-- The places in siblings of which the first has the given number. -/
def placesFrom (index : Nat) : List Outline → List (List Nat)
  | [] => []
  | child :: rest =>
      child.places.map (index :: ·) ++ placesFrom (index + 1) rest

end

theorem at?_append (outline : Outline) (place below : List Nat) :
    outline.at? (place ++ below) =
      (outline.at? place).bind fun node => node.at? below := by
  induction place generalizing outline with
  | nil => rfl
  | cons index place ih =>
      obtain ⟨label, children⟩ := outline
      rw [List.cons_append, at?, at?, Option.bind_assoc]
      congr 1
      funext child
      exact ih child

theorem isLast_concat (outline : Outline) (place : List Nat) (index : Nat) :
    outline.isLast (place ++ [index]) =
      (outline.at? (place ++ [index + 1])).isNone := by
  simp [isLast]

mutual

theorem mem_places (outline : Outline) (place : List Nat) :
    place ∈ outline.places ↔ (outline.at? place).isSome := by
  obtain ⟨label, children⟩ := outline
  rw [places, List.mem_cons, mem_placesFrom 0 children]
  cases place with
  | nil => simp [at?]
  | cons index place =>
      rw [at?]
      cases found : children[index]? with
      | none => simp [found]
      | some child => simp [found]

theorem mem_placesFrom (index : Nat) (children : List Outline)
    (place : List Nat) :
    place ∈ placesFrom index children ↔ ∃ offset below child,
      place = (index + offset) :: below ∧ children[offset]? = some child ∧
        (child.at? below).isSome := by
  match children with
  | [] => simp [placesFrom]
  | first :: rest =>
      rw [placesFrom, List.mem_append, mem_placesFrom (index + 1) rest]
      simp only [List.mem_map, mem_places first]
      constructor
      · rintro (⟨below, there, rfl⟩ | ⟨offset, below, child, rfl, found, there⟩)
        · exact ⟨0, below, first, rfl, rfl, there⟩
        · refine ⟨offset + 1, below, child, ?_, found, there⟩
          rw [Nat.add_assoc, Nat.add_comm 1]
      · rintro ⟨offset, below, child, rfl, found, there⟩
        cases offset with
        | zero =>
            rw [List.getElem?_cons_zero, Option.some.injEq] at found
            exact .inl ⟨below, found ▸ there, rfl⟩
        | succ offset =>
            refine .inr ⟨offset, below, child, ?_, found, there⟩
            rw [Nat.add_assoc, Nat.add_comm 1]

end

mutual

/-- A node stands before what is below it, and that before its next sibling. -/
theorem ascending_places (outline : Outline) :
    outline.places.Pairwise (· < ·) := by
  obtain ⟨label, children⟩ := outline
  rw [places, List.pairwise_cons]
  refine ⟨fun place mem => ?_, ascending_placesFrom 0 children⟩
  obtain ⟨offset, below, child, rfl, -⟩ := (mem_placesFrom _ _ _).mp mem
  exact List.nil_lt_cons _ _

theorem ascending_placesFrom (index : Nat) (children : List Outline) :
    (placesFrom index children).Pairwise (· < ·) := by
  match children with
  | [] => exact List.Pairwise.nil
  | first :: rest =>
      rw [placesFrom, List.pairwise_append]
      refine ⟨?_, ascending_placesFrom (index + 1) rest, ?_⟩
      · rw [List.pairwise_map]
        refine (ascending_places first).imp fun less => ?_
        exact List.cons_lt_cons_iff.mpr (.inr ⟨rfl, less⟩)
      · intro place mem place' mem'
        obtain ⟨below, -, rfl⟩ := List.mem_map.mp mem
        obtain ⟨offset, below', child, rfl, -⟩ := (mem_placesFrom _ _ _).mp mem'
        exact List.cons_lt_cons_iff.mpr (.inl (by omega))

end

/-! ## Lines -/

/-- One column for each ancestor of a place, from the root down. -/
def margin (outline : Outline) (place : List Nat) : String :=
  String.join ((List.range place.length).map fun depth =>
    if outline.isLast (place.take depth) then "   " else "│  ")

def lineAt (outline : Outline) (place : List Nat) : String :=
  outline.margin place ++ (if outline.isLast place then "└─ " else "├─ ") ++
    ((outline.at? place).map label).getD ""

/-- The nodes of an outline in preorder, with a line for each and no other. -/
structure DrawnAs (outline : Outline) (text : String)
    (order : List (List Nat)) : Prop where
  complete : ∀ place, place ∈ order ↔ (outline.at? place).isSome
  preorder : order.Pairwise (· < ·)
  text_eq : text = Text.unlines (order.map outline.lineAt)
  lines_eq : Text.linesOf text = order.map outline.lineAt

theorem margin_concat (outline : Outline) (place : List Nat) (index : Nat) :
    outline.margin (place ++ [index]) =
      outline.margin place ++ column (outline.isLast place) := by
  have earlier : ∀ depth ∈ List.range place.length,
      (place ++ [index]).take depth = place.take depth := by
    intro depth mem
    rw [List.mem_range] at mem
    exact List.take_append_of_le_length (by omega)
  rw [margin, List.length_append, List.length_singleton, List.range_succ,
    List.map_append, List.map_singleton, List.take_left, margin, column,
    List.map_congr_left fun depth mem => by rw [earlier depth mem]]
  simp

mutual

theorem linesUnder_eq (whole : Outline) (here : List Nat) (part : Outline)
    (found : whole.at? here = some part) :
    linesUnder (whole.margin here) (whole.isLast here) part =
      part.places.map fun place => whole.lineAt (here ++ place) := by
  match part with
  | .node label children =>
      rw [linesUnder, places, List.map_cons, List.append_nil, lineAt, found]
      congr 1
      exact childLines_eq whole here label [] children found

theorem childLines_eq (whole : Outline) (here : List Nat) (label : String)
    (before rest : List Outline)
    (found : whole.at? here = some (.node label (before ++ rest))) :
    childLines (whole.margin here ++ column (whole.isLast here)) rest =
      (placesFrom before.length rest).map fun place =>
        whole.lineAt (here ++ place) := by
  match rest with
  | [] => rfl
  | child :: rest =>
      have sibling (index : Nat) : whole.at? (here ++ [index]) =
          (before ++ child :: rest)[index]? := by
        rw [at?_append, found]
        simp [at?]
      have first : whole.at? (here ++ [before.length]) = some child := by
        simp [sibling]
      have last : whole.isLast (here ++ [before.length]) = rest.isEmpty := by
        rw [isLast_concat, sibling, List.getElem?_append_right (by omega)]
        cases rest <;> simp
      have lines := linesUnder_eq whole _ child first
      have others := childLines_eq whole here label (before ++ [child]) rest
        (by simpa using found)
      rw [margin_concat, last] at lines
      rw [List.length_append, List.length_singleton] at others
      rw [childLines, lines, others, placesFrom, List.map_append, List.map_map]
      simp [Function.comp_def]

end

theorem lines_eq (outline : Outline) :
    outline.lines = outline.places.map outline.lineAt :=
  linesUnder_eq outline [] outline rfl

theorem draw_eq (outline : Outline) :
    outline.draw = Text.unlines outline.lines := by
  refine Text.intercalate_newline ?_
  obtain ⟨label, children⟩ := outline
  rw [lines, linesUnder]
  exact List.cons_ne_nil _ _

/-! ## Lines that stay whole -/

inductive Each (good : String → Prop) : Outline → Prop where
  | node (label : String) (children : List Outline) (here : good label)
      (below : ∀ child ∈ children, Each good child) :
      Each good (.node label children)

theorem oneLine_column (last : Bool) : Text.OneLine (column last) := by
  cases last <;> decide

theorem oneLine_connector (last : Bool) : Text.OneLine (connector last) := by
  cases last <;> decide

theorem exists_child_of_mem {margin line : String} {children : List Outline}
    (mem : line ∈ childLines margin children) :
    ∃ child ∈ children, ∃ last, line ∈ linesUnder margin last child := by
  induction children with
  | nil => simp [childLines] at mem
  | cons child rest ih =>
      rw [childLines, List.mem_append] at mem
      rcases mem with first | later
      · exact ⟨child, List.mem_cons_self, _, first⟩
      · obtain ⟨other, listed, drawn⟩ := ih later
        exact ⟨other, List.mem_cons_of_mem _ listed, drawn⟩

theorem Each.oneLine {outline : Outline} (each : Each Text.OneLine outline)
    {margin : String} (blank : Text.OneLine margin) (last : Bool) :
    ∀ line ∈ linesUnder margin last outline, Text.OneLine line := by
  induction each generalizing margin last with
  | node label children here below ih =>
      rw [linesUnder, List.forall_mem_cons]
      refine ⟨by simp [blank, here, oneLine_connector], fun line mem => ?_⟩
      obtain ⟨child, listed, last', drawn⟩ := exists_child_of_mem mem
      exact ih child listed (by simp [blank, oneLine_column]) last' line drawn

theorem linesOf_draw {outline : Outline} (each : Each Text.OneLine outline) :
    Text.linesOf outline.draw = outline.lines := by
  rw [draw_eq]
  exact Text.linesOf_unlines (each.oneLine (by decide) true)

theorem drawnAs_places {outline : Outline} (each : Each Text.OneLine outline) :
    outline.DrawnAs outline.draw outline.places where
  complete := outline.mem_places
  preorder := outline.ascending_places
  text_eq := by rw [draw_eq, lines_eq]
  lines_eq := by rw [linesOf_draw each, lines_eq]

/-! ## Reading a drawing back -/

/-- Columns and connectors differ in their first character. -/
theorem not_column_prefix_connector (last last' : Bool) (rest : List Char) :
    ¬ (column last).toList <+: (connector last').toList ++ rest := by
  cases last <;> cases last' <;> simp [column, connector]

mutual

theorem prefix_linesUnder (margin : String) (last : Bool) (outline : Outline) :
    ∀ line ∈ linesUnder margin last outline, margin.toList <+: line.toList := by
  match outline with
  | .node label children =>
      rw [linesUnder, List.forall_mem_cons]
      constructor
      · simp [List.append_assoc]
      · intro line mem
        have below := prefix_childLines (margin ++ column last) children line mem
        rw [String.toList_append] at below
        exact (List.prefix_append _ _).trans below

theorem prefix_childLines (margin : String) (children : List Outline) :
    ∀ line ∈ childLines margin children, margin.toList <+: line.toList := by
  match children with
  | [] => simp [childLines]
  | child :: rest =>
      rw [childLines, List.forall_mem_append]
      exact ⟨prefix_linesUnder margin _ child, prefix_childLines margin rest⟩

end

theorem not_prefix_head?_childLines (margin : String) (last : Bool)
    (children : List Outline) :
    ∀ line ∈ (childLines margin children).head?,
      ¬ (margin ++ column last).toList <+: line.toList := by
  cases children with
  | nil => simp [childLines]
  | cons child rest =>
      obtain ⟨label, below⟩ := child
      intro line first
      rw [childLines, linesUnder, List.cons_append, List.head?_cons,
        Option.mem_some_iff] at first
      subst first
      simp only [String.toList_append, List.append_assoc,
        List.prefix_append_right_inj]
      exact not_column_prefix_connector last _ _

theorem connector_append_inj {last last' : Bool} {label label' : String}
    (same : connector last ++ label = connector last' ++ label') :
    last = last' ∧ label = label' := by
  have chars := congrArg String.toList same
  cases last <;> cases last' <;> simp [connector] at chars
  · exact ⟨rfl, String.toList_injective chars⟩
  · exact ⟨rfl, String.toList_injective chars⟩

theorem childLines_inj {margin : String} {children children' : List Outline}
    (same : childLines margin children = childLines margin children') :
    children = children' := by
  match children, children' with
  | [], [] => rfl
  | [], .node _ _ :: _ => simp [childLines, linesUnder] at same
  | .node _ _ :: _, [] => simp [childLines, linesUnder] at same
  | .node label below :: rest, .node label' below' :: rest' =>
      rw [childLines, childLines, linesUnder, linesUnder, List.cons_append,
        List.cons_append, List.cons.injEq, String.append_assoc,
        String.append_assoc, String.append_right_inj] at same
      have heads := connector_append_inj same.1
      have tails := same.2
      rw [← heads.1] at tails
      have parts := append_inj_of_seam tails
        (prefix_childLines (margin ++ column rest.isEmpty) below)
        (prefix_childLines (margin ++ column rest.isEmpty) below')
        (not_prefix_head?_childLines margin _ rest)
        (not_prefix_head?_childLines margin _ rest')
      rw [heads.2, childLines_inj parts.1, childLines_inj parts.2]

theorem lines_inj {outline outline' : Outline}
    (same : outline.lines = outline'.lines) : outline = outline' := by
  have siblings (root : Outline) : root.lines = childLines "" [root] := by
    simp [lines, childLines]
  rw [siblings, siblings] at same
  simpa using childLines_inj same

theorem draw_inj {outline outline' : Outline}
    (each : Each Text.OneLine outline) (each' : Each Text.OneLine outline')
    (same : outline.draw = outline'.draw) : outline = outline' := by
  apply lines_inj
  rw [← linesOf_draw each, same, linesOf_draw each']

end Secrecy.Outline
