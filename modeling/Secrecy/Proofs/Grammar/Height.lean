import Secrecy.Proofs.Source

/-!
# Depth and height

The reader bounds the depth of a body, and that is not the height of its tree.
An operand of a concatenation is read below all that stand before it, but in
the tree it lies below those that come after it.  So a compound first operand
costs one level and is lifted by a whole chain.  Heights are bounded still, and
by the depth itself where only the last operand may be compound.
-/

namespace Secrecy

open Grammar

namespace Expr

/-- The levels of the tree.  A key is a name, and so never the deepest. -/
def height : Expr → Nat
  | .name _ => 1
  | .concat left right _ => max left.height right.height + 1
  | .enc _ message _ | .mac _ message _ | .sign _ message _ =>
      message.height + 1
  | .hash inner _ => inner.height + 1
  | .verify _ message signature _ => max message.height signature.height + 1
  | .assign _ value _ => value.height

@[simp] theorem height_forgetLines (e : Expr) :
    e.forgetLines.height = e.height := by
  induction e with
  | name => rfl
  | concat left right line ihLeft ihRight =>
      rw [forgetLines, height, ihLeft, ihRight, height]
  | enc _ _ _ ih | mac _ _ _ ih | sign _ _ _ ih | hash _ _ ih =>
      exact congrArg (· + 1) ih
  | verify key message signature line ihMessage ihSignature =>
      rw [forgetLines, height, ihMessage, ihSignature, height]
  | assign target value line ih => exact ih

theorem height_pos (e : Expr) : 0 < e.height := by
  induction e with
  | assign target value line ih => exact ih
  | _ => simp [height]

theorem length_operands_le_depth (e : Expr) :
    e.operands.length ≤ e.depth := by
  induction e with
  | concat left right line _ _ =>
      have last := right.depth_pos
      simp only [operands, depth, List.length_append, List.length_singleton]
      omega
  | _ => exact depth_pos _

/-! ## What the depth allows -/

/-- Each level may hold a chain as long as there are levels left for it. -/
def tallest : Nat → Nat
  | 0 => 0
  | levels + 1 => tallest levels + (levels + 1)

theorem tallest_mono {m n : Nat} (h : m ≤ n) : tallest m ≤ tallest n := by
  induction h with
  | refl => exact Nat.le_refl _
  | step _ ih => exact Nat.le_trans ih (Nat.le_add_right _ _)

theorem length_add_tallest_le (e : Expr) :
    e.operands.length + tallest (e.depth - 1) ≤ tallest e.depth := by
  have chain := e.length_operands_le_depth
  obtain ⟨levels, found⟩ := Nat.exists_eq_add_of_lt e.depth_pos
  rw [found, Nat.zero_add] at chain ⊢
  rw [Nat.add_sub_cancel, tallest, Nat.add_comm]
  exact Nat.add_le_add_left chain _

/--
The induction needs to tell the chain at the top from what lies below it: a
further operand lifts the chain but opens no level there.
-/
theorem Grouped.height_le_length_add {e : Expr} (grouped : e.Grouped) :
    e.height ≤ e.operands.length + tallest (e.depth - 1) := by
  have wrapped {message : Expr}
      (h : message.height ≤
        message.operands.length + tallest (message.depth - 1)) :
      message.height + 1 ≤ 1 + tallest message.depth := by
    have below := message.length_add_tallest_le
    omega
  induction e with
  | name => exact Nat.le_add_right _ _
  | concat left right line ihLeft ihRight =>
      obtain ⟨leftGrouped, rightGrouped, single⟩ := grouped
      have first := ihLeft leftGrouped
      have last := ihRight rightGrouped
      have alone : right.operands.length = 1 := by
        cases right with
        | concat => cases single
        | _ => rfl
      have positive : 0 < left.operands.length := by
        cases left with
        | concat => simp [operands]
        | _ => exact Nat.one_pos
      have beside : tallest (left.depth - 1) ≤
          tallest ((concat left right line).depth - 1) := by
        refine tallest_mono ?_
        rw [depth]
        omega
      have behind : tallest (right.depth - 1) ≤
          tallest ((concat left right line).depth - 1) := by
        refine tallest_mono ?_
        rw [depth]
        omega
      rw [height, operands, List.length_append, List.length_singleton]
      omega
  | enc _ _ _ ih | mac _ _ _ ih | sign _ _ _ ih | hash _ _ ih =>
      exact wrapped (ih grouped)
  | verify key message signature line ihMessage ihSignature =>
      have first := wrapped (ihMessage grouped.1)
      have last := wrapped (ihSignature grouped.2)
      have beside :=
        tallest_mono (Nat.le_max_left message.depth signature.depth)
      have behind :=
        tallest_mono (Nat.le_max_right message.depth signature.depth)
      change max message.height signature.height + 1 ≤
        1 + tallest (max message.depth signature.depth)
      omega
  | assign => exact grouped.elim

theorem Grouped.height_le {e : Expr} (grouped : e.Grouped) :
    e.height ≤ tallest e.depth :=
  Nat.le_trans grouped.height_le_length_add e.length_add_tallest_le

theorem GroupedBody.height_le {e : Expr} (grouped : e.GroupedBody) :
    e.height ≤ tallest e.depth := by
  cases e with
  | assign target value line =>
      have grouped : value.Grouped := grouped
      exact grouped.height_le
  | _ => exact Grouped.height_le grouped

def LedByNames : Expr → Prop
  | .name _ => True
  | .concat left right _ =>
      (∀ operand ∈ left.operands, operand.isName) ∧ right.LedByNames
  | .enc _ message _ | .mac _ message _ | .sign _ message _ =>
      message.LedByNames
  | .hash inner _ => inner.LedByNames
  | .verify _ message signature _ =>
      message.LedByNames ∧ signature.LedByNames
  | .assign _ value _ => value.LedByNames

theorem height_eq_length {e : Expr}
    (names : ∀ operand ∈ e.operands, operand.isName) :
    e.height = e.operands.length := by
  induction e with
  | name => rfl
  | concat left right line ih _ =>
      simp only [operands, List.forall_mem_append, List.forall_mem_singleton]
        at names
      have first := ih names.1
      have positive := left.height_pos
      have last : right.height = 1 := by
        cases right with
        | name => rfl
        | _ => cases names.2
      rw [height, operands, List.length_append, List.length_singleton]
      omega
  | _ => cases names _ List.mem_cons_self

theorem LedByNames.height_le {e : Expr} (led : e.LedByNames) :
    e.height ≤ e.depth := by
  induction e with
  | name => exact Nat.le_refl _
  | concat left right line _ ih =>
      have first := height_eq_length led.1
      have leads := left.height_pos
      have last := ih led.2
      have positive := right.depth_pos
      rw [height, depth]
      omega
  | enc _ _ _ ih | mac _ _ _ ih | sign _ _ _ ih | hash _ _ ih =>
      exact Nat.succ_le_succ (ih led)
  | verify key message signature line ihMessage ihSignature =>
      have first := ihMessage led.1
      have last := ihSignature led.2
      rw [height, depth]
      omega
  | assign target value line ih => exact ih led

/-! ## Towers -/

def leaf : Expr := .name ⟨"x", 0⟩

def followed (e : Expr) : Nat → Expr
  | 0 => e
  | n + 1 => .concat (e.followed n) leaf 0

def tower : Nat → Expr
  | 0 => leaf
  | levels + 1 => (hash (tower levels) 0).followed (levels + 1)

inductive OfLeaves : Expr → Prop where
  | name : OfLeaves leaf
  | hash {inner : Expr} (h : OfLeaves inner) : OfLeaves (.hash inner 0)
  | concat {left : Expr} (h : OfLeaves left) : OfLeaves (.concat left leaf 0)

variable {e : Expr}

theorem OfLeaves.followed (h : e.OfLeaves) (n : Nat) :
    (e.followed n).OfLeaves := by
  induction n with
  | zero => exact h
  | succ n ih => exact .concat ih

theorem ofLeaves_tower (levels : Nat) : (tower levels).OfLeaves := by
  induction levels with
  | zero => exact .name
  | succ levels ih => exact ih.hash.followed _

theorem length_operands_followed (single : e.operands = [e]) (n : Nat) :
    (e.followed n).operands.length = n + 1 := by
  induction n with
  | zero => rw [followed, single, List.length_singleton]
  | succ n ih => rw [followed, operands, List.length_append, ih,
      List.length_singleton]

theorem depth_followed (single : e.operands = [e]) (n : Nat) :
    (e.followed n).depth = max e.depth (n + 1) := by
  induction n with
  | zero => exact (Nat.max_eq_left e.depth_pos).symm
  | succ n ih =>
      rw [followed, depth, ih, length_operands_followed single, leaf, depth]
      omega

theorem height_followed (n : Nat) : (e.followed n).height = e.height + n := by
  induction n with
  | zero => rfl
  | succ n ih =>
      have positive := e.height_pos
      rw [followed, height, ih, leaf, height]
      omega

theorem depth_tower (levels : Nat) : (tower levels).depth = levels + 1 := by
  induction levels with
  | zero => rfl
  | succ levels ih => rw [tower, depth_followed rfl, depth, ih, Nat.max_self]

theorem height_tower (levels : Nat) :
    (tower levels).height = tallest (levels + 1) := by
  induction levels with
  | zero => rfl
  | succ levels ih =>
      rw [tower, height_followed, height, ih, tallest, tallest, tallest]
      omega

theorem OfLeaves.grouped (h : e.OfLeaves) : e.Grouped := by
  induction h with
  | name => trivial
  | hash _ ih => exact ih
  | concat _ ih => exact ⟨ih, trivial, rfl⟩

theorem OfLeaves.named (h : e.OfLeaves) : Named e.yield := by
  have leaf : Named leaf.yield := by
    rw [Expr.leaf, yield, named_cons_name]
    exact ⟨.word (by decide) (by decide) (by decide), named_nil⟩
  induction h with
  | name => exact leaf
  | hash _ ih =>
      rw [yield, named_applied]
      exact ih
  | concat _ ih =>
      rw [yield, named_append, named_cons_operator]
      exact ⟨ih, leaf⟩

theorem OfLeaves.plain (h : e.OfLeaves) :
    ∀ mention ∈ e.reading, mention = .plain "x" := by
  induction h with
  | name => exact List.forall_mem_singleton.mpr rfl
  | hash _ ih => exact ih
  | concat _ ih =>
      rw [reading, List.forall_mem_append]
      exact ⟨ih, List.forall_mem_singleton.mpr rfl⟩

end Expr

namespace Protocol

/-- A role sends itself a body, and nothing else is declared. -/
def soliloquy (body : Expr) : Protocol :=
  ⟨⟨[⟨"A", 0⟩], 0⟩, [], [⟨⟨"A", 0⟩, ⟨"A", 0⟩, body, 0⟩], []⟩

variable {body : Expr}

theorem grammatical_soliloquy (grouped : body.GroupedBody)
    (shallow : body.depth ≤ depthLimit) : (soliloquy body).Grammatical where
  roles := List.cons_ne_nil _ _
  keys := List.forall_mem_nil _
  messages := List.forall_mem_singleton.mpr ⟨grouped, shallow⟩
  permitted := List.forall_mem_nil _

theorem named_soliloquy (named : Named body.yield) :
    Named (soliloquy body).yield := by
  have role : Token.NameText "A".toList :=
    .word (by decide) (by decide) (by decide)
  have parts := And.intro role (And.intro role (And.intro role named))
  simpa [soliloquy, yield, RoleSet.yield, Message.yield,
    Identifier.listYield] using parts

theorem wellScoped_soliloquy
    (plain : ∀ mention ∈ body.reading, mention = .plain "x") :
    (soliloquy body).WellScoped := by
  have plain : ∀ mention ∈ (soliloquy body).reading, mention = .plain "x" := by
    simpa [soliloquy, reading] using plain
  have same {mention : Mention} {before after : List Mention}
      (split : (soliloquy body).reading = before ++ mention :: after) :
      mention = .plain "x" := by
    refine plain mention ?_
    rw [split]
    exact List.mem_append_right _ List.mem_cons_self
  exact {
    roles := by simp [soliloquy, roleNames, namesOf]
    keys := List.nodup_nil
    keys_notRole := List.forall_mem_nil _
    owners := List.forall_mem_nil _
    endpoints := List.forall_mem_singleton.mpr
      ⟨List.mem_cons_self, List.mem_cons_self⟩
    keyUses := fun _ _ _ split => by cases same split
    targets := fun _ _ _ split => by cases same split
    terms := List.forall_mem_nil _
    permitted := List.forall_mem_nil _ }

theorem ofSource_soliloquy (ofLeaves : body.OfLeaves)
    (shallow : body.depth ≤ depthLimit) (check : Bool) :
    ∃ p, ofSource ((soliloquy body).print ++ "\n") check = .ok p ∧
      p.messages.map (·.body.height) = [body.height] := by
  have grammatical :=
    grammatical_soliloquy ofLeaves.grouped.groupedBody shallow
  obtain ⟨p, h, alike⟩ := exists_ofSource_print grammatical
    (named_soliloquy ofLeaves.named) (wellScoped_soliloquy ofLeaves.plain)
    (List.mem_cons_of_mem _ List.mem_cons_self) check
  refine ⟨p, h, ?_⟩
  have heights := congrArg
    (fun q : Protocol => q.messages.map (·.body.height)) alike
  simpa [forgetLines, Message.forgetLines, soliloquy] using heights

/-- As much height as the depth limit allows is found in a text. -/
theorem exists_tallest (check : Bool) :
    ∃ text p, ofSource text check = .ok p ∧ ∃ message ∈ p.messages,
      message.body.height = Expr.tallest depthLimit := by
  let levels := depthLimit - 1
  have shallow : (Expr.tower levels).depth ≤ depthLimit :=
    Nat.le_of_eq (Expr.depth_tower levels)
  obtain ⟨p, h, heights⟩ :=
    ofSource_soliloquy (Expr.ofLeaves_tower levels) shallow check
  have mem : (Expr.tower levels).height ∈ p.messages.map (·.body.height) :=
    heights ▸ List.mem_cons_self
  rw [Expr.height_tower] at mem
  obtain ⟨message, mem, high⟩ := List.mem_map.mp mem
  exact ⟨_, p, h, message, mem, high⟩

/--
The height of a body is bounded by what the depth limit allows, and by nothing
less.  It is within the depth limit where concatenations are led by names.
-/
theorem ofSource_height (check : Bool) :
    (∀ limit,
      (∀ text p, ofSource text check = .ok p → ∀ message ∈ p.messages,
        message.body.height ≤ limit) ↔
      Expr.tallest depthLimit ≤ limit) ∧
    ∀ text p, ofSource text check = .ok p → ∀ message ∈ p.messages,
      message.body.LedByNames → message.body.height ≤ depthLimit := by
  refine ⟨fun limit => ⟨fun within => ?_, fun room text p h message mem => ?_⟩,
    fun text p h message mem led => ?_⟩
  · obtain ⟨text, p, h, message, mem, high⟩ := exists_tallest check
    exact high ▸ within text p h message mem
  · obtain ⟨grouped, shallow⟩ := writable_of_ofSource h message mem
    calc message.body.height
        ≤ Expr.tallest message.body.depth := grouped.height_le
      _ ≤ Expr.tallest depthLimit := Expr.tallest_mono shallow
      _ ≤ limit := room
  · obtain ⟨-, shallow⟩ := writable_of_ofSource h message mem
    exact Nat.le_trans led.height_le shallow

example : Expr.tallest depthLimit = 5050 := by decide

def lifted : Expr := .concat (Nat.repeat (Expr.hash · 0) 99 .leaf) .leaf 0

theorem ofLeaves_lifted : lifted.OfLeaves := by
  have hashes (n : Nat) :
      (Nat.repeat (Expr.hash · 0) n .leaf).OfLeaves := by
    induction n with
    | zero => exact .name
    | succ n ih => exact .hash ih
  exact .concat (hashes 99)

def liftedText : String :=
  "roles: A\nA -> A: " ++ String.join (List.replicate 99 "H(") ++ "x" ++
    String.join (List.replicate 99 ")") ++ " || x\n"

theorem print_lifted : (soliloquy lifted).print ++ "\n" = liftedText := by
  decide +kernel

theorem ofSource_liftedText :
    ∃ p, ofSource liftedText true = .ok p ∧
      p.messages.map (·.body.height) = [depthLimit + 1] := by
  rw [← print_lifted]
  exact ofSource_soliloquy ofLeaves_lifted (by decide) true

end Protocol

end Secrecy
