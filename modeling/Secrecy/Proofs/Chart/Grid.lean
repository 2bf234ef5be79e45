import Mathlib.Data.List.Nodup
import Secrecy.Chart.Dot
import Secrecy.Proofs.Rows

/-!
# Grids of nodes

Heads in one row, and below each of them a column of points.  The nodes of a
grid all differ, and so do the names that they go by.
-/

namespace Secrecy.Dot

/-! ## Nodes -/

def Node.Within (columns rows : Nat) : Node → Prop
  | .head column => column < columns
  | .point column row => column < columns ∧ row < rows

theorem toDigits_injective : Function.Injective (Nat.toDigits 10) := by
  intro m n same
  have read := congrArg (Nat.ofDigitChars 10 · 0) same
  simpa [Nat.ofDigitChars_toDigits] using read

theorem Node.id_head (column : Nat) :
    (Node.head column).id.toList =
      "hdr_".toList ++ Nat.toDigits 10 column := by
  simp [id, Nat.toString_eq_repr, Nat.toList_repr]

theorem Node.id_point (column row : Nat) :
    (Node.point column row).id.toList =
      "pt_".toList ++
        (Nat.toDigits 10 column ++ '_' :: Nat.toDigits 10 row) := by
  simp [id, Nat.toString_eq_repr, Nat.toList_repr]

/-- The digits of the column end at the underscore before those of the row. -/
theorem Node.id_injective : Function.Injective Node.id := by
  intro a b same
  have chars := congrArg String.toList same
  cases a with
  | head column =>
      cases b with
      | head column' =>
          rw [id_head, id_head, List.append_cancel_left_eq] at chars
          rw [toDigits_injective chars]
      | point column' row' => simp [id_head, id_point] at chars
  | point column row =>
      cases b with
      | head column' => simp [id_head, id_point] at chars
      | point column' row' =>
          rw [id_point, id_point, List.append_cancel_left_eq] at chars
          have digits (n : Nat) : ∀ c ∈ Nat.toDigits 10 n, c.isDigit = true :=
            fun c mem => Nat.isDigit_of_mem_toDigits (by decide) (by decide) mem
          have parts := append_inj_of_seam chars (digits column)
            (digits column') (by simp) (by simp)
          rw [List.cons.injEq] at parts
          rw [toDigits_injective parts.1, toDigits_injective parts.2.2]

/-! ## Grids -/

def links {α : Type} (row : List α) : List (α × α) := row.zip row.tail

section Grid

variable (columns rows : Nat)

def heads : List Node := (List.range columns).map .head

def pointsOf (row : Nat) : List Node :=
  (List.range columns).map (.point · row)

def crossings : List Node := (List.range rows).flatMap (pointsOf columns)

def columnNodes (column : Nat) : List Node :=
  .head column :: (List.range rows).map (.point column ·)

def ranksOf : List (List Node) :=
  heads columns :: (List.range rows).map (pointsOf columns)

def chains : List (Node × Node) :=
  (List.range columns).flatMap fun column => links (columnNodes rows column)

variable {columns rows} {node : Node}

theorem mem_heads :
    node ∈ heads columns ↔ ∃ column < columns, node = .head column := by
  simp [heads, eq_comm]

theorem mem_pointsOf {row : Nat} :
    node ∈ pointsOf columns row ↔
      ∃ column < columns, node = .point column row := by
  simp [pointsOf, eq_comm]

theorem mem_grid :
    node ∈ heads columns ++ crossings columns rows ↔
      node.Within columns rows := by
  rw [List.mem_append, mem_heads, crossings, List.mem_flatMap]
  cases node <;> simp [mem_pointsOf, Node.Within, and_comm]

theorem nodup_heads : (heads columns).Nodup :=
  List.nodup_range.map fun _ _ => Node.head.inj

theorem nodup_crossings : (crossings columns rows).Nodup := by
  rw [crossings, List.nodup_flatMap]
  constructor
  · intro row _
    exact List.nodup_range.map fun _ _ same => (Node.point.inj same).1
  · refine List.nodup_range.imp fun {row row'} apart node mem mem' => ?_
    rw [mem_pointsOf] at mem mem'
    obtain ⟨column, -, rfl⟩ := mem
    obtain ⟨column', -, same⟩ := mem'
    exact apart (Node.point.inj same).2

theorem nodup_grid : (heads columns ++ crossings columns rows).Nodup := by
  refine nodup_heads.append nodup_crossings fun node mem mem' => ?_
  obtain ⟨column, -, rfl⟩ := mem_heads.mp mem
  obtain ⟨row, -, point⟩ := List.mem_flatMap.mp mem'
  obtain ⟨column', -, same⟩ := mem_pointsOf.mp point
  cases same

theorem within_of_mem_ranksOf {nodes : List Node}
    (mem : nodes ∈ ranksOf columns rows) :
    ∀ node ∈ nodes, node.Within columns rows := by
  intro node inside
  rw [← mem_grid, List.mem_append]
  rw [ranksOf, List.mem_cons, List.mem_map] at mem
  rcases mem with rfl | ⟨row, listed, rfl⟩
  · exact .inl inside
  · exact .inr (List.mem_flatMap.mpr ⟨row, listed, inside⟩)

theorem within_of_mem_chains {link : Node × Node}
    (mem : link ∈ chains columns rows) :
    link.1.Within columns rows ∧ link.2.Within columns rows := by
  obtain ⟨column, listed, linked⟩ := List.mem_flatMap.mp mem
  rw [List.mem_range] at listed
  have placed : ∀ node ∈ columnNodes rows column, node.Within columns rows := by
    simp [columnNodes, Node.Within, listed]
  have ends := List.of_mem_zip linked
  exact ⟨placed _ ends.1, placed _ (List.mem_of_mem_tail ends.2)⟩

end Grid

end Secrecy.Dot
