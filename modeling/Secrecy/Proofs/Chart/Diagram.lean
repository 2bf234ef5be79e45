import Secrecy.Chart
import Secrecy.Proofs.Chart.Reading
import Secrecy.Proofs.Knowledge.Addressing

/-!
# Charts as diagrams

If no role is declared twice, the columns of a chart are numbered as the roles
are.  So whatever is read from the text of a chart is at the nodes of one grid,
and each of these is declared once.  A chart is not drawn at all if a role that
a message goes to or comes from has no column.
-/

namespace Secrecy

open Dot

/-! ## Items -/

namespace Dot.Item

def node? : Item → Option (String × Attributes)
  | .node name attributes => some (name, attributes)
  | _ => none

def edge? : Item → Option (String × String × Attributes)
  | .edge source target attributes => some (source, target, attributes)
  | _ => none

def group? : Item → Option (Attributes × List String)
  | .group attributes names => some (attributes, names)
  | _ => none

/-- The names of the nodes that an item relies on. -/
def used : Item → List String
  | .edge source target _ => [source, target]
  | .group _ names => names
  | _ => []

end Dot.Item

/-! ## Columns -/

namespace Chart

section Columns

variable {roles : List String} {role : String}

theorem column?_eq_none : column? roles role = none ↔ role ∉ roles := by
  simp [column?, List.idxOf?_eq_none_iff]

/-- The last place of a role that is declared once is its only one. -/
theorem column?_of_mem (distinct : roles.Nodup) (mem : role ∈ roles) :
    column? roles role = some (roles.idxOf role) := by
  rw [column?]
  cases found : roles.reverse.idxOf? role with
  | none =>
      rw [List.idxOf?_eq_none_iff, List.mem_reverse] at found
      exact absurd mem found
  | some index =>
      rw [List.idxOf?_eq_some_iff] at found
      obtain ⟨bound, rfl, -⟩ := found
      rw [List.getElem_reverse, distinct.idxOf_getElem, Option.map_some]

theorem filterMap_column? (distinct : roles.Nodup) {β : Type}
    (shown : Nat → String → β) :
    (roles.filterMap fun role => (column? roles role).map (shown · role)) =
      roles.mapIdx shown := by
  have placed : ∀ role ∈ roles,
      (column? roles role).map (shown · role) =
        some (shown (roles.idxOf role) role) := by
    intro role mem
    rw [column?_of_mem distinct mem, Option.map_some]
  rw [List.filterMap_congr placed, List.filterMap_eq_map']
  apply List.ext_getElem (by simp)
  simp [distinct.idxOf_getElem]

end Columns

variable {chart : Chart}

theorem columns_eq (distinct : chart.roles.Nodup) :
    chart.columns = List.range chart.roles.length := by
  have numbered := filterMap_column? distinct fun column _ => column
  simp only [Option.map_id'] at numbered
  rw [columns, numbered]
  exact List.ext_getElem (by simp) (by simp)

theorem boxes_eq (distinct : chart.roles.Nodup) :
    chart.boxes = chart.roles.mapIdx fun column role =>
      .box (.head column) role :=
  filterMap_column? distinct _

theorem pointsOfRow_eq (distinct : chart.roles.Nodup) (row : Nat) :
    chart.pointsOfRow row = pointsOf chart.roles.length row := by
  rw [pointsOfRow, columns_eq distinct, pointsOf]

theorem points_eq (distinct : chart.roles.Nodup) :
    chart.points =
      (crossings chart.roles.length chart.rows.length).map .dot := by
  simp only [points, pointsOfRow_eq distinct, crossings, List.map_flatMap,
    rowIndices]

theorem ranks_eq (distinct : chart.roles.Nodup) :
    chart.ranks =
      (ranksOf chart.roles.length chart.rows.length).map .sameRank := by
  simp only [ranks, columns_eq distinct, pointsOfRow_eq distinct, rowIndices,
    ranksOf, heads, List.map_cons, List.map_map, Function.comp_def]

theorem guideFrom_eq (column : Nat) (above : Node) (rows : List Nat) :
    guideFrom column above rows =
      (links (above :: rows.map (.point column ·))).map fun link =>
        .guide link.1 link.2 := by
  induction rows generalizing above with
  | nil => rfl
  | cons row rows ih =>
      rw [guideFrom, ih]
      rfl

theorem guides_eq (distinct : chart.roles.Nodup) :
    chart.guides =
      (chains chart.roles.length chart.rows.length).map fun link =>
        .guide link.1 link.2 := by
  simp only [guides, columns_eq distinct, guideFrom_eq, rowIndices, chains,
    columnNodes, List.map_flatMap]

/-- The title that is shown; an empty one is like none. -/
def heading (title : Option String) : Option String := title.filter (· ≠ "")

theorem heading_some {text : String} (shown : text ≠ "") :
    heading (some text) = some text := by
  simp [heading, Option.filter, shown]

theorem preamble_eq (chart : Chart) :
    chart.preamble = [.setting "rankdir=TB", .setting "splines=polyline"] ++
      ((heading chart.title).toList.flatMap fun text =>
        [.title text, .setting "labelloc=t"]) ++
      [.setting "node [fontsize=12]",
        .setting "graph [nodesep=0.8, ranksep=0.8]"] := by
  obtain ⟨_ | text, roles, rows⟩ := chart
  · rfl
  · by_cases empty : text = ""
    · subst empty
      rfl
    · simp only [preamble, heading_some empty]
      rfl

def settings (title : Option String) : List Item :=
  [.setting "rankdir" "TB", .setting "splines" "polyline"] ++
    ((heading title).toList.flatMap fun text =>
      [.setting "label" text, .setting "labelloc" "t"]) ++
    [.usual "node" [("fontsize", "12")],
      .usual "graph" [("nodesep", "0.8"), ("ranksep", "0.8")]]

theorem filterMap_preamble {β : Type} {view : Statement → Option β}
    (settings : ∀ text, view (.setting text) = none) (chart : Chart) :
    chart.preamble.filterMap view =
      (heading chart.title).toList.filterMap fun text =>
        view (.title text) := by
  rw [preamble_eq]
  cases heading chart.title with
  | none => simp [settings]
  | some text => simp [settings, List.filterMap_cons]

theorem denotes_preamble (chart : Chart) :
    Denoted chart.preamble (settings chart.title) := by
  have direction : Denotes (Statement.setting "rankdir=TB").text
      (.setting "rankdir" "TB") :=
    ⟨[.word "rankdir", .mark '=', .word "TB", .mark ';'], by decide, fun _ => rfl⟩
  have splines : Denotes (Statement.setting "splines=polyline").text
      (.setting "splines" "polyline") :=
    ⟨[.word "splines", .mark '=', .word "polyline", .mark ';'], by decide,
      fun _ => rfl⟩
  have place : Denotes (Statement.setting "labelloc=t").text
      (.setting "labelloc" "t") :=
    ⟨[.word "labelloc", .mark '=', .word "t", .mark ';'], by decide,
      fun _ => rfl⟩
  have font : Denotes (Statement.setting "node [fontsize=12]").text
      (.usual "node" [("fontsize", "12")]) :=
    ⟨[.word "node", .mark '[', .word "fontsize", .mark '=', .word "12",
      .mark ']', .mark ';'], by decide, fun _ => rfl⟩
  have spaces : Denotes (Statement.setting "graph [nodesep=0.8, ranksep=0.8]").text
      (.usual "graph" [("nodesep", "0.8"), ("ranksep", "0.8")]) :=
    ⟨[.word "graph", .mark '[', .word "nodesep", .mark '=', .word "0.8",
      .mark ',', .word "ranksep", .mark '=', .word "0.8", .mark ']', .mark ';'],
      by decide, fun _ => rfl⟩
  rw [preamble_eq, settings]
  cases heading chart.title with
  | none => exact .cons direction (.cons splines (.cons font (.cons spaces .nil)))
  | some text =>
      exact .cons direction (.cons splines (.cons (denotes_title text)
        (.cons place (.cons font (.cons spaces .nil)))))

theorem filterMap_settings {β : Type} {view : Item → Option β}
    (setting : ∀ name value, view (.setting name value) = none)
    (usual : ∀ kind attributes, view (.usual kind attributes) = none)
    (title : Option String) : (settings title).filterMap view = [] := by
  simp [settings, List.filterMap_flatMap, setting, usual]

end Chart

/-! ## Arrows -/

namespace Chart

variable {chart : Chart} {role fault : String} {row : Row}

theorem columnOf_eq_error :
    chart.columnOf role = .error fault ↔
      role ∉ chart.roles ∧ role = fault := by
  rw [columnOf, ← column?_eq_none]
  cases column? chart.roles role <;> simp

theorem exists_columnOf :
    (∃ column, chart.columnOf role = .ok column) ↔ role ∈ chart.roles := by
  rw [columnOf, ← not_iff_not, ← column?_eq_none]
  cases column? chart.roles role <;> simp

theorem arrow_eq_error :
    chart.arrow row = .error fault ↔
      [row.sender, row.receiver].find? (· ∉ chart.roles) = some fault := by
  have drawn (source target : Nat) :
      (pure (.arrow (.point source row.index) (.point target row.index)
        row.label) : Except String Statement) ≠ .error fault := nofun
  simp only [arrow, Outcome.bind_eq_error, columnOf_eq_error, drawn,
    and_false, exists_false, or_false, exists_and_right, exists_columnOf]
  by_cases sender : row.sender ∈ chart.roles <;>
    by_cases receiver : row.receiver ∈ chart.roles <;>
      simp [sender, receiver]

theorem columnOf_eq_ok (distinct : chart.roles.Nodup)
    (declared : role ∈ chart.roles) :
    chart.columnOf role = .ok (chart.roles.idxOf role) := by
  rw [columnOf, column?_of_mem distinct declared]

theorem arrow_eq_ok (distinct : chart.roles.Nodup)
    (sender : row.sender ∈ chart.roles)
    (receiver : row.receiver ∈ chart.roles) :
    chart.arrow row = .ok (.arrow
      (.point (chart.roles.idxOf row.sender) row.index)
      (.point (chart.roles.idxOf row.receiver) row.index) row.label) := by
  rw [arrow, columnOf_eq_ok distinct sender, columnOf_eq_ok distinct receiver]
  rfl

end Chart

/-! ## Diagrams -/

namespace Protocol

variable (p : Protocol) (title : Option String)

/-- All that send or receive have a column. -/
def Placed : Prop :=
  ∀ message ∈ p.messages, message.sender.name ∈ p.roleNames ∧
    message.receiver.name ∈ p.roleNames

instance : Decidable p.Placed :=
  inferInstanceAs (Decidable (∀ message ∈ p.messages, _ ∧ _))

def boxes : List (Node × String) :=
  p.roleNames.mapIdx fun column role => (.head column, role)

/-- The arrows between the columns of senders and receivers, one in each row. -/
def arrows : List (Node × Node × String) :=
  p.messages.mapIdx fun row message =>
    (.point (p.roleNames.idxOf message.sender.name) row,
      .point (p.roleNames.idxOf message.receiver.name) row,
      message.body.label)

def diagram : List Statement :=
  (p.chart title).preamble ++
    p.boxes.map (fun box => .box box.1 box.2) ++
    (crossings p.roleNames.length p.messages.length).map .dot ++
    (ranksOf p.roleNames.length p.messages.length).map .sameRank ++
    (chains p.roleNames.length p.messages.length).map (fun link =>
      .guide link.1 link.2) ++
    p.arrows.map fun arrow => .arrow arrow.1 arrow.2.1 arrow.2.2

def sketch : List Item :=
  Chart.settings title ++
    p.boxes.map (fun box => .node box.1.id (boxAttributes box.2)) ++
    (crossings p.roleNames.length p.messages.length).map (fun node =>
      .node node.id pointAttributes) ++
    (ranksOf p.roleNames.length p.messages.length).map (fun nodes =>
      .group [("rank", "same")] (nodes.map Node.id)) ++
    (chains p.roleNames.length p.messages.length).map (fun link =>
      .edge link.1.id link.2.id guideAttributes) ++
    p.arrows.map fun arrow =>
      .edge arrow.1.id arrow.2.1.id (arrowAttributes arrow.2.2)

theorem items?_diagram :
    items? (digraph "Protocol" (p.diagram title)) = some (p.sketch title) := by
  have boxes := denoted_map (fun box : Node × String =>
    denotes_box box.1 box.2) p.boxes
  have points := denoted_map denotes_dot
    (crossings p.roleNames.length p.messages.length)
  have ranks := denoted_map denotes_sameRank
    (ranksOf p.roleNames.length p.messages.length)
  have guides := denoted_map (fun link : Node × Node =>
    denotes_guide link.1 link.2) (chains p.roleNames.length p.messages.length)
  have arrows := denoted_map (fun arrow : Node × Node × String =>
    denotes_arrow arrow.1 arrow.2.1 arrow.2.2) p.arrows
  exact items?_digraph ((Chart.denotes_preamble (p.chart title)).append boxes
    |>.append points |>.append ranks |>.append guides |>.append arrows)

/--
Every role has a column and every message a row, and nothing is drawn that is
not declared.
-/
structure LaidOut (p : Protocol) (items : List Item) : Prop where
  nodes : items.filterMap Item.node? =
    p.boxes.map (fun box => (box.1.id, boxAttributes box.2)) ++
      (crossings p.roleNames.length p.messages.length).map fun node =>
        (node.id, pointAttributes)
  once : ((items.filterMap Item.node?).map Prod.fst).Nodup
  groups : items.filterMap Item.group? =
    (ranksOf p.roleNames.length p.messages.length).map fun nodes =>
      ([("rank", "same")], nodes.map Node.id)
  edges : items.filterMap Item.edge? =
    (chains p.roleNames.length p.messages.length).map (fun link =>
      (link.1.id, link.2.id, guideAttributes)) ++
      p.arrows.map fun arrow =>
        (arrow.1.id, arrow.2.1.id, arrowAttributes arrow.2.2)
  used : ∀ item ∈ items, ∀ name ∈ item.used,
    name ∈ (items.filterMap Item.node?).map Prod.fst

theorem filterMap_diagram {β : Type} {view : Statement → Option β}
    (settings : ∀ text, view (.setting text) = none) :
    (p.diagram title).filterMap view =
      ((Chart.heading title).toList.filterMap fun text =>
          view (.title text)) ++
        (p.boxes.filterMap fun box => view (.box box.1 box.2)) ++
        (crossings p.roleNames.length p.messages.length).filterMap
          (fun node => view (.dot node)) ++
        (ranksOf p.roleNames.length p.messages.length).filterMap
          (fun nodes => view (.sameRank nodes)) ++
        (chains p.roleNames.length p.messages.length).filterMap
          (fun link => view (.guide link.1 link.2)) ++
        p.arrows.filterMap
          fun arrow => view (.arrow arrow.1 arrow.2.1 arrow.2.2) := by
  have preamble := Chart.filterMap_preamble settings (p.chart title)
  simp only [diagram, List.filterMap_append, preamble, List.filterMap_map]
  rfl

theorem filterMap_sketch {β : Type} (view : Item → Option β) :
    (p.sketch title).filterMap view =
      (Chart.settings title).filterMap view ++
        (p.boxes.filterMap fun box =>
          view (.node box.1.id (boxAttributes box.2))) ++
        (crossings p.roleNames.length p.messages.length).filterMap
          (fun node => view (.node node.id pointAttributes)) ++
        (ranksOf p.roleNames.length p.messages.length).filterMap
          (fun nodes => view (.group [("rank", "same")] (nodes.map Node.id))) ++
        (chains p.roleNames.length p.messages.length).filterMap
          (fun link => view (.edge link.1.id link.2.id guideAttributes)) ++
        p.arrows.filterMap fun arrow =>
          view (.edge arrow.1.id arrow.2.1.id (arrowAttributes arrow.2.2)) := by
  simp only [sketch, List.filterMap_append, List.filterMap_map]
  rfl

theorem map_fst_boxes : p.boxes.map Prod.fst = heads p.roleNames.length := by
  rw [boxes, heads]
  exact List.ext_getElem (by simp) (by simp)

theorem nodes_sketch :
    (p.sketch title).filterMap Item.node? =
      p.boxes.map (fun box => (box.1.id, boxAttributes box.2)) ++
        (crossings p.roleNames.length p.messages.length).map fun node =>
          (node.id, pointAttributes) := by
  rw [filterMap_sketch,
    Chart.filterMap_settings (fun _ _ => rfl) fun _ _ => rfl]
  simp [Item.node?]

theorem names_sketch :
    ((p.sketch title).filterMap Item.node?).map Prod.fst =
      (heads p.roleNames.length ++
        crossings p.roleNames.length p.messages.length).map Node.id := by
  rw [nodes_sketch, ← map_fst_boxes]
  simp [Function.comp_def]

variable {p title}

theorem mem_names_sketch {node : Node}
    (within : node.Within p.roleNames.length p.messages.length) :
    node.id ∈ ((p.sketch title).filterMap Item.node?).map Prod.fst := by
  rw [names_sketch]
  exact List.mem_map_of_mem (mem_grid.mpr within)

theorem arrows_within (known : p.Placed) :
    ∀ arrow ∈ p.arrows,
      arrow.1.Within p.roleNames.length p.messages.length ∧
        arrow.2.1.Within p.roleNames.length p.messages.length := by
  intro arrow mem
  rw [arrows, List.mem_mapIdx] at mem
  obtain ⟨row, bound, rfl⟩ := mem
  have endpoints := known _ (List.getElem_mem bound)
  simp [Node.Within, bound, List.idxOf_lt_length_iff, endpoints.1, endpoints.2]

theorem mem_names_of_mem_used (known : p.Placed) :
    ∀ item ∈ p.sketch title, ∀ name ∈ item.used,
      name ∈ ((p.sketch title).filterMap Item.node?).map Prod.fst := by
  have pair {source target : Node}
      (ends : source.Within p.roleNames.length p.messages.length ∧
        target.Within p.roleNames.length p.messages.length) :
      ∀ name ∈ [source.id, target.id],
        name ∈ ((p.sketch title).filterMap Item.node?).map Prod.fst := by
    rw [List.forall_mem_cons, List.forall_mem_singleton]
    exact ⟨mem_names_sketch ends.1, mem_names_sketch ends.2⟩
  intro item mem name used
  simp only [sketch, List.mem_append, List.mem_map] at mem
  rcases mem with ((((mem | ⟨box, _, rfl⟩) | ⟨node, _, rfl⟩) |
    ⟨nodes, mem, rfl⟩) | ⟨link, mem, rfl⟩) | ⟨arrow, mem, rfl⟩
  · have settings : item.used = [] := by
      simp only [Chart.settings, List.mem_append, List.mem_flatMap,
        List.mem_cons, List.not_mem_nil, or_false] at mem
      rcases mem with ((rfl | rfl) | ⟨text, _, rfl | rfl⟩) | rfl | rfl <;> rfl
    rw [settings] at used
    cases used
  · cases used
  · cases used
  · obtain ⟨node, inside, rfl⟩ := List.mem_map.mp used
    exact mem_names_sketch (within_of_mem_ranksOf mem node inside)
  · exact pair (within_of_mem_chains mem) name used
  · exact pair (arrows_within known arrow mem) name used

theorem laidOut_sketch (known : p.Placed) : p.LaidOut (p.sketch title) where
  nodes := nodes_sketch p title
  once := by
    rw [names_sketch]
    exact nodup_grid.map Node.id_injective
  groups := by
    rw [filterMap_sketch,
    Chart.filterMap_settings (fun _ _ => rfl) fun _ _ => rfl]
    simp [Item.group?]
  edges := by
    rw [filterMap_sketch,
    Chart.filterMap_settings (fun _ _ => rfl) fun _ _ => rfl]
    simp [Item.edge?]
  used := mem_names_of_mem_used known

theorem mapM_arrow (distinct : p.roleNames.Nodup) (known : p.Placed) :
    (p.chart title).rows.mapM (p.chart title).arrow =
      .ok (p.arrows.map fun arrow => .arrow arrow.1 arrow.2.1 arrow.2.2) := by
  have drawn : ∀ row ∈ (p.chart title).rows, (p.chart title).arrow row =
      .ok (.arrow (.point (p.roleNames.idxOf row.sender) row.index)
        (.point (p.roleNames.idxOf row.receiver) row.index) row.label) := by
    intro row mem
    rw [chart, rows, List.mem_mapIdx] at mem
    obtain ⟨index, bound, rfl⟩ := mem
    have endpoints := known _ (List.getElem_mem bound)
    exact Chart.arrow_eq_ok distinct endpoints.1 endpoints.2
  rw [Outcome.mapM_eq_ok drawn]
  simp [chart, rows, arrows, List.mapIdx_eq_zipIdx_map]

theorem statements_chart (distinct : p.roleNames.Nodup) (known : p.Placed) :
    (p.chart title).statements = .ok (p.diagram title) := by
  have columns : (p.chart title).roles.Nodup := distinct
  have counted : (p.chart title).rows.length = p.messages.length := by
    simp [chart, rows]
  have boxed : (p.chart title).boxes =
      p.boxes.map fun box => .box box.1 box.2 := by
    rw [Chart.boxes_eq columns]
    simp [boxes, chart, List.mapIdx_eq_zipIdx_map]
  rw [Chart.statements, mapM_arrow distinct known, boxed,
    Chart.points_eq columns, Chart.ranks_eq columns, Chart.guides_eq columns,
    counted]
  rfl

/-- The first role that is not declared is missed, whatever else is wrong. -/
theorem mapM_arrow_eq_error {name : String} :
    (p.chart title).rows.mapM (p.chart title).arrow = .error name ↔
      (p.messages.flatMap Message.endpoints).find? (· ∉ p.roleNames) =
        some name := by
  have told (row : Chart.Row) (fault : String) :
      (p.chart title).arrow row = .error fault ↔
        [row.sender, row.receiver].find? (· ∉ p.roleNames) = some fault :=
    Chart.arrow_eq_error
  have looked :
      ((p.chart title).rows.map fun row => [row.sender, row.receiver]) =
        p.messages.map Message.endpoints :=
    List.ext_getElem (by simp [chart, rows])
      (by simp [chart, rows, Message.endpoints])
  rw [Outcome.mapM_eq_error told, List.flatMap_def, ← looked,
    List.find?_flatten, List.findSome?_map]
  rfl

/-- The text of a chart is read as a diagram of its roles and messages, or the
first name that has no column is missed. -/
theorem dot_chart (p : Protocol) (title : Option String) :
    (p.roleNames.Nodup → p.Placed → ∃ text items,
      (p.chart title).dot = .ok text ∧ items? text = some items ∧
        p.LaidOut items) ∧
    ∀ name, (p.messages.flatMap Message.endpoints).find? (· ∉ p.roleNames) =
      some name → (p.chart title).dot = .error name := by
  constructor
  · intro distinct known
    refine ⟨digraph "Protocol" (p.diagram title), p.sketch title, ?_,
      items?_diagram p title, laidOut_sketch known⟩
    rw [Chart.dot, statements_chart distinct known]
    rfl
  · intro name first
    rw [Chart.dot, Chart.statements, mapM_arrow_eq_error.mpr first]
    rfl

def musing : Protocol :=
  ⟨⟨[⟨"A", 1⟩, ⟨"B", 1⟩], 1⟩, [],
    [⟨⟨"B", 2⟩, ⟨"A", 2⟩, .name ⟨"n", 2⟩, 2⟩,
      ⟨⟨"A", 3⟩, ⟨"A", 3⟩, .name ⟨"m", 3⟩, 3⟩], []⟩

def digressing : Protocol :=
  { musing with messages := musing.messages ++
      [⟨⟨"A", 4⟩, ⟨"C", 4⟩, .name ⟨"n", 4⟩, 4⟩,
        ⟨⟨"D", 5⟩, ⟨"A", 5⟩, .name ⟨"n", 5⟩, 5⟩] }

theorem dot_chart_musing :
    (∃ text items, (musing.chart (some "M")).dot = .ok text ∧
      items? text = some items ∧ musing.LaidOut items) ∧
      (digressing.chart none).dot = .error "C" :=
  ⟨(dot_chart musing (some "M")).1 (by decide) (by decide),
    (dot_chart digressing none).2 "C" (by decide)⟩

end Protocol

end Secrecy
