import Secrecy.Chart.Dot
import Secrecy.Protocol.Label

/-!
# Sequence charts

Every role has a column and every message a row.  A chart is drawn as a grid of
invisible points under the role boxes; each message is an arrow between two
points of its row.
-/

namespace Secrecy

structure Chart.Row where
  index : Nat
  sender : String
  receiver : String
  label : String
  deriving DecidableEq, Repr

structure Chart where
  title : Option String
  roles : List String
  rows : List Chart.Row
  deriving DecidableEq, Repr

def Protocol.rows (protocol : Protocol) : List Chart.Row :=
  protocol.messages.mapIdx fun index message =>
    ⟨index, message.sender.name, message.receiver.name, message.body.label⟩

def Protocol.chart (protocol : Protocol) (title : Option String) : Chart :=
  ⟨title, protocol.roleNames, protocol.rows⟩

namespace Chart

open Dot

/-- The place of a role; the last one if the role is declared repeatedly. -/
def column? (roles : List String) (role : String) : Option Nat :=
  (roles.reverse.idxOf? role).map (roles.length - 1 - ·)

def columns (chart : Chart) : List Nat :=
  chart.roles.filterMap (column? chart.roles)

def preamble (chart : Chart) : List Statement :=
  let title :=
    match chart.title with
    | none | some "" => []
    | some text => [.title text, .setting "labelloc=t"]
  [.setting "rankdir=TB", .setting "splines=polyline"] ++ title ++
    [.setting "node [fontsize=12]",
      .setting "graph [nodesep=0.8, ranksep=0.8]"]

def boxes (chart : Chart) : List Statement :=
  chart.roles.filterMap fun role =>
    (column? chart.roles role).map fun column => .box (.head column) role

def pointsOfRow (chart : Chart) (row : Nat) : List Node :=
  chart.columns.map (.point · row)

def rowIndices (chart : Chart) : List Nat := List.range chart.rows.length

def points (chart : Chart) : List Statement :=
  chart.rowIndices.flatMap fun row => (chart.pointsOfRow row).map .dot

def ranks (chart : Chart) : List Statement :=
  .sameRank (chart.columns.map .head) ::
    chart.rowIndices.map fun row => .sameRank (chart.pointsOfRow row)

/-- Leads from a node through all points of a column, from top to bottom. -/
def guideFrom (column : Nat) : Node → List Nat → List Statement
  | _, [] => []
  | above, row :: rows =>
      .guide above (.point column row) ::
        guideFrom column (.point column row) rows

def guides (chart : Chart) : List Statement :=
  chart.columns.flatMap fun column =>
    guideFrom column (.head column) chart.rowIndices

/-- Fails with the name of an endpoint that has no column. -/
def columnOf (chart : Chart) (role : String) : Except String Nat :=
  match column? chart.roles role with
  | none => .error role
  | some column => .ok column

def arrow (chart : Chart) (row : Row) : Except String Statement := do
  let source ← chart.columnOf row.sender
  let target ← chart.columnOf row.receiver
  return .arrow (.point source row.index) (.point target row.index) row.label

def statements (chart : Chart) : Except String (List Statement) := do
  let arrows ← chart.rows.mapM chart.arrow
  return chart.preamble ++ chart.boxes ++ chart.points ++ chart.ranks ++
    chart.guides ++ arrows

def dot (chart : Chart) : Except String String :=
  chart.statements.map (digraph "Protocol")

end Chart

end Secrecy
