import Secrecy.Proofs.Chart.Diagram
import Secrecy.Proofs.Text.Lines

/-!
# Quoted text in charts

Within quotes a backslash takes the next character as it is, and the first bare
quote ends them.  Read like that, what a chart has in quotes is its title, its
roles and the labels of its arrows, whatever characters these are made of.  As
a text is read as one graph only, two charts with the same text show the same.
-/

namespace Secrecy

namespace Dot

open Text

/-! ## Reading what is quoted -/

/-- What is quoted up to the first bare quote, and what follows that. -/
def unquote : List Char → Option (List Char × List Char)
  | [] => none
  | '\x22' :: rest => some ([], rest)
  | '\\' :: c :: rest =>
      (unquote rest).map fun (quote, rest) => (c :: quote, rest)
  | c :: rest => (unquote rest).map fun (quote, rest) => (c :: quote, rest)

theorem length_unquote_lt {s quote rest : List Char}
    (h : unquote s = some (quote, rest)) : rest.length < s.length := by
  fun_induction unquote s generalizing quote with
  | case1 => cases h
  | case2 rest =>
      cases h
      simp
  | case3 c rest ih | case4 c rest _ _ ih =>
      obtain ⟨⟨quote, rest⟩, read, same⟩ := Option.map_eq_some_iff.mp h
      cases same
      have := ih read
      simp only [List.length_cons]
      omega

/-- All that stands in quotes, in order, if the quotes that open also close. -/
def quotations (s : List Char) : Option (List String) :=
  match s with
  | [] => some []
  | '\x22' :: rest =>
      match _closing : unquote rest with
      | none => none
      | some (quote, rest) =>
          (quotations rest).map (String.ofList quote :: ·)
  | _ :: rest => quotations rest
termination_by s.length
decreasing_by
  · have := length_unquote_lt (by assumption)
    simp only [List.length_cons]
    omega
  · simp

theorem unquote_escaped (s rest : List Char) :
    unquote (s.flatMap escapedChar ++ '\x22' :: rest) = some (s, rest) := by
  induction s with
  | nil => rfl
  | cons c s ih =>
      rw [List.flatMap_cons, List.append_assoc]
      by_cases special : c = '\\' ∨ c = '\x22'
      · rw [escapedChar, if_pos special]
        simp [unquote, ih]
      · rw [escapedChar, if_neg special]
        push Not at special
        simp [unquote, ih, special]

def Bare (c : Char) : Prop := c ≠ '\x22'

instance (c : Char) : Decidable (Bare c) := inferInstanceAs (Decidable (_ ≠ _))

theorem quotations_of_bare {before : List Char}
    (bare : ∀ c ∈ before, Bare c) (rest : List Char) :
    quotations (before ++ rest) = quotations rest := by
  induction before with
  | nil => rfl
  | cons c before ih =>
      rw [List.forall_mem_cons] at bare
      rw [List.cons_append, quotations, ih bare.2]
      exact bare.1

theorem quotations_quoted (s : String) (rest : List Char) :
    quotations ((quoted s).toList ++ rest) =
      (quotations rest).map (s :: ·) := by
  have opened : (quoted s).toList ++ rest =
      '\x22' :: (s.toList.flatMap escapedChar ++ '\x22' :: rest) := by
    simp [quoted, escaped]
  rw [opened, quotations]
  split
  next unclosed =>
    rw [unquote_escaped] at unclosed
    cases unclosed
  next closed =>
    rw [unquote_escaped] at closed
    cases closed
    rw [String.ofList_toList]

/-! ## Phrases -/

/-- What stands before quotes, and what they hold with what comes after them. -/
structure Phrase where
  lead : String
  quote : Option (String × String)
  deriving DecidableEq, Repr

namespace Phrase

def text (phrase : Phrase) : String :=
  match phrase.quote with
  | none => phrase.lead
  | some (label, close) => phrase.lead ++ quoted label ++ close

def quote? (phrase : Phrase) : Option String := phrase.quote.map Prod.fst

structure Plain (phrase : Phrase) : Prop where
  lead : ∀ c ∈ phrase.lead.toList, Bare c
  close : ∀ quote ∈ phrase.quote, ∀ c ∈ quote.2.toList, Bare c

variable {phrase : Phrase}

theorem quotations_append (plain : phrase.Plain) (rest : List Char) :
    quotations (phrase.text.toList ++ rest) =
      (quotations rest).map (phrase.quote?.toList ++ ·) := by
  obtain ⟨lead, quote⟩ := phrase
  obtain ⟨bareLead, bareClose⟩ := plain
  cases quote with
  | none =>
      rw [text, quotations_of_bare bareLead]
      simp [quote?]
  | some quote =>
      obtain ⟨label, close⟩ := quote
      simp only [text, String.toList_append, List.append_assoc]
      rw [quotations_of_bare bareLead, quotations_quoted,
        quotations_of_bare (bareClose _ rfl)]
      simp [quote?]

end Phrase

/-! ## Statements -/

namespace Statement

def phrase : Statement → Phrase
  | .setting text => ⟨text ++ ";", none⟩
  | .title text => ⟨"label=", some (text, ";")⟩
  | .box node label =>
      ⟨node.id ++ " [label=", some (label, ", shape=box, style=rounded];")⟩
  | .dot node =>
      ⟨node.id ++ " [label=",
        some ("", ", shape=point, width=0.02, height=0.02];")⟩
  | .sameRank nodes =>
      ⟨"\x7b rank=same; " ++ String.intercalate " " (nodes.map Node.id) ++
        " \x7d", none⟩
  | .guide source target => ⟨edge source target ++ " [style=invis];", none⟩
  | .arrow source target label =>
      ⟨edge source target ++ " [label=", some (label, ", constraint=false];")⟩

theorem text_phrase (statement : Statement) :
    statement.phrase.text = statement.text := by
  cases statement with
  | dot node =>
      have empty : " [label=" ++
          (quoted "" ++ ", shape=point, width=0.02, height=0.02];") =
            " [label=\"\", shape=point, width=0.02, height=0.02];" := by
        decide
      change node.id ++ " [label=" ++ quoted "" ++ _ = node.id ++ _
      rw [String.append_assoc, String.append_assoc, empty]
  | _ => rfl

theorem bare_of_mem_id {node : Node} : ∀ c ∈ node.id.toList, Bare c := by
  rintro c mem rfl
  exact absurd (isWordChar_of_mem_id node _ mem) (by decide)

theorem bare_edge (source target : Node) :
    ∀ c ∈ (edge source target).toList, Bare c := by
  have arrow : ∀ c ∈ " -> ".toList, Bare c :=
    Text.forall_mem_of_all (by decide)
  simp only [edge, String.toList_append, List.forall_mem_append]
  exact ⟨⟨bare_of_mem_id, arrow⟩, bare_of_mem_id⟩

theorem plain_phrase {statement : Statement}
    (settings : ∀ text, statement = .setting text → ∀ c ∈ text.toList, Bare c) :
    statement.phrase.Plain := by
  constructor
  · cases statement with
    | setting text =>
        have close : ∀ c ∈ ";".toList, Bare c :=
          Text.forall_mem_of_all (by decide)
        simp only [phrase, String.toList_append, List.forall_mem_append]
        exact ⟨settings text rfl, close⟩
    | title text =>
        change ∀ c ∈ "label=".toList, Bare c
        exact Text.forall_mem_of_all (by decide)
    | box node label | dot node =>
        have close : ∀ c ∈ " [label=".toList, Bare c :=
          Text.forall_mem_of_all (by decide)
        simp only [phrase, String.toList_append, List.forall_mem_append]
        exact ⟨bare_of_mem_id, close⟩
    | sameRank nodes =>
        have start : ∀ c ∈ "\x7b rank=same; ".toList, Bare c :=
          Text.forall_mem_of_all (by decide)
        have space : ∀ c ∈ " ".toList, Bare c :=
          Text.forall_mem_of_all (by decide)
        have close : ∀ c ∈ " \x7d".toList, Bare c :=
          Text.forall_mem_of_all (by decide)
        simp only [phrase, String.toList_append, List.forall_mem_append]
        refine ⟨⟨start, Text.forall_mem_intercalate space ?_⟩, close⟩
        rw [List.forall_mem_map]
        exact fun node _ => bare_of_mem_id
    | guide source target =>
        have close : ∀ c ∈ " [style=invis];".toList, Bare c :=
          Text.forall_mem_of_all (by decide)
        simp only [phrase, String.toList_append, List.forall_mem_append]
        exact ⟨bare_edge source target, close⟩
    | arrow source target label =>
        have close : ∀ c ∈ " [label=".toList, Bare c :=
          Text.forall_mem_of_all (by decide)
        simp only [phrase, String.toList_append, List.forall_mem_append]
        exact ⟨bare_edge source target, close⟩
  · rintro quote mem
    cases statement <;> cases mem
    all_goals
      dsimp only
      exact Text.forall_mem_of_all (by decide)

end Statement

/-! ## Lines -/

def lines (phrases : List Phrase) : List Char :=
  phrases.flatMap fun phrase =>
    "  ".toList ++ (phrase.text.toList ++ ['\n'])

theorem toList_digraph_lines (statements : List Statement) :
    (digraph "Protocol" statements).toList =
      ("digraph " ++ "Protocol" ++ " \x7b\n").toList ++
        (lines (statements.map Statement.phrase) ++ "\x7d\n".toList) := by
  rw [toList_digraph]
  simp [lines, Statement.text_phrase, List.flatMap_map]

variable {phrases : List Phrase} {statements : List Statement}

theorem quotations_lines (plain : ∀ phrase ∈ phrases, phrase.Plain)
    (rest : List Char) :
    quotations (lines phrases ++ rest) =
      (quotations rest).map (phrases.filterMap Phrase.quote? ++ ·) := by
  induction phrases with
  | nil => simp [lines]
  | cons phrase phrases ih =>
      rw [List.forall_mem_cons] at plain
      have indent : ∀ c ∈ "  ".toList, Bare c :=
        Text.forall_mem_of_all (by decide)
      have feed : ∀ c ∈ ['\n'], Bare c :=
        Text.forall_mem_of_all (by decide)
      have first : lines (phrase :: phrases) ++ rest =
          "  ".toList ++ (phrase.text.toList ++
            (['\n'] ++ (lines phrases ++ rest))) := by
        simp [lines]
      rw [first, quotations_of_bare indent,
        Phrase.quotations_append plain.1, quotations_of_bare feed,
        ih plain.2, Option.map_map]
      congr 1
      funext quotes
      cases quote : phrase.quote? <;> simp [quote]

theorem quotations_digraph
    (plain : ∀ phrase ∈ statements.map Statement.phrase, phrase.Plain) :
    quotations (digraph "Protocol" statements).toList =
      some (statements.filterMap (·.phrase.quote?)) := by
  have start : ∀ c ∈ ("digraph " ++ "Protocol" ++ " \x7b\n").toList,
      Bare c := Text.forall_mem_of_all (by decide)
  have close : quotations "\x7d\n".toList = some [] := by
    simp [quotations]
  rw [toList_digraph_lines, quotations_of_bare start, quotations_lines plain, close]
  simp [List.filterMap_map]

/-! ## Telling graphs apart -/

namespace Item

def title? : Item → Option String
  | .setting "label" text => some text
  | _ => none

def boxLabel? : Item → Option String
  | .node _ [("label", label), ("shape", "box"), _] => some label
  | _ => none

def arrow? : Item → Option (String × String × String)
  | .edge source target [("label", label), _] => some (source, target, label)
  | _ => none

end Item

end Dot

/-! ## Charts -/

namespace Protocol

open Dot

variable {p q : Protocol} {title title' : Option String}

theorem plain_diagram :
    ∀ phrase ∈ (p.diagram title).map Statement.phrase, phrase.Plain := by
  have plain : ∀ text ∈ ["rankdir=TB", "splines=polyline", "labelloc=t",
      "node [fontsize=12]", "graph [nodesep=0.8, ranksep=0.8]"],
      text.toList.all Bare = true := by decide
  rw [List.forall_mem_map]
  intro statement mem
  refine Statement.plain_phrase ?_
  rintro text rfl
  refine Text.forall_mem_of_all (plain text ?_)
  simp only [diagram, Chart.preamble_eq, List.mem_append, List.mem_flatMap,
    List.mem_map] at mem
  simp at mem ⊢
  tauto

theorem map_snd_boxes : p.boxes.map Prod.snd = p.roleNames :=
  List.ext_getElem (by simp [boxes]) (by simp [boxes])

theorem map_label_arrows :
    p.arrows.map (fun arrow => arrow.2.2) = p.rows.map Chart.Row.label :=
  List.ext_getElem (by simp [arrows, rows]) (by simp [arrows, rows])

theorem quotes_diagram :
    (p.diagram title).filterMap (·.phrase.quote?) =
      (Chart.heading title).toList ++ p.roleNames ++
        List.replicate (p.roleNames.length * p.messages.length) "" ++
        p.rows.map Chart.Row.label := by
  have points : (crossings p.roleNames.length p.messages.length).length =
      p.roleNames.length * p.messages.length := by
    simp [crossings, pointsOf, Nat.mul_comm]
  rw [filterMap_diagram _ _ fun _ => rfl]
  simp [Statement.phrase, Phrase.quote?, map_snd_boxes, map_label_arrows,
    points]

/-- The title, the labels of boxes and the arrows are told from a sketch. -/
theorem sketch_inj (same : p.sketch title = q.sketch title') :
    Chart.heading title = Chart.heading title' ∧ p.roleNames = q.roleNames ∧
      p.arrows = q.arrows := by
  have titles (p : Protocol) (title : Option String) :
      (p.sketch title).filterMap Item.title? =
        (Chart.heading title).toList := by
    rw [filterMap_sketch]
    simp [Chart.settings, Item.title?, List.filterMap_flatMap]
  have boxes (p : Protocol) (title : Option String) :
      (p.sketch title).filterMap Item.boxLabel? = p.roleNames := by
    rw [filterMap_sketch,
      Chart.filterMap_settings (fun _ _ => rfl) fun _ _ => rfl,
      ← map_snd_boxes]
    simp [Item.boxLabel?, boxAttributes, pointAttributes]
  have arrows (p : Protocol) (title : Option String) :
      (p.sketch title).filterMap Item.arrow? =
        p.arrows.map fun arrow => (arrow.1.id, arrow.2.1.id, arrow.2.2) := by
    rw [filterMap_sketch,
      Chart.filterMap_settings (fun _ _ => rfl) fun _ _ => rfl]
    simp [Item.arrow?, guideAttributes, arrowAttributes]
  refine ⟨?_, ?_, ?_⟩
  · have shown := titles p title
    rw [same, titles] at shown
    simpa using congrArg List.head? shown.symm
  · rw [← boxes p title, same, boxes]
  · have drawn := arrows p title
    rw [same, arrows] at drawn
    refine (List.map_injective_iff.mpr ?_ drawn).symm
    rintro ⟨source, target, label⟩ ⟨source', target', label'⟩ same
    simpa [Node.id_injective.eq_iff] using same

theorem rows_eq_of_arrows (known : p.Placed)
    (roles : p.roleNames = q.roleNames) (same : p.arrows = q.arrows) :
    p.rows = q.rows := by
  rw [arrows, arrows, ← roles, List.mapIdx_eq_zipIdx_map,
    List.mapIdx_eq_zipIdx_map] at same
  rw [rows, rows, List.mapIdx_eq_zipIdx_map, List.mapIdx_eq_zipIdx_map]
  refine map_eq_map_of same ?_
  rintro ⟨message, row⟩ mem ⟨message', row'⟩ mem' drawn
  have ends := known message (List.fst_mem_of_mem_zipIdx mem)
  simp only [Prod.mk.injEq, Node.point.injEq, List.idxOf_inj ends.1,
    List.idxOf_inj ends.2] at drawn
  obtain ⟨⟨sender, rfl⟩, ⟨receiver, -⟩, label⟩ := drawn
  simp only [sender, receiver, label]

theorem chart_congr (roles : p.roleNames = q.roleNames) (rows : p.rows = q.rows)
    (titles : Chart.heading title = Chart.heading title') :
    (p.chart title).dot = (q.chart title').dot := by
  have headed (p : Protocol) (title : Option String) :
      (p.chart title).dot = (p.chart (Chart.heading title)).dot := by
    cases title with
    | none => rfl
    | some text =>
        by_cases empty : text = ""
        · subst empty
          rfl
        · rw [Chart.heading_some empty]
  rw [headed, headed q, titles, chart, chart, roles, rows]

/--
What stands in quotes in a chart is its title, its roles, nothing for each of
its points and the labels of its rows.  Two charts have the same text just if
they have the same title, the same roles and the same rows.
-/
theorem dot_reads_back (p q : Protocol) (title title' : Option String)
    (distinct : p.roleNames.Nodup) (known : p.Placed)
    (distinct' : q.roleNames.Nodup) (known' : q.Placed) :
    (∃ text, (p.chart title).dot = .ok text ∧
      quotations text.toList = some ((title.filter (· ≠ "")).toList ++
        p.roleNames ++
        List.replicate (p.roleNames.length * p.messages.length) "" ++
        p.rows.map Chart.Row.label)) ∧
    ((p.chart title).dot = (q.chart title').dot ↔
      title.filter (· ≠ "") = title'.filter (· ≠ "") ∧
        p.roleNames = q.roleNames ∧ p.rows = q.rows) := by
  have drawn : (p.chart title).dot =
      .ok (digraph "Protocol" (p.diagram title)) := by
    rw [Chart.dot, statements_chart distinct known]
    rfl
  have drawn' : (q.chart title').dot =
      .ok (digraph "Protocol" (q.diagram title')) := by
    rw [Chart.dot, statements_chart distinct' known']
    rfl
  constructor
  · refine ⟨_, drawn, ?_⟩
    rw [quotations_digraph plain_diagram, quotes_diagram]
    rfl
  · constructor
    · intro same
      rw [drawn, drawn', Except.ok.injEq] at same
      have read := congrArg items? same
      rw [items?_diagram, items?_diagram, Option.some.injEq] at read
      obtain ⟨titles, roles, arrows⟩ := sketch_inj read
      exact ⟨titles, roles, rows_eq_of_arrows known roles arrows⟩
    · rintro ⟨titles, roles, rows⟩
      exact chart_congr roles rows titles

def quoting : Protocol :=
  ⟨⟨[⟨"\\", 1⟩, ⟨"B\", shape=box];\nhdr_2 [label=\"C", 1⟩], 1⟩, [],
    [⟨⟨"\\", 2⟩, ⟨"\\", 2⟩, .name ⟨"\\\"", 2⟩, 2⟩], []⟩

theorem dot_reads_back_quoting :
    (∃ text, (quoting.chart (some "\\")).dot = .ok text ∧
      quotations text.toList = some ["\\", "\\",
        "B\", shape=box];\nhdr_2 [label=\"C", "", "", "\\\""]) ∧
      (quoting.chart (some "")).dot = (quoting.chart none).dot ∧
      (quoting.chart (some "\\")).dot ≠ (musing.chart (some "\\")).dot := by
  obtain ⟨⟨text, drawn, read⟩, apart⟩ := dot_reads_back quoting musing
    (some "\\") (some "\\") (by decide) (by decide) (by decide) (by decide)
  have untitled := (dot_reads_back quoting quoting (some "") none
    (by decide) (by decide) (by decide) (by decide)).2
  refine ⟨⟨text, drawn, read.trans (by decide)⟩,
    untitled.mpr ⟨by decide, rfl, rfl⟩, fun same => ?_⟩
  exact absurd (apart.mp same).2.1 (by decide)

end Protocol

end Secrecy
