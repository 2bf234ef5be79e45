import Secrecy.Proofs.Knowledge.Labels

/-!
# Labels tell sealed terms apart

The label of a sealed term may have parentheses around the right part of a
concatenation, which the notation has not.  They can be told from all others,
for they open right after bars, where nothing else does, and close at the very
end.  What is left without them is the yield of the sealed expression, and a
yield is read in one way only.
-/

namespace Secrecy

/-! ## Parentheses after bars -/

namespace Terminal

/-- Leaves out a parenthesis that opens after bars, and the last terminal. -/
def ungroup : List Terminal → List Terminal
  | [] => []
  | .operator .bars :: .operator .leftParen :: rest =>
      .operator .bars :: rest.dropLast
  | terminal :: rest => terminal :: ungroup rest

def Ungrouped (terminals : List Terminal) : Prop :=
  terminals.IsChain fun a b => a = .operator .bars → b ≠ .operator .leftParen

variable {terminal : Terminal} {terminals others : List Terminal}

namespace Ungrouped

theorem cons (h : Ungrouped others) (other : terminal ≠ .operator .bars) :
    Ungrouped (terminal :: others) :=
  List.IsChain.cons h fun _ _ isBars => absurd isBars other

theorem cons_closed (h : Ungrouped others)
    (closed : others.head? ≠ some (.operator .leftParen)) :
    Ungrouped (terminal :: others) :=
  List.IsChain.cons h fun _ next _ opens => closed (opens ▸ next)

theorem append (h : Ungrouped terminals) (h' : Ungrouped others)
    (closed : others.head? ≠ some (.operator .leftParen)) :
    Ungrouped (terminals ++ others) :=
  List.IsChain.append h h' fun _ _ _ next _ opens => closed (opens ▸ next)

theorem applied {word : Keyword} (h : Ungrouped terminals) :
    Ungrouped (Terminal.applied word terminals) := by
  have closing : Ungrouped [.operator .rightParen] := .singleton _
  exact ((h.append closing (by decide)).cons (by decide)).cons nofun

theorem ungroup_append (h : Ungrouped terminals)
    (closed : others.head? ≠ some (.operator .leftParen)) :
    ungroup (terminals ++ others) = terminals ++ ungroup others := by
  induction terminals with
  | nil => rfl
  | cons terminal terminals ih =>
      rw [List.cons_append, List.cons_append, ungroup, ih h.tail]
      rintro rest rfl opens
      cases terminals with
      | nil =>
          rw [List.nil_append] at opens
          exact closed (opens ▸ rfl)
      | cons second terminals =>
          rw [List.cons_append, List.cons.injEq] at opens
          exact h.rel rfl opens.1

theorem ungroup_eq_self (h : Ungrouped terminals) :
    ungroup terminals = terminals := by
  have nothing : ungroup (terminals ++ []) = terminals ++ ungroup [] :=
    h.ungroup_append (by decide)
  rwa [List.append_nil, ungroup, List.append_nil] at nothing

end Ungrouped

end Terminal

open Terminal (Ungrouped ungroup)

namespace Expr

theorem head?_yield_ne (e : Expr) :
    e.yield.head? ≠ some (.operator .leftParen) := by
  induction e with
  | concat left right line ihLeft ihRight =>
      rw [yield, List.head?_append]
      cases head : left.yield.head? with
      | none => nofun
      | some first => exact fun opens => ihLeft (head.trans opens)
  | _ => nofun

theorem ungrouped_yield (e : Expr) : Ungrouped e.yield := by
  induction e with
  | name identifier => exact .singleton _
  | concat left right line ihLeft ihRight =>
      have joined : Ungrouped (.operator .bars :: right.yield) :=
        ihRight.cons_closed right.head?_yield_ne
      exact ihLeft.append joined (by simp)
  | enc key message line ih | mac key message line ih
  | sign key message line ih =>
      exact .applied (.cons (.cons ih (by decide)) nofun)
  | hash inner line ih => exact .applied ih
  | verify key message signature line ihMessage ihSignature =>
      have last : Ungrouped (.operator .comma :: signature.yield) :=
        ihSignature.cons (by decide)
      have parts := ihMessage.append last (by simp)
      exact .applied (.cons (.cons parts (by decide)) nofun)
  | assign target value line ih => exact .cons (.cons ih (by decide)) nofun

variable {left right whole body body' : Expr} {line : Int}
  {term term' : SealedTerm}

/-! ## What a label shows -/

theorem lexes_overgrouped (grouped : (concat left right line).Grouped)
    (named : Named (concat left right line).yield) :
    Lexes (left.label ++ " || (" ++ right.label ++ ")")
      (left.yield ++ [.operator .bars, .operator .leftParen] ++ right.yield ++
        [.operator .rightParen]) := by
  obtain ⟨groupedLeft, groupedRight, -⟩ := grouped
  simp only [yield, named_append, named_cons_operator] at named
  have opens : Separates " || (" [.operator .bars, .operator .leftParen] :=
    ((separates_spaced .bars).marks.append
      (marks_operator .leftParen)).separates rfl (by decide)
  have inside := ((left.lexes_label groupedLeft named.1).append
    opens).append_lexes (right.lexes_label groupedRight named.2)
  exact (inside.append separates_close).lexes

/-- But for its parentheses after bars, a label shows what was sealed. -/
theorem SealsWhole.ungroup_shown (h : whole.SealsWhole term)
    (grouped : whole.Grouped) (named : Named whole.yield) :
    ungroup (Terminal.ofText term.shown.toList) = whole.yield := by
  have shows {label : String} {shown : List Terminal}
      (labelled : term.label = .ok label) (lexes : Lexes label shown) :
      Terminal.ofText term.shown.toList = shown := by
    rw [SealedTerm.shown, labelled, ← List.append_nil label.toList,
      lexes [] Token.apart_nil, Terminal.ofText_nil, List.append_nil]
  by_cases overgrouped : whole.Overgrouped
  · obtain ⟨left, right, line, rfl, -⟩ :=
      (overgrouped_iff grouped named).mp overgrouped
    rw [shows (h.label_of_overgrouped overgrouped)
      (lexes_overgrouped grouped named)]
    simp only [List.append_assoc]
    rw [left.ungrouped_yield.ungroup_append (by simp)]
    simp [ungroup, yield]
  · rw [shows (h.label_eq_iff.mpr overgrouped)
      (whole.lexes_label grouped named)]
    exact whole.ungrouped_yield.ungroup_eq_self

theorem SealsWhole.unique (h : whole.SealsWhole term)
    (h' : whole.SealsWhole term') : term = term' := by
  cases h <;> cases h' <;> rfl

theorem seals_forgetLines : body.forgetLines.Seals term ↔ body.Seals term := by
  rw [← mem_observed_sealedTerms, observed_forgetLines,
    mem_observed_sealedTerms]

theorem depth_payload (body : Expr) : body.payload.depth = body.depth := by
  induction body with
  | assign target value line ih => exact ih
  | _ => rfl

theorem Seals.eq_of_shown_eq (h : body.Seals term) (h' : body'.Seals term')
    (grouped : body.GroupedBody) (grouped' : body'.GroupedBody)
    (shallow : body.depth ≤ Grammar.depthLimit)
    (shallow' : body'.depth ≤ Grammar.depthLimit)
    (named : Named body.yield) (named' : Named body'.yield)
    (same : term.shown = term'.shown) : term = term' := by
  have yields : body.payload.yield = body'.payload.yield := by
    rw [← SealsWhole.ungroup_shown h (grouped_payload grouped)
      (named_payload named), same]
    exact SealsWhole.ungroup_shown h' (grouped_payload grouped')
      (named_payload named')
  have alike : body.payload.forgetLines = body'.payload.forgetLines :=
    Grammar.body_alike_of_yield_eq (grouped_payload grouped).groupedBody
      (grouped_payload grouped').groupedBody (body.depth_payload ▸ shallow)
      (body'.depth_payload ▸ shallow') yields
  have first := seals_forgetLines.mpr h
  have second := seals_forgetLines.mpr h'
  unfold Seals at first second
  rw [payload_forgetLines] at first second
  rw [alike] at first
  exact first.unique second

end Expr

namespace Protocol

variable {text : String} {check : Bool} {p : Protocol}

/-- No two terms that messages of a text seal have the same label. -/
theorem shown_injOn (h : ofSource text check = .ok p)
    {message message' : Message} (mem : message ∈ p.messages)
    (mem' : message' ∈ p.messages) {term term' : SealedTerm}
    (seals : message.body.Seals term) (seals' : message'.body.Seals term')
    (same : term.shown = term'.shown) : term = term' := by
  obtain ⟨grammatical, named⟩ := writable_of_ofText (ofSource_eq_ok.mp h).1
  obtain ⟨grouped, shallow⟩ := grammatical.messages message mem
  obtain ⟨grouped', shallow'⟩ := grammatical.messages message' mem'
  exact seals.eq_of_shown_eq seals' grouped grouped' shallow shallow'
    (named_body named mem) (named_body named mem') same

end Protocol

end Secrecy
