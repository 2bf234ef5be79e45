import Secrecy.Proofs.Form
import Secrecy.Proofs.Protocol.Layout
import Secrecy.Proofs.Rows
import Secrecy.Protocol.Form

/-!
# Protocols in symbolic form

The form of a protocol holds everything but the lines.  Every list in it opens
with a symbol that tells what it is a form of, so the parts of a protocol come
apart again although they stand in one row.  As no list is empty, the print of
a form holds as much.
-/

namespace Secrecy

open Form

/-! ## Expressions -/

theorem Expr.form_eq_iff {e e' : Expr} :
    e.form = e'.form ↔ e.forgetLines = e'.forgetLines := by
  induction e generalizing e' with
  | name identifier =>
      cases e' <;>
        simp [form, headed, forgetLines, Identifier.forgetLines_eq_iff]
  | concat left right line ihLeft ihRight =>
      cases e' <;> simp [form, headed, forgetLines, ihLeft, ihRight]
  | enc key message line ih | mac key message line ih
  | sign key message line ih =>
      cases e' <;>
        simp [form, headed, forgetLines, ih, Identifier.forgetLines_eq_iff]
  | hash inner line ih => cases e' <;> simp [form, headed, forgetLines, ih]
  | verify key message signature line ihMessage ihSignature =>
      cases e' <;>
        simp [form, headed, forgetLines, ihMessage, ihSignature,
          Identifier.forgetLines_eq_iff]
  | assign target value line ih =>
      cases e' <;>
        simp [form, headed, forgetLines, ih, Identifier.forgetLines_eq_iff]

/-! ## Declarations, messages and assertions -/

theorem Form.symbols_eq_iff {names names' : List String} :
    symbols names = symbols names' ↔ names = names' :=
  List.map_inj_right fun _ _ => Form.symbol.inj

theorem forForm_eq_iff {names names' : List String} :
    forForm names = forForm names' ↔ names = names' := by
  simp [forForm, headed, symbols_eq_iff]

theorem KeyKind.keyword_eq_iff {kind kind' : KeyKind} :
    kind.keyword = kind'.keyword ↔ kind = kind' := by
  cases kind <;> cases kind' <;> simp [keyword]

theorem KeyDecl.form_eq_iff {a b : KeyDecl} :
    a.form = b.form ↔ a.forgetLines = b.forgetLines := by
  simp [form, headed, forForm_eq_iff, KeyKind.keyword_eq_iff,
    forgetLines_eq_iff]

theorem Message.form_eq_iff {a b : Message} :
    a.form = b.form ↔ a.forgetLines = b.forgetLines := by
  simp [form, headed, Expr.form_eq_iff, forgetLines_eq_iff]

/-- Nobody permitted is told from no restriction by an empty row of roles. -/
theorem Assertion.form_eq_iff {a b : Assertion} :
    a.form = b.form ↔ a.forgetLines = b.forgetLines := by
  rw [forgetLines_eq_iff]
  unfold form
  cases a.permittedNames <;> cases b.permittedNames <;>
    simp [headed, forForm_eq_iff]

/-! ## Protocols -/

def Form.opening? : Form → Option String
  | .list (.symbol word :: _) => some word
  | _ => none

@[simp] theorem KeyDecl.opening?_form (key : KeyDecl) :
    key.form.opening? = some key.kind.keyword :=
  rfl

@[simp] theorem Message.opening?_form (message : Message) :
    message.form.opening? = some "send" :=
  rfl

@[simp] theorem Assertion.opening?_form (assertion : Assertion) :
    assertion.form.opening? = some "secret" :=
  rfl

/-- By what their forms open with, keys, messages and assertions differ. -/
def Form.rank (form : Form) : Nat :=
  match form.opening? with
  | some "send" => 1
  | some "secret" => 2
  | _ => 0

namespace Protocol

variable {p q : Protocol}

theorem ranked_forms (p : Protocol) :
    Ranked Form.rank (p.keys.map KeyDecl.form) (p.messages.map Message.form)
      (p.assertions.map Assertion.form) where
  first := by
    rw [List.forall_mem_map]
    intro key _
    cases kind : key.kind <;> simp [Form.rank, kind, KeyKind.keyword]
  second := by
    rw [List.forall_mem_map]
    simp [Form.rank]
  third := by
    rw [List.forall_mem_map]
    simp [Form.rank]

theorem forms_eq_iff :
    p.keys.map KeyDecl.form ++ p.messages.map Message.form ++
        p.assertions.map Assertion.form =
      q.keys.map KeyDecl.form ++ q.messages.map Message.form ++
        q.assertions.map Assertion.form ↔
    p.keys.map KeyDecl.form = q.keys.map KeyDecl.form ∧
      p.messages.map Message.form = q.messages.map Message.form ∧
      p.assertions.map Assertion.form = q.assertions.map Assertion.form := by
  constructor
  · exact p.ranked_forms.append_inj q.ranked_forms
  · rintro ⟨keys, messages, assertions⟩
    rw [keys, messages, assertions]

theorem form_eq_iff : p.form = q.form ↔ p.Alike q := by
  rw [alike_iff, RoleSet.forgetLines_eq_iff,
    ← map_eq_map_congr fun a b => KeyDecl.form_eq_iff (a := a) (b := b),
    ← map_eq_map_congr fun a b => Message.form_eq_iff (a := a) (b := b),
    ← map_eq_map_congr fun a b => Assertion.form_eq_iff (a := a) (b := b),
    ← forms_eq_iff]
  simp [form, headed, symbols_eq_iff, roleNames]

end Protocol

/-! ## No list is empty -/

theorem Form.filled_headed {head : String} {items : List Form}
    (filled : ∀ item ∈ items, Filled item) : Filled (headed head items) :=
  .list _ _ (.symbol head) filled

theorem Form.filled_symbols (names : List String) :
    ∀ item ∈ symbols names, Filled item := by
  intro item mem
  obtain ⟨name, _, rfl⟩ := List.mem_map.mp mem
  exact .symbol name

theorem filled_forForm (names : List String) : Filled (forForm names) :=
  filled_headed (filled_symbols names)

theorem Expr.filled_form (e : Expr) : Filled e.form := by
  induction e with
  | name identifier => exact .symbol _
  | concat left right line ihLeft ihRight =>
      exact filled_headed (by simp [ihLeft, ihRight])
  | enc key message line ih | mac key message line ih
  | sign key message line ih | assign key message line ih =>
      exact filled_headed (by simp [ih, Filled.symbol])
  | hash inner line ih => exact filled_headed (by simp [ih])
  | verify key message signature line ihMessage ihSignature =>
      exact filled_headed (by simp [ihMessage, ihSignature, Filled.symbol])

theorem KeyDecl.filled_form (key : KeyDecl) : Filled key.form :=
  filled_headed (by simp [Filled.symbol, filled_forForm])

theorem Message.filled_form (message : Message) : Filled message.form :=
  filled_headed (by simp [Filled.symbol, Expr.filled_form])

theorem Assertion.filled_form (assertion : Assertion) :
    Filled assertion.form := by
  refine filled_headed ?_
  cases assertion.permittedNames <;> simp [Filled.symbol, filled_forForm]

namespace Protocol

theorem filled_form (p : Protocol) : Filled p.form := by
  refine filled_headed (List.forall_mem_cons.mpr
    ⟨filled_headed (filled_symbols _), fun item mem => ?_⟩)
  simp only [List.mem_append, List.mem_map] at mem
  rcases mem with (⟨key, _, rfl⟩ | ⟨message, _, rfl⟩) | ⟨assertion, _, rfl⟩
  · exact key.filled_form
  · exact message.filled_form
  · exact assertion.filled_form

/-- In print a protocol loses nothing but its lines, whatever its names are. -/
theorem print_form_eq_iff {print : Form → String} (printing : Printing print)
    (p q : Protocol) : print p.form = print q.form ↔ p.Alike q := by
  rw [← form_eq_iff]
  constructor
  · exact p.filled_form.print_inj printing q.filled_form
  · intro same
    rw [same]

def disguised : Protocol :=
  ⟨⟨[⟨"A B", 1⟩, ⟨"", 1⟩], 1⟩, [⟨.sharedKey, ⟨"k) (", 2⟩, [], 2⟩],
    [⟨⟨"\\", 3⟩, ⟨"\x22", 3⟩,
      .assign ⟨"c", 3⟩ (.assign ⟨"(", 3⟩ (.name ⟨"enc k m", 3⟩) 3) 3, 3⟩],
    [⟨⟨"n", 4⟩, some [], 4⟩]⟩

def undisguised : Protocol :=
  ⟨⟨[⟨"A", 1⟩, ⟨"B", 1⟩, ⟨"", 1⟩], 1⟩, [⟨.sharedKey, ⟨"k) (", 2⟩, [], 2⟩],
    [⟨⟨"\\", 3⟩, ⟨"\x22", 3⟩,
      .assign ⟨"c", 3⟩ (.assign ⟨"(", 3⟩ (.name ⟨"enc k m", 3⟩) 3) 3, 3⟩],
    [⟨⟨"n", 4⟩, none, 4⟩]⟩

theorem print_form_eq_iff_disguised :
    Printing render ∧ render disguised.form ≠ render undisguised.form ∧
      render disguised.form = render disguised.forgetLines.form := by
  have apart : ¬ disguised.Alike undisguised := by decide
  have alike : disguised.Alike disguised.forgetLines := by decide
  exact ⟨printing_render,
    mt (print_form_eq_iff printing_render _ _).mp apart,
    (print_form_eq_iff printing_render _ _).mpr alike⟩

end Protocol

end Secrecy
