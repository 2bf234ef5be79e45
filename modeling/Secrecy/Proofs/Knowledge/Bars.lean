import Mathlib.Data.List.Chain
import Secrecy.Knowledge.SealedTerm
import Secrecy.Proofs.Grammar.Printing

/-!
# Bars in labels

A name may be a single bar, but never two, and whatever is put between the
parts of a label keeps them apart.  So two bars stand side by side in a label
only where a concatenation has put them, spaces around them.
-/

namespace Secrecy

/-! ## Texts without double bars -/

def Unbarred (text : List Char) : Prop :=
  text.IsChain fun a b => a = '|' → b ≠ '|'

instance (text : List Char) : Decidable (Unbarred text) :=
  inferInstanceAs (Decidable (text.IsChain fun a b => a = '|' → b ≠ '|'))

namespace Unbarred

variable {s t : List Char} {c : Char}

theorem nil : Unbarred [] := List.IsChain.nil

theorem append_cons (h : Unbarred s) (h' : Unbarred t) (parts : c ≠ '|') :
    Unbarred (s ++ c :: t) := by
  have after : (c :: t).IsChain fun a b => a = '|' → b ≠ '|' :=
    List.IsChain.cons h' fun _ _ same => absurd same parts
  refine List.IsChain.append h after fun _ _ d first _ => ?_
  obtain rfl : c = d := by simpa using first
  exact parts

theorem of_all_ne (h : ∀ c ∈ s, c ≠ '|') : Unbarred s := by
  induction s with
  | nil => exact .nil
  | cons c s ih =>
      obtain ⟨first, others⟩ := List.forall_mem_cons.mp h
      exact nil.append_cons (ih others) first

theorem of_nameText (spelt : Token.NameText s) : Unbarred s := by
  cases spelt with
  | word _ wordy _ =>
      refine of_all_ne fun c mem same => ?_
      have isWord := List.all_eq_true.mp wordy c mem
      rw [same] at isWord
      revert isWord
      decide
  | sign => exact .singleton _

theorem commaSeparated {items : List String}
    (h : ∀ item ∈ items, Unbarred item.toList) :
    Unbarred (Secrecy.commaSeparated items).toList := by
  induction items with
  | nil => exact .nil
  | cons first others ih =>
      obtain ⟨single, rest⟩ := List.forall_mem_cons.mp h
      cases others with
      | nil => exact single
      | cons second others =>
          have spaced := nil.append_cons (ih rest) (show ' ' ≠ '|' by decide)
          have joined := single.append_cons spaced (show ',' ≠ '|' by decide)
          rw [commaSeparated_cons_cons]
          simpa using joined

theorem applied {function : String} {arguments : List String}
    (h : Unbarred function.toList)
    (h' : ∀ argument ∈ arguments, Unbarred argument.toList) :
    Unbarred (Secrecy.applied function arguments).toList := by
  have closed := (commaSeparated h').append_cons nil (show ')' ≠ '|' by decide)
  have opened := h.append_cons closed (show '(' ≠ '|' by decide)
  simpa [Secrecy.applied] using opened

theorem not_occurs (h : Unbarred s) : ¬ SealedTerm.bars.toList <:+: s := by
  intro inside
  have barred := h.infix inside
  revert barred
  decide

end Unbarred

/-! ## Concatenations inside -/

namespace Expr

def HasConcat : Expr → Prop
  | .name _ => False
  | .concat .. => True
  | .enc _ message _ | .mac _ message _ | .sign _ message _ =>
      message.HasConcat
  | .hash inner _ => inner.HasConcat
  | .verify _ message signature _ => message.HasConcat ∨ signature.HasConcat
  | .assign _ value _ => value.HasConcat

theorem hasConcat_of_isConcat {e : Expr} (h : e.isConcat = true) :
    e.HasConcat := by
  cases e with
  | concat => trivial
  | _ => cases h

theorem HasConcat.isName_eq_false {e : Expr} (h : e.HasConcat) :
    e.isName = false := by
  cases e with
  | name => cases h
  | _ => rfl

end Expr

theorem infix_applied {function item : String} {arguments : List String}
    (mem : item ∈ arguments) :
    item.toList <:+: (applied function arguments).toList := by
  have listed : item.toList <:+: (commaSeparated arguments).toList := by
    induction arguments with
    | nil => cases mem
    | cons first others ih =>
        cases others with
        | nil =>
            obtain rfl := List.mem_singleton.mp mem
            exact List.infix_rfl
        | cons second others =>
            rw [commaSeparated_cons_cons, String.toList_append,
              String.toList_append, List.append_assoc]
            rcases List.mem_cons.mp mem with rfl | later
            · exact (List.prefix_append _ _).isInfix
            · refine (ih later).trans ?_
              rw [← List.append_assoc]
              exact (List.suffix_append _ _).isInfix
  refine listed.trans ⟨(function ++ "(").toList, ")".toList, ?_⟩
  simp [applied]

namespace Expr

theorem HasConcat.occurs {e : Expr} (h : e.HasConcat) :
    SealedTerm.bars.toList <:+: e.label.toList := by
  induction e with
  | name => cases h
  | concat left right line =>
      refine ⟨left.label.toList,
        (if right.isConcat then "(" ++ right.label ++ ")"
          else right.label).toList, ?_⟩
      rw [label, String.toList_append, String.toList_append]
      rfl
  | enc key message line ih | mac key message line ih
  | sign key message line ih =>
      exact (ih h).trans
        (infix_applied (List.mem_cons_of_mem _ List.mem_cons_self))
  | hash inner line ih => exact (ih h).trans (infix_applied List.mem_cons_self)
  | verify key message signature line ihMessage ihSignature =>
      rcases h with h | h
      · exact (ihMessage h).trans (infix_applied (by simp))
      · exact (ihSignature h).trans (infix_applied (by simp))
  | assign target value line ih =>
      refine (ih h).trans ⟨(target.name ++ " = ").toList, [], ?_⟩
      simp [label]

theorem unbarred_label {e : Expr} (grouped : e.Grouped) (named : Named e.yield)
    (unjoined : ¬ e.HasConcat) : Unbarred e.label.toList := by
  induction e with
  | name identifier =>
      simp only [yield, named_cons_name] at named
      exact .of_nameText named.1
  | concat => exact absurd trivial unjoined
  | enc key message line ih | mac key message line ih
  | sign key message line ih =>
      simp only [yield, named_applied, named_cons_name, named_cons_operator]
        at named
      refine .applied (by decide) ?_
      simpa using ⟨Unbarred.of_nameText named.1, ih grouped named.2 unjoined⟩
  | hash inner line ih =>
      simp only [yield, named_applied] at named
      refine .applied (by decide) ?_
      simpa using ih grouped named unjoined
  | verify key message signature line ihMessage ihSignature =>
      simp only [yield, named_applied, named_cons_name, named_cons_operator,
        named_append] at named
      obtain ⟨noneInMessage, noneInSignature⟩ := not_or.mp unjoined
      refine .applied (by decide) ?_
      simpa using ⟨Unbarred.of_nameText named.1,
        ihMessage grouped.1 named.2.1 noneInMessage,
        ihSignature grouped.2 named.2.2 noneInSignature⟩
  | assign => cases grouped

theorem occurs_label_iff {e : Expr} (grouped : e.Grouped)
    (named : Named e.yield) :
    SealedTerm.bars.toList <:+: e.label.toList ↔ e.HasConcat := by
  refine ⟨fun inside => ?_, HasConcat.occurs⟩
  by_contra none
  exact (unbarred_label grouped named none).not_occurs inside

end Expr

end Secrecy
