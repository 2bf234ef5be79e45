import Secrecy.Proofs.Grammar.Parsing
import Secrecy.Proofs.Grammar.Printing
import Secrecy.Source

/-!
# Printing and reading again

Whatever was read from a text can be printed, and the print is read as the same
protocol.  In between no name is changed, for a text has no names but those
that can stand in a print.
-/

namespace Secrecy.Protocol

open Grammar

theorem ofSource_unchecked {text : String} {p : Protocol} :
    ofSource text false = .ok p ↔ ofText text = .ok p := by
  unfold ofSource
  cases ofText text with
  | error fault =>
      constructor
      · intro h
        cases h
      · intro h
        cases h
  | ok q =>
      constructor
      · intro h
        cases h
        rfl
      · intro h
        cases h
        rfl

theorem closed_ofText (text : String) : (Cursor.ofText text).Closed := rfl

theorem plain_ofText (text : String) :
    ∀ token ∈ (Cursor.ofText text).ahead, token.kind ≠ .stop :=
  fun _ mem => Token.kind_ne_stop_of_mem_scan mem

theorem spelt_of_ofText {text : String} {p : Protocol}
    (h : ofText text = .ok p) :
    (Token.scan 1 text.toList).map Token.terminal = p.yield ∧
      p.Grammatical :=
  ((read_eq_ok (closed_ofText text) (plain_ofText text)).mp h).spells

theorem writable_of_ofText {text : String} {p : Protocol}
    (h : ofText text = .ok p) : p.Grammatical ∧ Named p.yield := by
  obtain ⟨spelt, grammatical⟩ := spelt_of_ofText h
  refine ⟨grammatical, fun name shown => ?_⟩
  rw [← spelt] at shown
  obtain ⟨token, mem, shown⟩ := List.mem_map.mp shown
  obtain ⟨isName, rfl⟩ := Token.terminal_eq_name.mp shown
  exact Token.nameText_of_mem_scan mem isName

/-- The last line of a print may be ended or not. -/
theorem ofSource_print_of_named {p : Protocol} (grammatical : p.Grammatical)
    (named : Named p.yield) {ending : String} (mem : ending ∈ ["", "\n"]) :
    ∃ q, ofSource (p.print ++ ending) false = .ok q ∧ q.Alike p := by
  have blank : Terminal.ofText ending.toList = [] ∧
      Token.Apart ending.toList := by
    rw [List.mem_cons, List.mem_singleton] at mem
    rcases mem with rfl | rfl
    · exact ⟨Terminal.ofText_nil, Token.apart_nil⟩
    · exact ⟨(marks_newline []).trans Terminal.ofText_nil,
        separates_newline.apart []⟩
  have shown : Terminal.ofText (p.print ++ ending).toList = p.yield := by
    rw [String.toList_append, p.lexes_print grammatical named _ blank.2,
      blank.1, List.append_nil]
  simp only [ofSource_unchecked]
  refine (read_alike (closed_ofText _) (plain_ofText _) p).mpr
    ⟨grammatical, ?_⟩
  rw [← shown]
  exact Terminal.map_terminal_scan 1 _

theorem body_alike_of_label_eq {e e' : Expr} (grouped : e.GroupedBody)
    (grouped' : e'.GroupedBody) (shallow : e.depth ≤ depthLimit)
    (shallow' : e'.depth ≤ depthLimit) (named : Named e.yield)
    (named' : Named e'.yield) (same : e.label = e'.label) :
    e.forgetLines = e'.forgetLines := by
  have shown := e.lexes_body grouped named [] Token.apart_nil
  have shown' := e'.lexes_body grouped' named' [] Token.apart_nil
  rw [same, shown', Terminal.ofText_nil, List.append_nil, List.append_nil]
    at shown
  exact body_alike_of_yield_eq grouped grouped' shallow shallow' shown.symm

theorem named_body {p : Protocol} {message : Message} (named : Named p.yield)
    (mem : message ∈ p.messages) : Named message.body.yield := by
  simp only [yield, named_append] at named
  have named := named.2.2.1.of_mem mem
  simp only [Message.yield, named_cons_name, named_cons_operator] at named
  exact named.2.2

theorem ofSource_print {text : String} {p : Protocol}
    (h : ofSource text false = .ok p) :
    (∀ ending ∈ ["", "\n"],
      ∃ q, ofSource (p.print ++ ending) false = .ok q ∧ q.Alike p) ∧
    ∀ text' p', ofSource text' false = .ok p' →
      ∀ message ∈ p.messages, ∀ message' ∈ p'.messages,
        message.body.label = message'.body.label →
        message.body.forgetLines = message'.body.forgetLines := by
  obtain ⟨grammatical, named⟩ := writable_of_ofText (ofSource_unchecked.mp h)
  refine ⟨fun ending => ofSource_print_of_named grammatical named, ?_⟩
  intro text' p' h' message mem message' mem' same
  obtain ⟨grammatical', named'⟩ :=
    writable_of_ofText (ofSource_unchecked.mp h')
  obtain ⟨grouped, shallow⟩ := grammatical.messages message mem
  obtain ⟨grouped', shallow'⟩ := grammatical'.messages message' mem'
  exact body_alike_of_label_eq grouped grouped' shallow shallow'
    (named_body named mem) (named_body named' mem') same

theorem named_errand : Named errand.yield := by decide

def errandText : String :=
  "roles: A, B\nprivate k for A\n" ++
    "A -> B: c = Enc(k, -) || |\nassert secret(-) for B"

theorem print_errand : errand.print = errandText := by decide

theorem ofSource_print_errand :
    ∃ p, ofSource errandText false = .ok p ∧
      ∀ ending ∈ ["", "\n"],
        ∃ q, ofSource (p.print ++ ending) false = .ok q ∧ q.Alike p := by
  obtain ⟨p, h, -⟩ :=
    ofSource_print_of_named grammatical_errand named_errand List.mem_cons_self
  rw [String.append_empty, print_errand] at h
  exact ⟨p, h, (ofSource_print h).1⟩

end Secrecy.Protocol
