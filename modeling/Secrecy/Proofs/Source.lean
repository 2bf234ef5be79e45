import Secrecy.Proofs.Grammar.RoundTrip
import Secrecy.Proofs.Scope.Resolving

/-!
# Accepted texts

A text is accepted if the grammar reads it and, unless the check is waived, its
names resolve.  So the print of a protocol is accepted whenever the protocol
can be written at all and is well-scoped.
-/

namespace Secrecy.Protocol

open Grammar

variable {text : String} {check : Bool} {p : Protocol}

theorem validated_eq_ok {q : Protocol} :
    p.validated check = .ok q ↔ p = q ∧ (check = true → p.WellScoped) := by
  cases check with
  | false => simp [validated]
  | true => simp [validated, Outcome.mapError_eq_ok, checked_eq_ok]

theorem ofSource_eq_ok :
    ofSource text check = .ok p ↔
      ofText text = .ok p ∧ (check = true → p.WellScoped) := by
  unfold ofSource
  simp only [Outcome.bind_eq_ok, Outcome.mapError_eq_ok, validated_eq_ok]
  constructor
  · rintro ⟨_, h, rfl, wellScoped⟩
    exact ⟨h, wellScoped⟩
  · rintro ⟨h, wellScoped⟩
    exact ⟨p, h, rfl, wellScoped⟩

theorem ofTokenSource?_eq_ok {tokens : List Token} :
    ofTokenSource? tokens check = some (.ok p) ↔
      ofTokens? tokens = some (.ok p) ∧ (check = true → p.WellScoped) := by
  unfold ofTokenSource?
  simp only [Option.map_eq_some_iff, Outcome.bind_eq_ok,
    Outcome.mapError_eq_ok, validated_eq_ok]
  constructor
  · rintro ⟨_, h, _, rfl, rfl, wellScoped⟩
    exact ⟨h, wellScoped⟩
  · rintro ⟨h, wellScoped⟩
    exact ⟨_, h, p, rfl, rfl, wellScoped⟩

theorem writable_of_ofSource (h : ofSource text check = .ok p) :
    ∀ message ∈ p.messages, message.Writable :=
  (writable_of_ofText (ofSource_eq_ok.mp h).1).1.messages

theorem exists_ofSource_print (grammatical : p.Grammatical)
    (named : Named p.yield) (wellScoped : p.WellScoped) {ending : String}
    (mem : ending ∈ ["", "\n"]) (check : Bool) :
    ∃ q, ofSource (p.print ++ ending) check = .ok q ∧ q.Alike p := by
  obtain ⟨q, h, alike⟩ := ofSource_print_of_named grammatical named mem
  have resolves := alike.wellScoped.mpr wellScoped
  exact ⟨q, ofSource_eq_ok.mpr ⟨ofSource_unchecked.mp h, fun _ => resolves⟩,
    alike⟩

theorem wellScoped_errand : errand.WellScoped :=
  (checked_eq_ok.mp (rfl : errand.checked = .ok errand)).2

theorem exists_ofSource_errandText (check : Bool) :
    ∃ q, ofSource errandText check = .ok q ∧ q.Alike errand := by
  have printed := exists_ofSource_print grammatical_errand named_errand
    wellScoped_errand List.mem_cons_self check
  rwa [String.append_empty, print_errand] at printed

end Secrecy.Protocol
