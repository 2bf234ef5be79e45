import Secrecy.Proofs.Knowledge.Disclosure

/-!
# Gains

A gain is what somebody adds to its holdings: names in either half, and sealed
terms.  Sending a body, receiving one and being given a key add the same
whatever is held already, and none of them ever takes anything away.
-/

namespace Secrecy

/-- The names and terms that somebody gains. -/
structure Gain where
  authored : String → Prop
  learned : String → Prop
  sealedTerms : SealedTerm → Prop

namespace Gain

theorem ext_iff {first second : Gain} :
    first = second ↔ (∀ name, first.authored name ↔ second.authored name) ∧
      (∀ name, first.learned name ↔ second.learned name) ∧
      ∀ term, first.sealedTerms term ↔ second.sealedTerms term := by
  constructor
  · rintro rfl
    exact ⟨fun _ => .rfl, fun _ => .rfl, fun _ => .rfl⟩
  · rintro ⟨authored, learned, sealedTerms⟩
    cases first
    cases second
    congr
    · exact funext fun name => propext (authored name)
    · exact funext fun name => propext (learned name)
    · exact funext fun term => propext (sealedTerms term)

def nothing : Gain := ⟨fun _ => False, fun _ => False, fun _ => False⟩

def both (first second : Gain) : Gain :=
  ⟨fun name => first.authored name ∨ second.authored name,
    fun name => first.learned name ∨ second.learned name,
    fun term => first.sealedTerms term ∨ second.sealedTerms term⟩

def each {α : Type} (items : List α) (gain : α → Gain) : Gain :=
  ⟨fun name => ∃ item ∈ items, (gain item).authored name,
    fun name => ∃ item ∈ items, (gain item).learned name,
    fun term => ∃ item ∈ items, (gain item).sealedTerms term⟩

theorem each_nil {α : Type} (gain : α → Gain) : each [] gain = nothing := by
  simp [each, nothing]

theorem each_cons {α : Type} (item : α) (items : List α) (gain : α → Gain) :
    each (item :: items) gain = both (gain item) (each items gain) := by
  simp [each, both]

end Gain

namespace Holdings

structure Distinct (holdings : Holdings) : Prop where
  authored : holdings.authored.Nodup
  learned : holdings.learned.Nodup
  sealedTerms : holdings.sealedTerms.Nodup

theorem distinct_nothing : nothing.Distinct :=
  ⟨List.nodup_nil, List.nodup_nil, List.nodup_nil⟩

structure Gains (before : Holdings) (gain : Gain) (after : Holdings) :
    Prop where
  authored (name : String) :
    name ∈ after.authored ↔ name ∈ before.authored ∨ gain.authored name
  learned (name : String) :
    name ∈ after.learned ↔ name ∈ before.learned ∨ gain.learned name
  sealedTerms (term : SealedTerm) :
    term ∈ after.sealedTerms ↔
      term ∈ before.sealedTerms ∨ gain.sealedTerms term
  distinct : before.Distinct → after.Distinct

namespace Gains

theorem refl (holdings : Holdings) : holdings.Gains .nothing holdings := by
  refine ⟨?_, ?_, ?_, id⟩ <;> simp [Gain.nothing]

theorem trans {before middle after : Holdings} {first second : Gain}
    (h : before.Gains first middle) (h' : middle.Gains second after) :
    before.Gains (first.both second) after := by
  refine ⟨fun name => ?_, fun name => ?_, fun term => ?_,
    fun distinct => h'.distinct (h.distinct distinct)⟩
  · rw [h'.authored, h.authored, or_assoc, Gain.both]
  · rw [h'.learned, h.learned, or_assoc, Gain.both]
  · rw [h'.sealedTerms, h.sealedTerms, or_assoc, Gain.both]

end Gains

theorem gains_learn (name : String) (holdings : Holdings) :
    holdings.Gains { Gain.nothing with learned := (· = name) }
      (holdings.learn [name]) := by
  refine ⟨?_, ?_, ?_, fun distinct =>
    ⟨distinct.authored, nodup_adjoinAll distinct.learned _,
      distinct.sealedTerms⟩⟩ <;>
    simp [learn, Gain.nothing]

theorem gains_send (body : Expr) (holdings : Holdings) :
    holdings.Gains ⟨(· ∈ body.occurrences), fun _ => False, body.Seals⟩
      (holdings.send body) := by
  refine ⟨fun name => ?_, fun name => ?_, fun term => ?_, fun distinct =>
    ⟨nodup_adjoinAll distinct.authored _, distinct.learned,
      nodup_adjoinAll distinct.sealedTerms _⟩⟩
  · simp only [send, author, store, mem_adjoinAll, List.mem_append,
      Expr.mem_observed_names]
    rw [or_iff_right_of_imp Expr.mem_occurrences_of_shows]
  · simp [send, author, store]
  · simp [send, author, store, Expr.mem_observed_sealedTerms]

theorem gains_receive (body : Expr) (holdings : Holdings) :
    holdings.Gains ⟨fun _ => False, body.Shows, body.Seals⟩
      (holdings.receive body) := by
  refine ⟨fun name => ?_, fun name => ?_, fun term => ?_, fun distinct =>
    ⟨distinct.authored, nodup_adjoinAll distinct.learned _,
      nodup_adjoinAll distinct.sealedTerms _⟩⟩
  · simp [receive, learn, store]
  · simp [receive, learn, store, Expr.mem_observed_names]
  · simp [receive, learn, store, Expr.mem_observed_sealedTerms]

end Holdings

end Secrecy
