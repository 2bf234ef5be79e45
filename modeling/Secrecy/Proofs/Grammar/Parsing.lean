import Secrecy.Proofs.Grammar.Declaration
import Secrecy.Proofs.Grammar.Spelling

/-!
# The reader against the notation

A closed token list is accepted exactly if what stands before its first end of
input is the yield of a grammatical protocol, and that protocol is then the
only one.
-/

namespace Secrecy

namespace Grammar

open Cursor

theorem read_alike {cursor : Cursor} (closed : cursor.Closed)
    (plain : ∀ token ∈ cursor.ahead, token.kind ≠ .stop) (p : Protocol) :
    (∃ q, Protocol.read cursor = .ok q ∧ q.Alike p) ↔
      p.Grammatical ∧ cursor.ahead.map Token.terminal = p.yield := by
  constructor
  · rintro ⟨q, h, alike⟩
    obtain ⟨spelt, grammatical⟩ := ((read_eq_ok closed plain).mp h).spells
    exact ⟨alike.grammatical.mp grammatical, spelt.trans alike.yield_eq⟩
  · rintro ⟨grammatical, spelt⟩
    obtain ⟨q, word, alike⟩ := protocolOf_of_yield grammatical spelt
    exact ⟨q, (read_eq_ok closed plain).mpr word, alike⟩

theorem ofTokens?_eq_some {tokens : List Token}
    (closed : ∃ last ∈ tokens.getLast?, last.kind = .stop) :
    ∃ cursor, Cursor.ofTokens? tokens = some cursor ∧ cursor.Closed ∧
      cursor.ahead = tokens.takeWhile (·.kind ≠ .stop) := by
  obtain ⟨last, found, stops⟩ := closed
  refine ⟨⟨none, tokens.takeWhile (·.kind ≠ .stop),
    (tokens.find? (·.kind = .stop)).getD last⟩, ?_, ?_, rfl⟩
  · rw [Cursor.ofTokens?, Option.mem_def.mp found]
    exact if_pos stops
  · unfold Closed
    cases first : tokens.find? (·.kind = .stop) with
    | none => exact stops
    | some token => simpa using List.find?_some first

theorem ofTokens?_eq_ok {tokens : List Token} {p : Protocol} :
    Protocol.ofTokens? tokens = some (.ok p) ↔
      (∃ last ∈ tokens.getLast?, last.kind = .stop) ∧
        ProtocolOf (tokens.takeWhile (·.kind ≠ .stop)) p := by
  have accepts (closed : ∃ last ∈ tokens.getLast?, last.kind = .stop) :
      Protocol.ofTokens? tokens = some (.ok p) ↔
        ProtocolOf (tokens.takeWhile (·.kind ≠ .stop)) p := by
    obtain ⟨cursor, found, closed, ahead⟩ := ofTokens?_eq_some closed
    have plain : ∀ token ∈ cursor.ahead, token.kind ≠ .stop := by
      intro token mem
      rw [ahead] at mem
      simpa using List.all_eq_true.mp List.all_takeWhile token mem
    rw [Protocol.ofTokens?, found, Option.map_some, Option.some_inj,
      read_eq_ok closed plain, ahead]
  constructor
  · intro h
    have closed : ∃ last ∈ tokens.getLast?, last.kind = .stop := by
      obtain ⟨cursor, opened, -⟩ := Option.map_eq_some_iff.mp h
      unfold Cursor.ofTokens? at opened
      split at opened
      · cases opened
      next last isLast =>
        split at opened
        next stops => exact ⟨last, isLast, stops⟩
        next => cases opened
    exact ⟨closed, (accepts closed).mp h⟩
  · rintro ⟨closed, word⟩
    exact (accepts closed).mpr word

theorem body_alike_of_yield_eq {e e' : Expr} (grouped : e.GroupedBody)
    (grouped' : e'.GroupedBody) (shallow : e.depth ≤ depthLimit)
    (shallow' : e'.depth ≤ depthLimit) (same : e.yield = e'.yield) :
    e.forgetLines = e'.forgetLines := by
  have spelt := Terminal.map_terminal_token e.yield
  obtain ⟨q, bodyOf, alike⟩ := bodyOf_of_yield grouped shallow spelt
  obtain ⟨q', bodyOf', alike'⟩ :=
    bodyOf_of_yield grouped' shallow' (spelt.trans same)
  let start : Cursor :=
    ⟨none, e.yield.map Terminal.token, Terminal.stop.token⟩
  have closed : start.Closed := rfl
  have passes := passes_all start
  have after (body : Expr) : AfterBody body Terminal.stop.token :=
    ⟨by decide, fun _ => by decide⟩
  have read := (reads_body closed).complete bodyOf passes (after q)
  have read' := (reads_body closed).complete bodyOf' passes (after q')
  obtain rfl : q = q' :=
    congrArg Prod.fst (Except.ok.inj (read.symm.trans read'))
  exact alike.symm.trans alike'

end Grammar

namespace Protocol

open Grammar

/-- What stands before the first end of input is the yield of the protocol. -/
def WrittenAs (p : Protocol) (tokens : List Token) : Prop :=
  p.Grammatical ∧
    (tokens.takeWhile (·.kind ≠ .stop)).map Token.terminal = p.yield

theorem alike_of_yield_eq {p q : Protocol} (hp : p.Grammatical)
    (hq : q.Grammatical) (same : p.yield = q.yield) : p.Alike q := by
  have spelt := Terminal.map_terminal_token p.yield
  have plain : ∀ token ∈ p.yield.map Terminal.token, token.kind ≠ .stop := by
    intro token mem stops
    have shown := List.mem_map_of_mem (f := Token.terminal) mem
    rw [spelt, Token.terminal_eq_stop.mpr stops] at shown
    exact p.stop_notMem_yield shown
  let cursor : Cursor :=
    ⟨none, p.yield.map Terminal.token, Terminal.stop.token⟩
  have reads (r : Protocol) := read_alike (show cursor.Closed from rfl) plain r
  obtain ⟨r, h, alike⟩ := (reads p).mpr ⟨hp, spelt⟩
  obtain ⟨r', h', alike'⟩ := (reads q).mpr ⟨hq, spelt.trans same⟩
  obtain rfl : r = r' := Except.ok.inj (h.symm.trans h')
  exact Eq.trans (Eq.symm alike) alike'

/-- Nothing but a fault comes of a token list that no protocol is written as. -/
theorem parses_tokens {tokens : List Token}
    (closed : ∃ last ∈ tokens.getLast?, last.kind = .stop) :
    ∃ outcome, ofTokens? tokens = some outcome ∧
      (∀ p : Protocol,
        (∃ q, outcome = .ok q ∧ q.Alike p) ↔ p.WrittenAs tokens) ∧
      ((∃ fault, outcome = .error fault) ↔
        ∀ p : Protocol, ¬ p.WrittenAs tokens) ∧
      ∀ p q : Protocol, p.Grammatical → q.Grammatical → p.yield = q.yield →
        p.Alike q := by
  obtain ⟨cursor, found, closed, ahead⟩ := ofTokens?_eq_some closed
  have plain : ∀ token ∈ cursor.ahead, token.kind ≠ .stop := by
    intro token mem
    rw [ahead] at mem
    simpa using List.all_eq_true.mp List.all_takeWhile token mem
  have accepts (p : Protocol) :
      (∃ q, read cursor = .ok q ∧ q.Alike p) ↔ p.WrittenAs tokens := by
    rw [read_alike closed plain, ahead, WrittenAs]
  refine ⟨read cursor, by rw [ofTokens?, found]; rfl, accepts, ?_,
    fun p q => alike_of_yield_eq⟩
  constructor
  · rintro ⟨fault, failed⟩ p written
    obtain ⟨q, h, -⟩ := (accepts p).mpr written
    rw [failed] at h
    cases h
  · intro unwritten
    cases outcome : read cursor with
    | error fault => exact ⟨fault, rfl⟩
    | ok q => exact absurd ((accepts q).mp ⟨q, outcome, rfl⟩) (unwritten q)

def errand : Protocol :=
  ⟨⟨[⟨"A", 0⟩, ⟨"B", 0⟩], 0⟩, [⟨.privateKey, ⟨"k", 0⟩, [⟨"A", 0⟩], 0⟩],
    [⟨⟨"A", 0⟩, ⟨"B", 0⟩,
      .assign ⟨"c", 0⟩
        (.concat (.enc ⟨"k", 0⟩ (.name ⟨"-", 0⟩) 0) (.name ⟨"|", 0⟩) 0) 0, 0⟩],
    [⟨⟨"-", 0⟩, some [⟨"B", 0⟩], 0⟩]⟩

theorem grammatical_errand : errand.Grammatical := by decide

def errandTokens : List Token :=
  errand.yield.map Terminal.token ++
    [Terminal.stop.token, (Terminal.name "B").token, Terminal.stop.token]

theorem parses_tokens_errand :
    (∃ last ∈ errandTokens.getLast?, last.kind = .stop) ∧
      errand.WrittenAs errandTokens ∧
      ∃ q, ofTokens? errandTokens = some (.ok q) ∧ q.Alike errand := by
  have closed : ∃ last ∈ errandTokens.getLast?, last.kind = .stop :=
    ⟨Terminal.stop.token, by decide, rfl⟩
  have written : errand.WrittenAs errandTokens :=
    ⟨grammatical_errand, by decide⟩
  obtain ⟨outcome, found, accepts, -⟩ := parses_tokens closed
  obtain ⟨q, rfl, alike⟩ := (accepts errand).mpr written
  exact ⟨closed, written, q, found, alike⟩

end Protocol

end Secrecy
