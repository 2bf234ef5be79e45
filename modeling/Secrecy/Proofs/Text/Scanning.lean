/-!
# Scanners

A scanner goes through a text character by character.  At each of them it may
put out some words, and it keeps in mind what matters for the next one.  So what
it makes of a text it makes of the parts, one after the other.
-/

namespace Secrecy.Text

/-- What a character puts out, and what is kept in mind after it. -/
abbrev Scanner (σ ω : Type) := σ → Char → Option (List ω × σ)

namespace Scanner

variable {σ ω : Type} {scanner : Scanner σ ω}

def scan (scanner : Scanner σ ω) : σ → List Char → Option (List ω × σ)
  | state, [] => some ([], state)
  | state, c :: s => do
      let (first, middle) ← scanner state c
      let (others, last) ← scan scanner middle s
      return (first ++ others, last)

theorem scan_cons {state middle last : σ} {c : Char} {s : List Char}
    {first others : List ω} (step : scanner state c = some (first, middle))
    (later : scanner.scan middle s = some (others, last)) :
    scanner.scan state (c :: s) = some (first ++ others, last) := by
  simp [scan, step, later]

theorem scan_singleton (state : σ) (c : Char) :
    scanner.scan state [c] = scanner state c := by
  cases step : scanner state c <;> simp [scan, step]

theorem scan_append {state middle last : σ} {s t : List Char}
    {first others : List ω} (before : scanner.scan state s = some (first, middle))
    (after : scanner.scan middle t = some (others, last)) :
    scanner.scan state (s ++ t) = some (first ++ others, last) := by
  induction s generalizing state first with
  | nil =>
      cases before
      exact after
  | cons c s ih =>
      simp only [scan, Option.bind_eq_bind, Option.bind_eq_some_iff] at before
      obtain ⟨⟨found, next⟩, step, ⟨later, reached⟩, rest, same⟩ := before
      cases same
      rw [List.cons_append, List.append_assoc]
      exact scan_cons step (ih rest)

theorem scan_of_forall {remember : List Char → σ}
    {kind : Char → Prop} (taken : ∀ read c, kind c →
      scanner (remember read) c = some ([], remember (read ++ [c])))
    {s : List Char} (each : ∀ c ∈ s, kind c) (read : List Char) :
    scanner.scan (remember read) s = some ([], remember (read ++ s)) := by
  induction s generalizing read with
  | nil => simp [scan]
  | cons c s ih =>
      rw [List.forall_mem_cons] at each
      have later := ih each.2 (read ++ [c])
      rw [List.append_assoc] at later
      exact scan_cons (taken read c each.1) later

theorem scan_flatMap {remember : List Char → σ} {spelt : Char → List Char}
    (taken : ∀ read c, scanner.scan (remember read) (spelt c) =
      some ([], remember (read ++ [c]))) (read s : List Char) :
    scanner.scan (remember read) (s.flatMap spelt) =
      some ([], remember (read ++ s)) := by
  induction s generalizing read with
  | nil => simp [scan]
  | cons c s ih =>
      have later := ih (read ++ [c])
      rw [List.append_assoc] at later
      exact scan_append (taken read c) later

end Scanner

end Secrecy.Text
