import Secrecy.Proofs.Grammar.Passing
import Secrecy.Proofs.Grammar.Sentence

/-!
# Readers that track a language

A language stands for what may still come.  A reader tracks the notation if
the language before it and the one after it always agree on the tokens that it
has passed and the next one: whatever may come afterwards could have come there
as well, and of all that could have come only that is left.  If such a reader
refuses a token, something could have come in its place, but not that token.
And whatever else it finds wrong, the fault has its line from one of the tokens.
-/

namespace Secrecy

/-- The token is the one that is refused, or the fault has its line from it. -/
def GrammarFault.StandsAt : GrammarFault → Token → Prop
  | .unexpected _ _ found, token => found = token
  | .tooDeep line, token | .compoundKey _ _ line, token => token.line = line

theorem GrammarFault.StandsAt.line_eq {fault : GrammarFault} {token : Token}
    (h : fault.StandsAt token) : fault.line = token.line := by
  cases fault with
  | unexpected wanted before found => exact congrArg Token.line h
  | tooDeep line | compoundKey constructor key line => exact Eq.symm h

end Secrecy

namespace Secrecy.Grammar

open Cursor Phrase Computability

variable {α β : Type} {start finish : Cursor} {tokens : List Token}
  {before between after : Language Token.Kind} {kind : Token.Kind}

def kindsOf (tokens : List Token) : List Token.Kind := tokens.map Token.kind

/-- All tokens that a cursor may still come across. -/
def Cursor.onward (cursor : Cursor) : List Token := cursor.ahead ++ [cursor.stop]

theorem Cursor.peek_mem_onward (cursor : Cursor) :
    cursor.peek ∈ cursor.onward := by
  obtain ⟨before, ahead, stop⟩ := cursor
  cases ahead <;> simp [peek, onward]

theorem Cursor.Passes.onward_subset (passes : start.Passes tokens finish) :
    finish.onward ⊆ start.onward := by
  rw [onward, onward, passes.ahead, passes.stop, List.append_assoc]
  exact List.subset_append_right _ _

theorem Cursor.Passes.exists_cons (passes : start.Passes tokens finish)
    (rest : List Token.Kind) :
    ∃ others, kindsOf tokens ++ finish.peek.kind :: rest =
      start.peek.kind :: others := by
  cases tokens with
  | nil => exact ⟨rest, by rw [passes.eq_of_nil]; rfl⟩
  | cons token tokens => exact ⟨_, by rw [passes.peek]; rfl⟩

/-- What is left of a language when some kinds are passed and one comes next. -/
structure Leaves (before : Language Token.Kind) (passed : List Token.Kind)
    (next : Token.Kind) (after : Language Token.Kind) : Prop where
  continues : ∀ rest ∈ after, passed ++ rest ∈ before
  only : ∀ rest, passed ++ next :: rest ∈ before → next :: rest ∈ after

/-- Some word begins with what is passed, but none has the next kind then. -/
structure DeadEnd (before : Language Token.Kind) (passed : List Token.Kind)
    (next : Token.Kind) : Prop where
  viable : ∃ rest, passed ++ rest ∈ before
  dead : ∀ rest, passed ++ next :: rest ∉ before

/-- What a reader leaves of the language before it, and where it refuses. -/
structure Tracks (start : Cursor) (item : Reader α)
    (before after : Language Token.Kind) : Prop where
  goesOn : ∀ {a : α} {finish : Cursor}, item start = .ok (a, finish) →
    ∃ tokens, start.Passes tokens finish ∧
      Leaves before (kindsOf tokens) finish.peek.kind after
  stops : ∀ {wanted : Expected} {last : Option Token} {found : Token},
    item start = .error (.unexpected wanted last found) →
    ∃ tokens finish, start.Passes tokens finish ∧ last = finish.before ∧
      found = finish.peek ∧ DeadEnd before (kindsOf tokens) found.kind
  stands : ∀ {fault : GrammarFault}, item start = .error fault →
    ∃ token ∈ start.onward, fault.StandsAt token

/-! ## Sequences -/

theorem Leaves.trans {passed others : List Token.Kind} {next : Token.Kind}
    (h : Leaves before passed start.peek.kind between)
    (h' : Leaves between others next after)
    (goesOn : ∀ rest, ∃ further,
      others ++ next :: rest = start.peek.kind :: further) :
    Leaves before (passed ++ others) next after := by
  constructor
  · intro rest mem
    rw [List.append_assoc]
    exact h.continues _ (h'.continues rest mem)
  · intro rest mem
    obtain ⟨further, same⟩ := goesOn rest
    apply h'.only
    rw [same]
    apply h.only
    rwa [← same, ← List.append_assoc]

theorem Leaves.deadEnd {passed others : List Token.Kind} {next : Token.Kind}
    (h : Leaves before passed start.peek.kind between)
    (h' : DeadEnd between others next)
    (goesOn : ∀ rest, ∃ further,
      others ++ next :: rest = start.peek.kind :: further) :
    DeadEnd before (passed ++ others) next := by
  constructor
  · obtain ⟨rest, mem⟩ := h'.viable
    exact ⟨rest, by simpa using h.continues _ mem⟩
  · intro rest mem
    obtain ⟨further, same⟩ := goesOn rest
    apply h'.dead rest
    rw [same]
    apply h.only
    rwa [← same, ← List.append_assoc]

theorem Tracks.of_ok {first : Reader α} {next : α → Reader β} {a : α}
    {middle : Cursor} (reads : first start = .ok (a, middle))
    (passes : start.Passes tokens middle)
    (leaves : Leaves before (kindsOf tokens) middle.peek.kind between)
    (h : Tracks middle (next a) between after) :
    Tracks start (first >>= next) before after := by
  have same : (first >>= next) start = next a middle := bind_of_ok reads
  constructor
  · intro b finish reads'
    obtain ⟨others, passes', leaves'⟩ := h.goesOn (same ▸ reads')
    refine ⟨tokens ++ others, passes.append passes', ?_⟩
    rw [kindsOf, List.map_append]
    exact leaves.trans leaves' passes'.exists_cons
  · intro wanted last found refuses
    obtain ⟨others, finish, passes', isLast, rfl, deadEnd⟩ :=
      h.stops (same ▸ refuses)
    refine ⟨tokens ++ others, finish, passes.append passes', isLast, rfl, ?_⟩
    rw [kindsOf, List.map_append]
    exact leaves.deadEnd deadEnd passes'.exists_cons
  · intro fault fails
    obtain ⟨token, mem, stands⟩ := h.stands (same ▸ fails)
    exact ⟨token, passes.onward_subset mem, stands⟩

theorem Tracks.bind_passing {item : Reader α} {next : α → Reader β}
    (h : Tracks start item before between)
    (h' : ∀ {a : α} {middle : Cursor} {tokens : List Token},
      start.Passes tokens middle →
      Leaves before (kindsOf tokens) middle.peek.kind between →
      Tracks middle (next a) between after) :
    Tracks start (item >>= next) before after := by
  cases outcome : item start with
  | ok found =>
      obtain ⟨tokens, passes, leaves⟩ := h.goesOn outcome
      exact .of_ok outcome passes leaves (h' passes leaves)
  | error fault =>
      have same : (item >>= next) start = .error fault :=
        bind_eq_error.mpr (.inl outcome)
      constructor
      · intro b finish reads
        rw [same] at reads
        cases reads
      · intro wanted last found refuses
        rw [same] at refuses
        cases refuses
        exact h.stops outcome
      · intro fault' fails
        rw [same] at fails
        cases fails
        exact h.stands outcome

theorem Tracks.bind {item : Reader α} {next : α → Reader β}
    (closed : start.Closed) (h : Tracks start item before between)
    (h' : ∀ {a : α} {middle : Cursor}, middle.Closed →
      Tracks middle (next a) between after) :
    Tracks start (item >>= next) before after :=
  h.bind_passing fun passes _ => h' (passes.closed closed)

theorem tracks_pure {a : α} : Tracks start (pure a) before before := by
  constructor
  · intro b finish reads
    obtain ⟨-, rfl⟩ := pure_eq_ok.mp reads
    exact ⟨[], .nil _, fun _ => id, fun _ => id⟩
  · exact nofun
  · exact nofun

theorem Tracks.congr {item item' : Reader α}
    (h : Tracks start item before after) (same : item' start = item start) :
    Tracks start item' before after := by
  constructor
  · intro a finish reads
    exact h.goesOn (same ▸ reads)
  · intro wanted last found refuses
    exact h.stops (same ▸ refuses)
  · intro fault fails
    exact h.stands (same ▸ fails)

theorem Tracks.peek_bind {next : Token → Reader β}
    (h : Tracks start (next start.peek) before after) :
    Tracks start (peek >>= next) before after :=
  h.congr rfl

/-- The next token tells what can be left out of account. -/
theorem Tracks.widen {item : Reader α} {wide : Language Token.Kind}
    (h : Tracks start item before after)
    (within : ∀ word ∈ before, word ∈ wide)
    (only : ∀ rest, start.peek.kind :: rest ∈ wide →
      start.peek.kind :: rest ∈ before) :
    Tracks start item wide after := by
  have narrow {tokens : List Token} {finish : Cursor}
      (passes : start.Passes tokens finish) (rest : List Token.Kind)
      (mem : kindsOf tokens ++ finish.peek.kind :: rest ∈ wide) :
      kindsOf tokens ++ finish.peek.kind :: rest ∈ before := by
    obtain ⟨others, same⟩ := passes.exists_cons rest
    rw [same] at mem ⊢
    exact only others mem
  constructor
  · intro a finish reads
    obtain ⟨tokens, passes, leaves⟩ := h.goesOn reads
    exact ⟨tokens, passes, fun rest mem => within _ (leaves.continues rest mem),
      fun rest mem => leaves.only rest (narrow passes rest mem)⟩
  · intro wanted last found refuses
    obtain ⟨tokens, finish, passes, isLast, rfl, viable, dead⟩ :=
      h.stops refuses
    obtain ⟨rest, mem⟩ := viable
    exact ⟨tokens, finish, passes, isLast, rfl, ⟨rest, within _ mem⟩,
      fun rest mem => dead rest (narrow passes rest mem)⟩
  · exact h.stands

/-! ## Single tokens -/

def Productive (L : Language Token.Kind) : Prop := ∃ word, word ∈ L

section Productive

variable {L M : Language Token.Kind}

@[simp] theorem productive_one : Productive (one kind) := ⟨[kind], rfl⟩

@[simp] theorem productive_mul :
    Productive (L * M) ↔ Productive L ∧ Productive M := by
  constructor
  · rintro ⟨_, word, mem, others, mem', -⟩
    exact ⟨⟨word, mem⟩, others, mem'⟩
  · rintro ⟨⟨word, mem⟩, others, mem'⟩
    exact ⟨_, Language.append_mem_mul mem mem'⟩

@[simp] theorem productive_add :
    Productive (L + M) ↔ Productive L ∨ Productive M := by
  simp only [Productive, Language.mem_add, exists_or]

@[simp] theorem productive_kstar : Productive L∗ :=
  ⟨[], Language.nil_mem_kstar L⟩

@[simp] theorem productive_names : Productive names := by simp [names]

@[simp] theorem productive_termOver : Productive (termOver L) :=
  productive_add.mpr (.inr productive_one)

@[simp] theorem productive_expression :
    Productive Phrase.expression := by
  rw [expression_eq]
  simp [chainOver]

@[simp] theorem productive_body : Productive Phrase.body :=
  productive_add.mpr (.inr productive_expression)

@[simp] theorem productive_permitted : Productive Phrase.permitted :=
  productive_add.mpr (.inl ⟨[], rfl⟩)

end Productive

theorem tracks_refuse {wanted : Expected} (productive : Productive before)
    (dead : ∀ rest, start.peek.kind :: rest ∉ before) :
    Tracks start (refuse wanted : Reader α) before after := by
  constructor
  · intro a finish reads
    cases reads
  · intro wanted last found refuses
    cases refuses
    exact ⟨[], start, .nil _, rfl, rfl, productive, dead⟩
  · intro fault fails
    cases fails
    exact ⟨start.peek, start.peek_mem_onward, rfl⟩

theorem leaves_one {next : Token.Kind} :
    Leaves (one kind * after) [kind] next after := by
  constructor
  · intro rest mem
    simpa using mem
  · intro rest mem
    simpa using mem

theorem tracks_advance (closed : start.Closed) (isKind : start.peek.kind = kind)
    (more : kind ≠ .stop) : Tracks start advance (one kind * after) after := by
  constructor
  · intro token finish reads
    have passes := (advance_eq_ok closed (isKind ▸ more)).mp reads
    obtain rfl : start.peek = token := passes.peek
    refine ⟨_, passes, ?_⟩
    rw [kindsOf, List.map_singleton, isKind]
    exact leaves_one
  · exact nofun
  · exact nofun

theorem tracks_expect {wanted : Expected} (closed : start.Closed)
    (more : kind ≠ .stop) (productive : Productive after) :
    Tracks start (expect kind wanted) (one kind * after) after := by
  have unfolded : expect kind wanted start =
      (if start.peek.kind = kind then advance else refuse wanted) start := rfl
  refine Tracks.congr ?_ unfolded
  split
  · next isKind => exact tracks_advance closed isKind more
  · next other =>
      apply tracks_refuse
      · simp [productive]
      · simp [other]

theorem tracks_keyword {word : Keyword} (closed : start.Closed)
    (productive : Productive after) :
    Tracks start (keyword word) (Phrase.word word * after) after :=
  tracks_expect closed (by simp) productive

theorem tracks_operator {symbol : Operator} (closed : start.Closed)
    (productive : Productive after) :
    Tracks start (operator symbol) (Phrase.symbol symbol * after) after :=
  tracks_expect closed (by simp) productive

theorem tracks_identifier {wanted : Expected} (closed : start.Closed)
    (productive : Productive after) :
    Tracks start (identifier wanted) (name * after) after :=
  (tracks_expect closed (by simp) productive).bind closed fun _ => tracks_pure

theorem tracks_firstName {wanted : Expected} {mark : Operator}
    {next : Identifier → Reader β} (closed : start.Closed)
    (productive : Productive between)
    (rest : ∀ {name : Identifier} {middle : Cursor}, middle.Closed →
      Tracks middle (next name) between after) :
    Tracks start (operator .leftParen >>= fun _ =>
      identifier wanted >>= fun name => operator mark >>= fun _ => next name)
      (Phrase.symbol .leftParen * (name * (Phrase.symbol mark * between)))
      after := by
  apply (tracks_operator closed (by simp [productive])).bind closed
  intro _ start closed
  apply (tracks_identifier closed (by simp [productive])).bind closed
  intro _ start closed
  exact (tracks_operator closed productive).bind closed rest

/-! A token that was looked at already tells what may come behind it. -/

section Lookahead

variable {β : Type} {wanted : Expected}

theorem leaves_of_cons {next : Token.Kind}
    (behind : ∀ rest, kind :: rest ∈ before ↔ rest ∈ between) :
    Leaves before [kind] next between :=
  ⟨fun rest mem => (behind rest).mpr mem, fun _ mem => (behind _).mp mem⟩

theorem tracks_advance_bind {next : Token → Reader β} (closed : start.Closed)
    (isKind : start.peek.kind = kind) (more : kind ≠ .stop)
    (behind : ∀ rest, kind :: rest ∈ before ↔ rest ∈ between)
    (h : ∀ {middle : Cursor}, middle.Closed →
      Tracks middle (next start.peek) between after) :
    Tracks start (advance >>= next) before after := by
  have passes := passes_advance closed (isKind ▸ more)
  refine .of_ok rfl passes ?_ (h (passes.closed closed))
  rw [kindsOf, List.map_singleton, isKind]
  exact leaves_of_cons behind

theorem tracks_identifier_bind {next : Identifier → Reader β}
    (closed : start.Closed) (isName : start.peek.kind = .name)
    (leaves : Leaves before [.name] start.peekSecond.kind between)
    (h : ∀ {middle : Cursor}, middle.Closed → start.peekSecond = middle.peek →
      Tracks middle (next start.peek.identifier) between after) :
    Tracks start (identifier wanted >>= next) before after := by
  have passes := passes_advance closed (by simp [isName])
  have second := passes.peekSecond_eq_peek
  have reads : expect .name wanted start = .ok (start.peek, start.advance) :=
    (expect_eq_ok closed (by simp)).mpr ⟨passes, isName⟩
  rw [identifier_eq]
  refine .of_ok reads passes ?_ (h (passes.closed closed) second)
  rw [kindsOf, List.map_singleton, isName, ← second]
  exact leaves

end Lookahead

/-! ## Rows -/

section Rows

variable {opens : Token → Option (Reader α)} {L : Language Token.Kind}

/-- Each token tells whether a row goes on or comes to its end. -/
structure Separates (opens : Token → Option (Reader α))
    (L after : Language Token.Kind) : Prop where
  ends : ∀ token : Token, token.kind = .stop → opens token = none
  inside : ∀ word ∈ L * (L∗ * after), ∃ kind rest, word = kind :: rest ∧
    ∀ token : Token, token.kind = kind → (opens token).isSome
  outside : ∀ (token : Token) (rest : List Token.Kind),
    (opens token).isSome → token.kind :: rest ∉ after

theorem Separates.ne_nil (h : Separates opens L after)
    (productive : Productive after) {passed : List Token.Kind}
    (leaves : Leaves (L * (L∗ * after)) passed kind (L∗ * after)) :
    passed ≠ [] := by
  rintro rfl
  obtain ⟨word, mem⟩ := productive
  have again : word ∈ L * (L∗ * after) :=
    leaves.continues _ (mem_kstar_mul.mpr (.inl mem))
  obtain ⟨next, rest, rfl, opened⟩ := h.inside word again
  exact h.outside ⟨next, "", 0⟩ rest (opened _ rfl) mem

theorem tracks_repeated {bound : Nat} (separates : Separates opens L after)
    (productive : Productive after)
    (items : ∀ {start : Cursor} {item : Reader α}, start.Closed →
      opens start.peek = some item →
      Tracks start item (L * (L∗ * after)) (L∗ * after))
    (closed : start.Closed) (enough : start.ahead.length ≤ bound) :
    Tracks start (repeated opens bound) (L∗ * after) after := by
  have idle {start : Cursor} (nothing : opens start.peek = none) :
      Tracks start (pure [] : Reader (List α)) (L∗ * after) after := by
    apply tracks_pure.widen
    · intro word mem
      exact mem_kstar_mul.mpr (.inl mem)
    · intro rest mem
      apply (mem_kstar_mul.mp mem).resolve_right
      intro item
      obtain ⟨_, _, same, opened⟩ := separates.inside _ item
      simpa [nothing] using opened start.peek (List.cons.inj same).1
  induction bound generalizing start with
  | zero =>
      have atStop : start.peek = start.stop := by
        simp [Cursor.peek, List.length_eq_zero_iff.mp (Nat.le_zero.mp enough)]
      exact idle (separates.ends _ (atStop ▸ closed))
  | succ bound ih =>
      apply Tracks.peek_bind
      cases found : opens start.peek with
      | none => exact idle found
      | some first =>
          refine Tracks.widen
            (?_ : Tracks start _ (L * (L∗ * after)) after) ?_ ?_
          · apply (items closed found).bind_passing
            intro a middle tokens passes leaves
            have more : tokens ≠ [] := by
              rintro rfl
              exact separates.ne_nil productive leaves rfl
            have shorter : middle.ahead.length ≤ bound := by
              have length := passes.length
              have positive := List.length_pos_iff.mpr more
              omega
            have rest := ih (passes.closed closed) shorter
            exact rest.bind (passes.closed closed) fun _ => tracks_pure
          · intro word mem
            exact mem_kstar_mul.mpr (.inr mem)
          · intro rest mem
            apply (mem_kstar_mul.mp mem).resolve_left
            exact separates.outside _ rest (by simp [found])

theorem tracks_many (separates : Separates opens L after)
    (productive : Productive after)
    (items : ∀ {start : Cursor} {item : Reader α}, start.Closed →
      opens start.peek = some item →
      Tracks start item (L * (L∗ * after)) (L∗ * after))
    (closed : start.Closed) : Tracks start (many opens) (L∗ * after) after := by
  have bounded :=
    tracks_repeated separates productive items closed (Nat.le_refl _)
  exact bounded.congr rfl

theorem tracks_row {item : Reader α} (more : kind ≠ .stop)
    (begins : ∀ word ∈ L * (L∗ * after), ∃ rest, word = kind :: rest)
    (closes : ∀ rest, kind :: rest ∉ after) (productive : Productive after)
    (items : ∀ {start : Cursor}, start.Closed → start.peek.kind = kind →
      Tracks start item (L * (L∗ * after)) (L∗ * after))
    (closed : start.Closed) :
    Tracks start (many (onKind kind item)) (L∗ * after) after := by
  apply tracks_many _ productive _ closed
  · constructor
    · intro token isStop
      exact onKind_eq_none.mpr (isStop ▸ more.symm)
    · intro word mem
      obtain ⟨rest, rfl⟩ := begins word mem
      exact ⟨kind, rest, rfl, fun _ => isSome_onKind.mpr⟩
    · intro token rest opened
      rw [isSome_onKind.mp opened]
      exact closes rest
  · intro start item' closed found
    have opened : (onKind kind item start.peek).isSome := by
      rw [found]
      rfl
    have isKind : start.peek.kind = kind := isSome_onKind.mp opened
    rw [onKind, if_pos isKind, Option.some.injEq] at found
    exact found ▸ items closed isKind

end Rows

end Secrecy.Grammar
