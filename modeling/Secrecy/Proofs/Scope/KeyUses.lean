import Secrecy.Proofs.Source

/-!
# Where keys come from

A scope grows while a body is read, so a key that is not declared may have come
up in the very message that uses it, in the clear and before its use.  If it
did not, an earlier message mentions it.
-/

namespace Secrecy

/-! ## Targets come last -/

theorem Expr.Grouped.target_notMem_reading {e : Expr} (grouped : e.Grouped)
    (target : String) : .target target ∉ e.reading := by
  induction e with
  | name identifier => simp [reading]
  | concat left right line ihLeft ihRight =>
      obtain ⟨left, right, -⟩ := grouped
      simp [reading, ihLeft left, ihRight right]
  | enc key message line ih | mac key message line ih
  | sign key message line ih =>
      simp [reading, ih grouped]
  | hash inner line ih => exact ih grouped
  | verify key message signature line ihMessage ihSignature =>
      obtain ⟨message, signature⟩ := grouped
      simp [reading, ihMessage message, ihSignature signature]
  | assign => exact grouped.elim

theorem Expr.GroupedBody.target_notMem {body : Expr}
    (grouped : body.GroupedBody) {before after : List Mention}
    {mention : Mention} (split : body.reading = before ++ mention :: after)
    (target : String) : .target target ∉ before := by
  intro mem
  cases body with
  | assign assigned value line =>
      have parts : value.reading =
          before ++ (mention :: after).dropLast := by
        have dropped := congrArg List.dropLast split
        rwa [reading, List.dropLast_concat,
          List.dropLast_append_of_ne_nil (List.cons_ne_nil _ _)] at dropped
      apply Grouped.target_notMem_reading (e := value) grouped target
      rw [parts]
      exact List.mem_append_left _ mem
  | _ =>
      apply Grouped.target_notMem_reading grouped target
      rw [split]
      exact List.mem_append_left _ mem

namespace Protocol

variable {p : Protocol} {early late : List Message} {message : Message}

/--
The first time that a name stands for a key it is declared, or an earlier
message or the same one mentions it as no key; later times go back to that one.
-/
theorem WellScoped.key_introduced (wellScoped : p.WellScoped)
    (sent : p.messages = early ++ message :: late)
    (grouped : message.body.GroupedBody) {before after : List Mention}
    {key : String} (used : message.body.reading = before ++ .key key :: after) :
    key ∈ p.keyNames ∨ (∃ earlier ∈ early, key ∈ earlier.body.occurrences) ∨
      .plain key ∈ before := by
  induction length : before.length using Nat.strongRecOn
    generalizing before after with
  | ind _ ih =>
      subst length
      rcases (wellScoped.keyUses _ key _ (reading_split sent used)).2 with
        declared | known
      · exact .inl declared
      rw [List.map_append, List.mem_append] at known
      rcases known with earlier | here
      · right; left
        simpa [List.map_flatMap, Expr.mem_reading] using earlier
      · obtain ⟨mention, mem, named⟩ := List.mem_map.mp here
        cases mention with
        | plain name => exact .inr (.inr (named ▸ mem))
        | target name =>
            exact absurd mem (grouped.target_notMem used name)
        | key name =>
            obtain rfl : name = key := named
            obtain ⟨first, rest, rfl⟩ := List.append_of_mem mem
            rw [List.append_assoc, List.cons_append] at used
            have shorter : first.length <
                (first ++ Mention.key name :: rest).length := by simp
            refine (ih _ shorter used rfl).imp_right (.imp_right ?_)
            exact List.mem_append_left _

/-- Keys of an accepted text, as far as they must be known before their use. -/
theorem keys_introduced {text : String} (accepted : ofSource text true = .ok p)
    (sent : p.messages = early ++ message :: late)
    {before after : List Mention} {key : String}
    (used : message.body.reading = before ++ .key key :: after) :
    key ∉ p.roleNames ∧ (key ∈ p.keyNames ∨
      (∃ earlier ∈ early, key ∈ earlier.body.occurrences) ∨
        .plain key ∈ before) := by
  have wellScoped : p.WellScoped := (ofSource_eq_ok.mp accepted).2 rfl
  have mem : message ∈ p.messages := by simp [sent]
  have grouped := (writable_of_ofSource accepted message mem).grouped
  exact ⟨(wellScoped.keyUses _ key _ (reading_split sent used)).1,
    wellScoped.key_introduced sent grouped used⟩

/-! ## A key from its own message -/

def unwrapped : Protocol :=
  ⟨⟨[⟨"A", 0⟩, ⟨"B", 0⟩], 0⟩, [],
    [⟨⟨"A", 0⟩, ⟨"B", 0⟩, .concat (.name ⟨"x", 0⟩)
      (.enc ⟨"x", 0⟩ (.name ⟨"m", 0⟩) 0) 0, 0⟩], []⟩

def unwrappedText : String := "roles: A, B\nA -> B: x || Enc(x, m)\n"

theorem exists_ofSource_unwrappedText :
    ∃ p message, ofSource unwrappedText true = .ok p ∧
      p.messages = [message] ∧ p.keyNames = [] ∧
      message.body.reading = [.plain "x", .key "x", .plain "m"] := by
  have wellScoped : unwrapped.WellScoped :=
    (checked_eq_ok.mp (rfl : unwrapped.checked = .ok unwrapped)).2
  have printed : unwrapped.print ++ "\n" = unwrappedText := by decide
  obtain ⟨p, accepted, alike⟩ := exists_ofSource_print (p := unwrapped)
    (by decide) (by decide) wellScoped
    (List.mem_cons_of_mem _ List.mem_cons_self) true
  rw [printed] at accepted
  have messages : p.messages.map Message.forgetLines = unwrapped.messages :=
    congrArg Protocol.messages alike
  obtain ⟨message, only, same⟩ := List.map_eq_singleton_iff.mp messages
  have body := congrArg Message.body same
  rw [Message.body_forgetLines] at body
  refine ⟨p, message, accepted, only, ?_, ?_⟩
  · rw [← keyNames_forgetLines, alike]
    rfl
  · rw [← Expr.reading_forgetLines, body]
    rfl

theorem keys_introduced_unwrapped :
    ∃ p message, ofSource unwrappedText true = .ok p ∧
      p.messages = [message] ∧ .key "x" ∈ message.body.reading ∧
      "x" ∉ p.roleNames ∧ ("x" ∈ p.keyNames ∨
        (∃ earlier ∈ ([] : List Message), "x" ∈ earlier.body.occurrences) ∨
          Mention.plain "x" ∈ [Mention.plain "x"]) := by
  obtain ⟨p, message, accepted, only, -, reading⟩ :=
    exists_ofSource_unwrappedText
  have sent : p.messages = [] ++ message :: [] := only
  have used : message.body.reading =
      [.plain "x"] ++ .key "x" :: [.plain "m"] := reading
  exact ⟨p, message, accepted, only, by simp [reading],
    keys_introduced accepted sent used⟩

theorem introduces_own_key :
    ¬ ∀ (text : String) (p : Protocol), ofSource text true = .ok p →
      ∀ (early late : List Message) (message : Message),
        p.messages = early ++ message :: late →
        ∀ key, .key key ∈ message.body.reading →
          key ∈ p.keyNames ∨
            ∃ earlier ∈ early, key ∈ earlier.body.occurrences := by
  intro claimed
  obtain ⟨p, message, accepted, only, undeclared, reading⟩ :=
    exists_ofSource_unwrappedText
  have introduced := claimed _ p accepted [] [] message only "x"
    (by simp [reading])
  simp [undeclared] at introduced

end Protocol

end Secrecy
