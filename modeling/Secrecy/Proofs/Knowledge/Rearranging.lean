import Secrecy.Proofs.Knowledge.Distinguishing
import Secrecy.Proofs.Knowledge.Matching
import Secrecy.Proofs.Layout

/-!
# Messages in another arrangement

Everybody knows what it does from some message or other, and an assignment
tells as much as its target and its value sent one by one.  So the order of the
messages, how often they are sent and whether assignments go in one piece make
no difference to what everybody holds.  Nor do they to the rounds that it takes
to open it, for the terms that are sealed in a text all have labels of their
own.
-/

namespace Secrecy

/-! ## Rearranged messages -/

namespace Message

/-- In another order, sent again, or an assignment in two messages. -/
inductive Rearranged : List Message → List Message → Prop
  | order {messages others : List Message} (perm : messages.Perm others) :
      Rearranged messages others
  | again {messages : List Message} {message : Message}
      (mem : message ∈ messages) : Rearranged messages (message :: messages)
  | apart (sender receiver target : Identifier) (value : Expr)
      (line sent named valued : Int) (early late : List Message) :
      Rearranged
        (early ++ ⟨sender, receiver, .assign target value line, sent⟩ :: late)
        (early ++ ⟨sender, receiver, .name target, named⟩ ::
          ⟨sender, receiver, value, valued⟩ :: late)
  | trans {messages others further : List Message}
      (first : Rearranged messages others) (next : Rearranged others further) :
      Rearranged messages further

/-- What can be said of an assignment can be said of its target or its value. -/
def Distributes (P : Message → Prop) : Prop :=
  ∀ (sender receiver target : Identifier) (value : Expr)
    (line sent named valued : Int),
    P ⟨sender, receiver, .assign target value line, sent⟩ ↔
      P ⟨sender, receiver, .name target, named⟩ ∨
        P ⟨sender, receiver, value, valued⟩

theorem Distributes.and {E : Message → Prop} {B : Expr → Prop}
    (ends : ∀ (sender receiver : Identifier) (body body' : Expr)
      (line line' : Int), E ⟨sender, receiver, body, line⟩ ↔
        E ⟨sender, receiver, body', line'⟩)
    (parts : ∀ (target : Identifier) (value : Expr) (line : Int),
      B (.assign target value line) ↔ B (.name target) ∨ B value) :
    Distributes fun message => E message ∧ B message.body := by
  intro sender receiver target value line sent named valued
  have toName := ends sender receiver (.assign target value line)
    (.name target) sent named
  have toValue := ends sender receiver (.assign target value line) value sent
    valued
  simp only [parts, and_or_left, toName]
  exact or_congr_right (and_congr_left' (toName.symm.trans toValue))

theorem Rearranged.exists_iff {messages others : List Message}
    (h : Rearranged messages others) {P : Message → Prop}
    (distributes : Distributes P) :
    (∃ message ∈ messages, P message) ↔ ∃ message ∈ others, P message := by
  induction h with
  | order perm => simp only [perm.mem_iff]
  | @again messages message mem =>
      rw [List.exists_mem_cons_iff]
      exact (or_iff_right_of_imp fun holds => ⟨message, mem, holds⟩).symm
  | apart sender receiver target value line sent named valued early late =>
      have parts := distributes sender receiver target value line sent named
        valued
      simp only [List.mem_append, List.mem_cons, or_and_right, exists_or,
        exists_eq_left, parts, or_assoc]
  | trans _ _ ih ih' => exact ih.trans ih'

end Message

namespace Protocol

variable {p q : Protocol} {config : Config}

structure Rearranges (p q : Protocol) : Prop where
  roles : q.roles = p.roles
  keys : q.keys = p.keys
  assertions : q.assertions = p.assertions
  messages : Message.Rearranged p.messages q.messages

namespace Rearranges

theorem principals (h : p.Rearranges q) : q.principals = p.principals := by
  rw [Protocol.principals, roleNames, h.roles]
  rfl

theorem report (h : p.Rearranges q) (run : Ledger.Run) :
    run.report config q = run.report config p := by
  obtain ⟨roles, keys, assertions, -⟩ := h
  cases p
  cases q
  cases roles
  cases keys
  cases assertions
  rfl

/-! ## What is disclosed -/

theorem authored_iff (h : p.Rearranges q) {principal : Principal}
    (name : String) : p.Authored principal name ↔ q.Authored principal name := by
  refine h.messages.exists_iff (.and (B := fun body => name ∈ body.occurrences)
    (fun _ _ _ _ _ _ => .rfl) fun target value line => ?_)
  simp [Expr.occurrences]

theorem shown_iff (h : p.Rearranges q) {principal : Principal}
    (name : String) : p.Shown principal name ↔ q.Shown principal name := by
  refine h.messages.exists_iff (.and (B := fun body => body.Shows name)
    (fun _ _ _ _ _ _ => .rfl) fun target value line => ?_)
  simp only [← Expr.mem_observed_names]
  simp [Expr.observed, Observation.withName, Observation.ofName]

theorem sealed_iff (h : p.Rearranges q) {principal : Principal}
    (term : SealedTerm) : p.Sealed principal term ↔ q.Sealed principal term := by
  refine h.messages.exists_iff (.and (B := fun body => body.Seals term)
    (fun _ _ _ _ _ _ => .rfl) fun target value line => ?_)
  simp only [← Expr.mem_observed_sealedTerms]
  simp [Expr.observed, Observation.withName, Observation.ofName]

theorem gain (h : p.Rearranges q) (principal : Principal) :
    p.gain config principal = q.gain config principal := by
  refine Gain.ext_iff.mpr ⟨h.authored_iff, fun name => ?_, h.sealed_iff⟩
  simp only [Protocol.gain, Told, Seeded, h.shown_iff, h.keys]

theorem addressed (h : p.Rearranges q) (addressed : p.Addressed config) :
    q.Addressed config := by
  have roleNames : q.roleNames = p.roleNames := by
    rw [Protocol.roleNames, h.roles]
    rfl
  have same := h.messages.exists_iff (P := fun message =>
    message.sender.name ∉ p.roleNames ∨ message.receiver.name ∉ p.roleNames)
    fun _ _ _ _ _ _ _ _ => or_self_iff.symm
  by_contra misses
  rw [not_addressed_iff, h.keys, roleNames, ← same, ← not_addressed_iff]
    at misses
  exact misses addressed

/-! ## What is reported -/

theorem matches_observed (h : p.Rearranges q) {text : String} {check : Bool}
    (accepted : ofSource text check = .ok p) {first second : Ledger}
    (observed : Ledger.observed config p = .ok first)
    (observed' : Ledger.observed config q = .ok second) :
    first.Matches second := by
  have follows := Ledger.follows_observed observed
  have follows' := Ledger.follows_observed observed'
  rw [h.principals] at follows'
  refine .of_holdingsOf (follows.trans follows'.symm) follows.nodup ?_
  intro principal listed
  rw [follows.principals, mem_distinct] at listed
  have gains := Ledger.gains_holdingsOf observed listed
  have gains' := Ledger.gains_holdingsOf observed' (h.principals ▸ listed)
  rw [← h.gain] at gains'
  refine ⟨fun name => ?_, fun name => ?_, fun term => ?_,
    gains.distinct Holdings.distinct_nothing,
    gains'.distinct Holdings.distinct_nothing, ?_⟩
  · rw [gains.authored, gains'.authored]
  · rw [gains.learned, gains'.learned]
  · rw [gains.sealedTerms, gains'.sealedTerms]
  · intro term mem other mem' same
    rw [gains.sealedTerms] at mem mem'
    obtain ⟨message, sent, -, seals⟩ := mem.resolve_left List.not_mem_nil
    obtain ⟨message', sent', -, seals'⟩ := mem'.resolve_left List.not_mem_nil
    exact shown_injOn accepted sent sent' seals seals' same

theorem analyze_eq_of_ofSource (h : p.Rearranges q) {text : String}
    {check : Bool} (accepted : ofSource text check = .ok p)
    (addressed : p.Addressed config) : q.analyze config = p.analyze config := by
  obtain ⟨first, observed, analyzed⟩ := exists_report addressed
  obtain ⟨second, observed', analyzed'⟩ := exists_report (h.addressed addressed)
  have settled := (h.matches_observed accepted observed observed').settle
    (Ledger.visited_observed observed) (Ledger.visited_observed observed')
  rw [analyzed, analyzed', h.report, settled.report]

end Rearranges

/-- A report tells what was sent, but not when, how often or in what pieces. -/
theorem analyze_rearranges {text : String}
    (accepted : ofSource text true = .ok p) (config : Config) :
    ∃ report, p.analyze config = .ok report ∧
      ∀ q, p.Rearranges q → q.analyze config = .ok report := by
  have wellScoped : p.WellScoped := (ofSource_eq_ok.mp accepted).2 rfl
  have addressed := wellScoped.addressed config
  obtain ⟨ledger, -, analyzed⟩ := exists_report addressed
  refine ⟨_, analyzed, fun q h => ?_⟩
  rw [h.analyze_eq_of_ofSource accepted addressed, analyzed]

theorem analyze_rearranges_errand :
    ∃ p sender receiver target value line sent report,
      ofSource errandText true = .ok p ∧
      p.messages = [⟨sender, receiver, .assign target value line, sent⟩] ∧
      p.analyze .default = .ok report ∧
      Protocol.analyze .default { p with
        messages := [⟨sender, receiver, value, sent⟩,
          ⟨sender, receiver, .name target, sent⟩,
          ⟨sender, receiver, value, sent⟩] } = .ok report := by
  obtain ⟨p, accepted, alike⟩ := exists_ofSource_errandText true
  have messages : p.messages.map Message.forgetLines =
      errand.messages.map Message.forgetLines :=
    congrArg Protocol.messages alike
  obtain ⟨⟨sender, receiver, body, sent⟩, only, same⟩ :=
    List.map_eq_singleton_iff.mp messages
  have assigns := congrArg Message.body same
  cases body with
  | assign target value line =>
      obtain ⟨report, analyzed, others⟩ := analyze_rearranges accepted .default
      refine ⟨p, sender, receiver, target, value, line, sent, report, accepted,
        only, analyzed, others _ ⟨rfl, rfl, rfl, ?_⟩⟩
      have parts := Message.Rearranged.apart sender receiver target value line
        sent sent sent [] []
      rw [only]
      exact parts.trans (.again (List.mem_cons_of_mem _ List.mem_cons_self))
  | _ => cases assigns

end Protocol

end Secrecy
