import Secrecy.Proofs.Knowledge.Passes

/-!
# What the history records

The history begins with what everybody holds once the messages are entered, has
one more snapshot for each pass that changes something, and ends with what the
report shows.  From one snapshot to the next nobody loses a name, and somebody
gains one.  Apart from the history itself, recording it leaves no trace.
-/

namespace Secrecy

/-! ## Snapshots -/

namespace Snapshot

def names (snapshot : Snapshot) (principal : Principal) : List String :=
  match snapshot.find? (·.1 = principal) with
  | none => []
  | some shown => shown.2

structure Advances (before after : Snapshot) : Prop where
  keeps (principal : Principal) :
    before.names principal ⊆ after.names principal
  gains : ∃ principal name,
    name ∈ after.names principal ∧ name ∉ before.names principal

end Snapshot

namespace Ledger

variable {before after ledger start : Ledger} {order : List Principal}
  {run : Run}

theorem names_snapshot (ledger : Ledger) (principal : Principal) :
    ledger.snapshot.names principal =
      sorted (ledger.holdingsOf principal).clear := by
  unfold Snapshot.names snapshot holdingsOf
  rw [List.find?_map]
  simp only [Function.comp_def]
  cases ledger.entries.find? (·.principal = principal) with
  | none => exact List.mergeSort_nil.symm
  | some entry => rfl

theorem mem_names_snapshot {principal : Principal} {name : String} :
    name ∈ ledger.snapshot.names principal ↔
      name ∈ (ledger.holdingsOf principal).clear := by
  rw [names_snapshot, mem_sorted]

theorem principals_snapshot (ledger : Ledger) :
    ledger.snapshot.map Prod.fst = ledger.frame.map Prod.fst := by
  simp [snapshot, frame, Function.comp_def]

theorem LeadsTo.exists_opened (h : LeadsTo before after)
    (nodup : (before.frame.map Prod.fst).Nodup) (changed : after ≠ before) :
    ∃ principal name, name ∈ (after.holdingsOf principal).clear ∧
      name ∉ (before.holdingsOf principal).clear := by
  by_contra none
  refine changed (eq_of_holdingsOf h.frame nodup fun principal => ?_)
  by_contra different
  obtain ⟨name, known, new, -⟩ :=
    (h.holdingsOf principal).exists_opened different
  exact none ⟨principal, name, known, new⟩

theorem LeadsTo.advances (h : LeadsTo before after)
    (nodup : (before.frame.map Prod.fst).Nodup) (changed : after ≠ before) :
    before.snapshot.Advances after.snapshot where
  keeps principal name known := by
    rw [mem_names_snapshot] at known ⊢
    exact (h.holdingsOf principal).mem_clear known
  gains := by
    obtain ⟨principal, name, known, new⟩ := h.exists_opened nodup changed
    refine ⟨principal, name, mem_names_snapshot.mpr known, ?_⟩
    exact fun old => new (mem_names_snapshot.mp old)

/-! ## The loop step by step -/

theorem Loop.ledgers_eq (loop : Loop order start run)
    (follows : start.Follows order) :
    ∃ later, run.ledgers = start :: later := by
  cases loop with
  | stop idle =>
      obtain rfl := follows.idle idle
      exact ⟨[], rfl⟩
  | again busy rest => exact ⟨_, rfl⟩

theorem Loop.follows (loop : Loop order start run)
    (follows : start.Follows order) :
    ∀ ledger ∈ run.ledgers, ledger.Follows order := by
  induction loop with
  | stop idle =>
      obtain rfl := follows.idle idle
      intro ledger mem
      obtain rfl := List.mem_singleton.mp mem
      exact follows
  | @again before middle run busy rest ih =>
      obtain ⟨rfl, -⟩ := follows.busy busy
      intro ledger mem
      rcases List.mem_cons.mp mem with rfl | later
      · exact follows
      · exact ih ((leadsTo_sweep before).follows follows) ledger later

theorem Loop.advances (loop : Loop order start run)
    (follows : start.Follows order) :
    (run.ledgers.map snapshot).IsChain Snapshot.Advances := by
  induction loop with
  | stop idle => exact .singleton _
  | @again before middle run busy rest ih =>
      obtain ⟨rfl, changed⟩ := follows.busy busy
      have there := leadsTo_sweep before
      have follows' := there.follows follows
      obtain ⟨later, begins⟩ := rest.ledgers_eq follows'
      have steps := ih follows'
      change ((before :: run.ledgers).map snapshot).IsChain _
      rw [begins] at steps ⊢
      exact .cons_cons (there.advances follows.nodup changed) steps

end Ledger

/-! ## The history of a report -/

namespace Protocol

variable {config : Config} {protocol : Protocol}

/-- The history of a report that sets out from a ledger. -/
structure Traces (protocol : Protocol) (config : Config) (start : Ledger)
    (report : Report) : Prop where
  length : report.history.length = report.rounds + 1
  principals : ∀ snapshot ∈ report.history,
    snapshot.map Prod.fst = distinct protocol.principals
  first : report.history.head? = some start.snapshot
  observed (principal : Principal) (listed : principal ∈ protocol.principals)
    (name : String) : name ∈ start.snapshot.names principal ↔
      protocol.Authored principal name ∨ protocol.Told config principal name
  steps : report.history.IsChain Snapshot.Advances
  last : ∃ last, report.history.getLast? = some last ∧
    ∀ known ∈ report.knowledge, last.names known.principal = known.clear

theorem mem_names_observed {start : Ledger}
    (h : Ledger.observed config protocol = .ok start) {principal : Principal}
    (listed : principal ∈ protocol.principals) (name : String) :
    name ∈ start.snapshot.names principal ↔
      protocol.Authored principal name ∨
        protocol.Told config principal name := by
  have gains := Ledger.gains_holdingsOf h listed
  rw [Ledger.mem_names_snapshot, Holdings.mem_clear, gains.authored,
    gains.learned]
  simp [Holdings.nothing, gain]

theorem traces_report {start : Ledger} {run : Ledger.Run}
    (recorded : config.recordHistory = true)
    (h : Ledger.observed config protocol = .ok start)
    (loop : Ledger.Loop protocol.principals start run) :
    protocol.Traces config start (run.report config protocol) := by
  have follows := Ledger.follows_observed h
  have history : (run.report config protocol).history =
      run.ledgers.map Ledger.snapshot := if_pos recorded
  refine ⟨?_, ?_, ?_, fun _ listed => mem_names_observed h listed, ?_, ?_⟩
  · rw [history, List.length_map]
    exact List.length_append
  · intro snapshot recorded
    rw [history] at recorded
    obtain ⟨ledger, mem, rfl⟩ := List.mem_map.mp recorded
    rw [Ledger.principals_snapshot]
    exact (loop.follows follows ledger mem).principals
  · obtain ⟨later, begins⟩ := loop.ledgers_eq follows
    rw [history, begins]
    rfl
  · rw [history]
    exact loop.advances follows
  · refine ⟨run.final.snapshot, ?_, fun known mem => ?_⟩
    · rw [history, Ledger.Run.ledgers, List.map_append]
      exact List.getLast?_concat
    · obtain ⟨principal, -, rfl⟩ := List.mem_map.mp mem
      exact run.final.names_snapshot principal

/--
A history that is recorded tells what the loop of passes went through, from
what was observed to what is reported, and nothing else depends on it.
-/
theorem analyze_traces {scope : Scope} (h : protocol.scope = .ok scope)
    (recorded : config.recordHistory = true) :
    ∃ start run report, Ledger.observed config protocol = .ok start ∧
      Ledger.Loop protocol.principals start run ∧
      protocol.analyze config = .ok report ∧
      report.history = run.ledgers.map Ledger.snapshot ∧
      protocol.Traces config start report ∧
      protocol.analyze { config with recordHistory := false } =
        .ok { report with history := [] } := by
  obtain ⟨start, observed, analyzed⟩ :=
    exists_report (addressed_of_scope h config)
  have loop := Ledger.loop_settle (Ledger.follows_observed observed)
    (Ledger.labelled_observed observed)
  refine ⟨start, start.settle, _, observed, loop, analyzed, if_pos recorded,
    traces_report recorded observed loop, ?_⟩
  exact analyze_eq_ok.mpr ⟨start, observed, rfl⟩

def recording : Config := { Config.default with recordHistory := true }

theorem analyze_traces_handover :
    handover.scope = .ok handoverScope ∧ recording.recordHistory = true ∧
      ∃ start run report, Ledger.observed recording handover = .ok start ∧
        Ledger.Loop handover.principals start run ∧
        handover.analyze recording = .ok report ∧
        report.history = run.ledgers.map Ledger.snapshot ∧
        handover.Traces recording start report ∧
        handover.analyze { recording with recordHistory := false } =
          .ok { report with history := [] } :=
  ⟨scope_handover, rfl, analyze_traces scope_handover rfl⟩

end Protocol

end Secrecy
