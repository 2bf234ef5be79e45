import Mathlib.Logic.Equiv.Basic
import Secrecy.Proofs.Knowledge.Judgement
import Secrecy.Proofs.Protocol.Renaming

/-!
# Reports on renamed protocols

A renaming that keeps different names apart takes along everything that the
messages disclose.  The labels by which sealed terms are visited change their
order, and with it what is opened when; but the least knowledge does not go by
that order, and so what is known in the end is the same up to the renaming.
-/

namespace Secrecy

variable {r : String → String} {config : Config} {protocol : Protocol}
  {principal : Principal}

/-! ## Disclosure -/

@[simp] theorem Expr.payload_rename (body : Expr) :
    (body.rename r).payload = body.payload.rename r := by
  induction body with
  | assign target value line ih => exact ih
  | _ => rfl

theorem Expr.shows_rename_iff_exists {body : Expr} {name : String} :
    (body.rename r).Shows name ↔ ∃ old, body.Shows old ∧ r old = name := by
  rw [← mem_observed_names, names_observed_rename, List.mem_map]
  simp only [mem_observed_names]

theorem Message.sentBy_rename (injective : Function.Injective r)
    {message : Message} :
    (message.rename r).SentBy (principal.rename r) ↔
      message.SentBy principal :=
  (Principal.rename_injective injective).eq_iff
    (b := .role message.sender.name)

theorem Message.receivedBy_rename (injective : Function.Injective r)
    {message : Message} :
    (message.rename r).ReceivedBy (principal.rename r) ↔
      message.ReceivedBy principal := by
  cases principal with
  | role name => exact injective.eq_iff
  | adversary => rfl

theorem KeyDecl.givenTo_rename (injective : Function.Injective r)
    {key : KeyDecl} :
    (key.rename r).GivenTo (principal.rename r) ↔ key.GivenTo principal := by
  have owned (owner : String) : principal.rename r = .role (r owner) ↔
      principal = .role owner :=
    (Principal.rename_injective injective).eq_iff (b := .role owner)
  simp only [GivenTo, ownerNames_rename, List.mem_map,
    exists_exists_and_eq_and, owned]
  rfl

namespace Protocol

theorem authored_rename_iff_exists (injective : Function.Injective r)
    {name : String} :
    (protocol.rename r).Authored (principal.rename r) name ↔
      ∃ old, protocol.Authored principal old ∧ r old = name := by
  simp only [Authored, messages_rename, List.mem_map,
    exists_exists_and_eq_and, Message.sentBy_rename injective,
    Message.body_rename, Expr.occurrences_rename]
  constructor
  · rintro ⟨message, mem, sent, old, occurs, rfl⟩
    exact ⟨old, ⟨message, mem, sent, occurs⟩, rfl⟩
  · rintro ⟨old, ⟨message, mem, sent, occurs⟩, rfl⟩
    exact ⟨message, mem, sent, old, occurs, rfl⟩

theorem shown_rename_iff_exists (injective : Function.Injective r)
    {name : String} :
    (protocol.rename r).Shown (principal.rename r) name ↔
      ∃ old, protocol.Shown principal old ∧ r old = name := by
  simp only [Shown, messages_rename, List.mem_map, exists_exists_and_eq_and,
    Message.receivedBy_rename injective, Message.body_rename,
    Expr.shows_rename_iff_exists]
  constructor
  · rintro ⟨message, mem, received, old, shown, rfl⟩
    exact ⟨old, ⟨message, mem, received, shown⟩, rfl⟩
  · rintro ⟨old, ⟨message, mem, received, shown⟩, rfl⟩
    exact ⟨message, mem, received, old, shown, rfl⟩

theorem seeded_rename_iff_exists (injective : Function.Injective r)
    {name : String} :
    (protocol.rename r).Seeded config (principal.rename r) name ↔
      ∃ old, protocol.Seeded config principal old ∧ r old = name := by
  simp only [Seeded, keys_rename, List.mem_map, exists_exists_and_eq_and,
    KeyDecl.givenTo_rename injective]
  constructor
  · rintro ⟨seeds, key, mem, given, rfl⟩
    exact ⟨_, ⟨seeds, key, mem, given, rfl⟩, rfl⟩
  · rintro ⟨_, ⟨seeds, key, mem, given, rfl⟩, rfl⟩
    exact ⟨seeds, key, mem, given, rfl⟩

theorem told_rename_iff_exists (injective : Function.Injective r)
    {name : String} :
    (protocol.rename r).Told config (principal.rename r) name ↔
      ∃ old, protocol.Told config principal old ∧ r old = name := by
  simp only [Told, shown_rename_iff_exists injective,
    seeded_rename_iff_exists injective, or_and_right, exists_or]

theorem unlocks_rename_iff_exists (injective : Function.Injective r)
    {key plain : String} :
    (protocol.rename r).Unlocks (principal.rename r) key plain ↔
      ∃ key' plain', protocol.Unlocks principal key' plain' ∧
        r key' = key ∧ r plain' = plain := by
  simp only [Unlocks, messages_rename, List.mem_map, exists_exists_and_eq_and,
    Message.sentBy_rename injective, Message.receivedBy_rename injective,
    Message.body_rename, Expr.payload_rename, Expr.rename_eq_enc_bare_iff]
  constructor
  · rintro ⟨message, mem, held, _, _, line, ⟨key', plain', whole, rfl, rfl⟩,
      rfl, rfl⟩
    exact ⟨_, _, ⟨message, mem, held, key', plain', line, whole, rfl, rfl⟩,
      rfl, rfl⟩
  · rintro ⟨_, _, ⟨message, mem, held, key', plain', line, whole, rfl, rfl⟩,
      rfl, rfl⟩
    exact ⟨message, mem, held, key'.rename r, plain'.rename r, line,
      ⟨key', plain', whole, rfl, rfl⟩, rfl, rfl⟩

theorem known_rename_iff_exists (injective : Function.Injective r)
    {name : String} :
    (protocol.rename r).Known config (principal.rename r) name ↔
      ∃ old, protocol.Known config principal old ∧ r old = name := by
  constructor
  · intro known
    induction known with
    | authored h =>
        obtain ⟨old, authored, rfl⟩ :=
          (authored_rename_iff_exists injective).mp h
        exact ⟨old, .authored authored, rfl⟩
    | told h =>
        obtain ⟨old, told, rfl⟩ := (told_rename_iff_exists injective).mp h
        exact ⟨old, .told told, rfl⟩
    | opened held _ ih =>
        obtain ⟨key, known, same⟩ := ih
        obtain ⟨key', plain, unlocks, same', rfl⟩ :=
          (unlocks_rename_iff_exists injective).mp
            (sealed_enc_iff_unlocks.mp held)
        obtain rfl : key' = key := injective (same'.trans same.symm)
        exact ⟨plain, .opened (sealed_enc_iff_unlocks.mpr unlocks) known, rfl⟩
  · rintro ⟨old, known, rfl⟩
    induction known with
    | authored h =>
        exact .authored ((authored_rename_iff_exists injective).mpr ⟨_, h, rfl⟩)
    | told h =>
        exact .told ((told_rename_iff_exists injective).mpr ⟨_, h, rfl⟩)
    | opened held _ ih =>
        have unlocks := (unlocks_rename_iff_exists injective).mpr
          ⟨_, _, sealed_enc_iff_unlocks.mp held, rfl, rfl⟩
        exact .opened (sealed_enc_iff_unlocks.mpr unlocks) ih

theorem Addressed.rename (addressed : protocol.Addressed config) :
    (protocol.rename r).Addressed config := by
  constructor <;> rw [roleNames_rename]
  · intro message mem
    obtain ⟨old, sent, rfl⟩ := List.mem_map.mp mem
    exact List.mem_map_of_mem (addressed.senders old sent)
  · intro message mem
    obtain ⟨old, sent, rfl⟩ := List.mem_map.mp mem
    exact List.mem_map_of_mem (addressed.receivers old sent)
  · intro seeds key mem unshared owner owns
    obtain ⟨old, declared, rfl⟩ := List.mem_map.mp mem
    rw [KeyDecl.ownerNames_rename] at owns
    obtain ⟨oldOwner, owned, rfl⟩ := List.mem_map.mp owns
    exact List.mem_map_of_mem
      (addressed.owners seeds old declared unshared oldOwner owned)

end Protocol

/-! ## Holdings -/

/-- The same names but for the renaming; sealed terms are left aside. -/
structure Holdings.Renames (r : String → String) (before after : Holdings) :
    Prop where
  authored (name : String) :
    name ∈ after.authored ↔ name ∈ before.authored.map r
  learned (name : String) :
    name ∈ after.learned ↔ name ∈ before.learned.map r

theorem Protocol.Settled.renames (injective : Function.Injective r)
    {before after : Holdings}
    (settled : protocol.Settled config principal before)
    (settled' : (protocol.rename r).Settled config (principal.rename r) after) :
    before.Renames r after where
  authored name := by
    rw [settled'.authored, authored_rename_iff_exists injective, List.mem_map]
    simp only [settled.authored]
  learned name := by
    rw [settled'.learned, told_rename_iff_exists injective,
      authored_rename_iff_exists injective, known_rename_iff_exists injective,
      List.mem_map]
    simp only [settled.learned]
    constructor
    · rintro (⟨old, told, rfl⟩ | ⟨foreign, old, known, rfl⟩)
      · exact ⟨old, .inl told, rfl⟩
      · exact ⟨old, .inr ⟨fun authored => foreign ⟨old, authored, rfl⟩, known⟩,
          rfl⟩
    · rintro ⟨old, told | ⟨foreign, known⟩, rfl⟩
      · exact .inl ⟨old, told, rfl⟩
      · refine .inr ⟨?_, old, known, rfl⟩
        rintro ⟨other, authored, same⟩
        exact foreign (injective same ▸ authored)

namespace Holdings.Renames

variable {before after : Holdings}

theorem clear (h : before.Renames r after) (name : String) :
    name ∈ after.clear ↔ name ∈ before.clear.map r := by
  rw [mem_clear, h.authored, h.learned]
  simp only [List.mem_map, mem_clear, or_and_right, exists_or]

theorem knows (h : before.Renames r after) (injective : Function.Injective r)
    (name : String) : after.knows (r name) = before.knows name := by
  rw [Bool.eq_iff_iff, knows_iff, knows_iff, h.clear,
    List.mem_map_of_injective injective]

theorem counts (h : before.Renames r after) (injective : Function.Injective r)
    (name : String) :
    after.counts config (r name) = before.counts config name := by
  unfold Holdings.counts
  simp only [h.knows injective, h.learned, List.mem_map_of_injective injective]

end Holdings.Renames

/-! ## Reports -/

structure Knowledge.Renames (r : String → String) (before after : Knowledge) :
    Prop where
  principal : after.principal = before.principal.rename r
  authored : after.authored = sorted (before.authored.map r)
  learned : after.learned = sorted (before.learned.map r)
  clear : after.clear = sorted (before.clear.map r)

structure Verdict.Renames (r : String → String) (before after : Verdict) :
    Prop where
  assertion : after.assertion = before.assertion.rename r
  passed : after.passed = before.passed
  leakedTo : after.leakedTo = before.leakedTo.map (Principal.rename r)

namespace Protocol

theorem Settled.knowledge_renames (injective : Function.Injective r)
    {before after : Holdings}
    (settled : protocol.Settled config principal before)
    (settled' : (protocol.rename r).Settled config (principal.rename r) after) :
    (Knowledge.ofHoldings principal before).Renames r
      (.ofHoldings (principal.rename r) after) := by
  have renames := settled.renames injective settled'
  have listed {old new : List String} (distinct : old.Nodup)
      (distinct' : new.Nodup) (same : ∀ name, name ∈ new ↔ name ∈ old.map r) :
      sorted new = sorted ((sorted old).map r) := by
    have kept : ((sorted old).map r).Nodup :=
      ((sorted_perm old).nodup_iff.mpr distinct).map injective
    refine sorted_congr distinct' kept fun name => ?_
    simp only [same, List.mem_map, mem_sorted]
  exact ⟨rfl, listed settled.distinct.authored settled'.distinct.authored
      renames.authored,
    listed settled.distinct.learned settled'.distinct.learned renames.learned,
    listed (nodup_adjoinAll settled.distinct.authored _)
      (nodup_adjoinAll settled'.distinct.authored _) renames.clear⟩

theorem judge_renames (injective : Function.Injective r)
    {before after : Ledger} {roles : List String}
    (each : ∀ role ∈ roles, (before.holdingsOf (.role role)).Renames r
      (after.holdingsOf (.role (r role))))
    (adversary : (before.holdingsOf .adversary).Renames r
      (after.holdingsOf .adversary))
    (assertion : Assertion) :
    (before.judge config roles assertion).Renames r
      (after.judge config (roles.map r) (assertion.rename r)) := by
  have outsiders : (assertion.rename r).outsiders (roles.map r) =
      (assertion.outsiders roles).map r := by
    unfold Assertion.outsiders
    rw [Assertion.permittedNames_rename]
    cases assertion.permittedNames with
    | none => rfl
    | some permitted =>
        simp only [Option.map_some, List.filter_map, Function.comp_def,
          List.mem_map_of_injective injective]
  have listed : assertion.outsiders roles ⊆ roles := by
    unfold Assertion.outsiders
    split
    · exact List.nil_subset roles
    · exact List.filter_subset_self _
  have leakedRoles :
      (after.judge config (roles.map r) (assertion.rename r)).leakedRoles =
        (before.judge config roles assertion).leakedRoles.map r := by
    simp only [Ledger.judge, outsiders, List.filter_map]
    congr 1
    refine List.filter_congr fun role mem => ?_
    exact (each role (listed mem)).counts injective assertion.term.name
  have adversaryLearned :
      (after.judge config (roles.map r) (assertion.rename r)).adversaryLearned =
        (before.judge config roles assertion).adversaryLearned :=
    adversary.knows injective assertion.term.name
  have leakedTo :
      (after.judge config (roles.map r) (assertion.rename r)).leakedTo =
        (before.judge config roles assertion).leakedTo.map
          (Principal.rename r) := by
    unfold Verdict.leakedTo
    rw [leakedRoles, adversaryLearned]
    cases (before.judge config roles assertion).adversaryLearned <;>
      simp [Principal.rename]
  refine ⟨rfl, ?_, leakedTo⟩
  rw [Verdict.passed, leakedTo, List.isEmpty_map]
  rfl

/--
Names mean nothing but what they are names of: a renaming takes everybody's
knowledge along with it, and all verdicts.
-/
theorem analyze_rename (injective : Function.Injective r)
    (addressed : protocol.Addressed config) :
    ∃ before after, protocol.analyze config = .ok before ∧
      (protocol.rename r).analyze config = .ok after ∧
      List.Forall₂ (Knowledge.Renames r) before.knowledge after.knowledge ∧
      List.Forall₂ (Verdict.Renames r) before.verdicts after.verdicts := by
  obtain ⟨run, analyzed, settled⟩ := exists_settled_report addressed
  obtain ⟨run', analyzed', settled'⟩ :=
    exists_settled_report (addressed.rename (r := r))
  have renamed (principal : Principal) (mem : principal ∈ protocol.principals) :
      (protocol.rename r).Settled config (principal.rename r)
        (run'.final.holdingsOf (principal.rename r)) := by
    apply settled'
    rw [principals_rename]
    exact List.mem_map_of_mem mem
  refine ⟨_, _, analyzed, analyzed', ?_, ?_⟩
  · simp only [Ledger.Run.report, principals_rename, List.map_map,
      List.forall₂_map_left_iff, List.forall₂_map_right_iff,
      List.forall₂_same]
    intro principal mem
    exact (settled principal mem).knowledge_renames injective
      (renamed principal mem)
  · have holdings (principal : Principal)
        (mem : principal ∈ protocol.principals) :=
      (settled principal mem).renames injective (renamed principal mem)
    simp only [Ledger.Run.report, roleNames_rename]
    rw [assertions_rename, List.map_map, List.forall₂_map_left_iff,
      List.forall₂_map_right_iff, List.forall₂_same]
    intro assertion _
    refine judge_renames injective (fun role mem => ?_)
      (holdings .adversary protocol.adversary_mem_principals) assertion
    exact holdings (.role role) (role_mem_principals.mpr mem)

/-- The receiver takes the name of the adversary, and is not mistaken for it. -/
theorem analyze_rename_handover :
    Function.Injective (Equiv.swap "B" "Adversary") ∧
      handover.Addressed .default ∧
      ∃ before after, handover.analyze .default = .ok before ∧
        (handover.rename (Equiv.swap "B" "Adversary")).analyze .default =
          .ok after ∧
        List.Forall₂ (Knowledge.Renames (Equiv.swap "B" "Adversary"))
          before.knowledge after.knowledge ∧
        List.Forall₂ (Verdict.Renames (Equiv.swap "B" "Adversary"))
          before.verdicts after.verdicts :=
  have injective := (Equiv.swap "B" "Adversary").injective
  have addressed := addressed_of_scope scope_handover .default
  ⟨injective, addressed, analyze_rename injective addressed⟩

end Protocol

end Secrecy
