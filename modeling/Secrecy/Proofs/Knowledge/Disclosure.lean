import Secrecy.Knowledge.Report

/-!
# What messages disclose to whom

The relations of this file speak about the messages of a protocol alone; no
ledger, pass or order of messages occurs in them.  A principal authors every
name of the bodies it sends.  It is shown the visible names of the bodies that
it receives, and it holds the sealed terms of both.  The adversary sends
nothing and receives every message.
-/

namespace Secrecy

/-! ## Bodies -/

namespace Expr

/-- A body shows a bare name, and the target of an assignment. -/
inductive Shows : Expr → String → Prop
  | name (identifier : Identifier) : Shows (.name identifier) identifier.name
  | target (target : Identifier) (value : Expr) (line : Int) :
      Shows (.assign target value line) target.name
  | value {value : Expr} {name : String} (target : Identifier) (line : Int)
      (shown : Shows value name) : Shows (.assign target value line) name

/-- What is left of a body when its assignment targets are taken off. -/
def payload : Expr → Expr
  | .assign _ value _ => value.payload
  | body => body

/-- A payload that is not a bare name is one sealed term. -/
inductive SealsWhole : Expr → SealedTerm → Prop
  | concat (left right : Expr) (line : Int) :
      SealsWhole (.concat left right line)
        ⟨.concat, none, [left.label, right.label],
          [left.isName, right.isName]⟩
  | enc (key : Identifier) (message : Expr) (line : Int) :
      SealsWhole (.enc key message line)
        ⟨.enc, some key.name, [message.label], [message.isName]⟩
  | mac (key : Identifier) (message : Expr) (line : Int) :
      SealsWhole (.mac key message line)
        ⟨.mac, some key.name, [message.label], [message.isName]⟩
  | hash (inner : Expr) (line : Int) :
      SealsWhole (.hash inner line)
        ⟨.hash, none, [inner.label], [inner.isName]⟩
  | sign (key : Identifier) (message : Expr) (line : Int) :
      SealsWhole (.sign key message line)
        ⟨.sign, some key.name, [message.label], [message.isName]⟩
  | verify (key : Identifier) (message signature : Expr) (line : Int) :
      SealsWhole (.verify key message signature line)
        ⟨.verify, some key.name, [message.label, signature.label],
          [message.isName, signature.isName]⟩

def Seals (body : Expr) (term : SealedTerm) : Prop :=
  SealsWhole body.payload term

theorem sealsWhole_enc_bare_iff {whole : Expr} {key plain : String} :
    whole.SealsWhole ⟨.enc, some key, [plain], [true]⟩ ↔
      ∃ (keyId plainId : Identifier) (line : Int),
        whole = .enc keyId (.name plainId) line ∧
          keyId.name = key ∧ plainId.name = plain := by
  constructor
  · intro h
    generalize same :
      (⟨.enc, some key, [plain], [true]⟩ : SealedTerm) = term at h
    cases h with
    | enc keyId message line =>
        simp only [SealedTerm.mk.injEq, Option.some.injEq, List.cons.injEq,
          and_true, true_and] at same
        obtain ⟨rfl, rfl, bare⟩ := same
        cases message with
        | name plainId => exact ⟨keyId, plainId, line, rfl, rfl, rfl⟩
        | _ => cases bare
    | _ => cases same
  · rintro ⟨keyId, plainId, line, rfl, rfl, rfl⟩
    exact .enc keyId (.name plainId) line

theorem mem_observed_names {body : Expr} {name : String} :
    name ∈ body.observed.names ↔ body.Shows name := by
  induction body with
  | name identifier =>
      simp only [observed, Observation.ofName, List.mem_singleton]
      constructor
      · rintro rfl
        exact .name identifier
      · rintro ⟨⟩
        rfl
  | assign target value line ih =>
      simp only [observed, Observation.withName, List.mem_cons, ih]
      constructor
      · rintro (rfl | shown)
        · exact .target target value line
        · exact .value target line shown
      · intro h
        cases h with
        | target => exact .inl rfl
        | value _ _ shown => exact .inr shown
  | concat | enc | mac | hash | sign | verify =>
      constructor
      · intro h
        cases h
      · intro h
        cases h

theorem mem_observed_sealedTerms {body : Expr} {term : SealedTerm} :
    term ∈ body.observed.sealedTerms ↔ body.Seals term := by
  induction body with
  | name identifier =>
      constructor
      · intro h
        cases h
      · intro h
        cases h
  | assign target value line ih => exact ih
  | concat | enc | mac | hash | sign | verify =>
      simp only [observed, Observation.ofSealed, List.mem_singleton]
      constructor
      · rintro rfl
        constructor
      · rintro ⟨⟩
        rfl

theorem mem_occurrences_of_shows {body : Expr} {name : String}
    (shown : body.Shows name) : name ∈ body.occurrences := by
  induction shown with
  | name identifier => exact List.mem_singleton_self _
  | target target value line => exact List.mem_cons_self
  | value target line _ ih => exact List.mem_cons_of_mem _ ih

theorem label_eq_ok_of_seals {body : Expr} {term : SealedTerm}
    (h : body.Seals term) : term.label = .ok term.shown := by
  unfold Seals at h
  generalize body.payload = whole at h
  cases h <;> rfl

end Expr

/-! ## Messages -/

namespace Message

def SentBy (message : Message) (principal : Principal) : Prop :=
  principal = .role message.sender.name

def ReceivedBy (message : Message) : Principal → Prop
  | .role name => message.receiver.name = name
  | .adversary => True

end Message

/-! ## Protocols -/

def KeyDecl.GivenTo (key : KeyDecl) (principal : Principal) : Prop :=
  key.kind = .publicKey ∨ ∃ owner ∈ key.ownerNames, principal = .role owner

namespace Protocol

variable (protocol : Protocol) (config : Config) (principal : Principal)

def Authored (name : String) : Prop :=
  ∃ message ∈ protocol.messages,
    message.SentBy principal ∧ name ∈ message.body.occurrences

def Shown (name : String) : Prop :=
  ∃ message ∈ protocol.messages,
    message.ReceivedBy principal ∧ message.body.Shows name

def Seeded (name : String) : Prop :=
  config.seedKeyOwners = true ∧
    ∃ key ∈ protocol.keys, key.GivenTo principal ∧ key.name.name = name

def Sealed (term : SealedTerm) : Prop :=
  ∃ message ∈ protocol.messages,
    (message.SentBy principal ∨ message.ReceivedBy principal) ∧
      message.body.Seals term

def Told (name : String) : Prop :=
  protocol.Shown principal name ∨ protocol.Seeded config principal name

/--
What a principal can come to know: all that it authored or was told, and the
bare plaintext of any encryption it holds under a key that it can come to know.
-/
inductive Known : String → Prop
  | authored {name : String} (h : protocol.Authored principal name) :
      Known name
  | told {name : String} (h : protocol.Told config principal name) : Known name
  | opened {key plain : String}
      (held : protocol.Sealed principal ⟨.enc, some key, [plain], [true]⟩)
      (known : Known key) : Known plain

/--
Whoever holds the encryptions that another holds, and can come to know all that
the other starts from, can come to know all that the other can.
-/
theorem Known.cut {other : Protocol} {otherwise : Config} {peer : Principal}
    {protocol : Protocol} {config : Config} {principal : Principal}
    (authored : ∀ name, protocol.Authored principal name →
      other.Known otherwise peer name)
    (told : ∀ name, protocol.Told config principal name →
      other.Known otherwise peer name)
    (held : ∀ term, protocol.Sealed principal term → other.Sealed peer term)
    {name : String} (known : protocol.Known config principal name) :
    other.Known otherwise peer name := by
  induction known with
  | authored h => exact authored _ h
  | told h => exact told _ h
  | opened sealedPlain _ ih => exact .opened (held _ sealedPlain) ih

end Protocol

end Secrecy
