import Secrecy.Grammar.Expression

/-!
# Reading protocols

    protocol  ::= roles key* message* assertion*
    roles     ::= "roles" ":" name ("," name)*
    key       ::= "shared" name "for" name ("," name)*
                | ("public" | "private") name "for" name
    message   ::= name "->" name ":" (name "=")? expression
    assertion ::= "assert" "secret" "(" name ")" ("for" name ("," name)*)?
-/

namespace Secrecy.Grammar

def roleSet : Reader RoleSet := do
  let head ← keyword .roles
  let _ ← operator .colon
  let members ← identifierList .roleName
  return ⟨members, head.line⟩

def keyKind? : Token.Kind → Option KeyKind
  | .keyword .sharedKey => some .sharedKey
  | .keyword .publicKey => some .publicKey
  | .keyword .privateKey => some .privateKey
  | _ => none

def owners : KeyKind → Reader (List Identifier)
  | .sharedKey => identifierList .ownerRole
  | .publicKey | .privateKey => return [← identifier .ownerRole]

def keyDecl (kind : KeyKind) : Reader KeyDecl := do
  let head ← advance
  let name ← identifier .keyName
  let _ ← keyword .forWhom
  let owners ← owners kind
  return ⟨kind, name, owners, head.line⟩

def message : Reader Message := do
  let sender ← identifier .sender
  let _ ← operator .arrow
  let receiver ← identifier .receiver
  let _ ← operator .colon
  let body ← body
  return ⟨sender, receiver, body, sender.line⟩

def permitted : Reader (Option (List Identifier)) := do
  if (← peek).kind = .keyword .forWhom then
    let _ ← advance
    return some (← identifierList .roleName)
  else return none

def assertion : Reader Assertion := do
  let head ← advance
  let _ ← keyword .secret
  let _ ← operator .leftParen
  let term ← identifier .secretTerm
  let _ ← operator .rightParen
  let permitted ← permitted
  return ⟨term, permitted, head.line⟩

/-- What could have stood here instead of the end. -/
def openEnd (messages : List Message) (assertions : List Assertion) :
    Expected :=
  if !assertions.isEmpty then .assertionOrEnd
  else if !messages.isEmpty then .messageOrLater
  else .keyOrLater

def protocol : Reader Protocol := do
  let roles ← roleSet
  let keys ← many fun token => (keyKind? token.kind).map keyDecl
  let messages ← many (onKind .name message)
  let assertions ← many (onKind (.keyword .assertion) assertion)
  let _ ← expect .stop (openEnd messages assertions)
  return ⟨roles, keys, messages, assertions⟩

end Grammar

open Grammar

def Protocol.read (cursor : Cursor) : Except GrammarFault Protocol :=
  (protocol cursor).map Prod.fst

def Protocol.ofText (text : String) : Except GrammarFault Protocol :=
  read (.ofText text)

/-- Refuses a token list that is not closed by an end of input. -/
def Protocol.ofTokens? (tokens : List Token) :
    Option (Except GrammarFault Protocol) :=
  (Cursor.ofTokens? tokens).map read

end Secrecy
