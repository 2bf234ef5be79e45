import Secrecy.Form
import Secrecy.Protocol

/-!
# Protocols as symbolic forms

One form per declaration, message and assertion, in order.  An unrestricted
assertion has no `for` part, which tells it from one that permits no role.
-/

namespace Secrecy

def Expr.form : Expr → Form
  | .name identifier => .symbol identifier.name
  | .concat left right _ => .headed "concat" [left.form, right.form]
  | .enc key message _ => .headed "enc" [.symbol key.name, message.form]
  | .mac key message _ => .headed "mac" [.symbol key.name, message.form]
  | .hash inner _ => .headed "hash" [inner.form]
  | .sign key message _ => .headed "sign" [.symbol key.name, message.form]
  | .verify key message signature _ =>
      .headed "verify" [.symbol key.name, message.form, signature.form]
  | .assign target value _ => .headed "=" [.symbol target.name, value.form]

def forForm (names : List String) : Form := .headed "for" (Form.symbols names)

def KeyDecl.form (key : KeyDecl) : Form :=
  .headed key.kind.keyword [.symbol key.name.name, forForm key.ownerNames]

def Message.form (message : Message) : Form :=
  .headed "send"
    [.symbol message.sender.name, .symbol message.receiver.name,
      message.body.form]

def Assertion.form (assertion : Assertion) : Form :=
  .headed "secret" (.symbol assertion.term.name ::
    (assertion.permittedNames.map forForm).toList)

def Protocol.form (protocol : Protocol) : Form :=
  .headed "protocol" (.headed "roles" (Form.symbols protocol.roleNames) ::
    (protocol.keys.map KeyDecl.form ++ protocol.messages.map Message.form ++
      protocol.assertions.map Assertion.form))

end Secrecy
