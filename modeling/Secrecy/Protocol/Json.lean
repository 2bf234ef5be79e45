import Secrecy.Json
import Secrecy.Protocol.Label

/-!
# Protocols as JSON documents
-/

namespace Secrecy

def Expr.json : Expr → Json
  | .name identifier =>
      .obj [("type", .str "identifier"), ("name", .str identifier.name)]
  | .concat left right _ =>
      .obj [("type", .str "concat"), ("left", left.json),
        ("right", right.json)]
  | .enc key message _ =>
      .obj [("type", .str "enc"), ("key", .str key.name),
        ("message", message.json)]
  | .mac key message _ =>
      .obj [("type", .str "mac"), ("key", .str key.name),
        ("message", message.json)]
  | .hash inner _ => .obj [("type", .str "hash"), ("inner", inner.json)]
  | .sign key message _ =>
      .obj [("type", .str "sign"), ("key", .str key.name),
        ("message", message.json)]
  | .verify key message signature _ =>
      .obj [("type", .str "verify"), ("key", .str key.name),
        ("message", message.json), ("signature", signature.json)]
  | .assign target value _ =>
      .obj [("type", .str "assign"), ("target", .str target.name),
        ("value", value.json)]

def KeyDecl.json (key : KeyDecl) : Json :=
  .obj [("kind", .str key.kind.keyword), ("name", .str key.name.name),
    ("owners", .strings key.ownerNames), ("line", .int key.line)]

def Message.json (message : Message) : Json :=
  .obj [("sender", .str message.sender.name),
    ("receiver", .str message.receiver.name), ("body", message.body.json),
    ("label", .str message.body.label), ("line", .int message.line)]

def Assertion.json (assertion : Assertion) : Json :=
  .obj [("term", .str assertion.term.name),
    ("for", .ofOption .strings assertion.permittedNames),
    ("line", .int assertion.line)]

def Protocol.json (protocol : Protocol) : Json :=
  .obj [("roles", .strings protocol.roleNames),
    ("keys", .arr (protocol.keys.map KeyDecl.json)),
    ("messages", .arr (protocol.messages.map Message.json)),
    ("assertions", .arr (protocol.assertions.map Assertion.json))]

end Secrecy
