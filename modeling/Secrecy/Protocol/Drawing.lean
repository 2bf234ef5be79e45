import Secrecy.Outline
import Secrecy.Protocol.Label

/-!
# Protocols drawn as trees

Each declaration, message and assertion is a child of the protocol.  A message
holds the outline of its body; the other parts are leaves.
-/

namespace Secrecy

def Identifier.outline (identifier : Identifier) : Outline :=
  .node (applied "Id" [identifier.name]) []

def Expr.outline : Expr → Outline
  | .name identifier => identifier.outline
  | .concat left right _ => .node "Concat" [left.outline, right.outline]
  | body@(.enc key message _) | body@(.mac key message _)
  | body@(.sign key message _) =>
      .node body.label [key.outline, message.outline]
  | body@(.hash inner _) => .node body.label [inner.outline]
  | body@(.verify key message signature _) =>
      .node body.label [key.outline, message.outline, signature.outline]
  | .assign target value _ =>
      .node ("Assign(" ++ target.name ++ " = ...)")
        [target.outline, value.outline]

def RoleSet.outline (roles : RoleSet) : Outline :=
  .node ("Roles: [" ++ commaSeparated (namesOf roles.members) ++ "]") []

def KeyDecl.outline (key : KeyDecl) : Outline :=
  .node ("Key(" ++ key.kind.keyword ++ " " ++ key.name.name ++ " for " ++
    commaSeparated key.ownerNames ++ ")") []

def Message.outline (message : Message) : Outline :=
  .node ("MessageSend(" ++ message.sender.name ++ " -> " ++
    message.receiver.name ++ ")") [message.body.outline]

def Assertion.outline (assertion : Assertion) : Outline :=
  .node ("Assert " ++ assertion.label) []

namespace Protocol

def parts (protocol : Protocol) : List Outline :=
  protocol.roles.outline :: (protocol.keys.map KeyDecl.outline ++
    protocol.messages.map Message.outline ++
    protocol.assertions.map Assertion.outline)

def outline (protocol : Protocol) : Outline := .node "Protocol" protocol.parts

end Protocol

end Secrecy
