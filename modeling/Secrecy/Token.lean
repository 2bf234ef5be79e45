import Secrecy.Text.Quoted

/-!
# Tokens of the protocol notation

A token is a keyword, an operator, a name or the end of the input, with the
text it was read from and the line it stands on.  Token lists may also come
from elsewhere, so neither the text nor the line is tied to the kind.
-/

namespace Secrecy

/-- The words that are not free for use as names. -/
inductive Keyword where
  | roles
  | sharedKey
  | publicKey
  | privateKey
  | forWhom
  | assertion
  | secret
  | enc
  | mac
  | sign
  | verify
  | hash
  deriving DecidableEq, Repr

namespace Keyword

def all : List Keyword :=
  [.roles, .sharedKey, .publicKey, .privateKey, .forWhom, .assertion, .secret,
    .enc, .mac, .sign, .verify, .hash]

def text : Keyword → String
  | .roles => "roles"
  | .sharedKey => "shared"
  | .publicKey => "public"
  | .privateKey => "private"
  | .forWhom => "for"
  | .assertion => "assert"
  | .secret => "secret"
  | .enc => "Enc"
  | .mac => "Mac"
  | .sign => "Sign"
  | .verify => "Verify"
  | .hash => "H"

def ofText? (text : String) : Option Keyword :=
  all.find? (fun keyword => keyword.text = text)

def tag : Keyword → String
  | .roles => "ROLES"
  | .sharedKey => "SHARED"
  | .publicKey => "PUBLIC"
  | .privateKey => "PRIVATE"
  | .forWhom => "FOR"
  | .assertion => "ASSERT"
  | .secret => "SECRET"
  | .enc => "ENC"
  | .mac => "MAC"
  | .sign => "SIGN"
  | .verify => "VERIFY"
  | .hash => "HASH"

end Keyword

inductive Operator where
  | arrow
  | bars
  | colon
  | comma
  | equals
  | leftParen
  | rightParen
  deriving DecidableEq, Repr

namespace Operator

def all : List Operator :=
  [.arrow, .bars, .colon, .comma, .equals, .leftParen, .rightParen]

def text : Operator → String
  | .arrow => "->"
  | .bars => "||"
  | .colon => ":"
  | .comma => ","
  | .equals => "="
  | .leftParen => "("
  | .rightParen => ")"

def tag : Operator → String
  | .arrow => "ARROW"
  | .bars => "CONCAT"
  | .colon => "COLON"
  | .comma => "COMMA"
  | .equals => "EQUAL"
  | .leftParen => "LPAREN"
  | .rightParen => "RPAREN"

end Operator

namespace Token

inductive Kind where
  | keyword (word : Keyword)
  | operator (symbol : Operator)
  | name
  | stop
  deriving DecidableEq, Repr

namespace Kind

def all : List Kind :=
  Keyword.all.map .keyword ++ Operator.all.map .operator ++ [.name, .stop]

def tag : Kind → String
  | .keyword word => word.tag
  | .operator symbol => symbol.tag
  | .name => "IDENT"
  | .stop => "EOF"

def ofTag? (tag : String) : Option Kind := all.find? (fun kind => kind.tag = tag)

end Kind

end Token

structure Token where
  kind : Token.Kind
  text : String
  line : Int
  deriving DecidableEq, Repr

namespace Token

def describe (token : Token) : String :=
  if token.kind = .stop then "end of input" else "'" ++ token.text ++ "'"

def inFull (token : Token) : String :=
  "Token(" ++ token.kind.tag ++ ", " ++ Text.quoted token.text ++ ", line " ++
    toString token.line ++ ")"

end Token

end Secrecy
