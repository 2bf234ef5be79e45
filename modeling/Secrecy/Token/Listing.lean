import Secrecy.Token

/-!
# Token listings

One line per token: its line number, its kind and its text, in columns that
widen when they have to.
-/

namespace Secrecy.Token

def spaces (n : Nat) : String := String.ofList (List.replicate n ' ')

def padLeft (width : Nat) (s : String) : String :=
  spaces (width - s.length) ++ s

def padRight (width : Nat) (s : String) : String :=
  s ++ spaces (width - s.length)

def row (token : Token) : String :=
  padLeft 4 (toString token.line) ++ "  " ++ padRight 8 token.kind.tag ++
    " " ++ token.text

def listing (tokens : List Token) : String :=
  String.intercalate "\n" (tokens.map row)

end Secrecy.Token
