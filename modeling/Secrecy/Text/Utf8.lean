import Secrecy.Text.Hex

/-!
# Decoding UTF-8

A character is a lead octet followed by the tails it calls for.  The lead also
fixes the range of the first tail, which keeps out overlong forms, surrogates
and codes past the end of the code space.  Decoding stops at the first fault
and says which octets are to blame.
-/

namespace Secrecy.Text.Utf8

inductive Defect where
  | badLead
  | badTail
  | cutShort
  deriving DecidableEq, Repr

/-- The octets from `start` up to, not including, `stop` cannot be read. -/
structure Fault where
  defect : Defect
  start : Nat
  stop : Nat
  octet : UInt8
  deriving DecidableEq, Repr

/-- A character some of whose tails are still to come. -/
structure Pending where
  start : Nat
  lead : UInt8
  owed : Nat
  low : Nat
  high : Nat
  code : Nat
  deriving DecidableEq, Repr

def pending? (position : Nat) (lead : UInt8) : Option Pending :=
  let b := lead.toNat
  if b < 0xC2 then none
  else if b < 0xE0 then some ⟨position, lead, 1, 0x80, 0xBF, b - 0xC0⟩
  else if b = 0xE0 then some ⟨position, lead, 2, 0xA0, 0xBF, 0⟩
  else if b = 0xED then some ⟨position, lead, 2, 0x80, 0x9F, 0xD⟩
  else if b < 0xF0 then some ⟨position, lead, 2, 0x80, 0xBF, b - 0xE0⟩
  else if b = 0xF0 then some ⟨position, lead, 3, 0x90, 0xBF, 0⟩
  else if b < 0xF4 then some ⟨position, lead, 3, 0x80, 0xBF, b - 0xF0⟩
  else if b = 0xF4 then some ⟨position, lead, 3, 0x80, 0x8F, 4⟩
  else none

def decodeFrom (out : List Char) (position : Nat) :
    Option Pending → List UInt8 → Except Fault (List Char)
  | none, [] => .ok out.reverse
  | some p, [] => .error ⟨.cutShort, p.start, position, p.lead⟩
  | none, octet :: rest =>
      if octet < 0x80 then
        decodeFrom (Char.ofNat octet.toNat :: out) (position + 1) none rest
      else
        match pending? position octet with
        | none => .error ⟨.badLead, position, position + 1, octet⟩
        | some p => decodeFrom out (position + 1) (some p) rest
  | some p, octet :: rest =>
      if p.low ≤ octet.toNat ∧ octet.toNat ≤ p.high then
        let code := p.code * 64 + (octet.toNat - 0x80)
        if p.owed ≤ 1 then
          decodeFrom (Char.ofNat code :: out) (position + 1) none rest
        else
          decodeFrom out (position + 1)
            (some ⟨p.start, p.lead, p.owed - 1, 0x80, 0xBF, code⟩) rest
      else .error ⟨.badTail, p.start, position, p.lead⟩

def decode? (octets : List UInt8) : Except Fault String :=
  (decodeFrom [] 0 none octets).map String.ofList

def Defect.reason : Defect → String
  | .badLead => "invalid start byte"
  | .badTail => "invalid continuation byte"
  | .cutShort => "unexpected end of data"

def Fault.message (fault : Fault) : String :=
  let place :=
    if fault.stop = fault.start + 1 then
      "byte 0x" ++ String.ofList (hexDigits 2 fault.octet.toNat) ++
        " in position " ++ toString fault.start
    else
      "bytes in position " ++ toString fault.start ++ "-" ++
        toString (fault.stop - 1)
  "'utf-8' codec can't decode " ++ place ++ ": " ++ fault.defect.reason

end Secrecy.Text.Utf8
