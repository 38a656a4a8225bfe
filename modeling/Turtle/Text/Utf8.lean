/-! Strict UTF-8. Decoding stops at the first octets that no encoded character holds
and says where they are: an octet that starts no character, the longest part of a
character that the next octet does not continue, or a character cut off by the end of
the text. -/

namespace Turtle.Text.Utf8

/-- What is wrong with the octets at a fault. -/
inductive Reason where
  | invalidStart
  | invalidContinuation
  | unexpectedEnd
  deriving DecidableEq, Repr

/-- The first fault of an encoded text: where it begins, its octets, and why they are
refused. -/
structure Fault where
  start : Nat
  octets : List UInt8
  reason : Reason
  deriving DecidableEq, Repr

/-- What a first octet announces: the least and greatest second octet, how many octets
follow it, and the bits it gives to the code point. -/
structure Lead where
  low : Nat
  high : Nat
  tail : Nat
  bits : Nat
  deriving DecidableEq, Repr

/-- The reading of a first octet; the bounds on the second exclude long forms,
surrogates and code points past the last. -/
def Lead.of? (octet : UInt8) : Option Lead :=
  let b := octet.toNat
  if b < 0x80 then some ⟨0x80, 0xBF, 0, b⟩
  else if b < 0xC2 then none
  else if b < 0xE0 then some ⟨0x80, 0xBF, 1, b - 0xC0⟩
  else if b < 0xF0 then
    some ⟨if b = 0xE0 then 0xA0 else 0x80, if b = 0xED then 0x9F else 0xBF, 2, b - 0xE0⟩
  else if b < 0xF5 then
    some ⟨if b = 0xF0 then 0x90 else 0x80, if b = 0xF4 then 0x8F else 0xBF, 3, b - 0xF0⟩
  else none

/-- Reads the `need` octets that complete a character whose octets so far are `seen`, the
newest first. The bounds hold for the next octet, and the usual ones for those after it. -/
def continuation (seen : List UInt8) (low high : Nat) (need bits : Nat) :
    List UInt8 → Except (List UInt8 × Reason) Nat
  | [] => if need = 0 then .ok bits else .error (seen.reverse, .unexpectedEnd)
  | octet :: rest =>
    match need with
    | 0 => .ok bits
    | more + 1 =>
      let b := octet.toNat
      if low ≤ b ∧ b ≤ high then
        continuation (octet :: seen) 0x80 0xBF more (bits * 64 + (b - 0x80)) rest
      else .error (seen.reverse, .invalidContinuation)

/-- Decodes from a position; `skip` counts octets that the character before has used. -/
def decodeFrom (start skip : Nat) : List UInt8 → Except Fault (List Char)
  | [] => .ok []
  | octet :: rest =>
    match skip with
    | more + 1 => decodeFrom (start + 1) more rest
    | 0 =>
      match Lead.of? octet with
      | none => .error ⟨start, [octet], .invalidStart⟩
      | some lead =>
        match continuation [octet] lead.low lead.high lead.tail lead.bits rest with
        | .error (octets, reason) => .error ⟨start, octets, reason⟩
        | .ok code => do
          let more ← decodeFrom (start + 1) lead.tail rest
          return Char.ofNat code :: more

/-- The text that octets encode. -/
def decode (octets : List UInt8) : Except Fault (List Char) := decodeFrom 0 0 octets

/-- The octets that encode a text. -/
def encode (text : String) : List UInt8 := text.toUTF8.toList

def Reason.text : Reason → String
  | .invalidStart => "invalid start byte"
  | .invalidContinuation => "invalid continuation byte"
  | .unexpectedEnd => "unexpected end of data"

@[simp] theorem decode_nil : decode [] = .ok [] := rfl

end Turtle.Text.Utf8
