/-! # Decoding bytes

A decoder goes through bytes and turns them into characters, one unit at a time: a character, or
`none` for a longest piece that starts a character and cannot be continued, or for a byte that
starts none. Between two bytes it either stands at the start of a unit or owes some bytes, the
next of which has to lie in a known range.
-/
namespace ScriptAudit.Utf8

/-- A character that has been started: the number of bytes owed, the range of the next one, and
the bits read so far. -/
structure Pending where
  owed : Nat
  low : Nat
  high : Nat
  bits : Nat
  deriving DecidableEq, Repr

/-- What the first byte of a character of several bytes leaves to be read. -/
def Pending.ofLead? (b : Nat) : Option Pending :=
  if 0xC2 ≤ b ∧ b ≤ 0xDF then some ⟨1, 0x80, 0xBF, b - 0xC0⟩
  else if b = 0xE0 then some ⟨2, 0xA0, 0xBF, 0⟩
  else if b = 0xED then some ⟨2, 0x80, 0x9F, 0xD⟩
  else if 0xE1 ≤ b ∧ b ≤ 0xEF then some ⟨2, 0x80, 0xBF, b - 0xE0⟩
  else if b = 0xF0 then some ⟨3, 0x90, 0xBF, 0⟩
  else if 0xF1 ≤ b ∧ b ≤ 0xF3 then some ⟨3, 0x80, 0xBF, b - 0xF0⟩
  else if b = 0xF4 then some ⟨3, 0x80, 0x8F, 4⟩
  else none

/-- The units decoded so far, the last one first, and the character that has been started. -/
structure Decoder where
  pending : Option Pending
  units : List (Option Char)
  deriving DecidableEq, Repr

namespace Decoder

def lead (units : List (Option Char)) (b : Nat) : Decoder :=
  if b < 0x80 then ⟨none, some (Char.ofNat b) :: units⟩
  else match Pending.ofLead? b with
    | some p => ⟨some p, units⟩
    | none => ⟨none, none :: units⟩

def step (d : Decoder) (byte : UInt8) : Decoder :=
  let b := byte.toNat
  match d.pending with
  | none => lead d.units b
  | some p =>
    if p.low ≤ b ∧ b ≤ p.high then
      let bits := 64 * p.bits + (b - 0x80)
      if p.owed = 1 then ⟨none, some (Char.ofNat bits) :: d.units⟩
      else ⟨some ⟨p.owed - 1, 0x80, 0xBF, bits⟩, d.units⟩
    else lead (none :: d.units) b

/-- All units in order; bytes that are still owed leave an incomplete one. -/
def finish (d : Decoder) : List (Option Char) :=
  (match d.pending with
  | none => d.units
  | some _ => none :: d.units).reverse

end Decoder

def units (bytes : List UInt8) : List (Option Char) :=
  (bytes.foldl Decoder.step ⟨none, []⟩).finish

/-- The text of the bytes, with U+FFFD for each unit that is no character. -/
def decodeLossy (bytes : List UInt8) : String :=
  String.ofList ((units bytes).map (·.getD '\uFFFD'))

/-- The text of the bytes, if all of them belong to characters. -/
def decode? (bytes : List UInt8) : Option String := ((units bytes).mapM id).map String.ofList

def encode (text : String) : List UInt8 := text.toList.flatMap String.utf8EncodeChar

end ScriptAudit.Utf8
