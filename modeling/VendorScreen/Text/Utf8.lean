namespace VendorScreen.Text.Utf8

/-!
# Reading UTF-8 with replacement

A name in an archive may hold any bytes. Well-formed sequences are read as the characters they
encode; a sequence that breaks off is replaced by one U+FFFD, and reading resumes at the byte that
broke it.
-/

/-- A sequence under way: the continuation bytes still missing, the bounds of the next one, and the
bits read so far. -/
structure Pending where
  missing : Nat
  low : Nat
  high : Nat
  value : Nat
deriving DecidableEq, Repr

def replacement : Char := '\ufffd'

/-- Reads a byte that begins a sequence. The bounds of the second byte exclude overlong forms,
surrogates and values past U+10FFFF. -/
def begin (byte : Nat) : List Char × Option Pending :=
  if byte < 0x80 then ([Char.ofNat byte], none)
  else if 0xc2 ≤ byte ∧ byte ≤ 0xdf then ([], some ⟨1, 0x80, 0xbf, byte - 0xc0⟩)
  else if 0xe0 ≤ byte ∧ byte ≤ 0xef then
    let low := if byte = 0xe0 then 0xa0 else 0x80
    ([], some ⟨2, low, if byte = 0xed then 0x9f else 0xbf, byte - 0xe0⟩)
  else if 0xf0 ≤ byte ∧ byte ≤ 0xf4 then
    let low := if byte = 0xf0 then 0x90 else 0x80
    ([], some ⟨3, low, if byte = 0xf4 then 0x8f else 0xbf, byte - 0xf0⟩)
  else ([replacement], none)

/-- The characters completed by one more byte, and the sequence it leaves under way. -/
def step (byte : Nat) : Option Pending → List Char × Option Pending
  | none => begin byte
  | some p =>
      if p.low ≤ byte ∧ byte ≤ p.high then
        let value := p.value * 64 + (byte - 0x80)
        if p.missing ≤ 1 then ([Char.ofNat value], none)
        else ([], some ⟨p.missing - 1, 0x80, 0xbf, value⟩)
      else
        let (chars, next) := begin byte
        (replacement :: chars, next)

def decodeFrom : Option Pending → List UInt8 → List Char
  | none, [] => []
  | some _, [] => [replacement]
  | state, byte :: rest =>
      (step byte.toNat state).1 ++ decodeFrom (step byte.toNat state).2 rest

/-- The text of the bytes, with U+FFFD for whatever is not UTF-8. -/
def decodeLossy (b : ByteArray) : String :=
  String.ofList (decodeFrom none b.data.toList)

end VendorScreen.Text.Utf8
