import VendorScreen.Proofs.ByteRuns
import VendorScreen.Proofs.Text.Utf16
import VendorScreen.Text.Utf8

namespace VendorScreen.Text.Utf8

/-!
# Reading back UTF-8

The bytes of a character are one lead byte and the continuation bytes it announces, the second of
them within the bounds that exclude overlong forms and surrogates. So a text that is encoded is read
without any replacement.
-/

/-- The bytes that encode the text. -/
def encode (text : String) : List UInt8 := text.toUTF8.data.toList

@[simp] theorem length_encode (text : String) : (encode text).length = text.utf8ByteSize := by
  rw [encode, Array.length_toList]
  rfl

theorem encode_eq_flatMap (text : String) :
    encode text = text.toList.flatMap String.utf8EncodeChar := by
  have hbytes : text.toUTF8 = text.toList.utf8Encode := String.utf8Encode_toList.symm
  rw [encode, hbytes, List.utf8Encode, List.data_toByteArray]

section characters

variable {lead byte : UInt8} {rest : List UInt8}

theorem decodeFrom_cons (state : Option Pending) (byte : UInt8) (rest : List UInt8) :
    decodeFrom state (byte :: rest) =
      (step byte.toNat state).1 ++ decodeFrom (step byte.toNat state).2 rest := by
  cases state <;> rfl

/-- The last byte of a sequence completes its character. -/
theorem decodeFrom_last {p : Pending} {low : ℕ} (hmissing : p.missing = 1)
    (hbyte : byte.toNat = 0x80 + low) (hlower : p.low ≤ 0x80 + low) (hupper : 0x80 + low ≤ p.high) :
    decodeFrom (some p) (byte :: rest) =
      Char.ofNat (p.value * 64 + low) :: decodeFrom none rest := by
  have hbits : byte.toNat - 0x80 = low := by omega
  simp [decodeFrom_cons, step, hbyte, hlower, hupper, hmissing]

theorem decodeFrom_next {p : Pending} {low missing : ℕ} (hmissing : p.missing = missing + 2)
    (hbyte : byte.toNat = 0x80 + low) (hlower : p.low ≤ 0x80 + low) (hupper : 0x80 + low ≤ p.high) :
    decodeFrom (some p) (byte :: rest) =
      decodeFrom (some ⟨missing + 1, 0x80, 0xbf, p.value * 64 + low⟩) rest := by
  simp [decodeFrom_cons, step, hbyte, hlower, hupper, hmissing]

theorem decodeFrom_one (hlead : lead.toNat < 0x80) :
    decodeFrom none (lead :: rest) = Char.ofNat lead.toNat :: decodeFrom none rest := by
  simp [decodeFrom_cons, step, begin, hlead]

theorem decodeFrom_two {high : ℕ} (hlead : lead.toNat = 0xc0 + high) (hlower : 2 ≤ high)
    (hupper : high < 32) :
    decodeFrom none (lead :: rest) = decodeFrom (some ⟨1, 0x80, 0xbf, high⟩) rest := by
  have hone : ¬ lead.toNat < 0x80 := by omega
  have htwo : 0xc2 ≤ lead.toNat ∧ lead.toNat ≤ 0xdf := by omega
  have hbits : lead.toNat - 0xc0 = high := by omega
  simp only [decodeFrom_cons, step, begin, if_neg hone, if_pos htwo, hbits, List.nil_append]

theorem decodeFrom_three {high : ℕ} (hlead : lead.toNat = 0xe0 + high) (hupper : high < 16) :
    decodeFrom none (lead :: rest) =
      decodeFrom (some ⟨2, if high = 0 then 0xa0 else 0x80, if high = 0x0d then 0x9f else 0xbf,
        high⟩) rest := by
  have hone : ¬ lead.toNat < 0x80 := by omega
  have htwo : ¬ (0xc2 ≤ lead.toNat ∧ lead.toNat ≤ 0xdf) := by omega
  have hthree : 0xe0 ≤ lead.toNat ∧ lead.toNat ≤ 0xef := by omega
  have hfirst : lead.toNat = 0xe0 ↔ high = 0 := by omega
  have hlast : lead.toNat = 0xed ↔ high = 0x0d := by omega
  have hbits : lead.toNat - 0xe0 = high := by omega
  simp only [decodeFrom_cons, step, begin, if_neg hone, if_neg htwo, if_pos hthree, hfirst, hlast,
    hbits, List.nil_append]

theorem decodeFrom_four {high : ℕ} (hlead : lead.toNat = 0xf0 + high) (hupper : high < 5) :
    decodeFrom none (lead :: rest) =
      decodeFrom (some ⟨3, if high = 0 then 0x90 else 0x80, if high = 4 then 0x8f else 0xbf,
        high⟩) rest := by
  have hone : ¬ lead.toNat < 0x80 := by omega
  have htwo : ¬ (0xc2 ≤ lead.toNat ∧ lead.toNat ≤ 0xdf) := by omega
  have hthree : ¬ (0xe0 ≤ lead.toNat ∧ lead.toNat ≤ 0xef) := by omega
  have hfour : 0xf0 ≤ lead.toNat ∧ lead.toNat ≤ 0xf4 := by omega
  have hfirst : lead.toNat = 0xf0 ↔ high = 0 := by omega
  have hlast : lead.toNat = 0xf4 ↔ high = 4 := by omega
  have hbits : lead.toNat - 0xf0 = high := by omega
  simp only [decodeFrom_cons, step, begin, if_neg hone, if_neg htwo, if_neg hthree, if_pos hfour,
    hfirst, hlast, hbits, List.nil_append]

theorem decodeFrom_utf8EncodeChar (c : Char) (rest : List UInt8) :
    decodeFrom none (String.utf8EncodeChar c ++ rest) = c :: decodeFrom none rest := by
  have hc := Utf16.toNat_cases c
  have hvalue : c.val.toNat = c.toNat := rfl
  have htail (n : ℕ) : (UInt8.ofNat (n % 64 + 128)).toNat = 0x80 + n % 64 := by
    rw [Bytes.toNat_toUInt8 (by omega), Nat.add_comm]
  unfold String.utf8EncodeChar
  simp only [hvalue]
  split_ifs with hone htwo hthree
  · have hlead : (UInt8.ofNat c.toNat).toNat = c.toNat := Bytes.toNat_toUInt8 (by omega)
    rw [List.singleton_append, decodeFrom_one (by omega), hlead, Char.ofNat_toNat]
  · have hlead : (UInt8.ofNat (c.toNat / 64 % 32 + 192)).toNat = 0xc0 + c.toNat / 64 := by
      rw [Bytes.toNat_toUInt8 (by omega)]
      omega
    rw [List.cons_append, List.singleton_append, decodeFrom_two hlead (by omega) (by omega),
      decodeFrom_last rfl (htail _) (by dsimp only; omega) (by dsimp only; omega),
      Nat.div_add_mod', Char.ofNat_toNat]
  · have hlead : (UInt8.ofNat (c.toNat / 4096 % 16 + 224)).toNat = 0xe0 + c.toNat / 4096 := by
      rw [Bytes.toNat_toUInt8 (by omega)]
      omega
    have hsum : (c.toNat / 4096 * 64 + c.toNat / 64 % 64) * 64 + c.toNat % 64 = c.toNat := by omega
    rw [List.cons_append, List.cons_append, List.singleton_append,
      decodeFrom_three hlead (by omega),
      decodeFrom_next rfl (htail _) (by dsimp only; split_ifs <;> omega)
        (by dsimp only; split_ifs <;> omega),
      decodeFrom_last rfl (htail _) (by dsimp only; omega) (by dsimp only; omega), hsum,
      Char.ofNat_toNat]
  · have hlead : (UInt8.ofNat (c.toNat / 262144 % 8 + 240)).toNat = 0xf0 + c.toNat / 262144 := by
      rw [Bytes.toNat_toUInt8 (by omega)]
      omega
    have hsum : ((c.toNat / 262144 * 64 + c.toNat / 4096 % 64) * 64 + c.toNat / 64 % 64) * 64
        + c.toNat % 64 = c.toNat := by omega
    rw [List.cons_append, List.cons_append, List.cons_append, List.singleton_append,
      decodeFrom_four hlead (by omega),
      decodeFrom_next rfl (htail _) (by dsimp only; split_ifs <;> omega)
        (by dsimp only; split_ifs <;> omega),
      decodeFrom_next rfl (htail _) (by dsimp only; omega) (by dsimp only; omega),
      decodeFrom_last rfl (htail _) (by dsimp only; omega) (by dsimp only; omega), hsum,
      Char.ofNat_toNat]

theorem decodeFrom_encode (text : String) : decodeFrom none (encode text) = text.toList := by
  rw [encode_eq_flatMap]
  induction text.toList with
  | nil => rfl
  | cons c chars ih => rw [List.flatMap_cons, decodeFrom_utf8EncodeChar, ih]

end characters

theorem decodeLossy_encode (text : String) : decodeLossy (encode text).toByteArray = text := by
  rw [decodeLossy, List.data_toByteArray, decodeFrom_encode, String.ofList_toList]

end VendorScreen.Text.Utf8
