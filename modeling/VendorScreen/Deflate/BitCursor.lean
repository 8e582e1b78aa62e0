namespace VendorScreen.Deflate

/-!
# A cursor over bits

Compressed data is a sequence of bits, the lowest bit of each byte first. `remaining` counts what
is left and falls with every bit taken, which is why the decoding loops end.
-/

structure BitCursor where
  data : ByteArray
  position : Nat

namespace BitCursor

def remaining (c : BitCursor) : Nat := 8 * c.data.size - c.position

def next? (c : BitCursor) : Option (Bool × BitCursor) :=
  match c.data[c.position / 8]? with
  | none => none
  | some byte => some (byte.toNat.testBit (c.position % 8), { c with position := c.position + 1 })

/-- The number in the next `count` bits, the lowest bit first. -/
def bits? (c : BitCursor) : Nat → Option (Nat × BitCursor)
  | 0 => some (0, c)
  | count + 1 => do
      let (bit, c) ← c.next?
      let (high, c) ← c.bits? count
      return (bit.toNat + 2 * high, c)

/-- The cursor moved to the next byte boundary. -/
def align (c : BitCursor) : BitCursor := { c with position := (c.position + 7) / 8 * 8 }

/-- Moves over whole bytes. -/
def skipBytes (c : BitCursor) (count : Nat) : BitCursor :=
  { c with position := c.position + 8 * count }

theorem remaining_lt_of_next? {c c' : BitCursor} {bit : Bool} (h : c.next? = some (bit, c')) :
    c'.remaining < c.remaining := by
  unfold next? at h
  split at h
  · simp at h
  · next byte hbyte =>
      have hlt : c.position / 8 < c.data.size := by
        by_cases hlt : c.position / 8 < c.data.size
        · exact hlt
        · simp [getElem?_neg, hlt] at hbyte
      obtain ⟨-, rfl⟩ := Prod.mk.inj (Option.some.inj h)
      simp only [remaining]
      omega

theorem remaining_le_of_bits? {c c' : BitCursor} {count n : Nat}
    (h : c.bits? count = some (n, c')) : c'.remaining ≤ c.remaining := by
  induction count generalizing c n with
  | zero =>
      simp only [bits?, Option.some.injEq, Prod.mk.injEq] at h
      exact h.2 ▸ Nat.le_refl _
  | succ count ih =>
      simp only [bits?, Option.bind_eq_bind, Option.bind_eq_some_iff] at h
      obtain ⟨⟨bit, c₁⟩, h₁, ⟨high, c₂⟩, h₂, h₃⟩ := h
      simp only [Option.pure_def, Option.some.injEq, Prod.mk.injEq] at h₃
      obtain ⟨-, rfl⟩ := h₃
      exact Nat.le_trans (ih h₂) (Nat.le_of_lt (remaining_lt_of_next? h₁))

theorem remaining_lt_of_bits? {c c' : BitCursor} {count n : Nat}
    (h : c.bits? (count + 1) = some (n, c')) : c'.remaining < c.remaining := by
  simp only [bits?, Option.bind_eq_bind, Option.bind_eq_some_iff] at h
  obtain ⟨⟨bit, c₁⟩, h₁, ⟨high, c₂⟩, h₂, h₃⟩ := h
  simp only [Option.pure_def, Option.some.injEq, Prod.mk.injEq] at h₃
  obtain ⟨-, rfl⟩ := h₃
  exact Nat.lt_of_le_of_lt (remaining_le_of_bits? h₂) (remaining_lt_of_next? h₁)

theorem remaining_align_le (c : BitCursor) : c.align.remaining ≤ c.remaining := by
  simp only [align, remaining]
  omega

theorem remaining_skipBytes_le (c : BitCursor) (count : Nat) :
    (c.skipBytes count).remaining ≤ c.remaining := by
  simp only [skipBytes, remaining]
  omega

end BitCursor

end VendorScreen.Deflate
