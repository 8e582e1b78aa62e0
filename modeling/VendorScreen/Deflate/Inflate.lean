import VendorScreen.Deflate.PrefixCode

namespace VendorScreen.Deflate

/-!
# Inflation

Compressed data is a sequence of blocks, each stored or coded in literals and matches. A match
copies bytes from up to 32768 places back; the window before the first byte is filled with zeros.
`inflate` keeps what it has produced when it meets a fault, because a reader may ask for less.
-/

/-- Output so far, and where reading goes on or why it cannot. -/
structure Stage (α : Type) where
  output : ByteArray
  next : Except Fault α

/-- Base value and number of extra bits of the length symbol `257 + i`. -/
def lengthSteps : List (Nat × Nat) := [
  (3, 0), (4, 0), (5, 0), (6, 0), (7, 0), (8, 0), (9, 0), (10, 0), (11, 1), (13, 1), (15, 1),
  (17, 1), (19, 2), (23, 2), (27, 2), (31, 2), (35, 3), (43, 3), (51, 3), (59, 3), (67, 4),
  (83, 4), (99, 4), (115, 4), (131, 5), (163, 5), (195, 5), (227, 5), (258, 0)]

/-- Base value and number of extra bits of each distance symbol. -/
def distanceSteps : List (Nat × Nat) := [
  (1, 0), (2, 0), (3, 0), (4, 0), (5, 1), (7, 1), (9, 2), (13, 2), (17, 3), (25, 3), (33, 4),
  (49, 4), (65, 5), (97, 5), (129, 6), (193, 6), (257, 7), (385, 7), (513, 8), (769, 8),
  (1025, 9), (1537, 9), (2049, 10), (3073, 10), (4097, 11), (6145, 11), (8193, 12), (12289, 12),
  (16385, 13), (24577, 13)]

/-- The value of a symbol from a table of steps, with its extra bits read at the cursor. -/
def extended (steps : List (Nat × Nat)) (symbol : Nat) (c : BitCursor) :
    Except Fault (Nat × BitCursor) :=
  match steps[symbol]? with
  | none => .error .corrupt
  | some (base, extra) =>
      match c.bits? extra with
      | none => .error .incomplete
      | some (n, rest) => .ok (base + n, rest)

theorem remaining_le_of_extended {steps : List (Nat × Nat)} {symbol value : Nat}
    {c c' : BitCursor} (h : extended steps symbol c = .ok (value, c')) :
    c'.remaining ≤ c.remaining := by
  unfold extended at h
  split at h
  · simp at h
  · split at h
    · simp at h
    · next hbits =>
        simp only [Except.ok.injEq, Prod.mk.injEq] at h
        exact h.2 ▸ BitCursor.remaining_le_of_bits? hbits

/-- The length and distance of the match that the length symbol `257 + i` opens. -/
def matchAt (distances : PrefixCode) (i : Nat) (c : BitCursor) :
    Except Fault (Nat × Nat × BitCursor) := do
  let (length, c) ← extended lengthSteps i c
  let (symbol, c) ← distances.decode c
  let (distance, c) ← extended distanceSteps symbol c
  return (length, distance, c)

theorem remaining_lt_of_matchAt {distances : PrefixCode} {i length distance : Nat}
    {c c' : BitCursor} (h : matchAt distances i c = .ok (length, distance, c')) :
    c'.remaining < c.remaining := by
  unfold matchAt at h
  simp only [bind, Except.bind] at h
  split at h
  · simp at h
  · next h₁ =>
      split at h
      · simp at h
      · next h₂ =>
          split at h
          · simp at h
          · next h₃ =>
              simp only [pure, Except.pure, Except.ok.injEq, Prod.mk.injEq] at h
              obtain ⟨-, -, rfl⟩ := h
              exact Nat.lt_of_le_of_lt (remaining_le_of_extended h₃)
                (Nat.lt_of_lt_of_le (PrefixCode.remaining_lt_of_decode h₂)
                  (remaining_le_of_extended h₁))

/-- The byte `distance` places back in the window. -/
def lookBack (output : ByteArray) (distance : Nat) : UInt8 :=
  if distance ≤ output.size then (output[output.size - distance]?).getD 0 else 0

/-- Repeats `length` bytes from `distance` places back, those just written included. -/
def copyMatch (output : ByteArray) (distance : Nat) : Nat → ByteArray
  | 0 => output
  | length + 1 => copyMatch (output.push (lookBack output distance)) distance length

/-- What a symbol of the literal code says. -/
inductive Instruction where
  | literal (byte : UInt8)
  | endOfBlock
  | copy (lengthIndex : Nat)
deriving DecidableEq, Repr

def Instruction.ofSymbol (symbol : Nat) : Instruction :=
  if symbol < 256 then literal symbol.toUInt8
  else if symbol = 256 then endOfBlock
  else copy (symbol - 257)

/-- Decodes literals and matches up to the end of the block. -/
def symbols (literals distances : PrefixCode) (c : BitCursor) (output : ByteArray) :
    Stage BitCursor :=
  match _hs : literals.decode c with
  | .error fault => ⟨output, .error fault⟩
  | .ok (symbol, rest) =>
      match Instruction.ofSymbol symbol with
      | .literal byte => symbols literals distances rest (output.push byte)
      | .endOfBlock => ⟨output, .ok rest⟩
      | .copy lengthIndex =>
          match _hm : matchAt distances lengthIndex rest with
          | .error fault => ⟨output, .error fault⟩
          | .ok (length, distance, rest') =>
              symbols literals distances rest' (copyMatch output distance length)
termination_by c.remaining
decreasing_by
  · exact PrefixCode.remaining_lt_of_decode _hs
  · exact Nat.lt_trans (remaining_lt_of_matchAt _hm) (PrefixCode.remaining_lt_of_decode _hs)

theorem remaining_le_of_symbols {literals distances : PrefixCode} {c c' : BitCursor}
    {output : ByteArray} (h : (symbols literals distances c output).next = .ok c') :
    c'.remaining ≤ c.remaining := by
  fun_induction symbols literals distances c output with
  | case1 => simp at h
  | case2 c output symbol rest hs byte hbyte ih =>
      exact Nat.le_trans (ih h) (Nat.le_of_lt (PrefixCode.remaining_lt_of_decode hs))
  | case3 c output symbol rest hs hend =>
      simp only [Except.ok.injEq] at h
      exact h ▸ Nat.le_of_lt (PrefixCode.remaining_lt_of_decode hs)
  | case4 => simp at h
  | case5 c output symbol rest hs i hi length distance rest' hm ih =>
      exact Nat.le_trans (ih h) (Nat.le_of_lt (Nat.lt_trans (remaining_lt_of_matchAt hm)
        (PrefixCode.remaining_lt_of_decode hs)))

/-- The code lengths of the literal and length symbols in a block with the fixed codes. -/
def fixedLiteralLengths : List Nat :=
  List.replicate 144 8 ++ List.replicate 112 9 ++ List.replicate 24 7 ++ List.replicate 8 8

def fixedDistanceLengths : List Nat := List.replicate 32 5

def fixedLiterals : PrefixCode := PrefixCode.ofLengths fixedLiteralLengths

def fixedDistances : PrefixCode := PrefixCode.ofLengths fixedDistanceLengths

/-- The order in which a block lists the code lengths of its code length code. -/
def lengthOrder : List Nat := [16, 17, 18, 0, 8, 7, 9, 6, 10, 5, 11, 4, 12, 3, 13, 2, 14, 1, 15]

/-- Reads `count` numbers of three bits. -/
def readTriples (c : BitCursor) : Nat → Except Fault (List Nat × BitCursor)
  | 0 => .ok ([], c)
  | count + 1 =>
      match c.bits? 3 with
      | none => .error .incomplete
      | some (n, c) =>
          match readTriples c count with
          | .error fault => .error fault
          | .ok (ns, c) => .ok (n :: ns, c)

/-- The lengths of the 19 symbols of the code length code, from those listed. -/
def orderedLengths (listed : List Nat) : List Nat :=
  (List.range lengthOrder.length).map fun symbol => listed.getD (lengthOrder.idxOf symbol) 0

/-- A repeat count of `width` bits above `base`. -/
def repeatCount (width base value : Nat) (c : BitCursor) :
    Except Fault (Nat × Nat × BitCursor) :=
  match c.bits? width with
  | none => .error .incomplete
  | some (n, c) => .ok (base + n, value, c)

/-- How often and with what a repeating symbol extends the lengths read so far. -/
def repetition (symbol : Nat) (lengths : Array Nat) (c : BitCursor) :
    Except Fault (Nat × Nat × BitCursor) :=
  if symbol = 16 then
    match lengths.back? with
    | none => .error .corrupt
    | some last => repeatCount 2 3 last c
  else if symbol = 17 then repeatCount 3 3 0 c
  else repeatCount 7 11 0 c

theorem base_le_of_repeatCount {width base value count v : Nat} {c c' : BitCursor}
    (h : repeatCount width base value c = .ok (count, v, c')) :
    base ≤ count ∧ c'.remaining ≤ c.remaining := by
  unfold repeatCount at h
  split at h
  · simp at h
  · next hbits =>
      simp only [Except.ok.injEq, Prod.mk.injEq] at h
      obtain ⟨rfl, -, rfl⟩ := h
      exact ⟨Nat.le_add_right _ _, BitCursor.remaining_le_of_bits? hbits⟩

theorem repetition_bounds {symbol count value : Nat} {lengths : Array Nat} {c c' : BitCursor}
    (h : repetition symbol lengths c = .ok (count, value, c')) :
    0 < count ∧ c'.remaining ≤ c.remaining := by
  unfold repetition at h
  split at h
  · split at h
    · simp at h
    · exact ⟨Nat.lt_of_lt_of_le (by decide) (base_le_of_repeatCount h).1,
        (base_le_of_repeatCount h).2⟩
  · split at h <;>
      exact ⟨Nat.lt_of_lt_of_le (by decide) (base_le_of_repeatCount h).1,
        (base_le_of_repeatCount h).2⟩

/-- Reads code lengths until there are `total` of them. A repetition may not overshoot. -/
def readLengths (code : PrefixCode) (total : Nat) (lengths : Array Nat) (c : BitCursor) :
    Except Fault (List Nat × BitCursor) :=
  if lengths.size < total then
    match code.decode c with
    | .error fault => .error fault
    | .ok (symbol, c) =>
        if symbol < 16 then readLengths code total (lengths.push symbol) c
        else
          match _hr : repetition symbol lengths c with
          | .error fault => .error fault
          | .ok (count, value, c) =>
              readLengths code total (lengths ++ Array.replicate count value) c
  else if lengths.size = total then .ok (lengths.toList, c)
  else .error .corrupt
termination_by total - lengths.size
decreasing_by
  · simp only [Array.size_push]; omega
  · have := (repetition_bounds _hr).1
    simp only [Array.size_append, Array.size_replicate]
    omega

/-- Reads the codes that stand at the head of a block with codes of its own. -/
def readCodes (c : BitCursor) : Except Fault (PrefixCode × PrefixCode × BitCursor) := do
  let some (n, c) := c.bits? 5 | .error .incomplete
  let some (m, c) := c.bits? 5 | .error .incomplete
  let some (k, c) := c.bits? 4 | .error .incomplete
  if 286 < n + 257 ∨ 30 < m + 1 then .error .corrupt
  else
    let (listed, c) ← readTriples c (k + 4)
    let lengthCode ← PrefixCode.ofComplete (orderedLengths listed)
    let (lengths, c) ← readLengths lengthCode (n + 257 + (m + 1)) #[] c
    let distances ← PrefixCode.ofCompleteOrMinimal (lengths.drop (n + 257))
    let literals ← PrefixCode.ofCompleteOrMinimal (lengths.take (n + 257))
    return (literals, distances, c)

/-- Copies a stored block: its length, the complement of that, and the bytes. -/
def stored (c : BitCursor) (output : ByteArray) : Stage BitCursor :=
  let c := c.align
  match c.bits? 16 with
  | none => ⟨output, .error .incomplete⟩
  | some (length, c) =>
      match c.bits? 16 with
      | none => ⟨output, .error .incomplete⟩
      | some (complement, c) =>
          if length + complement ≠ 0xffff then ⟨output, .error .corrupt⟩
          else
            let start := c.position / 8
            let output := output ++ c.data.extract start (start + length)
            if c.data.size < start + length then ⟨output, .error .incomplete⟩
            else ⟨output, .ok (c.skipBytes length)⟩

/-- Decodes the content of a block of the given kind. -/
def block (kind : Nat) (c : BitCursor) (output : ByteArray) : Stage BitCursor :=
  if kind = 0 then stored c output
  else if kind = 1 then symbols fixedLiterals fixedDistances c output
  else if kind = 2 then
    match readCodes c with
    | .error fault => ⟨output, .error fault⟩
    | .ok (literals, distances, c) => symbols literals distances c output
  else ⟨output, .error .corrupt⟩

theorem remaining_le_of_stored {c c' : BitCursor} {output : ByteArray}
    (h : (stored c output).next = .ok c') : c'.remaining ≤ c.remaining := by
  unfold stored at h
  dsimp only at h
  split at h
  · simp at h
  · next h₁ =>
      split at h
      · simp at h
      · next h₂ =>
          split at h
          · simp at h
          · split at h
            · simp at h
            · simp only [Except.ok.injEq] at h
              subst h
              exact Nat.le_trans (BitCursor.remaining_skipBytes_le _ _)
                (Nat.le_trans (BitCursor.remaining_le_of_bits? h₂)
                  (Nat.le_trans (BitCursor.remaining_le_of_bits? h₁)
                    (BitCursor.remaining_align_le c)))

theorem remaining_le_of_readTriples {c c' : BitCursor} {count : Nat} {ns : List Nat}
    (h : readTriples c count = .ok (ns, c')) : c'.remaining ≤ c.remaining := by
  induction count generalizing c ns with
  | zero =>
      simp only [readTriples, Except.ok.injEq, Prod.mk.injEq] at h
      exact h.2 ▸ Nat.le_refl _
  | succ count ih =>
      simp only [readTriples] at h
      split at h
      · simp at h
      · next hbits =>
          split at h
          · simp at h
          · next hrest =>
              simp only [Except.ok.injEq, Prod.mk.injEq] at h
              obtain ⟨-, rfl⟩ := h
              exact Nat.le_trans (ih hrest) (BitCursor.remaining_le_of_bits? hbits)

theorem remaining_le_of_readLengths {code : PrefixCode} {total : Nat} {lengths : Array Nat}
    {c c' : BitCursor} {out : List Nat}
    (h : readLengths code total lengths c = .ok (out, c')) : c'.remaining ≤ c.remaining := by
  fun_induction readLengths code total lengths c with
  | case1 => simp at h
  | case2 lengths c hlt symbol rest hs hsmall ih =>
      exact Nat.le_trans (ih h) (Nat.le_of_lt (PrefixCode.remaining_lt_of_decode hs))
  | case3 => simp at h
  | case4 lengths c hlt symbol rest hs hsmall count value rest' hr ih =>
      exact Nat.le_trans (ih h) (Nat.le_trans (repetition_bounds hr).2
        (Nat.le_of_lt (PrefixCode.remaining_lt_of_decode hs)))
  | case5 =>
      simp only [Except.ok.injEq, Prod.mk.injEq] at h
      exact h.2 ▸ Nat.le_refl _
  | case6 => simp at h

theorem remaining_le_of_readCodes {c c' : BitCursor} {literals distances : PrefixCode}
    (h : readCodes c = .ok (literals, distances, c')) : c'.remaining ≤ c.remaining := by
  unfold readCodes at h
  simp only [bind, Except.bind] at h
  split at h
  · next h₁ =>
      split at h
      · next h₂ =>
          split at h
          · next h₃ =>
              split at h
              · simp at h
              · split at h
                · simp at h
                · next h₄ =>
                    split at h
                    · simp at h
                    · split at h
                      · simp at h
                      · next h₅ =>
                          split at h
                          · simp at h
                          · split at h
                            · simp at h
                            · simp only [pure, Except.pure, Except.ok.injEq, Prod.mk.injEq] at h
                              obtain ⟨-, -, rfl⟩ := h
                              exact Nat.le_trans (remaining_le_of_readLengths h₅)
                                (Nat.le_trans (remaining_le_of_readTriples h₄)
                                  (Nat.le_trans (BitCursor.remaining_le_of_bits? h₃)
                                    (Nat.le_trans (BitCursor.remaining_le_of_bits? h₂)
                                      (BitCursor.remaining_le_of_bits? h₁))))
          · simp at h
      · simp at h
  · simp at h

theorem remaining_le_of_block {kind : Nat} {c c' : BitCursor} {output : ByteArray}
    (h : (block kind c output).next = .ok c') : c'.remaining ≤ c.remaining := by
  unfold block at h
  split at h
  · exact remaining_le_of_stored h
  · split at h
    · exact remaining_le_of_symbols h
    · split at h
      · split at h
        · simp at h
        · next hcodes =>
            exact Nat.le_trans (remaining_le_of_symbols h) (remaining_le_of_readCodes hcodes)
      · simp at h

/-- Decodes blocks up to the one marked final. What follows that one is not looked at. -/
def blocks (c : BitCursor) (output : ByteArray) : Stage Unit :=
  match _hf : c.bits? 1 with
  | none => ⟨output, .error .incomplete⟩
  | some (final, c₁) =>
      match _hk : c₁.bits? 2 with
      | none => ⟨output, .error .incomplete⟩
      | some (kind, c₂) =>
          let stage := block kind c₂ output
          match _hb : stage.next with
          | .error fault => ⟨stage.output, .error fault⟩
          | .ok rest =>
              if final = 1 then ⟨stage.output, .ok ()⟩ else blocks rest stage.output
termination_by c.remaining
decreasing_by
  exact Nat.lt_of_le_of_lt (Nat.le_trans (remaining_le_of_block _hb)
    (BitCursor.remaining_le_of_bits? _hk)) (BitCursor.remaining_lt_of_bits? _hf)

/-- The expansion of compressed data, up to its end or its first fault. -/
def inflate (data : ByteArray) : Stage Unit := blocks ⟨data, 0⟩ ByteArray.empty

end VendorScreen.Deflate
