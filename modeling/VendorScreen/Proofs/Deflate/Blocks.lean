import VendorScreen.Proofs.Deflate.CodeLengths

namespace VendorScreen.Deflate

/-!
# Streams of blocks

Compressed data are a row of blocks, the last of them marked. A block may begin at any bit, and only
the bytes of a stored one are moved to the next byte boundary. Matches reach back into the blocks
before, so what a block adds depends on all the output there is.
-/

theorem BitCursor.le_size_of_shows {c : BitCursor} {bits : List Bool} (h : c.Shows bits)
    (hbits : bits ≠ []) : c.position + bits.length ≤ 8 * c.data.size := by
  have hpos := List.length_pos_of_ne_nil hbits
  have hlast := shows_iff_getElem.mp h (bits.length - 1) (Nat.sub_lt hpos Nat.one_pos)
  have hbyte : (c.position + (bits.length - 1)) / 8 < c.data.size := by
    by_contra hbehind
    rw [next?, advance, getElem?_neg c.data _ hbehind] at hlast
    simp at hlast
  omega

def fixedCodes : Codes where
  literals := (List.range 288).map fun symbol =>
    if symbol < 144 then 8 else if symbol < 256 then 9 else if symbol < 280 then 7 else 8
  distances := (List.range 32).map fun _ => 5

inductive Block where
  /-- The content as it is, with what fills up the byte before it. -/
  | stored (padding : List Bool) (content : List UInt8)
  | fixed (tokens : List Token)
  | coded (head : CodeHead) (tokens : List Token)

namespace Block

def kind : Block → ℕ
  | stored _ _ => 0
  | fixed _ => 1
  | coded _ _ => 2

def body : Block → List Bool
  | stored padding content => padding
      ++ (lowBits content.length 16 ++ (lowBits (0xffff - content.length) 16 ++ bitsOf content))
  | fixed tokens => fixedCodes.bodyBits tokens
  | coded head tokens => head.bits ++ head.codes.bodyBits tokens

def bits (isFinal : Bool) (b : Block) : List Bool :=
  lowBits isFinal.toNat 1 ++ (lowBits b.kind 2 ++ b.body)

def onto (out : List UInt8) : Block → List UInt8
  | stored _ content => out ++ content
  | fixed tokens => expansion out tokens
  | coded _ tokens => expansion out tokens

/-- The block can stand where its content begins at the bit `position`, behind the output. -/
def Fits (position : ℕ) (out : List UInt8) : Block → Prop
  | stored padding content => padding.length < 8 ∧ 8 ∣ position + padding.length ∧
      content.length ≤ 0xffff
  | fixed tokens => AreWithin out tokens
  | coded head tokens => 0 < wordLength head.codes.literals endSymbol ∧
      (∀ token ∈ tokens, head.codes.Expresses token) ∧ AreWithin out tokens

instance (position : ℕ) (out : List UInt8) : DecidablePred (Fits position out)
  | stored _ _ => inferInstanceAs (Decidable (_ ∧ _ ∧ _))
  | fixed tokens => inferInstanceAs (Decidable (AreWithin out tokens))
  | coded _ _ => inferInstanceAs (Decidable (_ ∧ _ ∧ _))

end Block

section content

variable {c : BitCursor} {out : List UInt8}

theorem fixedCodes_literals : fixedCodes.literals = fixedLiteralLengths := by decide +kernel

theorem fixedCodes_distances : fixedCodes.distances = fixedDistanceLengths := by decide

theorem fixedCodes_areReadable : fixedCodes.AreReadable := by
  refine ⟨.inl (isCompleteCode_iff.mpr ?_), .inl (isCompleteCode_iff.mpr ?_)⟩
  · rw [fixedCodes_literals]
    decide +kernel
  · rw [fixedCodes_distances]
    decide +kernel

theorem wordLength_fixedCodes_literals_pos {symbol : ℕ} (h : symbol < 288) :
    0 < wordLength fixedCodes.literals symbol := by
  have hsymbol : symbol < fixedCodes.literals.length := by simpa [fixedCodes] using h
  rw [wordLength, List.getD_eq_getElem _ _ hsymbol]
  simp only [fixedCodes, List.getElem_map]
  split_ifs <;> decide

theorem wordLength_fixedCodes_distances_pos {symbol : ℕ} (h : symbol < 32) :
    0 < wordLength fixedCodes.distances symbol := by
  have hsymbol : symbol < fixedCodes.distances.length := by simpa [fixedCodes] using h
  rw [wordLength, List.getD_eq_getElem _ _ hsymbol]
  simp only [fixedCodes, List.getElem_map]
  decide

/-- The fixed codes have words for all tokens. -/
theorem fixedCodes_expresses (token : Token) : fixedCodes.Expresses token := by
  cases token with
  | literal byte =>
      have hbyte := byte.toNat_lt
      exact wordLength_fixedCodes_literals_pos (by omega)
  | copy m =>
      have hlength := m.symbol_groupedLength_lt
      have hdistance := m.symbol_groupedDistance_lt
      exact ⟨wordLength_fixedCodes_literals_pos (by rw [firstLengthSymbol]; omega),
        wordLength_fixedCodes_distances_pos (by omega)⟩

/-- Stored content is copied from the next byte boundary on. -/
theorem stored_of_shows {padding : List Bool} {content : List UInt8}
    (hpadding : padding.length < 8) (haligned : 8 ∣ c.position + padding.length)
    (hcontent : content.length ≤ 0xffff) (h : c.Shows (Block.stored padding content).body) :
    stored c out.toByteArray = ⟨(out ++ content).toByteArray,
      .ok (c.advance (Block.stored padding content).body.length)⟩ := by
  have hroom := BitCursor.le_size_of_shows h (List.ne_nil_of_length_pos (by simp [Block.body]))
  rw [Block.body] at h hroom ⊢
  simp only [BitCursor.shows_append, length_lowBits, BitCursor.advance_advance] at h
  obtain ⟨-, hlength, hcomplement, hbytes⟩ := h
  simp only [List.length_append, length_lowBits, length_bitsOf] at hroom ⊢
  obtain ⟨start, hstart⟩ := haligned
  -- the padding is just what aligning skips
  have halign : c.align = c.advance padding.length := by
    rw [BitCursor.align, BitCursor.advance]
    congr 1
    omega
  have hlength := BitCursor.bits?_of_shows (by omega) hlength
  have hcomplement := BitCursor.bits?_of_shows (by omega) hcomplement
  have hsum : content.length + (0xffff - content.length) = 0xffff := by omega
  have hplace : (c.advance (padding.length + 16)).advance 16 = ⟨c.data, 8 * (start + 4)⟩ := by
    rw [BitCursor.advance_advance, BitCursor.advance]
    congr 1
    omega
  have hstart' : 8 * (start + 4) / 8 = start + 4 := by omega
  rw [← BitCursor.advance_advance, hplace, BitCursor.shows_bitsOf_iff] at hbytes
  have hcopied : out.toByteArray ++ c.data.extract (start + 4) (start + 4 + content.length) =
      (out ++ content).toByteArray := by
    rw [hbytes.extract_eq, List.toByteArray_append]
  have hinside : ¬ c.data.size < start + 4 + content.length := by omega
  have hend : (BitCursor.mk c.data (8 * (start + 4))).skipBytes content.length =
      c.advance (padding.length + (16 + (16 + 8 * content.length))) := by
    rw [BitCursor.skipBytes, BitCursor.advance]
    congr 1
    dsimp only
    omega
  rw [stored, halign, hlength]
  dsimp only
  rw [BitCursor.advance_advance, hcomplement]
  dsimp only
  rw [if_neg (by omega), hplace]
  dsimp only
  rw [hstart', hcopied, if_neg hinside, hend]

theorem fixed_eq (c : BitCursor) (out : List UInt8) :
    symbols fixedLiterals fixedDistances c out.toByteArray = fixedCodes.decodedAt c out := by
  rw [Codes.decodedAt, fixedCodes_literals, fixedCodes_distances]
  rfl

theorem block_of_shows {b : Block} (hb : b.Fits c.position out) (h : c.Shows b.body) :
    block b.kind c out.toByteArray =
      ⟨(b.onto out).toByteArray, .ok (c.advance b.body.length)⟩ := by
  cases b with
  | stored padding content => exact stored_of_shows hb.1 hb.2.1 hb.2.2 h
  | fixed tokens =>
      have htokens := fixedCodes.decodedAt_tokens fixedCodes_areReadable
        (wordLength_fixedCodes_literals_pos (by decide)) (fun token _ => fixedCodes_expresses token)
        hb h
      rw [block, Block.kind, if_neg (by decide), if_pos rfl, fixed_eq]
      exact htokens
  | coded head tokens =>
      rw [Block.body, BitCursor.shows_append] at h
      have hcodes := head.readCodes_of_shows h.1
      have htokens := head.codes.decodedAt_tokens head.codes_readable hb.1 hb.2.1 hb.2.2 h.2
      rw [BitCursor.advance_advance, ← List.length_append] at htokens
      rw [block, Block.kind, if_neg (by decide), if_neg (by decide), if_pos rfl, hcodes]
      exact htokens

end content

section rows

variable {c : BitCursor} {out : List UInt8} {row : List Block} {last : Block}

@[simp] theorem Block.length_bits (isFinal : Bool) (b : Block) :
    (b.bits isFinal).length = b.body.length + 3 := by
  simp only [bits, List.length_append, length_lowBits]
  omega

/-- Each block can stand where the one before it ends. -/
def FitInRow (position : ℕ) (out : List UInt8) : List Block → Prop
  | [] => True
  | b :: row =>
      b.Fits (position + 3) out ∧ FitInRow (position + (b.body.length + 3)) (b.onto out) row

instance decidableFitInRow (position : ℕ) (out : List UInt8) : (row : List Block) →
    Decidable (FitInRow position out row)
  | [] => isTrue trivial
  | b :: row =>
      have := decidableFitInRow (position + (b.body.length + 3)) (b.onto out) row
      inferInstanceAs (Decidable (_ ∧ _))

/-- The mark of a block says if decoding goes on behind it. -/
theorem blocks_of_block {c₁ c₂ rest : BitCursor} {final kind : ℕ} {output output' : ByteArray}
    (hfinal : c.bits? 1 = some (final, c₁)) (hkind : c₁.bits? 2 = some (kind, c₂))
    (hblock : block kind c₂ output = ⟨output', .ok rest⟩) : blocks c output =
      if final = 1 then ⟨output', .ok ()⟩ else blocks rest output' := by
  rw [blocks]
  split
  · rename_i hnone
    simp [hfinal] at hnone
  · rename_i final' c₁' hfinal'
    rw [hfinal, Option.some.injEq, Prod.mk.injEq] at hfinal'
    obtain ⟨rfl, rfl⟩ := hfinal'
    split
    · rename_i hnone
      simp [hkind] at hnone
    · rename_i kind' c₂' hkind'
      rw [hkind, Option.some.injEq, Prod.mk.injEq] at hkind'
      obtain ⟨rfl, rfl⟩ := hkind'
      dsimp only
      split
      · rename_i fault hfault
        simp [hblock] at hfault
      · rename_i rest' hrest
        rw [hblock, Except.ok.injEq] at hrest
        subst hrest
        rw [hblock]

theorem blocks_of_shows_block {b : Block} {isFinal : Bool} (hb : b.Fits (c.position + 3) out)
    (h : c.Shows (b.bits isFinal)) : blocks c out.toByteArray =
      if isFinal then ⟨(b.onto out).toByteArray, .ok ()⟩
      else blocks (c.advance (b.body.length + 3)) (b.onto out).toByteArray := by
  have hbit : isFinal.toNat < 2 ^ 1 := Bool.toNat_lt isFinal
  have hnumber : b.kind < 2 ^ 2 := by cases b <;> simp [Block.kind]
  rw [Block.bits, BitCursor.shows_append, BitCursor.shows_append, length_lowBits, length_lowBits]
    at h
  have hfinal := BitCursor.bits?_of_shows hbit h.1
  have hkind := BitCursor.bits?_of_shows hnumber h.2.1
  rw [blocks_of_block hfinal hkind (block_of_shows hb h.2.2), BitCursor.advance_advance,
    BitCursor.advance_advance, ← Nat.add_assoc, Nat.add_comm _ b.body.length]
  cases isFinal <;> rfl

/-- The last block of a row is the marked one. -/
def rowBits (row : List Block) (last : Block) : List Bool :=
  row.flatMap (Block.bits false) ++ last.bits true

/-- A row of blocks is decoded to what the blocks add up to. -/
theorem blocks_of_shows (hrow : FitInRow c.position out (row ++ [last]))
    (h : c.Shows (rowBits row last)) : blocks c out.toByteArray =
      ⟨((row ++ [last]).foldl (fun out b => b.onto out) out).toByteArray, .ok ()⟩ := by
  induction row generalizing c out with
  | nil =>
      rw [blocks_of_shows_block hrow.1 h, if_pos rfl]
      rfl
  | cons b row ih =>
      rw [rowBits, List.flatMap_cons, List.append_assoc, BitCursor.shows_append] at h
      rw [blocks_of_shows_block hrow.1 h.1, if_neg (by decide)]
      rw [Block.length_bits] at h
      exact ih hrow.2 h.2

end rows

/-- Compressed data: a row of blocks that can stand one behind the other, the last of them marked. -/
structure Stream where
  row : List Block
  last : Block
  fits : FitInRow 0 [] (row ++ [last])

namespace Stream

def bits (s : Stream) : List Bool := rowBits s.row s.last

/-- What the data stand for. -/
def expansion (s : Stream) : List UInt8 :=
  (s.row ++ [s.last]).foldl (fun out b => b.onto out) []

/-- Data that begin with a stream are expanded to what it stands for. -/
theorem inflate_eq (s : Stream) {data : ByteArray} (h : s.bits <+: bitsOf data.data.toList) :
    inflate data = ⟨s.expansion.toByteArray, .ok ()⟩ := by
  have hblocks : blocks ⟨data, 0⟩ ([] : List UInt8).toByteArray =
      ⟨s.expansion.toByteArray, .ok ()⟩ :=
    blocks_of_shows s.fits (BitCursor.shows_of_isPrefix h)
  exact hblocks

end Stream

end VendorScreen.Deflate
