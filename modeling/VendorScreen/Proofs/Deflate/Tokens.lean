import VendorScreen.Deflate.Inflate
import VendorScreen.Proofs.Deflate.CanonicalCode

namespace VendorScreen.Deflate

/-!
# Literals and matches

A block is a row of tokens: single bytes, and matches that repeat what stands further up. A length or
a distance is written as the symbol of a group of numbers and the place in the group, and the groups
double in size at regular intervals. Decoding the words of some tokens gives what they expand to.
-/

/-- A repetition of 3 to 258 bytes that begins 1 to 32768 places back. -/
structure Match where
  length : ℕ
  distance : ℕ
  length_ge : 3 ≤ length
  length_le : length ≤ 258
  distance_ge : 1 ≤ distance
  distance_le : distance ≤ 32768
deriving DecidableEq, Repr

/-- The bytes of a match. One that is longer than it reaches back goes through the same bytes again
and again. -/
def Match.copied (m : Match) (out : List UInt8) : List UInt8 :=
  (List.range m.length).map fun k => out.getD (out.length - m.distance + k % m.distance) 0

inductive Token where
  | literal (byte : UInt8)
  | copy (m : Match)
deriving DecidableEq, Repr

namespace Token

/-- The output with what the token adds to it. -/
def onto (out : List UInt8) : Token → List UInt8
  | literal byte => out ++ [byte]
  | copy m => out ++ m.copied out

/-- The token does not reach back to before the output. -/
def IsWithin (out : List UInt8) : Token → Prop
  | literal _ => True
  | copy m => m.distance ≤ out.length

instance (out : List UInt8) : DecidablePred (IsWithin out)
  | literal _ => isTrue trivial
  | copy m => inferInstanceAs (Decidable (m.distance ≤ out.length))

end Token

def expansion (out : List UInt8) (tokens : List Token) : List UInt8 := tokens.foldl Token.onto out

/-- No token reaches back to before the output that there is when its turn comes. -/
def AreWithin (out : List UInt8) : List Token → Prop
  | [] => True
  | token :: tokens => token.IsWithin out ∧ AreWithin (token.onto out) tokens

instance decidableAreWithin (out : List UInt8) : (tokens : List Token) →
    Decidable (AreWithin out tokens)
  | [] => isTrue trivial
  | token :: tokens =>
      have := decidableAreWithin (token.onto out) tokens
      inferInstanceAs (Decidable (token.IsWithin out ∧ AreWithin (token.onto out) tokens))

section copying

variable {out : List UInt8}

theorem push_toByteArray (out : List UInt8) (byte : UInt8) :
    out.toByteArray.push byte = (out ++ [byte]).toByteArray :=
  ByteArray.ext (by simp [List.data_toByteArray])

theorem lookBack_toByteArray {distance : ℕ} (h : distance ≤ out.length) :
    lookBack out.toByteArray distance = out.getD (out.length - distance) 0 := by
  rw [lookBack, List.size_toByteArray, if_pos h, Bytes.getElem?_toByteArray,
    List.getD_eq_getElem?_getD]

/-- Copying byte by byte repeats the last `distance` bytes. -/
theorem copyMatch_toByteArray {distance : ℕ} (hpos : 1 ≤ distance) (h : distance ≤ out.length)
    (length : ℕ) : copyMatch out.toByteArray distance length =
      (out ++ (List.range length).map fun k =>
        out.getD (out.length - distance + k % distance) 0).toByteArray := by
  induction length generalizing out with
  | zero => simp [copyMatch]
  | succ length ih =>
      have hlater (k : ℕ) : (out ++ [out.getD (out.length - distance) 0]).getD
            ((out ++ [out.getD (out.length - distance) 0]).length - distance + k % distance) 0 =
          out.getD (out.length - distance + (k + 1) % distance) 0 := by
        have hless : k % distance < distance := Nat.mod_lt k hpos
        rw [List.length_append, List.length_singleton, ← Nat.mod_add_mod k distance 1]
        by_cases hturn : k % distance + 1 = distance
        · -- the byte just written is the first one again
          have hplace : out.length + 1 - distance + k % distance = out.length := by omega
          rw [hturn, Nat.mod_self, Nat.add_zero, hplace, List.getD_append_right _ _ _ _ le_rfl,
            Nat.sub_self]
          rfl
        · have hplace : out.length + 1 - distance + k % distance =
              out.length - distance + (k % distance + 1) := by omega
          have hnext : (k % distance + 1) % distance = k % distance + 1 :=
            Nat.mod_eq_of_lt (by omega)
          rw [hnext, hplace, List.getD_append _ _ _ _ (by omega)]
      rw [copyMatch, lookBack_toByteArray h, push_toByteArray, ih (by simp; omega),
        List.range_succ_eq_map, List.map_cons, List.map_map, List.append_assoc]
      simp only [hlater, Function.comp_def, Nat.zero_mod, Nat.add_zero, Nat.succ_eq_add_one,
        List.singleton_append]

end copying

section groups

/-- A number as the symbol of its group and the bits behind the symbol: how many they are, and what
number they are. -/
structure Grouped where
  symbol : ℕ
  width : ℕ
  extra : ℕ
deriving DecidableEq, Repr

namespace Grouped

/-- Of each size there are `2 ^ k` groups, and then they are twice as large. The first `2 ^ (k + 1)`
numbers stand alone. -/
def ofNumber (k n : ℕ) : Grouped :=
  let width := n.log2 - k
  ⟨2 ^ k * width + n / 2 ^ width, width, n % 2 ^ width⟩

def bits (g : Grouped) : List Bool := lowBits g.extra g.width

@[simp] theorem length_bits (g : Grouped) : g.bits.length = g.width := length_lowBits _ _

/-- The steps list the first number of each group and the size of the group, up to a width. -/
def AreListed (steps : List (ℕ × ℕ)) (k base widths : ℕ) : Prop :=
  ∀ width < widths, ∀ q < 2 ^ (k + 1), width = 0 ∨ 2 ^ k ≤ q →
    steps[2 ^ k * width + q]? = some (2 ^ width * q + base, width)

instance (steps : List (ℕ × ℕ)) (k base widths : ℕ) :
    Decidable (AreListed steps k base widths) := by
  unfold AreListed; infer_instance

section listed

variable {steps : List (ℕ × ℕ)} {k base widths n : ℕ}

theorem getElem?_ofNumber (hsteps : AreListed steps k base widths) (hn : n < 2 ^ (widths + k))
    (hwidths : 0 < widths) : steps[(ofNumber k n).symbol]? =
      some (2 ^ (n.log2 - k) * (n / 2 ^ (n.log2 - k)) + base, n.log2 - k) := by
  have hless : n.log2 - k < widths := by
    by_cases hzero : n = 0
    · simpa [hzero] using hwidths
    · have hlog := (Nat.log2_lt hzero).mpr hn
      omega
  have hgroup : n / 2 ^ (n.log2 - k) < 2 ^ (k + 1) := by
    rw [Nat.div_lt_iff_lt_mul (Nat.two_pow_pos _), ← pow_add]
    exact Nat.lt_log2_self.trans_le (Nat.pow_le_pow_right (by decide) (by omega))
  have hlarge : n.log2 - k = 0 ∨ 2 ^ k ≤ n / 2 ^ (n.log2 - k) := by
    refine or_iff_not_imp_left.mpr fun hwidth => ?_
    have hnonzero : n ≠ 0 := by
      rintro rfl
      simp at hwidth
    rw [Nat.le_div_iff_mul_le (Nat.two_pow_pos _), ← pow_add]
    exact (Nat.pow_le_pow_right (by decide) (by omega)).trans (Nat.log2_self_le hnonzero)
  exact hsteps _ hless _ hgroup hlarge

theorem symbol_ofNumber_lt (hsteps : AreListed steps k base widths) (hn : n < 2 ^ (widths + k))
    (hwidths : 0 < widths) : (ofNumber k n).symbol < steps.length :=
  (List.getElem?_eq_some_iff.mp (getElem?_ofNumber hsteps hn hwidths)).1

theorem extended_ofNumber {c : BitCursor} (hsteps : AreListed steps k base widths)
    (hn : n < 2 ^ (widths + k)) (hwidths : 0 < widths) (h : c.Shows (ofNumber k n).bits) :
    extended steps (ofNumber k n).symbol c =
      .ok (n + base, c.advance (ofNumber k n).bits.length) := by
  have hextra := BitCursor.bits?_of_shows (Nat.mod_lt n (Nat.two_pow_pos _)) h
  have hvalue := Nat.div_add_mod n (2 ^ (n.log2 - k))
  rw [extended, getElem?_ofNumber hsteps hn hwidths, length_bits]
  simp only [ofNumber, hextra]
  congr 2
  omega

end listed

end Grouped

namespace Match

/-- The longest length has a symbol of its own. -/
def groupedLength (m : Match) : Grouped :=
  if m.length = 258 then ⟨28, 0, 0⟩ else .ofNumber 2 (m.length - 3)

def groupedDistance (m : Match) : Grouped := .ofNumber 1 (m.distance - 1)

theorem areListed_lengthSteps : Grouped.AreListed lengthSteps 2 3 6 := by decide

theorem areListed_distanceSteps : Grouped.AreListed distanceSteps 1 1 14 := by decide

variable (m : Match)

theorem distance_lt : m.distance - 1 < 2 ^ (14 + 1) := by
  have hle := m.distance_le
  omega

theorem length_lt : m.length - 3 < 2 ^ (6 + 2) := by
  have hle := m.length_le
  omega

theorem symbol_groupedLength_lt : m.groupedLength.symbol < 29 := by
  rw [groupedLength]
  split_ifs
  · decide
  · exact Grouped.symbol_ofNumber_lt areListed_lengthSteps m.length_lt (by decide)

theorem symbol_groupedDistance_lt : m.groupedDistance.symbol < 30 :=
  Grouped.symbol_ofNumber_lt areListed_distanceSteps m.distance_lt (by decide)

theorem extended_groupedLength {c : BitCursor} (h : c.Shows m.groupedLength.bits) :
    extended lengthSteps m.groupedLength.symbol c =
      .ok (m.length, c.advance m.groupedLength.bits.length) := by
  unfold groupedLength at *
  split_ifs at * with hlongest
  · rw [hlongest]
    rfl
  · rw [Grouped.extended_ofNumber areListed_lengthSteps m.length_lt (by decide) h,
      Nat.sub_add_cancel m.length_ge]

theorem extended_groupedDistance {c : BitCursor} (h : c.Shows m.groupedDistance.bits) :
    extended distanceSteps m.groupedDistance.symbol c =
      .ok (m.distance, c.advance m.groupedDistance.bits.length) := by
  unfold groupedDistance at *
  rw [Grouped.extended_ofNumber areListed_distanceSteps m.distance_lt (by decide) h,
    Nat.sub_add_cancel m.distance_ge]

end Match

end groups

/-- What a symbol says is done, and decoding goes on behind it. -/
theorem symbols_of_decode {literals distances : PrefixCode} {c rest : BitCursor}
    {output : ByteArray} {symbol : ℕ} (h : literals.decode c = .ok (symbol, rest)) :
    symbols literals distances c output = match Instruction.ofSymbol symbol with
      | .literal byte => symbols literals distances rest (output.push byte)
      | .endOfBlock => ⟨output, .ok rest⟩
      | .copy lengthIndex =>
          match matchAt distances lengthIndex rest with
          | .error fault => ⟨output, .error fault⟩
          | .ok (length, distance, after) =>
              symbols literals distances after (copyMatch output distance length) := by
  rw [symbols]
  split
  · rename_i fault hfault
    simp [h] at hfault
  · rename_i symbol' rest' hsymbol
    rw [h, Except.ok.injEq, Prod.mk.injEq] at hsymbol
    obtain ⟨rfl, rfl⟩ := hsymbol
    cases Instruction.ofSymbol symbol with
    | literal byte => rfl
    | endOfBlock => rfl
    | copy lengthIndex =>
        dsimp only
        split <;> simp_all

/-- The lengths of the words for literals and lengths, and of those for distances. -/
structure Codes where
  literals : List ℕ
  distances : List ℕ

def endSymbol : ℕ := 256

def firstLengthSymbol : ℕ := 257

namespace Codes

def AreReadable (codes : Codes) : Prop := IsReadable codes.literals ∧ IsReadable codes.distances

instance (codes : Codes) : Decidable codes.AreReadable := inferInstanceAs (Decidable (_ ∧ _))

def tokenBits (codes : Codes) : Token → List Bool
  | .literal byte => codeWord codes.literals byte.toNat
  | .copy m =>
      codeWord codes.literals (firstLengthSymbol + m.groupedLength.symbol)
        ++ (m.groupedLength.bits
          ++ (codeWord codes.distances m.groupedDistance.symbol ++ m.groupedDistance.bits))

/-- The symbols of a token have words. -/
def Expresses (codes : Codes) : Token → Prop
  | .literal byte => 0 < wordLength codes.literals byte.toNat
  | .copy m => 0 < wordLength codes.literals (firstLengthSymbol + m.groupedLength.symbol) ∧
      0 < wordLength codes.distances m.groupedDistance.symbol

instance (codes : Codes) : DecidablePred codes.Expresses
  | .literal byte => inferInstanceAs (Decidable (0 < wordLength codes.literals byte.toNat))
  | .copy _ => inferInstanceAs (Decidable (_ ∧ _))

def bodyBits (codes : Codes) (tokens : List Token) : List Bool :=
  tokens.flatMap codes.tokenBits ++ codeWord codes.literals endSymbol

def decodedAt (codes : Codes) (c : BitCursor) (out : List UInt8) : Stage BitCursor :=
  symbols (.ofLengths codes.literals) (.ofLengths codes.distances) c out.toByteArray

variable {codes : Codes} {c : BitCursor} {out : List UInt8}

theorem matchAt_eq (hcodes : codes.AreReadable) {m : Match} (hm : codes.Expresses (.copy m))
    (h : c.Shows (m.groupedLength.bits
      ++ (codeWord codes.distances m.groupedDistance.symbol ++ m.groupedDistance.bits))) :
    matchAt (.ofLengths codes.distances) m.groupedLength.symbol c =
      .ok (m.length, m.distance, c.advance (m.groupedLength.bits
        ++ (codeWord codes.distances m.groupedDistance.symbol
          ++ m.groupedDistance.bits)).length) := by
  rw [BitCursor.shows_append, BitCursor.shows_append] at h
  obtain ⟨hlength, hsymbol, hdistance⟩ := h
  have hword := hcodes.2.isCode.decode_eq hm.2 hsymbol
  simp only [matchAt, bind, Except.bind, m.extended_groupedLength hlength, hword,
    m.extended_groupedDistance hdistance, pure, Except.pure]
  rw [BitCursor.advance_advance, BitCursor.advance_advance, List.length_append,
    List.length_append]

/-- A token is decoded, and its place taken by what it adds to the output. -/
theorem decodedAt_token (hcodes : codes.AreReadable) {token : Token}
    (htoken : codes.Expresses token) (hwithin : token.IsWithin out)
    (h : c.Shows (codes.tokenBits token)) : codes.decodedAt c out =
      codes.decodedAt (c.advance (codes.tokenBits token).length) (token.onto out) := by
  cases token with
  | literal byte =>
      have hbyte : Instruction.ofSymbol byte.toNat = .literal byte := by
        rw [Instruction.ofSymbol, if_pos byte.toNat_lt]
        simp
      have hword := hcodes.1.isCode.decode_eq htoken h
      rw [decodedAt, symbols_of_decode hword, hbyte]
      dsimp only
      rw [push_toByteArray]
      rfl
  | copy m =>
      have hlength : Instruction.ofSymbol (firstLengthSymbol + m.groupedLength.symbol) =
          .copy m.groupedLength.symbol := by
        rw [Instruction.ofSymbol, firstLengthSymbol, if_neg (by omega), if_neg (by omega),
          Nat.add_sub_cancel_left]
      rw [tokenBits, BitCursor.shows_append] at h
      have hword := hcodes.1.isCode.decode_eq htoken.1 h.1
      have hmatch := matchAt_eq hcodes htoken h.2
      rw [BitCursor.advance_advance, ← List.length_append] at hmatch
      rw [decodedAt, symbols_of_decode hword, hlength]
      dsimp only
      rw [hmatch]
      dsimp only
      rw [copyMatch_toByteArray m.distance_ge hwithin]
      rfl

/-- The tokens of a block are decoded to what they expand to. -/
theorem decodedAt_tokens (hcodes : codes.AreReadable)
    (hend : 0 < wordLength codes.literals endSymbol) {tokens : List Token}
    (htokens : ∀ token ∈ tokens, codes.Expresses token) (hwithin : AreWithin out tokens)
    (h : c.Shows (codes.bodyBits tokens)) : codes.decodedAt c out =
      ⟨(expansion out tokens).toByteArray, .ok (c.advance (codes.bodyBits tokens).length)⟩ := by
  induction tokens generalizing c out with
  | nil =>
      have hword := hcodes.1.isCode.decode_eq hend h
      rw [decodedAt, symbols_of_decode hword]
      simp [Instruction.ofSymbol, endSymbol, bodyBits, expansion]
  | cons token tokens ih =>
      rw [bodyBits, List.flatMap_cons, List.append_assoc, BitCursor.shows_append] at h
      obtain ⟨htoken, hrest⟩ := List.forall_mem_cons.mp htokens
      rw [decodedAt_token hcodes htoken hwithin.1 h.1, ih hrest hwithin.2 h.2,
        BitCursor.advance_advance]
      simp [bodyBits, expansion]

end Codes

end VendorScreen.Deflate
