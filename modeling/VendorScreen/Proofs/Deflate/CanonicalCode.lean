import VendorScreen.Deflate.PrefixCode
import VendorScreen.Proofs.Deflate.Bits

namespace VendorScreen.Deflate

/-!
# Canonical codes

A canonical code is told by the lengths of its words alone: each word is the number of words of its
own length that the words before it take up. A word is worth a share of all sequences of 15 bits,
and the shares are laid side by side, so no word begins another one and each is decoded as its
symbol.
-/

/-- The length of the word for a symbol, or zero if there is none. -/
def wordLength (lengths : List ℕ) (symbol : ℕ) : ℕ := lengths.getD symbol 0

/-- Shorter words come first, and words of one length in the order of their symbols. -/
def Precedes (lengths : List ℕ) (s t : ℕ) : Prop :=
  0 < wordLength lengths s ∧ (wordLength lengths s < wordLength lengths t ∨
    wordLength lengths s = wordLength lengths t ∧ s < t)

instance (lengths : List ℕ) (s t : ℕ) : Decidable (Precedes lengths s t) := by
  unfold Precedes; infer_instance

/-- A word of a smaller length takes up the words that begin with it. -/
def wordNumber (lengths : List ℕ) (symbol : ℕ) : ℕ :=
  ∑ s ∈ Finset.range lengths.length with Precedes lengths s symbol,
    2 ^ (wordLength lengths symbol - wordLength lengths s)

/-- The word for a symbol, as it is written. -/
def codeWord (lengths : List ℕ) (symbol : ℕ) : List Bool :=
  highBits (wordNumber lengths symbol) (wordLength lengths symbol)

/-- The words have at most 15 bits, and their shares of all sequences of bits make up the whole. -/
structure IsCompleteCode (lengths : List ℕ) : Prop where
  length_le : ∀ length ∈ lengths, length ≤ 15
  shares : ∑ s ∈ Finset.range lengths.length with 0 < wordLength lengths s,
    (1 / 2 : ℚ) ^ wordLength lengths s = 1

/-- The words have at most 15 bits, and their shares have room beside each other. -/
structure IsCode (lengths : List ℕ) : Prop where
  length_le : ∀ length ∈ lengths, length ≤ 15
  occupied_le : PrefixCode.occupied lengths ≤ 2 ^ 15

@[simp] theorem length_codeWord (lengths : List ℕ) (symbol : ℕ) :
    (codeWord lengths symbol).length = wordLength lengths symbol := by
  simp [codeWord]

variable {lengths : List ℕ} {s t : ℕ}

theorem wordLength_le (hle : ∀ length ∈ lengths, length ≤ 15) (s : ℕ) :
    wordLength lengths s ≤ 15 := by
  rw [wordLength, List.getD_eq_getElem?_getD]
  by_cases hs : s < lengths.length
  · rw [List.getElem?_eq_getElem hs]
    exact hle _ (List.getElem_mem hs)
  · rw [List.getElem?_eq_none (Nat.le_of_not_lt hs)]
    exact Nat.zero_le _

theorem lt_length_of_wordLength_pos (h : 0 < wordLength lengths s) : s < lengths.length := by
  by_contra hs
  rw [wordLength, List.getD_eq_getElem?_getD, List.getElem?_eq_none (Nat.le_of_not_lt hs)] at h
  exact absurd h (Nat.lt_irrefl 0)

theorem Precedes.trans {r : ℕ} (h : Precedes lengths r s) (h' : Precedes lengths s t) :
    Precedes lengths r t := by
  unfold Precedes at *
  omega

theorem Precedes.irrefl (s : ℕ) : ¬ Precedes lengths s s := by
  unfold Precedes
  omega

theorem Precedes.length_le (h : Precedes lengths s t) :
    wordLength lengths s ≤ wordLength lengths t := by
  unfold Precedes at h
  omega

theorem precedes_or_precedes (hs : 0 < wordLength lengths s) (ht : 0 < wordLength lengths t)
    (hne : s ≠ t) : Precedes lengths s t ∨ Precedes lengths t s := by
  unfold Precedes
  omega

section shares

/-- How many sequences of 15 bits begin with the word of a symbol. -/
def wordShare (lengths : List ℕ) (symbol : ℕ) : ℕ := 2 ^ (15 - wordLength lengths symbol)

/-- Where the share of a word begins: behind the shares of all words before it. -/
def shareStart (lengths : List ℕ) (symbol : ℕ) : ℕ :=
  ∑ s ∈ Finset.range lengths.length with Precedes lengths s symbol, wordShare lengths s

theorem occupied_eq_sum (lengths : List ℕ) : PrefixCode.occupied lengths =
    ∑ s ∈ Finset.range lengths.length, PrefixCode.share (wordLength lengths s) := by
  induction lengths with
  | nil => rfl
  | cons length lengths ih =>
      rw [PrefixCode.occupied, List.length_cons, Finset.sum_range_succ', ih, Nat.add_comm]
      rfl

theorem occupied_eq_sum_wordShare (lengths : List ℕ) : PrefixCode.occupied lengths =
    ∑ s ∈ Finset.range lengths.length with 0 < wordLength lengths s, wordShare lengths s := by
  rw [occupied_eq_sum, Finset.sum_filter]
  refine Finset.sum_congr rfl fun s _ => ?_
  by_cases hs : wordLength lengths s = 0
  · simp [PrefixCode.share, hs]
  · rw [PrefixCode.share, if_neg hs, if_pos (Nat.pos_of_ne_zero hs)]
    rfl

/-- A code is complete if its words fill the space of words. -/
theorem isCompleteCode_iff : IsCompleteCode lengths ↔
    (∀ length ∈ lengths, length ≤ 15) ∧ PrefixCode.IsComplete lengths := by
  have hsum (hle : ∀ length ∈ lengths, length ≤ 15) : (PrefixCode.occupied lengths : ℚ) =
      2 ^ 15 * ∑ s ∈ Finset.range lengths.length with 0 < wordLength lengths s,
        (1 / 2 : ℚ) ^ wordLength lengths s := by
    have hshare (s : ℕ) :
        (wordShare lengths s : ℚ) = 2 ^ 15 * (1 / 2 : ℚ) ^ wordLength lengths s := by
      rw [wordShare, Nat.cast_pow, Nat.cast_ofNat, pow_sub₀ 2 two_ne_zero (wordLength_le hle s),
        one_div, inv_pow]
    rw [occupied_eq_sum_wordShare, Nat.cast_sum, Finset.sum_congr rfl fun s _ => hshare s,
      ← Finset.mul_sum]
  constructor
  · rintro ⟨hle, hshares⟩
    have hwhole := hsum hle
    rw [hshares, mul_one] at hwhole
    exact ⟨hle, by exact_mod_cast hwhole⟩
  · rintro ⟨hle, hcomplete⟩
    have hwhole : (PrefixCode.occupied lengths : ℚ) = 2 ^ 15 * 1 := by
      rw [mul_one]
      exact_mod_cast hcomplete
    exact ⟨hle, mul_left_cancel₀ (by norm_num) ((hsum hle).symm.trans hwhole)⟩

instance (lengths : List ℕ) : Decidable (IsCompleteCode lengths) :=
  decidable_of_iff _ isCompleteCode_iff.symm

theorem IsCompleteCode.isCode (h : IsCompleteCode lengths) : IsCode lengths :=
  ⟨h.length_le, (isCompleteCode_iff.mp h).2.le⟩

theorem occupied_wordLengths (lengths : List ℕ) :
    PrefixCode.occupied (PrefixCode.wordLengths lengths) = PrefixCode.occupied lengths := by
  induction lengths with
  | nil => rfl
  | cons length lengths ih =>
      by_cases hzero : length = 0
      · simpa [PrefixCode.wordLengths, PrefixCode.occupied, PrefixCode.share, hzero] using ih
      · simpa [PrefixCode.wordLengths, PrefixCode.occupied, hzero] using ih

theorem isCode_of_isMinimal (h : PrefixCode.IsMinimal lengths) : IsCode lengths := by
  have hmem {length : ℕ} (hlength : length ∈ lengths) :
      length = 0 ∨ length ∈ PrefixCode.wordLengths lengths := by
    simp only [PrefixCode.wordLengths, List.mem_filter, hlength, true_and, decide_eq_true_eq]
    exact or_not
  constructor
  · intro length hlength
    rcases hmem hlength with hzero | hword
    · omega
    · rcases h with h | h <;> rw [h] at hword
      · exact absurd hword List.not_mem_nil
      · rw [List.mem_singleton.mp hword]
        decide
  · rw [← occupied_wordLengths]
    rcases h with h | h <;> rw [h] <;> decide

/-- A code that a block may use: complete, or with at most one word, which then has one bit. -/
def IsReadable (lengths : List ℕ) : Prop := IsCompleteCode lengths ∨ PrefixCode.IsMinimal lengths

instance (lengths : List ℕ) : Decidable (IsReadable lengths) :=
  inferInstanceAs (Decidable (_ ∨ _))

theorem IsReadable.isCode (h : IsReadable lengths) : IsCode lengths :=
  h.elim IsCompleteCode.isCode isCode_of_isMinimal

theorem shareStart_eq (hle : ∀ length ∈ lengths, length ≤ 15) (s : ℕ) :
    shareStart lengths s = wordNumber lengths s * wordShare lengths s := by
  rw [shareStart, wordNumber, Finset.sum_mul]
  refine Finset.sum_congr rfl fun r hr => ?_
  have hbefore := (Finset.mem_filter.mp hr).2.length_le
  have hbound := wordLength_le hle s
  rw [wordShare, wordShare, ← pow_add]
  congr 1
  omega

/-- The share of a word and those of all words before it lie among any that include them. -/
theorem shareStart_add_le_sum {symbols : Finset ℕ} (hself : s ∈ symbols)
    (hbefore : ∀ r, Precedes lengths r s → r ∈ symbols) :
    shareStart lengths s + wordShare lengths s ≤ ∑ r ∈ symbols, wordShare lengths r := by
  have hnew : s ∉ {r ∈ Finset.range lengths.length | Precedes lengths r s} := by
    simp [Precedes.irrefl]
  rw [shareStart, Nat.add_comm, ← Finset.sum_insert hnew]
  refine Finset.sum_le_sum_of_subset (Finset.insert_subset hself fun r hr => ?_)
  exact hbefore r (Finset.mem_filter.mp hr).2

theorem Precedes.shareStart_add_le (h : Precedes lengths s t) :
    shareStart lengths s + wordShare lengths s ≤ shareStart lengths t := by
  have hmem {r : ℕ} (hr : Precedes lengths r t) :
      r ∈ {r ∈ Finset.range lengths.length | Precedes lengths r t} :=
    Finset.mem_filter.mpr ⟨Finset.mem_range.mpr (lt_length_of_wordLength_pos hr.1), hr⟩
  exact shareStart_add_le_sum (hmem h) fun r hr => hmem (hr.trans h)

theorem shareStart_add_le_occupied (hs : 0 < wordLength lengths s) :
    shareStart lengths s + wordShare lengths s ≤ PrefixCode.occupied lengths := by
  have hmem {r : ℕ} (hr : 0 < wordLength lengths r) :
      r ∈ {r ∈ Finset.range lengths.length | 0 < wordLength lengths r} :=
    Finset.mem_filter.mpr ⟨Finset.mem_range.mpr (lt_length_of_wordLength_pos hr), hr⟩
  rw [occupied_eq_sum_wordShare]
  exact shareStart_add_le_sum (hmem hs) fun r hr => hmem hr.1

theorem IsCode.wordNumber_lt (hcode : IsCode lengths) (hs : 0 < wordLength lengths s) :
    wordNumber lengths s < 2 ^ wordLength lengths s := by
  have hle := hcode.length_le
  have hbound := (shareStart_add_le_occupied hs).trans hcode.occupied_le
  have hsplit : 2 ^ wordLength lengths s * wordShare lengths s = 2 ^ 15 := by
    rw [wordShare, ← pow_add, Nat.add_sub_cancel' (wordLength_le hle s)]
  rw [shareStart_eq hle, ← Nat.succ_mul, ← hsplit] at hbound
  exact Nat.le_of_mul_le_mul_right hbound (Nat.two_pow_pos _)

/-- The share of a word holds those of all words that begin with it. -/
theorem IsCode.shareStart_le (hcode : IsCode lengths) (hs : 0 < wordLength lengths s)
    (ht : 0 < wordLength lengths t) (h : codeWord lengths s <+: codeWord lengths t) :
    shareStart lengths s ≤ shareStart lengths t ∧
      shareStart lengths t < shareStart lengths s + wordShare lengths s := by
  have hle := hcode.length_le
  have hlength : wordLength lengths s ≤ wordLength lengths t := by simpa using h.length_le
  obtain ⟨more, hmore⟩ := Nat.exists_eq_add_of_le hlength
  have hless := hcode.wordNumber_lt ht
  -- the shorter word is made of the highest bits of the longer one
  have hnumber : wordNumber lengths s = wordNumber lengths t / 2 ^ more := by
    refine highBits_inj (hcode.wordNumber_lt hs) ?_ ?_
    · rw [Nat.div_lt_iff_lt_mul (Nat.two_pow_pos _), ← pow_add, ← hmore]
      exact hless
    · have hbeginning : highBits (wordNumber lengths t / 2 ^ more) (wordLength lengths s) <+:
          codeWord lengths t := by
        rw [codeWord, hmore, highBits_add]
        exact List.prefix_append _ _
      exact (List.prefix_of_prefix_length_le h hbeginning (by simp)).eq_of_length (by simp)
  have hbound := wordLength_le hle t
  have hshare : wordShare lengths s = 2 ^ more * wordShare lengths t := by
    rw [wordShare, wordShare, ← pow_add]
    congr 1
    omega
  have hquotient : wordNumber lengths s * 2 ^ more ≤ wordNumber lengths t := by
    rw [hnumber]
    exact Nat.div_mul_le_self _ _
  have hremainder : wordNumber lengths t < (wordNumber lengths s + 1) * 2 ^ more := by
    rw [hnumber]
    exact Nat.lt_mul_of_div_lt (Nat.lt_succ_self _) (Nat.two_pow_pos _)
  rw [shareStart_eq hle, shareStart_eq hle, ← Nat.succ_mul, hshare, ← mul_assoc, ← mul_assoc]
  exact ⟨Nat.mul_le_mul_right _ hquotient,
    Nat.mul_lt_mul_of_pos_right hremainder (Nat.two_pow_pos _)⟩

/-- No word of a code begins another one. -/
theorem IsCode.not_isPrefix (hcode : IsCode lengths) (hs : 0 < wordLength lengths s)
    (ht : 0 < wordLength lengths t) (hne : s ≠ t) : ¬ codeWord lengths s <+: codeWord lengths t := by
  intro h
  obtain ⟨hfirst, hlast⟩ := hcode.shareStart_le hs ht h
  rcases precedes_or_precedes hs ht hne with horder | horder
  · exact absurd horder.shareStart_add_le (Nat.not_le.mpr hlast)
  · have hpos : 0 < wordShare lengths t := Nat.two_pow_pos _
    have hafter := horder.shareStart_add_le
    omega

end shares

section words

def firstNumber (lengths : List ℕ) (length : ℕ) : ℕ :=
  ∑ s ∈ Finset.range lengths.length with
    0 < wordLength lengths s ∧ wordLength lengths s < length, 2 ^ (length - wordLength lengths s)

def rank (lengths : List ℕ) (length symbol : ℕ) : ℕ :=
  Nat.count (fun s => wordLength lengths s = length) symbol

theorem sum_filter_or {symbols : Finset ℕ} {p q r : ℕ → Prop} [DecidablePred p] [DecidablePred q]
    [DecidablePred r] (f : ℕ → ℕ) (hsplit : ∀ s, r s ↔ p s ∨ q s) (hapart : ∀ s, p s → ¬ q s) :
    ∑ s ∈ symbols with r s, f s = ∑ s ∈ symbols with p s, f s + ∑ s ∈ symbols with q s, f s := by
  rw [← Finset.sum_union (Finset.disjoint_filter.mpr fun s _ => hapart s), ← Finset.filter_or]
  simp only [hsplit]

/-- The number of a word is that of the first word of its length, and one more for each symbol below
its own with a word of that length. -/
theorem wordNumber_eq (hs : 0 < wordLength lengths s) : wordNumber lengths s =
    firstNumber lengths (wordLength lengths s) + rank lengths (wordLength lengths s) s := by
  have hrank : rank lengths (wordLength lengths s) s = ∑ r ∈ Finset.range lengths.length with
      wordLength lengths r = wordLength lengths s ∧ r < s,
        2 ^ (wordLength lengths s - wordLength lengths r) := by
    have hone : ∀ r ∈ {r ∈ Finset.range lengths.length |
        wordLength lengths r = wordLength lengths s ∧ r < s},
        2 ^ (wordLength lengths s - wordLength lengths r) = 1 := by
      intro r hr
      rw [(Finset.mem_filter.mp hr).2.1, Nat.sub_self, pow_zero]
    rw [Finset.sum_congr rfl hone, Finset.sum_const, smul_eq_mul, mul_one, rank,
      Nat.count_eq_card_filter_range]
    congr 1
    ext r
    have hbelow := lt_length_of_wordLength_pos hs
    simp only [Finset.mem_filter, Finset.mem_range]
    constructor
    · rintro ⟨hless, hsame⟩
      exact ⟨hless.trans hbelow, hsame, hless⟩
    · rintro ⟨-, hsame, hless⟩
      exact ⟨hless, hsame⟩
  rw [hrank, firstNumber, wordNumber]
  refine sum_filter_or _ (fun r => ?_) fun r => ?_
  · unfold Precedes
    omega
  · omega

theorem length_symbolsOfLength (lengths : List ℕ) (length : ℕ) :
    (PrefixCode.symbolsOfLength lengths length).length = rank lengths length lengths.length := by
  rw [PrefixCode.symbolsOfLength, ← List.countP_eq_length_filter]
  rfl

/-- The words of one length are followed by those that are one bit longer. -/
theorem firstNumber_succ (lengths : List ℕ) {length : ℕ} (hpos : 0 < length) :
    firstNumber lengths (length + 1) =
      2 * (firstNumber lengths length + (PrefixCode.symbolsOfLength lengths length).length) := by
  have hshorter : 2 * firstNumber lengths length = ∑ s ∈ Finset.range lengths.length with
      0 < wordLength lengths s ∧ wordLength lengths s < length,
        2 ^ (length + 1 - wordLength lengths s) := by
    rw [firstNumber, Finset.mul_sum]
    refine Finset.sum_congr rfl fun s hs => ?_
    have hless := (Finset.mem_filter.mp hs).2.2
    rw [← pow_succ', Nat.sub_add_comm hless.le]
  have hsame : 2 * (PrefixCode.symbolsOfLength lengths length).length =
      ∑ s ∈ Finset.range lengths.length with wordLength lengths s = length,
        2 ^ (length + 1 - wordLength lengths s) := by
    have htwo : ∀ s ∈ {s ∈ Finset.range lengths.length | wordLength lengths s = length},
        2 ^ (length + 1 - wordLength lengths s) = 2 := by
      intro s hs
      rw [(Finset.mem_filter.mp hs).2, Nat.add_sub_cancel_left, pow_one]
    rw [Finset.sum_congr rfl htwo, Finset.sum_const, smul_eq_mul, length_symbolsOfLength, rank,
      Nat.count_eq_card_filter_range, Nat.mul_comm]
  rw [Nat.mul_add, hshorter, hsame, firstNumber]
  refine sum_filter_or _ (fun s => ?_) fun s => ?_ <;> omega

/-- A number that a row of numbers is filtered for stands behind as many as there are below it. -/
theorem getElem?_filter_range (p : ℕ → Prop) [DecidablePred p] (n k s : ℕ) :
    ((List.range n).filter p)[k]? = some s ↔ s < n ∧ p s ∧ k = Nat.count p s := by
  induction n with
  | zero => simp
  | succ n ih =>
      have hlength : ((List.range n).filter p).length = Nat.count p n :=
        List.countP_eq_length_filter.symm
      rw [List.range_succ, List.filter_append]
      by_cases hk : k < Nat.count p n
      · rw [List.getElem?_append_left (hlength.symm ▸ hk), ih]
        constructor
        · rintro ⟨hs, h⟩
          exact ⟨hs.trans (Nat.lt_succ_self n), h⟩
        · rintro ⟨hs, hp, hcount⟩
          refine ⟨(Nat.lt_succ_iff.mp hs).lt_of_ne ?_, hp, hcount⟩
          rintro rfl
          omega
      · rw [List.getElem?_append_right (hlength.symm ▸ Nat.le_of_not_lt hk), hlength]
        constructor
        · intro h
          obtain ⟨hlast, hp⟩ := List.mem_filter.mp (List.mem_of_getElem? h)
          obtain rfl := List.mem_singleton.mp hlast
          have hone : ((List.filter p [s]).length) ≤ 1 := List.length_filter_le _ [s]
          have hless := (List.getElem?_eq_some_iff.mp h).1
          exact ⟨Nat.lt_succ_self s, by simpa using hp, by omega⟩
        · rintro ⟨hs, hp, hcount⟩
          obtain hless | rfl := Nat.lt_succ_iff_lt_or_eq.mp hs
          · have hfewer := Nat.count_strict_mono hp hless
            omega
          · simp [hp, hcount]

theorem mem_numbered {word length : ℕ} {symbols : List ℕ} {p : ℕ × List Bool} :
    p ∈ PrefixCode.numbered word length symbols ↔
      ∃ k, symbols[k]? = some p.1 ∧ p.2 = PrefixCode.wordBits (word + k) length := by
  induction symbols generalizing word with
  | nil => simp [PrefixCode.numbered]
  | cons symbol symbols ih =>
      rw [PrefixCode.numbered, List.mem_cons, ih]
      constructor
      · rintro (rfl | ⟨k, hk, hword⟩)
        · exact ⟨0, rfl, rfl⟩
        · exact ⟨k + 1, hk, by rw [hword, Nat.add_assoc, Nat.add_comm 1]⟩
      · rintro ⟨_ | k, hk, hword⟩
        · exact .inl (Prod.ext (Option.some.inj hk).symm hword)
        · exact .inr ⟨k, hk, by rw [hword, Nat.add_assoc, Nat.add_comm 1]⟩

theorem wordBits_eq_highBits (n length : ℕ) : PrefixCode.wordBits n length = highBits n length := by
  induction length with
  | zero => rfl
  | succ length ih =>
      rw [PrefixCode.wordBits, ih, highBits, highBits, lowBits, lowBits, List.range_succ]
      simp

theorem mem_numbered_symbolsOfLength {word length : ℕ} {p : ℕ × List Bool} (hpos : 0 < length)
    (hword : word = firstNumber lengths length) :
    p ∈ PrefixCode.numbered word length (PrefixCode.symbolsOfLength lengths length) ↔
      wordLength lengths p.1 = length ∧ p.2 = codeWord lengths p.1 := by
  have hplace (k : ℕ) : (PrefixCode.symbolsOfLength lengths length)[k]? = some p.1 ↔
      p.1 < lengths.length ∧ wordLength lengths p.1 = length ∧ k = rank lengths length p.1 :=
    getElem?_filter_range (fun s => wordLength lengths s = length) lengths.length k p.1
  rw [mem_numbered]
  simp only [hplace, wordBits_eq_highBits, hword]
  constructor
  · rintro ⟨k, ⟨hs, rfl, rfl⟩, hbits⟩
    exact ⟨rfl, by rw [hbits, codeWord, wordNumber_eq hpos]⟩
  · rintro ⟨rfl, hbits⟩
    exact ⟨_, ⟨lt_length_of_wordLength_pos hpos, rfl, rfl⟩,
      by rw [hbits, codeWord, wordNumber_eq hpos]⟩

theorem mem_wordsFrom {word length span : ℕ} {p : ℕ × List Bool} (hpos : 0 < length)
    (hword : word = firstNumber lengths length) :
    p ∈ PrefixCode.wordsFrom lengths word length span ↔
      (length ≤ wordLength lengths p.1 ∧ wordLength lengths p.1 < length + span) ∧
        p.2 = codeWord lengths p.1 := by
  induction span generalizing word length with
  | zero =>
      simp only [PrefixCode.wordsFrom, List.not_mem_nil, false_iff]
      omega
  | succ span ih =>
      have hnext : 2 * (word + (PrefixCode.symbolsOfLength lengths length).length) =
          firstNumber lengths (length + 1) := by
        rw [hword, firstNumber_succ lengths hpos]
      rw [PrefixCode.wordsFrom, List.mem_append, mem_numbered_symbolsOfLength hpos hword,
        ih (Nat.succ_pos length) hnext, ← or_and_right]
      refine and_congr_left fun _ => ?_
      omega

/-- The words that the lengths are turned into are those of the canonical code. -/
theorem mem_words {p : ℕ × List Bool} : p ∈ PrefixCode.words lengths ↔
    (0 < wordLength lengths p.1 ∧ wordLength lengths p.1 ≤ 15) ∧ p.2 = codeWord lengths p.1 := by
  have hfirst : 0 = firstNumber lengths 1 := by
    rw [firstNumber]
    symm
    refine Finset.sum_eq_zero fun s hs => ?_
    have hlength := (Finset.mem_filter.mp hs).2
    omega
  rw [PrefixCode.words, mem_wordsFrom Nat.one_pos hfirst, PrefixCode.longest]
  refine and_congr_left fun _ => ?_
  omega

/-- Eight symbols, one of them with a word of two bits and two with words of four. -/
example : (List.range 8).map (codeWord [3, 3, 3, 3, 3, 2, 4, 4]) =
    [[false, true, false], [false, true, true], [true, false, false], [true, false, true],
      [true, true, false], [false, false], [true, true, true, false], [true, true, true, true]] := by
  decide

end words

section trees

namespace WordTree

/-- The way from the root of the tree along the word ends at the value. -/
def Means : WordTree → List Bool → ℕ → Prop
  | symbol v, [], value => v = value
  | branch zero _, false :: word, value => zero.Means word value
  | branch _ one, true :: word, value => one.Means word value
  | _, _, _ => False

theorem means_assign (value : ℕ) (word : List Bool) (tree : WordTree) :
    (assign value word tree).Means word value := by
  induction word generalizing tree with
  | nil => rfl
  | cons bit word ih => cases bit <;> cases tree <;> exact ih _

/-- A word keeps its meaning when another one gets one that neither begins it nor begins with it. -/
theorem Means.assign {tree : WordTree} {word other : List Bool} {value : ℕ}
    (h : tree.Means word value) (hother : ¬ other <+: word) (hword : ¬ word <+: other)
    (value' : ℕ) : (assign value' other tree).Means word value := by
  induction word generalizing tree other with
  | nil => exact absurd List.nil_prefix hword
  | cons bit word ih =>
      cases other with
      | nil => exact absurd List.nil_prefix hother
      | cons bit' other =>
          cases tree with
          | unassigned => cases bit <;> exact h.elim
          | symbol v => cases bit <;> exact h.elim
          | branch zero one =>
              rw [List.cons_prefix_cons] at hother hword
              cases bit <;> cases bit' <;> first
                | exact h
                | exact ih h (fun hp => hother ⟨rfl, hp⟩) (fun hp => hword ⟨rfl, hp⟩)

theorem decode_of_means {tree : WordTree} {word : List Bool} {value : ℕ} {c : BitCursor}
    (h : tree.Means word value) (hword : c.Shows word) :
    tree.decode c = .ok (value, c.advance word.length) := by
  induction word generalizing tree c with
  | nil =>
      cases tree with
      | unassigned => exact h.elim
      | symbol v => exact congrArg (fun n => Except.ok (n, c)) h
      | branch zero one => exact h.elim
  | cons bit word ih =>
      cases tree with
      | unassigned => cases bit <;> exact h.elim
      | symbol v => cases bit <;> exact h.elim
      | branch zero one =>
          have hnext (t : WordTree) (ht : t.Means word value) :
              t.decode (c.advance 1) = .ok (value, c.advance (word.length + 1)) := by
            rw [ih ht hword.2, BitCursor.advance_advance, Nat.add_comm]
          cases bit <;> rw [decode, hword.1] <;> exact hnext _ h

end WordTree

namespace PrefixCode

def tree (code : PrefixCode) : WordTree := .branch code.zero code.one

theorem decode_eq (code : PrefixCode) (c : BitCursor) : code.decode c = code.tree.decode c := rfl

theorem tree_assignWord (code : PrefixCode) (symbol : ℕ) {word : List Bool} (hword : word ≠ []) :
    (code.assignWord (symbol, word)).tree = code.tree.assign symbol word := by
  cases word with
  | nil => exact absurd rfl hword
  | cons bit word => cases bit <;> rfl

theorem means_foldl_assignWord {symbol : ℕ} {word : List Bool} (words : List (ℕ × List Bool))
    (code : PrefixCode)
    (happart : ∀ p ∈ words, p.2 ≠ [] ∧
      (p = (symbol, word) ∨ ¬ p.2 <+: word ∧ ¬ word <+: p.2))
    (h : (symbol, word) ∈ words ∨ code.tree.Means word symbol) :
    (words.foldl assignWord code).tree.Means word symbol := by
  induction words generalizing code with
  | nil => exact h.resolve_left List.not_mem_nil
  | cons p words ih =>
      obtain ⟨hnonempty, hp⟩ := happart p List.mem_cons_self
      refine ih _ (fun q hq => happart q (List.mem_cons_of_mem p hq)) ?_
      rw [← Prod.eta p, tree_assignWord code p.1 hnonempty]
      -- the word keeps its meaning from its own turn on
      rcases hp with rfl | ⟨hother, hword⟩
      · exact .inr (WordTree.means_assign symbol word code.tree)
      · rcases h with hmem | hmeans
        · refine .inl ((List.mem_cons.mp hmem).resolve_left ?_)
          rintro rfl
          exact hword List.prefix_rfl
        · exact .inr (hmeans.assign hother hword p.1)

end PrefixCode

/-- A word at the cursor is decoded as its symbol. -/
theorem IsCode.decode_eq (hcode : IsCode lengths) (hs : 0 < wordLength lengths s) {c : BitCursor}
    (h : c.Shows (codeWord lengths s)) :
    (PrefixCode.ofLengths lengths).decode c = .ok (s, c.advance (codeWord lengths s).length) := by
  have hmeans : (PrefixCode.ofLengths lengths).tree.Means (codeWord lengths s) s := by
    refine PrefixCode.means_foldl_assignWord _ _ (fun p hp => ?_)
      (.inl (mem_words.mpr ⟨⟨hs, wordLength_le hcode.length_le s⟩, rfl⟩))
    obtain ⟨⟨hpos, -⟩, hword⟩ := mem_words.mp hp
    rw [hword]
    refine ⟨List.ne_nil_of_length_pos (by simpa using hpos), ?_⟩
    by_cases hsame : p.1 = s
    · exact .inl (Prod.ext hsame (hword.trans (by rw [hsame])))
    · exact .inr ⟨hcode.not_isPrefix hpos hs hsame, hcode.not_isPrefix hs hpos (Ne.symm hsame)⟩
  rw [PrefixCode.decode_eq, WordTree.decode_of_means hmeans h]

end trees

end VendorScreen.Deflate
