import VendorScreen.Proofs.Query.Assets
import VendorScreen.Proofs.Query.Laziness

namespace VendorScreen

/-!
# Raising the size limit

Class containers between two limits are flagged unread under the lower one and decoded under the
higher one. Up to the first of them the two inspections do the same, so a higher limit can only put
off the moment at which an inspection ends because of a size.
-/

/-- The inspection ended at a class container above the limit. -/
def Outcome.IsOversized (outcome : Outcome QueryError Verdict) : Prop :=
  ∃ name size, outcome = .ok (.oversizedClassContainer name size)

namespace Inspector

def withLimit (i : Inspector) (limit : ℕ) : Inspector := { i with sizeLimit := limit }

/-- The inspection comes to the entry with index `k` and ends there because of its size. -/
structure EndsOversized (i : Inspector) (a : Zip.Archive) (k : ℕ) (entry : Zip.Entry) : Prop where
  stops : i.StopsAt a k entry
  oversized : i.Settles a.bytes k entry (.ok (.oversizedClassContainer entry.name entry.size))

variable {i : Inspector} {lower higher : ℕ} {bytes : ByteArray} {index decodings : ℕ}
  {entry : Zip.Entry} {entries : List Zip.Entry} {outcome : Outcome QueryError Verdict}

section entries

/-- An entry that settles something because of its size settles nothing else. -/
theorem Settles.eq_oversized (h : i.Settles bytes index entry outcome)
    (hoversized : outcome.IsOversized) :
    outcome = .ok (.oversizedClassContainer entry.name entry.size) := by
  obtain ⟨name, size, rfl⟩ := hoversized
  cases h with
  | oversized hopen hname hsize => rfl

/-- What has nothing to do with a size is the same under every limit from then on. -/
theorem Settles.of_limit_le (hle : lower ≤ higher)
    (h : (i.withLimit lower).Settles bytes index entry outcome)
    (hother : ¬ outcome.IsOversized) :
    (i.withLimit higher).Settles bytes index entry outcome := by
  cases h with
  | abandoned hopen => exact .abandoned hopen
  | unreadable hopen => exact .unreadable hopen
  | oversized hopen hname hsize => exact absurd ⟨_, _, rfl⟩ hother
  | undecodable hopen hname hsize hdecode =>
      exact .undecodable hopen hname (hsize.trans hle) hdecode
  | classMatch hopen hname hsize hdecode hfirst =>
      exact .classMatch hopen hname (hsize.trans hle) hdecode hfirst

theorem Passes.of_limit_le (hle : lower ≤ higher)
    (h : (i.withLimit lower).Passes bytes entry) : (i.withLimit higher).Passes bytes entry := by
  cases h with
  | other hopen hname => exact .other hopen hname
  | unmatched hopen hname hsize hdecode hnone =>
      exact .unmatched hopen hname (hsize.trans hle) hdecode hnone

/-- What is too large for the higher limit is too large for the lower one. -/
theorem Settles.oversized_of_limit_le (hle : lower ≤ higher)
    (h : (i.withLimit higher).Settles bytes index entry
      (.ok (.oversizedClassContainer entry.name entry.size))) :
    (i.withLimit lower).Settles bytes index entry
      (.ok (.oversizedClassContainer entry.name entry.size)) := by
  cases h with
  | oversized hopen hname hsize => exact .oversized hopen hname (hle.trans_lt hsize)

/-- An entry that only the higher limit lets pass is too large for the lower one. -/
theorem Passes.oversized_of_settles (hle : lower ≤ higher)
    (hpass : (i.withLimit higher).Passes bytes entry)
    (h : (i.withLimit lower).Settles bytes index entry outcome) : outcome.IsOversized := by
  by_contra hother
  exact hpass.not_isDecisive ⟨index, outcome, h.of_limit_le hle hother⟩

end entries

section walk

/-- A walk that does not end because of a size goes the same way under every higher limit. -/
theorem inspectFrom_of_limit_le (hle : lower ≤ higher)
    (hother : ¬ ((i.withLimit lower).inspectFrom .never bytes index decodings
      entries).outcome.IsOversized) :
    (i.withLimit higher).inspectFrom .never bytes index decodings entries =
      (i.withLimit lower).inspectFrom .never bytes index decodings entries := by
  induction entries generalizing index decodings with
  | nil => rfl
  | cons entry rest ih =>
      have hflag := StopFlag.never_apply (.beforeEntry index decodings)
      rcases (i.withLimit lower).settles_or_passes bytes index entry with
        ⟨outcome, hsettles⟩ | hpass
      · rw [inspectFrom_eq_of_settles hflag hsettles] at hother ⊢
        exact inspectFrom_eq_of_settles hflag (hsettles.of_limit_le hle hother) rest
      · rw [inspectFrom_eq_of_passes hflag hpass] at hother ⊢
        rw [inspectFrom_eq_of_passes hflag (hpass.of_limit_le hle), ih hother]

/-- Where a walk ends because of a size, one with a lower limit has ended because of a size. -/
theorem isEarliest_of_limit_le (hle : lower ≤ higher) {k : ℕ}
    (hfirst : IsEarliest ((i.withLimit higher).IsDecisive bytes) entries k entry)
    (hsettles : (i.withLimit higher).Settles bytes k entry
      (.ok (.oversizedClassContainer entry.name entry.size))) :
    ∃ j ≤ k, ∃ entry', IsEarliest ((i.withLimit lower).IsDecisive bytes) entries j entry' ∧
      (i.withLimit lower).Settles bytes j entry'
        (.ok (.oversizedClassContainer entry'.name entry'.size)) := by
  have hlast := hsettles.oversized_of_limit_le hle
  rcases IsEarliest.exists_or_forall_not ((i.withLimit lower).IsDecisive bytes) entries with
    ⟨j, entry', hfirst'⟩ | hnone
  · rcases Nat.lt_trichotomy j k with hlt | rfl | hgt
    · have hpass := passes_of_not_isDecisive (hfirst.2.2 j hlt entry' hfirst'.1)
      obtain ⟨outcome, hsettles'⟩ := settles_of_isDecisive j hfirst'.2.1
      have hoversized := hpass.oversized_of_settles hle hsettles'
      exact ⟨j, hlt.le, entry', hfirst', hsettles'.eq_oversized hoversized ▸ hsettles'⟩
    · obtain rfl : entry = entry' := Option.some.inj (hfirst.1.symm.trans hfirst'.1)
      exact ⟨j, le_rfl, entry, hfirst', hlast⟩
    · exact absurd ⟨k, _, hlast⟩ (hfirst'.2.2 k hgt entry hfirst.1)
  · exact absurd ⟨k, _, hlast⟩ (hnone entry hfirst.mem)

end walk

section archives

variable {a : Zip.Archive} {k : ℕ}

theorem inspect_of_unmarked (hopen : Zip.Archive.open a.bytes = .ok a)
    (hunmarked : ∀ entry ∈ a.entries, ¬ Zip.IsFoundBy a.bytes neutralLibraryMarker entry) :
    i.inspect .never a.bytes = i.inspectFrom .never a.bytes 0 0 a.entries := by
  simp only [inspect, hopen, (a.findName?_eq_none_iff neutralLibraryMarker).mpr hunmarked]

theorem EndsOversized.outcome_eq (hopen : Zip.Archive.open a.bytes = .ok a)
    (h : i.EndsOversized a k entry) : (i.inspect .never a.bytes).outcome =
      .ok (.oversizedClassContainer entry.name entry.size) := by
  rw [inspect_of_unmarked hopen h.stops.unmarked]
  refine outcome_inspectFrom_of_isEarliest h.stops.isEarliest ?_
  rw [Nat.zero_add]
  exact h.oversized

/-- An inspection has this verdict exactly if it comes to an entry that is too large. -/
theorem outcome_inspect_eq_oversized_iff (i : Inspector) (bytes : ByteArray) (name : String)
    (size : ℕ) :
    (i.inspect .never bytes).outcome = .ok (.oversizedClassContainer name size) ↔
      ∃ a k entry, a.bytes = bytes ∧ Zip.Archive.open bytes = .ok a ∧ i.EndsOversized a k entry ∧
        entry.name = name ∧ entry.size = size := by
  constructor
  · intro h
    cases hopen : Zip.Archive.open bytes with
    | error fault => simp [inspect, hopen] at h
    | ok a =>
        obtain rfl := Zip.Archive.bytes_of_open hopen
        cases hmark : a.findName? neutralLibraryMarker with
        | some marker => simp [inspect, hopen, hmark] at h
        | none =>
            have hunmarked := (a.findName?_eq_none_iff neutralLibraryMarker).mp hmark
            rw [inspect_of_unmarked hopen hunmarked] at h
            rcases IsEarliest.exists_or_forall_not (i.IsDecisive a.bytes) a.entries with
              ⟨k, entry, hfirst⟩ | hnone
            · obtain ⟨outcome, hsettles⟩ := settles_of_isDecisive (0 + k) hfirst.2.1
              rw [outcome_inspectFrom_of_isEarliest hfirst hsettles] at h
              subst h
              rw [Nat.zero_add] at hsettles
              have hsame := Verdict.oversizedClassContainer.inj
                (Outcome.ok.inj (hsettles.eq_oversized ⟨name, size, rfl⟩))
              obtain ⟨rfl, rfl⟩ := hsame
              exact ⟨a, k, entry, rfl, rfl, ⟨⟨hunmarked, hfirst⟩, hsettles⟩, rfl, rfl⟩
            · simp [outcome_inspectFrom_of_forall_not hnone] at h
  · rintro ⟨a, k, entry, rfl, hopen, hends, rfl, rfl⟩
    exact hends.outcome_eq hopen

end archives

/-- An inspection that does not end because of a size does the same under every higher limit. One
that does, at the entry with index `k`, also does under every lower limit, at that entry or at one
before it. -/
theorem inspect_under_higher_limit (i : Inspector) (lower higher : ℕ) (hle : lower ≤ higher)
    (bytes : ByteArray) :
    ((∀ name size, ((i.withLimit lower).inspect .never bytes).outcome ≠
        .ok (.oversizedClassContainer name size)) →
      (i.withLimit higher).inspect .never bytes = (i.withLimit lower).inspect .never bytes) ∧
    (∀ name size, ((i.withLimit higher).inspect .never bytes).outcome =
        .ok (.oversizedClassContainer name size) →
      ∃ a k entry, Zip.Archive.open bytes = .ok a ∧ entry.name = name ∧ entry.size = size ∧
        (i.withLimit higher).EndsOversized a k entry ∧
        ∃ j ≤ k, ∃ entry', (i.withLimit lower).EndsOversized a j entry' ∧
          ((i.withLimit lower).inspect .never bytes).outcome =
            .ok (.oversizedClassContainer entry'.name entry'.size)) := by
  constructor
  · intro hother
    unfold inspect at hother ⊢
    cases hopen : Zip.Archive.open bytes with
    | error fault => rfl
    | ok a =>
        simp only [hopen] at hother ⊢
        cases hmark : a.findName? neutralLibraryMarker with
        | some marker => rfl
        | none =>
            simp only [hmark] at hother ⊢
            refine inspectFrom_of_limit_le hle ?_
            rintro ⟨name, size, hoversized⟩
            exact hother name size hoversized
  · intro name size houtcome
    obtain ⟨a, k, entry, rfl, hopen, hends, hname, hsize⟩ :=
      (outcome_inspect_eq_oversized_iff ..).mp houtcome
    obtain ⟨j, hj, entry', hfirst', hsettles'⟩ :=
      isEarliest_of_limit_le hle hends.stops.isEarliest hends.oversized
    have hends' : (i.withLimit lower).EndsOversized a j entry' :=
      ⟨⟨hends.stops.unmarked, hfirst'⟩, hsettles'⟩
    exact ⟨a, k, entry, hopen, hname, hsize, hends, j, hj, entry', hends',
      hends'.outcome_eq hopen⟩

/-- An inspector that finds no class in any container. -/
def findingNothing : Inspector := ⟨.builtin, 0, fun _ _ => .ok []⟩

theorem length_containerName_lt : containerName.length < 2 ^ 16 := by decide

def containerHeaders : List Zip.Header :=
  [emptyHeader 0 20 0 containerName length_containerName_lt,
    emptyHeader 0 30 41 containerName length_containerName_lt]

def containersFront : List UInt8 := emptyLocal 0 containerName ++ emptyLocal 0 containerName

/-- Two class containers of one name, which are listed as the headers say. -/
def containersArchive (headers : List Zip.Header) : ByteArray :=
  ⟨(containersFront ++ (Zip.directory headers ++ Zip.endRecord headers.length
    (Zip.directory headers).length containersFront.length [])).toArray⟩

theorem containersArchive_eq (headers : List Zip.Header) : containersArchive headers =
    (containersFront ++ (Zip.directory headers ++ Zip.endRecord headers.length
      (Zip.directory headers).length containersFront.length [])).toByteArray :=
  ByteArray.ext List.data_toByteArray.symm

/-- The containers declare 20 and 30 bytes. -/
def limitedArchive : ByteArray := containersArchive containerHeaders

/-- Under a limit of 25 bytes the second container ends the inspection, under one of 10 bytes the
first one does, and under all limits from 30 bytes on there is nothing to find. -/
theorem inspect_under_higher_limit_containers :
    10 ≤ 25 ∧ 30 ≤ 1000 ∧
    ((findingNothing.withLimit 25).inspect .never limitedArchive).outcome =
      .ok (.oversizedClassContainer "classes.dex" 30) ∧
    ((findingNothing.withLimit 10).inspect .never limitedArchive).outcome =
      .ok (.oversizedClassContainer "classes.dex" 20) ∧
    (∃ a k entry j entry', entry.size = 30 ∧ j ≤ k ∧
      (findingNothing.withLimit 25).EndsOversized a k entry ∧
      (findingNothing.withLimit 10).EndsOversized a j entry') ∧
    (findingNothing.withLimit 1000).inspect .never limitedArchive =
      (findingNothing.withLimit 30).inspect .never limitedArchive := by
  have hruns : ((findingNothing.withLimit 25).inspect .never limitedArchive).outcome =
        .ok (.oversizedClassContainer "classes.dex" 30) ∧
      ((findingNothing.withLimit 10).inspect .never limitedArchive).outcome =
        .ok (.oversizedClassContainer "classes.dex" 20) ∧
      ((findingNothing.withLimit 30).inspect .never limitedArchive).outcome = .ok .clean := by
    decide +kernel
  obtain ⟨hlater, hearlier, hclean⟩ := hruns
  obtain ⟨a, k, entry, -, -, hsize, hends, j, hj, entry', hends', -⟩ :=
    (inspect_under_higher_limit findingNothing 10 25 (by decide) limitedArchive).2 _ _ hlater
  refine ⟨by decide, by decide, hlater, hearlier,
    ⟨a, k, entry, j, entry', hsize, hj, hends, hends'⟩, ?_⟩
  refine (inspect_under_higher_limit findingNothing 30 1000 (by decide) limitedArchive).1 ?_
  intro name size houtcome
  rw [hclean] at houtcome
  cases houtcome

end Inspector

end VendorScreen
