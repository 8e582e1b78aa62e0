import VendorScreen.Proofs.Query.Calls
import VendorScreen.Proofs.Query.Decision

namespace VendorScreen

/-!
# What a query leaves undone

Decoding is the dear part of a query, and so is the archive. The decoder is called for the class
containers up to the entry that decides, once for each and in their order, and for that entry only
if nothing but its contents can decide. The archive is asked for once, and only if nothing before it
decided.
-/

/-- The decoder had a part in the outcome: its names or its fault. -/
def Outcome.isByDecoder : Outcome QueryError Verdict → Bool
  | .error (.decode _) | .ok (.classMatch _ _) => true
  | _ => false

def Call.isArchive : Call → Bool
  | .archive _ => true
  | _ => false

namespace Inspector

/-- One call of the decoder for each class container, with the size that it declares. -/
def decodings (entries : List Zip.Entry) : List Call :=
  (entries.filter fun entry => isClassContainer entry.name).map fun entry =>
    .decode entry.name entry.size

section walk

variable {i : Inspector} {flag : StopFlag} {bytes : ByteArray} {index count k : ℕ}
  {entry : Zip.Entry} {rest entries : List Zip.Entry} {outcome : Outcome QueryError Verdict}

theorem decodings_cons (entry : Zip.Entry) (rest : List Zip.Entry) :
    decodings (entry :: rest) = decodeCalls entry ++ decodings rest := by
  cases h : isClassContainer entry.name <;> simp [decodings, decodeCalls, h]

/-- An entry that settles something is decoded if the decoder has a part in what it settles. -/
theorem calls_inspectFrom_of_settles (hflag : flag (.beforeEntry index count) = false)
    (h : i.Settles bytes index entry outcome) (rest : List Zip.Entry) :
    (i.inspectFrom flag bytes index count (entry :: rest)).calls =
      if outcome.isByDecoder then [.decode entry.name entry.size] else [] := by
  cases h with
  | abandoned hopen => simp [inspectFrom, hopen, Outcome.isByDecoder]
  | unreadable hopen => simp [inspectFrom, hopen, hflag, Outcome.isByDecoder]
  | oversized hopen hname hsize =>
      simp [inspectFrom, hopen, hflag, hname, hsize, Outcome.isByDecoder]
  | undecodable hopen hname hsize hdecode =>
      simp [inspectFrom, hopen, hflag, hname, Nat.not_lt.mpr hsize,
        judgeContents_of_error hopen hdecode, Outcome.isByDecoder]
  | classMatch hopen hname hsize hdecode hfirst =>
      simp [inspectFrom, hopen, hflag, hname, Nat.not_lt.mpr hsize,
        judgeContents_of_match hopen hdecode hfirst, Outcome.isByDecoder]

/-- The whole report of a walk that ends at its first entry. -/
theorem inspectFrom_eq_of_settles (hflag : flag (.beforeEntry index count) = false)
    (h : i.Settles bytes index entry outcome) (rest : List Zip.Entry) :
    i.inspectFrom flag bytes index count (entry :: rest) =
      ⟨outcome, if outcome.isByDecoder then [.decode entry.name entry.size] else []⟩ := by
  obtain ⟨calls, hreport⟩ := inspectFrom_of_settles hflag h
  have hcalls := calls_inspectFrom_of_settles hflag h rest
  rw [hreport] at hcalls ⊢
  exact congrArg (QueryReport.mk outcome) hcalls

theorem calls_inspectFrom_of_isEarliest
    (hfirst : IsEarliest (i.IsDecisive bytes) entries k entry)
    (h : i.Settles bytes (index + k) entry outcome) :
    (i.inspectFrom .never bytes index count entries).calls =
      decodings (entries.take k) ++
        if outcome.isByDecoder then [.decode entry.name entry.size] else [] := by
  induction entries generalizing index count k with
  | nil => exact (IsEarliest.nil_iff.mp hfirst).elim
  | cons first rest ih =>
      cases k with
      | zero =>
          obtain ⟨rfl, -⟩ := IsEarliest.zero_iff.mp hfirst
          rw [Nat.add_zero] at h
          rw [calls_inspectFrom_of_settles (StopFlag.never_apply _) h]
          rfl
      | succ k =>
          obtain ⟨hpass, hlater⟩ := IsEarliest.succ_iff.mp hfirst
          have h' : i.Settles bytes (index + 1 + k) entry outcome := by
            rwa [Nat.add_assoc, Nat.add_comm 1]
          rw [inspectFrom_eq_of_passes (StopFlag.never_apply _) (passes_of_not_isDecisive hpass),
            QueryReport.calls_preceded, ih hlater h', List.take_succ_cons, decodings_cons,
            List.append_assoc]

theorem calls_inspectFrom_of_forall_not (h : ∀ entry ∈ entries, ¬ i.IsDecisive bytes entry) :
    (i.inspectFrom .never bytes index count entries).calls = decodings entries := by
  induction entries generalizing index count with
  | nil => rfl
  | cons first rest ih =>
      have hpass := passes_of_not_isDecisive (h first List.mem_cons_self)
      rw [inspectFrom_eq_of_passes (StopFlag.never_apply _) hpass, QueryReport.calls_preceded,
        ih fun entry hentry => h entry (List.mem_cons_of_mem first hentry), decodings_cons]

end walk

section archives

variable {i : Inspector} {host : Host} {flag : StopFlag} {bytes : ByteArray} {id : String}

theorem filter_isArchive_inspect : (i.inspect flag bytes).calls.filter Call.isArchive = [] := by
  rw [List.filter_eq_nil_iff]
  intro call hcall
  obtain ⟨entry, size, rfl⟩ := exists_decode_of_mem_inspect hcall
  exact Bool.false_ne_true

theorem filter_isArchive_classifyArchive :
    (i.classifyArchive host flag id).calls.filter Call.isArchive =
      if flag .beforeArchive then [] else [.archive id] := by
  rw [classifyArchive_eq]
  cases flag .beforeArchive with
  | true => rfl
  | false =>
      simp only [afterFlag, Bool.false_eq_true, if_false]
      cases host.archive id with
      | error fault => rfl
      | ok bytes =>
          rw [QueryReport.calls_preceded, List.filter_append, filter_isArchive_inspect]
          rfl

theorem filter_isArchive_classify_of_reachesArchive (h : i.ReachesArchive host id) :
    (i.classify host flag id).calls.filter Call.isArchive =
      if flag .beforeArchive then [] else [.archive id] := by
  obtain ⟨⟨hskip, hflagged⟩, components, hlist, hnone⟩ := h
  have hfind := List.find?_eq_none.mpr hnone
  simp only [classify_eq, afterNames, hskip, hflagged, hlist, hfind, Bool.false_eq_true, if_false]
  rw [QueryReport.calls_preceded, List.filter_append, filter_isArchive_classifyArchive]
  rfl

theorem filter_isArchive_classify_of_not_reachesArchive (h : ¬ i.ReachesArchive host id) :
    (i.classify host flag id).calls.filter Call.isArchive = [] := by
  rw [classify_eq]
  split
  · rfl
  · split
    · rfl
    · rename_i hskip hflagged
      unfold afterNames
      split
      · rfl
      · split
        · rfl
        · rename_i components hlist _ hfind
          have hname : i.NameDecidesNothing id :=
            ⟨Bool.eq_false_of_not_eq_true hskip, Bool.eq_false_of_not_eq_true hflagged⟩
          exact absurd ⟨hname, components, hlist, List.find?_eq_none.mp hfind⟩ h

end archives

/-- An inspection calls the decoder for no class container unless the archive opens and holds no
marker. Then it calls it once for each class container in front of the deciding entry, in order, and
for the deciding entry exactly if its names or its fault decide; without a deciding entry it calls
it once for each. A classification asks for the archive once, if nothing in front decides and its
flag is unset at that moment, and otherwise never. -/
theorem decoder_and_archive_calls (i : Inspector) (bytes : ByteArray) (host : Host)
    (flag : StopFlag) (id : String) :
    (∀ fault, Zip.Archive.open bytes = .error fault → (i.inspect .never bytes).calls = []) ∧
    (∀ archive, Zip.Archive.open bytes = .ok archive →
      ((∃ entry ∈ archive.entries, Zip.IsFoundBy bytes neutralLibraryMarker entry) →
        (i.inspect .never bytes).calls = []) ∧
      ((∀ entry ∈ archive.entries, ¬ Zip.IsFoundBy bytes neutralLibraryMarker entry) →
        (∀ k entry, IsEarliest (i.IsDecisive bytes) archive.entries k entry →
          ∃ outcome, i.Settles bytes k entry outcome ∧
            (i.inspect .never bytes).outcome = outcome ∧
            (i.inspect .never bytes).calls = decodings (archive.entries.take k) ++
              if outcome.isByDecoder then [.decode entry.name entry.size] else []) ∧
        ((∀ entry ∈ archive.entries, ¬ i.IsDecisive bytes entry) →
          (i.inspect .never bytes).outcome = .ok .clean ∧
          (i.inspect .never bytes).calls = decodings archive.entries))) ∧
    (i.ReachesArchive host id ∧ flag .beforeArchive = false →
      (i.classify host flag id).calls.filter Call.isArchive = [.archive id]) ∧
    (¬ (i.ReachesArchive host id ∧ flag .beforeArchive = false) →
      (i.classify host flag id).calls.filter Call.isArchive = []) := by
  refine ⟨?_, ?_, ?_, ?_⟩
  · intro fault hopen
    simp only [inspect, hopen]
  · intro archive hopen
    obtain rfl := Zip.Archive.bytes_of_open hopen
    refine ⟨?_, fun hunmarked => ?_⟩
    · rintro ⟨entry, hmem, hfound⟩
      cases hmark : archive.findName? neutralLibraryMarker with
      | none => exact absurd hfound ((archive.findName?_eq_none_iff _).mp hmark entry hmem)
      | some name => simp only [inspect, hopen, hmark]
    · have hwalk : i.inspect .never archive.bytes =
          i.inspectFrom .never archive.bytes 0 0 archive.entries := by
        simp only [inspect, hopen, (archive.findName?_eq_none_iff _).mpr hunmarked]
      rw [hwalk]
      refine ⟨?_, ?_⟩
      · intro k entry hfirst
        obtain ⟨outcome, hsettles⟩ := settles_of_isDecisive k hfirst.2.1
        have hplace : i.Settles archive.bytes (0 + k) entry outcome := by rwa [Nat.zero_add]
        exact ⟨outcome, hsettles, outcome_inspectFrom_of_isEarliest hfirst hplace,
          calls_inspectFrom_of_isEarliest hfirst hplace⟩
      · intro hnone
        exact ⟨outcome_inspectFrom_of_forall_not hnone, calls_inspectFrom_of_forall_not hnone⟩
  · rintro ⟨hreaches, hflag⟩
    rw [filter_isArchive_classify_of_reachesArchive hreaches, hflag]
    rfl
  · intro h
    by_cases hreaches : i.ReachesArchive host id
    · have hflag : flag .beforeArchive = true := by
        simpa using fun hunset => h ⟨hreaches, hunset⟩
      rw [filter_isArchive_classify_of_reachesArchive hreaches, hflag]
      rfl
    · exact filter_isArchive_classify_of_not_reachesArchive hreaches

end Inspector

end VendorScreen
