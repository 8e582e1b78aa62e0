import VendorScreen.Batch
import VendorScreen.Proofs.Query.Work

namespace VendorScreen

/-!
# What a query calls

A query asks the host about the components and the archive of its own package, and has entries
decoded. It never asks for the packages or for an icon.
-/

/-- The call is one that a query about the package makes. -/
def Call.isOfQuery (id : String) : Call → Bool
  | .components id' | .archive id' => id' = id
  | .decode _ _ => true
  | .inventory | .icon _ | .defaultIcon => false

namespace Inspector

variable {i : Inspector} {host : Host} {flag : StopFlag} {bytes : ByteArray} {w : Waiting}
  {id : String} {call : Call}

theorem exists_decode_of_mem_inspectFrom {index decodings : ℕ} {entries : List Zip.Entry}
    (h : call ∈ (i.inspectFrom flag bytes index decodings entries).calls) :
    ∃ entry size, call = .decode entry size := by
  induction entries generalizing index decodings with
  | nil => simp [inspectFrom] at h
  | cons entry rest ih =>
      rw [inspectFrom] at h
      split at h
      · simp at h
      · split at h <;> simp at h
      · split at h
        · simp at h
        · split at h
          · split at h
            · simp at h
            · split at h
              · exact ⟨_, _, List.mem_singleton.mp h⟩
              · rcases List.mem_cons.mp h with hcall | h
                · exact ⟨_, _, hcall⟩
                · exact ih h
          · exact ih h

/-- An archive that has been handed over costs nothing but decodings. -/
theorem exists_decode_of_mem_inspect (h : call ∈ (i.inspect flag bytes).calls) :
    ∃ entry size, call = .decode entry size := by
  unfold inspect at h
  split at h
  · simp at h
  · split at h
    · simp at h
    · exact exists_decode_of_mem_inspectFrom h

theorem isOfQuery_of_mem_afterFlag (h : call ∈ (i.afterFlag host id flag).calls) :
    call.isOfQuery id = true := by
  unfold afterFlag at h
  split at h
  · rw [List.mem_singleton.mp h]
    exact decide_eq_true rfl
  · rcases List.mem_cons.mp h with rfl | h
    · exact decide_eq_true rfl
    · obtain ⟨entry, size, rfl⟩ := exists_decode_of_mem_inspect h
      rfl

theorem isOfQuery_of_mem_afterNames (h : call ∈ (i.afterNames host id flag).calls) :
    call.isOfQuery id = true := by
  unfold afterNames at h
  split at h
  · rw [List.mem_singleton.mp h]
    exact decide_eq_true rfl
  · split at h
    · rw [List.mem_singleton.mp h]
      exact decide_eq_true rfl
    · rcases List.mem_cons.mp h with rfl | h
      · exact decide_eq_true rfl
      · rw [classifyArchive_eq] at h
        split at h
        · simp at h
        · exact isOfQuery_of_mem_afterFlag h

theorem isOfQuery_of_mem_classify (h : call ∈ (i.classify host flag id).calls) :
    call.isOfQuery id = true := by
  rw [classify_eq] at h
  split at h
  · simp at h
  · split at h
    · simp at h
    · exact isOfQuery_of_mem_afterNames h

theorem isOfQuery_of_mem_ask (h : call ∈ (i.ask host w id).calls) : call.isOfQuery id = true := by
  unfold ask Waiting.answer at h
  split at h
  · exact isOfQuery_of_mem_classify h
  · split at h
    · exact isOfQuery_of_mem_classify (List.mem_of_mem_filter h)
    · exact isOfQuery_of_mem_classify h

theorem isOfQuery_of_mem_batchCalls {ids : List String} (h : call ∈ i.batchCalls host w ids) :
    ∃ id ∈ ids, call.isOfQuery id = true := by
  obtain ⟨id, hid, hcall⟩ := List.mem_flatMap.mp h
  exact ⟨id, hid, isOfQuery_of_mem_ask hcall⟩

end Inspector

end VendorScreen
