import VendorScreen.Proofs.Query.Decision

namespace VendorScreen.Inspector

/-!
# Walks side by side

Two walks over entries that correspond to each other go on together as long as one of them does.
Where it ends, the other one ends in the same way, or nothing is asked about how it ends.
-/

variable {Q : Outcome QueryError Verdict → Outcome QueryError Verdict → Prop} {i i' : Inspector}
  {flag : StopFlag} {b b' : ByteArray} {index decodings : ℕ} {entries entries' : List Zip.Entry}

/-- A relation between ends of walks that says nothing about two ends without a verdict. -/
structure IsComparison (Q : Outcome QueryError Verdict → Outcome QueryError Verdict → Prop) :
    Prop where
  same (outcome : Outcome QueryError Verdict) : Q outcome outcome
  noVerdict {outcome outcome' : Outcome QueryError Verdict} (h : ∀ verdict, outcome ≠ .ok verdict)
    (h' : ∀ verdict, outcome' ≠ .ok verdict) : Q outcome outcome'

/-- The first walk is where it has to be when the second one has dealt with its entry. -/
structure KeepsUp (Q : Outcome QueryError Verdict → Outcome QueryError Verdict → Prop)
    (i i' : Inspector) (b b' : ByteArray) (entry entry' : Zip.Entry) : Prop where
  calls : decodeCalls entry = decodeCalls entry'
  passes : i'.Passes b' entry' → i.Passes b entry
  settles {index : ℕ} {outcome : Outcome QueryError Verdict} :
    i'.Settles b' index entry' outcome →
      i.Settles b index entry outcome ∨ ∀ other, Q other outcome

/-- What holds of the ends of two entries holds of the ends of two walks. -/
theorem compare_inspectFrom (hQ : IsComparison Q)
    (h : List.Forall₂ (KeepsUp Q i i' b b') entries entries') :
    Q (i.inspectFrom flag b index decodings entries).outcome
      (i'.inspectFrom flag b' index decodings entries').outcome := by
  induction h generalizing index decodings with
  | nil => exact hQ.same _
  | @cons entry entry' rest rest' hentry _ ih =>
      cases hflag : flag (.beforeEntry index decodings) with
      | true =>
          -- Both walks look at the flag at this moment, so neither goes on.
          apply hQ.noVerdict
          · exact outcome_inspectFrom_of_flag hflag
          · exact outcome_inspectFrom_of_flag hflag
      | false =>
          rcases i'.settles_or_passes b' index entry' with ⟨outcome, hsettles'⟩ | hpass'
          · obtain ⟨calls', hreport'⟩ := inspectFrom_of_settles hflag hsettles'
            rw [hreport']
            rcases hentry.settles hsettles' with hsettles | hany
            · obtain ⟨calls, hreport⟩ := inspectFrom_of_settles hflag hsettles
              rw [hreport]
              exact hQ.same outcome
            · exact hany _
          · have hpass := hentry.passes hpass'
            rw [inspectFrom_eq_of_passes hflag hpass, inspectFrom_eq_of_passes hflag hpass',
              QueryReport.outcome_preceded, QueryReport.outcome_preceded, hentry.calls]
            exact ih

end VendorScreen.Inspector
