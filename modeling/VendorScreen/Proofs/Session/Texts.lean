import VendorScreen.Proofs.PackageRecord
import VendorScreen.Proofs.Session.Live

namespace VendorScreen

/-!
# Texts that a session hands out

The packages, and the flagged ones among them, are also handed out in JSON. Who reads the text has
what the session says without it.
-/

/-- The identifiers in the text of an array. -/
def readIdentifiers? (text : String) : Option (List String) := (Json.read? text).bind Json.texts?

namespace Session

/-- All times of installation fit 64 bits, those that are kept and those that the host tells. -/
structure HasInt64Times (s : Session) : Prop where
  kept : ∀ records, s.inventory.packages = some records →
    ∀ r ∈ records, IsInt64 r.firstInstallTime
  installed : ∀ packages, s.host.installed = .ok packages →
    ∀ p ∈ packages, IsInt64 p.firstInstallTime

variable {s : Session} {i : Inspector} {w : Waiting} {records : List PackageRecord}

theorem isInt64_of_mem_kept {hostIdentifier : Option String} {installed : List InstalledPackage}
    (h : ∀ p ∈ installed, IsInt64 p.firstInstallTime) :
    ∀ r ∈ Inventory.kept hostIdentifier installed, IsInt64 r.firstInstallTime := by
  intro r hr
  obtain ⟨p, hp, rfl⟩ := List.mem_map.mp hr
  exact h p (List.mem_of_mem_filter hp)

/-- What is handed out as records is kept from then on, and its times fit 64 bits. -/
theorem listed_of_answer (hs : s.HasInt64Times)
    (h : (s.serve i w (.packages .records)).answer = .records records) :
    (s.inventory.list s.host).value = .ok records ∧
      (s.inventory.list s.host).inventory.packages = some records ∧
      ∀ r ∈ records, IsInt64 r.firstInstallTime := by
  simp only [serve, packages] at h
  cases hkept : s.inventory.packages with
  | some before =>
      rw [Inventory.list_of_packages hkept] at h ⊢
      obtain rfl := Answer.records.inj h
      exact ⟨rfl, hkept, hs.kept before hkept⟩
  | none =>
      cases hhost : s.host.installed with
      | error fault =>
          rw [Inventory.list_of_error hkept hhost] at h
          cases h
      | ok installed =>
          rw [Inventory.list_of_ok hkept hhost] at h ⊢
          obtain rfl := Answer.records.inj h
          exact ⟨rfl, rfl, isInt64_of_mem_kept (hs.installed installed hhost)⟩

/-- A report that is written is read back whole, and a record as a report without permissions. So
the text with all packages has the records that the session hands out, in their order, and the text
with the flagged ones, unless a query is abandoned on the way, has the identifiers of those that are
flagged. -/
theorem written_records_read_back :
    (∀ p : InstalledPackage, IsInt64 p.firstInstallTime →
      InstalledPackage.read? p.toJson.write = some p ∧
      InstalledPackage.read? (PackageRecord.ofInstalled p).toJson.write =
        some { p with requestedPermissions := [] }) ∧
    ∀ (s : Session) (i : Inspector) (w : Waiting) (records : List PackageRecord),
      s.HasInt64Times → (s.serve i w (.packages .records)).answer = .records records →
      (∃ text, (s.serve i w (.packages .text)).answer = .text text ∧
        InstalledPackage.readList? text = some (records.map PackageRecord.bare)) ∧
      ((s.serve i w .flaggedText).answer ≠ .abandoned →
        ∃ ids text, (s.serve i w .flaggedPackages).answer = .identifiers ids ∧
          (s.serve i w .flaggedText).answer = .text text ∧ readIdentifiers? text = some ids ∧
          ids = (records.map PackageRecord.packageName).filter fun id =>
            (s.serve i w (.isFlagged id)).answer = .flagged true) := by
  refine ⟨?_, ?_⟩
  · intro p htime
    constructor
    · rw [InstalledPackage.read?, Json.read?_write p.hasText_toJson]
      exact InstalledPackage.ofJson?_toJson htime
    · rw [InstalledPackage.read?, Json.read?_write (PackageRecord.hasText_toJson _)]
      exact PackageRecord.ofJson?_toJson htime
  · intro s i w records hs h
    obtain ⟨hvalue, hkept, htimes⟩ := listed_of_answer hs h
    constructor
    · refine ⟨(PackageRecord.listJson records).write, ?_, ?_⟩
      · simp only [serve, packages, hvalue]
        rfl
      · rw [InstalledPackage.readList?, Json.read?_write (PackageRecord.hasText_listJson records)]
        exact PackageRecord.list?_listJson htimes
    · intro hanswered
      set ids := (records.map PackageRecord.packageName).filter fun id =>
        (s.serve i w (.isFlagged id)).answer = .flagged true with hids
      have hall : ¬ ∃ id ∈ records.map PackageRecord.packageName,
          (s.serve i w (.isFlagged id)).answer = .abandoned := by
        intro habandoned
        rw [answer_of_listed rfl hkept, if_pos habandoned] at hanswered
        exact hanswered rfl
      refine ⟨ids, (Json.texts ids).write, ?_, ?_, ?_, rfl⟩
      · rw [answer_of_listed rfl hkept, if_neg hall]
      · rw [answer_of_listed rfl hkept, if_neg hall]
      · rw [readIdentifiers?, Json.read?_write (Json.hasText_texts ids)]
        exact Json.texts?_texts ids

/-- A package whose strings need all kinds of escapes, installed at the earliest time there is. -/
def escapedPackage : InstalledPackage :=
  ⟨"a\"\\\n\x01😀", "\t/", true, -Json.int64Limit, ["p\r", ""]⟩

/-- A session on a host whose packages all declare a component of the vendor. -/
def escapedSession : Session where
  host :=
    { installed := .ok [escapedPackage]
      components := fun id => .ok [⟨id, "com.vendor.Push"⟩]
      archive := fun id => .error (.packageNotFound id)
      icon := fun _ => .ok none
      defaultIcon := .ok none }
  inventory := .empty none

theorem written_records_read_back_escaped :
    InstalledPackage.read? escapedPackage.toJson.write = some escapedPackage ∧
    escapedSession.HasInt64Times ∧
    (escapedSession.serve vendorOnly .inLine (.packages .records)).answer =
      .records [.ofInstalled escapedPackage] ∧
    (∃ text, (escapedSession.serve vendorOnly .inLine (.packages .text)).answer = .text text ∧
      InstalledPackage.readList? text =
        some [{ escapedPackage with requestedPermissions := [] }]) ∧
    ∃ text, (escapedSession.serve vendorOnly .inLine .flaggedText).answer = .text text ∧
      readIdentifiers? text = some [escapedPackage.packageName] := by
  obtain ⟨hpackage, hsession⟩ := written_records_read_back
  have htime : IsInt64 escapedPackage.firstInstallTime := by decide
  have htimes : escapedSession.HasInt64Times := by
    constructor
    · intro records hkept
      cases hkept
    · intro installed hinstalled p hp
      obtain rfl := Except.ok.inj hinstalled
      obtain rfl := List.mem_singleton.mp hp
      exact htime
  have hrecords : (escapedSession.serve vendorOnly .inLine (.packages .records)).answer =
      .records [.ofInstalled escapedPackage] := by rfl
  have hflagged : (escapedSession.serve vendorOnly .inLine
      (.isFlagged escapedPackage.packageName)).answer = .flagged true := by decide +kernel
  obtain ⟨htext, hidentifiers⟩ := hsession _ vendorOnly .inLine _ htimes hrecords
  have hanswered : (escapedSession.serve vendorOnly .inLine .flaggedText).answer ≠ .abandoned := by
    decide +kernel
  obtain ⟨ids, text, -, hanswer, hread, hids⟩ := hidentifiers hanswered
  refine ⟨(hpackage escapedPackage htime).1, htimes, hrecords, htext, text, hanswer, ?_⟩
  rw [hread, hids]
  simp [PackageRecord.ofInstalled, hflagged]

end Session

end VendorScreen
