import VendorScreen.Query

namespace VendorScreen

/-!
# A host in memory

Packages are registered with what the host is to answer about them: values or faults. A question can
also set the stop flag of the query that asks, and an archive can be held back until that query has
been given up.
-/

inductive StopPoint where
  | components
  | archive
deriving DecidableEq, Repr

structure RegisteredPackage where
  id : String
  installed : Option InstalledPackage
  components : List String
  archive : Option ByteArray
  icon : Option ByteArray
  componentsFault : Option HostFault
  archiveFault : Option HostFault
  iconFault : Option HostFault
  /-- The question that sets the stop flag of the query that asks it. -/
  stopsAt : Option StopPoint
  /-- The archive is handed over only after the query has been given up. -/
  isHeldBack : Bool

structure Registry where
  packages : List RegisteredPackage
  icon : Option ByteArray
  inventoryFault : Option HostFault
  iconFault : Option HostFault

namespace Registry

def find? (r : Registry) (id : String) : Option RegisteredPackage :=
  r.packages.find? fun p => p.id = id

/-- An answer about a registered package, unless a fault is set for it. -/
def answer {α : Type} (r : Registry) (id : String) (fault : RegisteredPackage → Option HostFault)
    (value : RegisteredPackage → Except HostFault α) : Except HostFault α :=
  match r.find? id with
  | none => .error (.packageNotFound id)
  | some p =>
      match fault p with
      | some fault => .error fault
      | none => value p

def host (r : Registry) : Host where
  installed :=
    match r.inventoryFault with
    | some fault => .error fault
    | none => .ok (r.packages.filterMap RegisteredPackage.installed)
  components id :=
    r.answer id RegisteredPackage.componentsFault fun p =>
      .ok (p.components.map fun className => ⟨id, className⟩)
  archive id :=
    r.answer id RegisteredPackage.archiveFault fun p =>
      match p.archive with
      | some bytes => .ok bytes
      | none => .error (.notFound ("archive of " ++ id))
  icon id := r.answer id RegisteredPackage.iconFault fun p => .ok p.icon
  defaultIcon :=
    match r.iconFault with
    | some fault => .error fault
    | none => .ok r.icon

/-- What a query about the package sees of its stop flag. -/
def stopFlag (r : Registry) (id : String) : StopFlag :=
  match (r.find? id).bind RegisteredPackage.stopsAt with
  | none => .never
  | some .components => .always
  | some .archive => .fromArchive

/-- A question of the query about the package has set its stop flag. -/
def hasStopped (r : Registry) (id : String) (calls : List Call) : Bool :=
  match (r.find? id).bind RegisteredPackage.stopsAt with
  | none => false
  | some .components => calls.contains (.components id)
  | some .archive => calls.contains (.archive id)

def holdsBack (r : Registry) (id : String) : Bool :=
  match r.find? id with
  | none => false
  | some p => p.isHeldBack

/-- The query asks for an archive that is held back. -/
def isOverdue (r : Registry) (id : String) (report : QueryReport) : Bool :=
  r.holdsBack id && report.calls.contains (.archive id)

/-- Puts the package in the place of the first one with its identifier, or at the end. -/
def insertInto (p : RegisteredPackage) : List RegisteredPackage → List RegisteredPackage
  | [] => [p]
  | q :: rest => if q.id = p.id then p :: rest else q :: insertInto p rest

def insert (r : Registry) (p : RegisteredPackage) : Registry :=
  { r with packages := insertInto p r.packages }

def erase (r : Registry) (id : String) : Registry :=
  { r with packages := r.packages.filter fun p => p.id ≠ id }

end Registry

end VendorScreen
