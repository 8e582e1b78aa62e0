namespace VendorScreen

/-!
# Hosts

The platform that owns the packages answers five kinds of question. A host is the table of its
answers at one moment; what changes between two questions is another host.
-/

/-- A package as the platform reports it. -/
structure InstalledPackage where
  packageName : String
  label : String
  isSystem : Bool
  firstInstallTime : Int
  requestedPermissions : List String
deriving DecidableEq, Repr

namespace InstalledPackage

def requests (p : InstalledPackage) (permission : String) : Bool :=
  p.requestedPermissions.contains permission

end InstalledPackage

/-- A service, activity, receiver or provider that a package declares. -/
structure Component where
  owner : String
  className : String
deriving DecidableEq, Repr

inductive HostFault where
  | packageNotFound (id : String)
  | notFound (what : String)
  | io (reason : String)
deriving DecidableEq, Repr

namespace HostFault

def message : HostFault → String
  | packageNotFound id => "package " ++ id ++ " not found"
  | notFound what => what ++ " not found"
  | io reason => reason

/-- The name of the case in reports. -/
def kind : HostFault → String
  | packageNotFound _ => "package-not-found"
  | notFound _ => "not-found"
  | io _ => "host-io"

end HostFault

structure Host where
  installed : Except HostFault (List InstalledPackage)
  components : String → Except HostFault (List Component)
  archive : String → Except HostFault ByteArray
  icon : String → Except HostFault (Option ByteArray)
  defaultIcon : Except HostFault (Option ByteArray)

/-- A question to the host, or the decoding of one entry of an archive. -/
inductive Call where
  | inventory
  | components (id : String)
  | archive (id : String)
  | icon (id : String)
  | defaultIcon
  | decode (entry : String) (declaredSize : Nat)
deriving DecidableEq, Repr

end VendorScreen
