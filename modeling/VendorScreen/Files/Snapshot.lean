import VendorScreen.Base64
import VendorScreen.Files.Tree
import VendorScreen.Json.Fields

namespace VendorScreen.Files

/-!
# Snapshots

A snapshot lists the files of a tree in JSON, one record each: a directory, a link with its target,
or a file with its contents, as text or in base 64, and its time of modification.
-/

/-- The contents of a file. A record without any is that of an empty file. -/
def contents? (fields : List (Option String × Json)) : Option ByteArray := do
  match ← Json.field? fields "text" Json.text? with
  | some text => return text.toUTF8
  | none => Base64.decode? (← Json.fieldD? fields "b64" Json.text? "")

/-- The node that a record describes. -/
def Node.ofFields? (fields : List (Option String × Json)) : Option Node := do
  match ← Json.field? fields "symlink" Json.text? with
  | some target => return .link target
  | none =>
      if ← Json.fieldD? fields "dir" Json.bool? false then return .directory []
      else return .kept (← contents? fields) (← Json.fieldD? fields "mtime_ms" Json.int64? 0)

namespace Tree

/-- Adds the node of a record. Its path is seen from the current directory. -/
def insertRecord? (t : Tree) : Json → Option Tree
  | .object fields => do
      let path ← Json.required? fields "path" Json.text?
      let node ← Node.ofFields? fields
      return t.insert (Path.join t.current path) node
  | _ => none

/-- The tree of some records, with the current directory in it. -/
def ofRecords? (current : String) (records : List Json) : Option Tree :=
  records.foldlM insertRecord? ((empty current).insert current (.directory []))

end Tree

end VendorScreen.Files
