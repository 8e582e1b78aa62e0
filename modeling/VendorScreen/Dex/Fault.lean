import VendorScreen.Text.Quoted

namespace VendorScreen.Dex

/-!
# Faults of class containers

Why no class names can be had from a container. A number that is read is named by its place in the
format, so a fault says which one was missing.
-/

/-- A place in the format from which numbers are read. -/
inductive Place where
  | endianTag
  | headerSize
  | fileSize
  | tableSize
  | tableOffset
  | file
  | stringIds
  | typeIds
  | classDefs
  | classDef
deriving DecidableEq, Repr

def Place.label : Place → String
  | endianTag => "endian tag"
  | headerSize => "header size"
  | fileSize => "file size"
  | tableSize => "table size"
  | tableOffset => "table offset"
  | file => "file"
  | stringIds => "string_ids"
  | typeIds => "type_ids"
  | classDefs => "class_defs"
  | classDef => "class_def"

inductive Fault where
  | source (reason : String)
  | tooShort (size : Nat)
  | badMagic (magic : List UInt8)
  | unsupportedEndian (tag : Nat)
  | outOfBounds (place : Place) (offset : Nat)
  | indexOutOfRange (place : Place) (index size : Nat)
  | badString (offset : Nat)
  | badDescriptor (descriptor : String)
deriving DecidableEq, Repr

/-- Hexadecimal digits with zeros in front up to the given width. -/
def paddedHex (width n : Nat) : String :=
  let digits := Text.hexDigits n
  String.ofList (List.replicate (width - digits.length) '0' ++ digits)

def Fault.message : Fault → String
  | source reason => "reading class container: " ++ reason
  | tooShort size => "class container too short (" ++ toString size ++ " bytes)"
  | badMagic magic =>
      "bad class container magic ["
        ++ ", ".intercalate (magic.map fun byte => paddedHex 2 byte.toNat) ++ "]"
  | unsupportedEndian tag => "unsupported endian tag 0x" ++ paddedHex 8 tag
  | outOfBounds place offset =>
      place.label ++ " at 0x" ++ paddedHex 1 offset ++ " runs past end of container"
  | indexOutOfRange place index size =>
      place.label ++ " index " ++ toString index ++ " out of range (size " ++ toString size ++ ")"
  | badString offset => "malformed string data at 0x" ++ paddedHex 1 offset
  | badDescriptor descriptor => "not a class type descriptor: " ++ Text.quote descriptor

end VendorScreen.Dex
