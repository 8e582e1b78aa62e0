namespace VendorScreen.Crc32

/-!
# The checksum of archive entries

The cyclic redundancy check with the reflected polynomial `0xEDB88320`, computed a byte at a time
from a table of the 256 single-byte remainders.
-/

/-- One bit of polynomial division. -/
def shift (r : UInt32) : UInt32 :=
  if r &&& 1 = 1 then (r >>> 1) ^^^ 0xedb88320 else r >>> 1

/-- The remainder of a single byte. -/
def byteRemainder (byte : UInt32) : UInt32 :=
  shift (shift (shift (shift (shift (shift (shift (shift byte)))))))

def table : Array UInt32 := (Array.range 256).map fun byte => byteRemainder byte.toUInt32

/-- Takes one more byte into the running remainder. -/
def update (r : UInt32) (byte : UInt8) : UInt32 :=
  table.getD ((r ^^^ byte.toUInt32) &&& 0xff).toNat 0 ^^^ (r >>> 8)

def checksum (b : ByteArray) : UInt32 :=
  b.foldl update 0xffffffff ^^^ 0xffffffff

end VendorScreen.Crc32
