namespace VendorScreen.Zip

/-!
# Faults of archives

Why an archive cannot be opened, or one of its entries. Running out of bytes is kept apart from a
contradiction in the data and from a feature that is not supported.
-/

inductive Malformation where
  | tooShort
  | noEndRecord
  | directoryExtent
  | noRoomForWideEndRecord
  | noWideEndRecord
  | directoryHeader
  | headerOffset
  | encryptionVendor
  | encryptionVersion
  | encryptionStrength
  | encryptionItemMissing
  | localHeader
deriving DecidableEq, Repr

inductive Limitation where
  | multipleDisks
  | encryptionItemLength
  | password
  | compressionMethod
deriving DecidableEq, Repr

inductive Fault where
  | malformed (cause : Malformation)
  | unsupported (cause : Limitation)
  | endOfBytes
deriving DecidableEq, Repr

def Malformation.message : Malformation → String
  | tooShort => "Invalid zip header"
  | noEndRecord => "Could not find central directory end"
  | directoryExtent => "Invalid central directory size or offset"
  | noRoomForWideEndRecord => "File cannot contain ZIP64 central directory end"
  | noWideEndRecord => "Could not find ZIP64 central directory end"
  | directoryHeader => "Invalid Central Directory header"
  | headerOffset => "Archive header is too large"
  | encryptionVendor => "Invalid AES vendor"
  | encryptionVersion => "Invalid AES vendor version"
  | encryptionStrength => "Invalid AES encryption strength"
  | encryptionItemMissing => "AES encryption without AES extra data field"
  | localHeader => "Invalid local file header"

def Limitation.message : Limitation → String
  | multipleDisks => "Support for multi-disk files is not implemented"
  | encryptionItemLength => "AES extra data field has an unsupported length"
  | password => "Password required to decrypt file"
  | compressionMethod => "Compression method not supported"

def Fault.message : Fault → String
  | malformed cause => "invalid Zip archive: " ++ cause.message
  | unsupported cause => "unsupported Zip archive: " ++ cause.message
  | endOfBytes => "failed to fill whole buffer"

end VendorScreen.Zip
