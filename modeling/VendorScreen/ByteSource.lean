namespace VendorScreen

/-!
# Sources of bytes

A decoder is fed by reads of sizes it does not choose, any of which may fail. A source lists what
successive reads give; an empty piece is the end.
-/

inductive ByteSource where
  | finished
  | failing (reason : String)
  | piece (bytes : ByteArray) (rest : ByteSource)

namespace ByteSource

/-- Everything up to the end, after what is already in `done`. -/
def drainOnto (done : ByteArray) : ByteSource → Except String ByteArray
  | finished => .ok done
  | failing reason => .error reason
  | piece bytes rest => if bytes.isEmpty then .ok done else drainOnto (done ++ bytes) rest

/-- Everything up to the end. A failure on the way leaves nothing. -/
def drain (source : ByteSource) : Except String ByteArray := source.drainOnto ByteArray.empty

/-- At most `count` bytes, after what is already in `done`. -/
def takeOnto (done : ByteArray) (count : Nat) : ByteSource → Except String ByteArray
  | finished => .ok done
  | failing reason => if count = 0 then .ok done else .error reason
  | piece bytes rest =>
      if count = 0 ∨ bytes.isEmpty then .ok done
      else if count ≤ bytes.size then .ok (done ++ bytes.extract 0 count)
      else takeOnto (done ++ bytes) (count - bytes.size) rest

/-- At most `count` bytes. What lies beyond them is never asked for. -/
def take (source : ByteSource) (count : Nat) : Except String ByteArray :=
  source.takeOnto ByteArray.empty count

/-- The bytes in one piece, and then the end or a failure. -/
def ofBytes (bytes : ByteArray) (failure : Option String) : ByteSource :=
  let ending := match failure with
    | none => finished
    | some reason => failing reason
  if bytes.isEmpty then ending else piece bytes ending

/-- The bytes from `start` on in pieces of at most `size`. The read at position `failsAt` fails. -/
def chunked (bytes : ByteArray) (size : Nat) (failsAt : Option Nat) (reason : String)
    (start : Nat) : ByteSource :=
  if failsAt = some start then failing reason
  else
    let stop := match failsAt with
      | some position => if start < position then min position (start + size) else start + size
      | none => start + size
    let stop := min stop bytes.size
    if stop ≤ start then finished
    else piece (bytes.extract start stop) (chunked bytes size failsAt reason stop)
termination_by bytes.size - start
decreasing_by omega

end ByteSource

end VendorScreen
