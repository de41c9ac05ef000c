import Storyboard.Text.Half

namespace Storyboard.FileName

/-- How far the half for a byte is from the byte. -/
def byteOffset : Nat := 0xdc00

def pointBytes? (n : Nat) : Option (List UInt8) :=
  if Text.isHalf n then
    if byteOffset + 0x80 ≤ n && n ≤ byteOffset + 0xff then some [UInt8.ofNat (n - byteOffset)]
    else none
  else some (String.utf8EncodeChar (Char.ofNat n))

def bytes? (name : String) : Option (List UInt8) :=
  ((Text.pointsOf name).mapM pointBytes?).map List.flatten

def isEncodable (name : String) : Bool := (bytes? name).isSome

def size (name : String) : Nat := ((bytes? name).getD []).length

/-- The number of further bytes of a character and the bits in its first byte. -/
def leadByte? (b : Nat) : Option (Nat × Nat) :=
  if b < 0x80 then some (0, b)
  else if 0xc2 ≤ b && b < 0xe0 then some (1, b - 0xc0)
  else if 0xe0 ≤ b && b < 0xf0 then some (2, b - 0xe0)
  else if 0xf0 ≤ b && b < 0xf5 then some (3, b - 0xf0)
  else none

/-- The bits so far followed by those of so many further bytes. -/
def withTail? : Nat → Nat → List UInt8 → Option Nat
  | 0, bits, _ => some bits
  | _ + 1, _, [] => none
  | count + 1, bits, b :: rest =>
    if 0x80 ≤ b.toNat && b.toNat < 0xc0 then withTail? count (bits * 64 + (b.toNat - 0x80)) rest
    else none

/-- The least code point with so many further bytes. -/
def leastPoint (count : Nat) : Nat := [0, 0x80, 0x800, 0x10000].getD count 0

/-- The character whose bytes are in front, and how many of them follow the first. -/
def character? (b : UInt8) (rest : List UInt8) : Option (Nat × Nat) :=
  match leadByte? b.toNat with
  | none => none
  | some (count, bits) =>
    match withTail? count bits rest with
    | none => none
    | some n =>
      if leastPoint count ≤ n && n < 0x110000 && !Text.isHalf n then some (n, count) else none

/-- The code points of bytes. The first argument counts the bytes of a character, already read, that
are still to be passed. -/
def decode : Nat → List UInt8 → List Nat
  | _, [] => []
  | skip + 1, _ :: rest => decode skip rest
  | 0, b :: rest =>
    match character? b rest with
    | some (n, count) => n :: decode count rest
    | none => (byteOffset + b.toNat) :: decode 0 rest

/-- The text of a name as it is read from a disk. -/
def canonical (name : String) : String :=
  if Text.hasHalf name then
    match bytes? name with
    | some bs => Text.ofPoints (decode 0 bs)
    | none => name
  else name

end Storyboard.FileName
