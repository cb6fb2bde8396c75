/-!
# Floorplan.Bytes

Big-endian words of two bytes and longs of four, as every structure on disk has them.
-/

namespace Floorplan
namespace Bytes

def ofWord (w : UInt16) : List UInt8 :=
  [UInt8.ofNat (w.toNat / 256), UInt8.ofNat w.toNat]

def ofLong (l : UInt32) : List UInt8 :=
  [UInt8.ofNat (l.toNat / 16777216), UInt8.ofNat (l.toNat / 65536), UInt8.ofNat (l.toNat / 256),
    UInt8.ofNat l.toNat]

def word (a b : UInt8) : UInt16 :=
  UInt16.ofNat (a.toNat * 256 + b.toNat)

def long (a b c d : UInt8) : UInt32 :=
  UInt32.ofNat (a.toNat * 16777216 + b.toNat * 65536 + c.toNat * 256 + d.toNat)

/-- The word at an index; bytes past the end count as zero. -/
def wordAt (bytes : List UInt8) (i : Nat) : UInt16 :=
  word (bytes.getD i 0) (bytes.getD (i + 1) 0)

/-- The long at an index; bytes past the end count as zero. -/
def longAt (bytes : List UInt8) (i : Nat) : UInt32 :=
  long (bytes.getD i 0) (bytes.getD (i + 1) 0) (bytes.getD (i + 2) 0) (bytes.getD (i + 3) 0)

def ofSigned (w : Int16) : List UInt8 := ofWord w.toUInt16

end Bytes
end Floorplan
