import MongoShell.Value

/-!
Values that constructors called without arguments make up: the time, and identifiers that differ
from call to call.
-/

namespace MongoShell

/-- A source of such values. Identifiers are given by the place of the call in its source text, so
that no two calls of one text share one. -/
structure Fresh where
  /-- Milliseconds from the start of 1970. -/
  now : Int
  objectId : Nat → ObjectId
  uuid : Nat → List UInt8

/-- The last `count` bytes of a number, the most significant first. -/
def bigEndian : Nat → Nat → List UInt8
  | 0, _ => []
  | count + 1, n => UInt8.ofNat (n >>> (8 * count)) :: bigEndian count n

theorem length_bigEndian (count n : Nat) : (bigEndian count n).length = count := by
  induction count with
  | zero => rfl
  | succ count ih => simp [bigEndian, ih]

namespace Fresh

/-- Four bytes for the second, five for the source and three that count. -/
def objectIdAt (now : Int) (seed offset : Nat) : ObjectId where
  bytes :=
    bigEndian 4 (now / 1000).toNat ++ bigEndian 5 seed ++ bigEndian 3 ((seed >>> 40) + offset)
  size := by simp [length_bigEndian]

/-- Sixteen bytes, six bits of which say that the rest is random. -/
def uuidAt (seed offset : Nat) : List UInt8 :=
  ((bigEndian 16 (seed + offset)).modify 6 fun byte => byte % 16 + 0x40).modify 8
    fun byte => byte % 64 + 0x80

/-- The values made at a time out of a random number. -/
def ofSeed (now : Int) (seed : Nat) : Fresh := ⟨now, objectIdAt now seed, uuidAt seed⟩

end Fresh

end MongoShell
