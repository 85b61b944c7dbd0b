/-
Reflected cyclic redundancy checks.

A remainder takes the bits of a message one at a time, the lowest of each byte first.
A step is linear, so eight bits are a table entry for the low byte and the other bytes
moved down.
-/
import Unpackio.Foundation.BitPack

namespace Crc

open BitPack

variable {w : Nat} (poly : BitVec w)

def feedBit (value : BitVec w) (bit : Bool) : BitVec w :=
  if (value.getLsbD 0 ^^ bit) = true then (value >>> 1) ^^^ poly else value >>> 1

def remainder (value : BitVec w) (bits : List Bool) : BitVec w := bits.foldl (feedBit poly) value

/-- The check of a message: the remainder starts with ones and is complemented. -/
def check (bytes : List UInt8) : BitVec w :=
  ~~~remainder poly (BitVec.allOnes w) (bytesToBits bytes)

/-- A step without a bit of the message. -/
def shift (value : BitVec w) : BitVec w := feedBit poly value false

def shifts (count : Nat) (value : BitVec w) : BitVec w := Nat.repeat (shift poly) count value

end Crc
