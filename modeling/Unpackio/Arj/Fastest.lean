/-
ARJ method 4, from `arj/decode.rs`.

The slice of an `MsbBits` is a part of its state.
-/
import Unpackio.Arj.Header

namespace Unpackio
namespace Arj

def fastestDictionaryBytes : Nat := 8 * 1024

structure MsbBits where
  bytes : List UInt8
  byteOffset : Nat
  bitOffset : Nat
  deriving DecidableEq, Repr

namespace MsbBits

abbrev Reading (α : Type) : Type := StateT MsbBits Metered α

def new (bytes : List UInt8) : MsbBits := ⟨bytes, 0, 0⟩

def next (bits : MsbBits) : Except Error MsbBits := do
  let bitOffset ← okOr (if bits.bitOffset < 255 then some (bits.bitOffset + 1) else none)
    (arjFormat "bit offset overflows")
  if bitOffset = 8 then do
    let byteOffset ← okOr (checkedAdd bits.byteOffset 1) (arjFormat "byte offset overflows")
    return { bits with byteOffset := byteOffset, bitOffset := 0 }
  else return { bits with bitOffset := bitOffset }

/-- One round of the loop of `read`. -/
def readBit (value : Nat) : Reading Nat := do
  let bits ← get
  let byte ← okOr bits.bytes[bits.byteOffset]? (arjFormat "compressed bitstream is truncated")
  let shift ← okOr (checkedSub 7 bits.bitOffset) (arjFormat "bit offset underflows")
  let bit := (byte.toNat >>> shift) &&& 1
  let value ← okOr ((tryFrom 16 (value * 2)).bind fun current => tryFrom 16 (current + bit))
    (arjFormat "bit value overflows")
  let bits ← bits.next
  set bits
  return value

def readLoop : Nat → Nat → Reading Nat
  | 0, value => return value
  | remaining + 1, value => do
    let value ← readBit value
    readLoop remaining value

def read (count : Nat) : Reading Nat := do
  rejectIf (16 < count) (arjFormat "bit read is too wide")
  readLoop count 0

end MsbBits

/-- The loop of `decode_variable`: the width of the suffix, and what the ones in front
of it add. -/
def variableLoop (last : Nat) : Nat → Nat → Nat → Nat → MsbBits.Reading (Nat × Nat)
  | 0, width, additional, _ => return (width, additional)
  | fuel + 1, width, additional, exponent =>
    if width < last then do
      let bit ← MsbBits.read 1
      if bit = 0 then return (width, additional)
      else do
        let additional ← okOr (tryFrom 16 (additional + exponent))
          (arjFormat "variable-code prefix overflows")
        let exponent ← okOr (tryFrom 16 (exponent * 2))
          (arjFormat "variable-code exponent overflows")
        let width ← okOr (tryFrom 8 (width + 1)) (arjFormat "variable-code width overflows")
        variableLoop last fuel width additional exponent
    else return (width, additional)

def decodeVariable (first last : Nat) : MsbBits.Reading Nat := do
  let exponent ← okOr (if first < 16 then some (2 ^ first) else none)
    (arjFormat "variable-code exponent overflows")
  let (width, additional) ← variableLoop last (last - first) first 0 exponent
  let suffix ← (if width = 0 then pure 0 else MsbBits.read width : MsbBits.Reading Nat)
  okOr (tryFrom 16 (suffix + additional)) (arjFormat "variable-code value overflows")

def copyLoop (distance : Nat) : Nat → List UInt8 → Metered (List UInt8)
  | 0, output => return output
  | count + 1, output => do
    checkpoint 1
    let source ← okOr (checkedSub output.length distance) (arjFormat "match source underflows")
    let byte ← okOr output[source]? (arjFormat "match source is out of range")
    copyLoop distance count (output ++ [byte])

def decodeMatch (outputSize lengthCode : Nat) (output : List UInt8) :
    MsbBits.Reading (List UInt8) := do
  let count ← okOr (checkedAdd lengthCode 2) (arjFormat "match length overflows")
  let remaining ← okOr (checkedSub outputSize output.length)
    (arjFormat "decoded output length underflows")
  rejectIf (remaining < count) (arjFormat "match exceeds the declared output size")
  let backPointer ← decodeVariable 9 13
  let distance ← okOr (checkedAdd backPointer 1) (arjFormat "match distance overflows")
  rejectIf (output.length < distance) (arjFormat "match points before the decoded output")
  copyLoop distance count output

/-- The loop of `decode_fastest`.  Every round adds a byte, so `fuel` is the number of
bytes that are missing. -/
def fastestLoop (outputSize : Nat) : Nat → List UInt8 → MsbBits.Reading (List UInt8)
  | 0, output => return output
  | fuel + 1, output =>
    if output.length < outputSize then do
      checkpoint 1
      let lengthCode ← decodeVariable 0 7
      if lengthCode = 0 then do
        let value ← MsbBits.read 8
        let literal ← okOr (tryFrom 8 value) (arjFormat "literal is not representable")
        fastestLoop outputSize fuel (output ++ [UInt8.ofNat literal])
      else do
        let output ← decodeMatch outputSize lengthCode output
        fastestLoop outputSize fuel output
    else return output

def decodeFastest (compressed : List UInt8) (originalSize : Nat) (limits : Limits) :
    Metered (List UInt8) := do
  checkLimit fastestDictionaryBytes limits.maxDictionaryBytes .dictionaryBytes
  consumeBytes compressed
  let (output, _) ← fastestLoop originalSize originalSize [] (MsbBits.new compressed)
  return output

end Arj
end Unpackio
