/-
Blocks and streams of Deflate64, from `decode/deflate64.rs`.

The capacity of the output buffer is not modelled.  A loop of the source without a bound
is a recursion with `maxRounds` rounds: every round takes a bit, and no input has so many.
-/
import Unpackio.Deflate64.Huffman

namespace Unpackio
namespace Deflate64

open BitReader (readBits)

def deflate64DictionaryBytes : Nat := 64 * 1024

def codeLengthOrder : List Nat :=
  [16, 17, 18, 0, 8, 7, 9, 6, 10, 5, 11, 4, 12, 3, 13, 2, 14, 1, 15]

def lengthBase : List Nat :=
  [3, 4, 5, 6, 7, 8, 9, 10, 11, 13, 15, 17, 19, 23, 27, 31, 35, 43, 51, 59, 67, 83, 99, 115, 131,
    163, 195, 227, 3]

def lengthExtra : List Nat :=
  [0, 0, 0, 0, 0, 0, 0, 0, 1, 1, 1, 1, 2, 2, 2, 2, 3, 3, 3, 3, 4, 4, 4, 4, 5, 5, 5, 5, 16]

def distanceBase : List Nat :=
  [1, 2, 3, 4, 5, 7, 9, 13, 17, 25, 33, 49, 65, 97, 129, 193, 257, 385, 513, 769, 1025, 1537,
    2049, 3073, 4097, 6145, 8193, 12289, 16385, 24577, 32769, 49153]

def distanceExtra : List Nat :=
  [0, 0, 0, 0, 1, 1, 2, 2, 3, 3, 4, 4, 5, 5, 6, 6, 7, 7, 8, 8, 9, 9, 10, 10, 11, 11, 12, 12, 13,
    13, 14, 14]

def maxRounds : Nat := 2 ^ 67

section Output

variable (expected : Option Nat) (maximum : Nat)

/-- The checks of `reserve_output` for an output of `current` bytes. -/
def reserveOutput (current additional : Nat) : Except Error Unit := do
  let next ← okOr (checkedAdd current additional) (formatError "Deflate64 output size overflows")
  rejectIf (expected.any fun declared => declared < next)
    (formatError "Deflate64 output exceeds its declared size")
  checkLimit next maximum .totalOutputBytes

def appendLiteral (output : List UInt8) (byte : UInt8) : Metered (List UInt8) := do
  reserveOutput expected maximum output.length 1
  checkpoint 1
  return output ++ [byte]

def copyLoop (distance : Nat) : Nat → List UInt8 → Metered (List UInt8)
  | 0, output => return output
  | count + 1, output => do
    checkpoint 1
    let source ← okOr (checkedSub output.length distance)
      (formatError "Deflate64 history index underflows")
    let byte ← okOr output[source]? (formatError "Deflate64 history index is out of range")
    copyLoop distance count (output ++ [byte])

def copyMatch (output : List UInt8) (distance length : Nat) : Metered (List UInt8) := do
  rejectIf (distance = 0 ∨ deflate64DictionaryBytes < distance)
    (formatError "Deflate64 match distance is invalid")
  rejectIf (output.length < distance)
    (formatError "Deflate64 match precedes available history")
  reserveOutput expected maximum output.length length
  copyLoop distance length output

end Output

/-! ## Trees -/

def fixedLiteralLengths : List UInt8 :=
  List.replicate 144 8 ++ List.replicate 112 9 ++ List.replicate 24 7 ++ List.replicate 8 8

def fixedDistanceLengths : List UInt8 := List.replicate 32 5

def fixedTrees : Except Error (Huffman × Huffman) := do
  let literals ← Huffman.fromLengths fixedLiteralLengths false
  let distances ← Huffman.fromLengths fixedDistanceLengths false
  return (literals, distances)

/-- The loop that reads the lengths of the code for code lengths, `ordinal` being the next. -/
def codeLengthLoop : Nat → Nat → List UInt8 → BitReader.Reading (List UInt8)
  | 0, _, codeLengths => return codeLengths
  | remaining + 1, ordinal, codeLengths => do
    let destination ← okOr codeLengthOrder[ordinal]?
      (formatError "Deflate64 code-length order is out of range")
    let value ← readBits 3
    let length ← okOr (tryFrom 8 value) (formatError "Deflate64 code length is not representable")
    rejectIf (codeLengths.length ≤ destination)
      (formatError "Deflate64 code-length index is out of range")
    codeLengthLoop remaining (ordinal + 1) (codeLengths.set destination (UInt8.ofNat length))

/-- The lengths with one value in the slots from `position` on to `finish`. -/
def fillSlots (lengths : List UInt8) (position finish : Nat) (value : UInt8) :
    Option (List UInt8) :=
  if position ≤ finish ∧ finish ≤ lengths.length then
    some (lengths.take position ++ List.replicate (finish - position) value ++ lengths.drop finish)
  else none

def lengthRound (total symbol : Nat) (lengths : List UInt8) (position : Nat) :
    BitReader.Reading (List UInt8 × Nat) :=
  if symbol ≤ 15 then do
    rejectIf (lengths.length ≤ position) (formatError "Deflate64 dynamic length is out of range")
    let length ← okOr (tryFrom 8 symbol) (formatError "Deflate64 code length is not representable")
    let next ← okOr (checkedAdd position 1)
      (formatError "Deflate64 dynamic length index overflows")
    return (lengths.set position (UInt8.ofNat length), next)
  else if symbol = 16 then do
    let previousIndex ← okOr (checkedSub position 1)
      (formatError "Deflate64 repeat has no previous length")
    let previous ← okOr lengths[previousIndex]?
      (formatError "Deflate64 previous length is out of range")
    let value ← readBits 2
    let count ← okOr (checkedAdd value 3) (formatError "Deflate64 repeat count overflows")
    let finish ← okOr (checkedAdd position count) (formatError "Deflate64 repeat range overflows")
    rejectIf (total < finish) (formatError "Deflate64 repeat exceeds its table")
    let lengths ← okOr (fillSlots lengths position finish previous)
      (formatError "Deflate64 repeat range is out of bounds")
    return (lengths, finish)
  else if symbol = 17 ∨ symbol = 18 then do
    let (bits, base) := if symbol = 17 then (3, 3) else (7, 11)
    let value ← readBits bits
    let count ← okOr (checkedAdd value base) (formatError "Deflate64 zero repeat overflows")
    let finish ← okOr (checkedAdd position count)
      (formatError "Deflate64 zero-repeat range overflows")
    rejectIf (total < finish) (formatError "Deflate64 zero repeat exceeds its table")
    return (lengths, finish)
  else throw (formatError "invalid Deflate64 code-length symbol")

/-- The loop over the code lengths.  Every round moves the position, so `total` rounds are
enough. -/
def lengthLoop (codeTree : Huffman) (total : Nat) :
    Nat → List UInt8 → Nat → BitReader.Reading (List UInt8)
  | 0, lengths, _ => return lengths
  | fuel + 1, lengths, position =>
    if position < total then do
      let symbol ← codeTree.decode
      let (lengths, position) ← lengthRound total symbol lengths position
      lengthLoop codeTree total fuel lengths position
    else return lengths

def dynamicTrees : BitReader.Reading (Huffman × Huffman) := do
  let value ← readBits 5
  let literalCount ← okOr (checkedAdd value 257) (formatError "Deflate64 literal count overflows")
  let value ← readBits 5
  let distanceCount ← okOr (checkedAdd value 1) (formatError "Deflate64 distance count overflows")
  let value ← readBits 4
  let codeLengthCount ← okOr (checkedAdd value 4)
    (formatError "Deflate64 code-length count overflows")
  rejectIf (286 < literalCount ∨ 32 < distanceCount ∨ 19 < codeLengthCount)
    (formatError "Deflate64 dynamic table count is invalid")
  let codeLengths ← codeLengthLoop codeLengthCount 0 (List.replicate 19 0)
  let codeTree ← Huffman.fromLengths codeLengths false
  let total ← okOr (checkedAdd literalCount distanceCount)
    (formatError "Deflate64 dynamic alphabet size overflows")
  let lengths ← lengthLoop codeTree total total (List.replicate 318 0) 0
  rejectIf (lengths[256]?.getD 0 = 0)
    (formatError "Deflate64 literal tree has no end-of-block code")
  let literals ← okOr (getRange lengths 0 literalCount)
    (formatError "Deflate64 literal table is out of range")
  let distances ← okOr (getRange lengths literalCount total)
    (formatError "Deflate64 distance table is out of range")
  let literalTree ← Huffman.fromLengths literals false
  let distanceTree ← Huffman.fromLengths distances true
  return (literalTree, distanceTree)

section Blocks

variable (expected : Option Nat) (maximum : Nat)

def decodeMatch (distanceTree : Huffman) (symbol : Nat) (output : List UInt8) :
    BitReader.Reading (List UInt8) := do
  let lengthIndex ← okOr (checkedSub symbol 257) (formatError "Deflate64 length index underflows")
  let base ← okOr lengthBase[lengthIndex]?
    (formatError "Deflate64 length code is out of range")
  let extra ← okOr lengthExtra[lengthIndex]?
    (formatError "Deflate64 length code is out of range")
  let value ← readBits extra
  let length ← okOr (tryFrom 32 (base + value)) (formatError "Deflate64 match length overflows")
  let distanceSymbol ← distanceTree.decode
  let base ← okOr distanceBase[distanceSymbol]?
    (formatError "Deflate64 distance code is out of range")
  let extra ← okOr distanceExtra[distanceSymbol]?
    (formatError "Deflate64 distance code is out of range")
  let value ← readBits extra
  let distance ← okOr (tryFrom 32 (base + value))
    (formatError "Deflate64 match distance overflows")
  copyMatch expected maximum output distance length

/-- The loop of `decode_compressed_block`. -/
def compressedLoop (literalTree distanceTree : Huffman) :
    Nat → List UInt8 → BitReader.Reading (List UInt8)
  | 0, _ => throw (formatError "truncated Deflate64 bitstream")
  | rounds + 1, output => do
    checkpoint 1
    let symbol ← literalTree.decode
    if symbol ≤ 255 then do
      let byte ← okOr (tryFrom 8 symbol) (formatError "Deflate64 literal is not representable")
      let output ← appendLiteral expected maximum output (UInt8.ofNat byte)
      compressedLoop literalTree distanceTree rounds output
    else if symbol = 256 then return output
    else if symbol ≤ 285 then do
      let output ← decodeMatch expected maximum distanceTree symbol output
      compressedLoop literalTree distanceTree rounds output
    else throw (formatError "reserved Deflate64 literal/length code")

def decodeCompressedBlock (literalTree distanceTree : Huffman) (output : List UInt8) :
    BitReader.Reading (List UInt8) :=
  compressedLoop expected maximum literalTree distanceTree maxRounds output

def storedLoop : Nat → List UInt8 → BitReader.Reading (List UInt8)
  | 0, output => return output
  | count + 1, output => do
    let value ← readBits 8
    let byte ← okOr (tryFrom 8 value) (formatError "Deflate64 stored byte is not representable")
    checkpoint 1
    storedLoop count (output ++ [UInt8.ofNat byte])

def decodeStoredBlock (output : List UInt8) : BitReader.Reading (List UInt8) := do
  modify BitReader.alignToByte
  let length ← readBits 16
  let complement ← readBits 16
  rejectIf (length ^^^ 0xffff ≠ complement) (formatError "invalid Deflate64 stored-block length")
  reserveOutput expected maximum output.length length
  storedLoop length output

def decodeBlock (blockType : Nat) (output : List UInt8) : BitReader.Reading (List UInt8) :=
  if blockType = 0 then decodeStoredBlock expected maximum output
  else if blockType = 1 then do
    let (literalTree, distanceTree) ← fixedTrees
    decodeCompressedBlock expected maximum literalTree distanceTree output
  else if blockType = 2 then do
    let (literalTree, distanceTree) ← dynamicTrees
    decodeCompressedBlock expected maximum literalTree distanceTree output
  else throw (formatError "reserved Deflate64 block type")

def blockLoop : Nat → List UInt8 → BitReader.Reading (List UInt8)
  | 0, _ => throw (formatError "truncated Deflate64 bitstream")
  | rounds + 1, output => do
    checkpoint 1
    let finalBlock ← readBits 1
    let blockType ← readBits 2
    let output ← decodeBlock expected maximum blockType output
    if finalBlock ≠ 0 then return output
    else blockLoop rounds output

end Blocks

def checkExpected (expected : Option Nat) (maximum : Nat) : Except Error Unit :=
  match expected with
  | some size => checkLimit size maximum .totalOutputBytes
  | none => return ()

def decodeDeflate64 (input : List UInt8) (expected : Option Nat) (maximum : Nat)
    (limits : Limits) : Metered (List UInt8) := do
  checkLimit deflate64DictionaryBytes limits.maxDictionaryBytes .dictionaryBytes
  checkExpected expected maximum
  let (output, reader) ← blockLoop expected maximum maxRounds [] (BitReader.new input)
  rejectIf reader.hasTrailingBytes (formatError "Deflate64 stream has trailing input")
  rejectIf (expected.any fun size => size ≠ output.length)
    (formatError "decoded coder output size does not match its declaration")
  return output

end Deflate64
end Unpackio
