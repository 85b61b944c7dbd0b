/-
Canonical Huffman codes of Deflate64, from `decode/deflate64.rs`.

The loops over symbols and over code lengths are recursions with the arrays that they
fill; an array has the entries of a list.
-/
import Unpackio.Deflate64.BitReader

namespace Unpackio
namespace Deflate64

def maxCodeBits : Nat := 15
def maxHuffmanSymbols : Nat := 320

structure Huffman where
  counts : List Nat
  symbols : List Nat
  symbolCount : Nat
  deriving DecidableEq, Repr

namespace Huffman

def countLoop : List UInt8 → List Nat → Except Error (List Nat)
  | [], counts => return counts
  | length :: lengths, counts => do
    rejectIf (maxCodeBits < length.toNat) (formatError "Deflate64 Huffman code is too long")
    if length.toNat ≠ 0 then do
      let count ← okOr counts[length.toNat]?
        (formatError "Deflate64 Huffman length is out of range")
      let count ← okOr (tryFrom 16 (count + 1)) (formatError "Deflate64 Huffman count overflows")
      countLoop lengths (counts.set length.toNat count)
    else countLoop lengths counts

def sumLoop : List Nat → Nat → Except Error Nat
  | [], total => return total
  | count :: counts, total => do
    let total ← okOr (checkedAdd total count)
      (formatError "Deflate64 Huffman symbol count overflows")
    sumLoop counts total

/-- An `i32`. -/
def int32? (value : Int) : Option Int :=
  if -2 ^ 31 ≤ value ∧ value < 2 ^ 31 then some value else none

def availableLoop : List Nat → Int → Except Error Unit
  | [], _ => return ()
  | count :: counts, available => do
    let available ← okOr ((int32? (available * 2)).bind fun value => int32? (value - count))
      (formatError "Deflate64 Huffman validation overflows")
    rejectIf (available < 0) (formatError "Deflate64 Huffman tree is oversubscribed")
    availableLoop counts available

/-- The loop over the lengths from `length` on that finds where their symbols begin. -/
def offsetLoop (counts : List Nat) :
    Nat → Nat → List Nat → Nat → Except Error (List Nat)
  | 0, _, offsets, _ => return offsets
  | remaining + 1, length, offsets, running => do
    rejectIf (offsets.length ≤ length) (formatError "Deflate64 Huffman offset is out of range")
    let count ← okOr counts[length]? (formatError "Deflate64 Huffman count is out of range")
    let next ← okOr (checkedAdd running count) (formatError "Deflate64 Huffman offset overflows")
    offsetLoop counts remaining (length + 1) (offsets.set length running) next

/-- The loop that puts every symbol, `symbol` being the first of them, where it belongs. -/
def symbolLoop : List UInt8 → Nat → List Nat → List Nat → Except Error (List Nat)
  | [], _, _, symbols => return symbols
  | length :: lengths, symbol, offsets, symbols =>
    if length.toNat = 0 then symbolLoop lengths (symbol + 1) offsets symbols
    else do
      let destination ← okOr offsets[length.toNat]?
        (formatError "Deflate64 Huffman offset is out of range")
      rejectIf (symbols.length ≤ destination)
        (formatError "Deflate64 Huffman symbol index is out of range")
      let entry ← okOr (tryFrom 16 symbol)
        (formatError "Deflate64 Huffman symbol is not representable")
      let next ← okOr (checkedAdd destination 1) (formatError "Deflate64 Huffman offset overflows")
      symbolLoop lengths (symbol + 1) (offsets.set length.toNat next)
        (symbols.set destination entry)

def fromLengths (lengths : List UInt8) (allowEmpty : Bool) : Except Error Huffman := do
  rejectIf (maxHuffmanSymbols < lengths.length)
    (formatError "Deflate64 Huffman alphabet is too large")
  let counts ← countLoop lengths (List.replicate (maxCodeBits + 1) 0)
  let symbolCount ← sumLoop (counts.drop 1) 0
  rejectIf (symbolCount = 0 ∧ ¬allowEmpty) (formatError "Deflate64 Huffman tree is empty")
  availableLoop (counts.drop 1) 1
  let offsets ← offsetLoop counts maxCodeBits 1 (List.replicate (maxCodeBits + 1) 0) 0
  let symbols ← symbolLoop lengths 0 offsets (List.replicate maxHuffmanSymbols 0)
  return ⟨counts, symbols, symbolCount⟩

/-- The loop over the lengths from `length` on. -/
def decodeLoop (huffman : Huffman) : Nat → Nat → Nat → Nat → Nat → BitReader.Reading Nat
  | 0, _, _, _, _ => throw (formatError "invalid Deflate64 Huffman code")
  | remaining + 1, length, code, first, index => do
    let bit ← BitReader.readBits 1
    let count ← okOr huffman.counts[length]?
      (formatError "Deflate64 Huffman count is out of range")
    let finish ← okOr (tryFrom 32 (first + count))
      (formatError "Deflate64 Huffman code range overflows")
    if code ||| bit < finish then do
      let relative ← okOr (checkedSub (code ||| bit) first)
        (formatError "Deflate64 Huffman code underflows")
      let symbolIndex ← okOr (checkedAdd index relative)
        (formatError "Deflate64 Huffman index overflows")
      rejectIf (huffman.symbolCount ≤ symbolIndex)
        (formatError "Deflate64 Huffman symbol is out of range")
      okOr huffman.symbols[symbolIndex]? (formatError "Deflate64 Huffman symbol is missing")
    else do
      let index ← okOr (checkedAdd index count) (formatError "Deflate64 Huffman index overflows")
      decodeLoop huffman remaining (length + 1) (((code ||| bit) <<< 1) % 2 ^ 32)
        ((finish <<< 1) % 2 ^ 32) index

def decode (huffman : Huffman) : BitReader.Reading Nat := decodeLoop huffman maxCodeBits 1 0 0 0

end Huffman

end Deflate64
end Unpackio
