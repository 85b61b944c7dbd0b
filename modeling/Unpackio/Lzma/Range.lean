/-
The range decoder of `decode/lzma.rs`: adaptive bits, direct bits, and trees of
them.

Machine integers are natural numbers, and each checked operation is bounded by its
width.  A `Machine` is what a decoder of LZMA reads and changes bit by bit, and an
`Operation` is one call on it.
-/
import Unpackio.Filter.Words
import Unpackio.Foundation.Passes
import Mathlib.Logic.Function.Basic

namespace Unpackio
namespace Lzma

open Unpackio.Filter (wrappingShl)

def probBits : Nat := 11

def probTotal : Nat := 1 <<< probBits

def probInitial : Nat := probTotal >>> 1

def moveBits : Nat := 5

def topValue : Nat := 1 <<< 24

structure RangeDecoder where
  input : List UInt8
  cursor : Nat
  range : Nat
  code : Nat
  deriving DecidableEq, Repr

namespace RangeDecoder

def readByte (decoder : RangeDecoder) : Metered (UInt8 × RangeDecoder) := do
  checkpoint 1
  let byte ← okOr decoder.input[decoder.cursor]? (formatError "truncated LZMA range stream")
  let cursor ← okOr (checkedAdd decoder.cursor 1) (formatError "LZMA input cursor overflows")
  return (byte, { decoder with cursor := cursor })

def fillCode : Nat → RangeDecoder → Metered RangeDecoder
  | 0, decoder => return decoder
  | count + 1, decoder => do
    let (byte, decoder) ← decoder.readByte
    fillCode count { decoder with code := wrappingShl decoder.code 8 ||| byte.toNat }

def new (input : List UInt8) : Metered RangeDecoder := do
  let decoder := { input := input, cursor := 0, range := 2 ^ 32 - 1, code := 0 }
  let (first, decoder) ← readByte decoder
  rejectIf (first ≠ 0) (formatError "LZMA range stream does not begin with zero")
  let decoder ← fillCode 4 decoder
  rejectIf (decoder.range ≤ decoder.code) (formatError "invalid initial LZMA range state")
  return decoder

def normalize (decoder : RangeDecoder) : Metered RangeDecoder :=
  if topValue ≤ decoder.range then return decoder
  else do
    let (byte, decoder) ← readByte { decoder with range := wrappingShl decoder.range 8 }
    return { decoder with code := wrappingShl decoder.code 8 ||| byte.toNat }

def decodeDirectBit (decoder : RangeDecoder) : Metered (Nat × RangeDecoder) :=
  let range := decoder.range >>> 1
  if range ≤ decoder.code then do
    let code ← okOr (checkedSub decoder.code range)
      (formatError "LZMA direct range code underflows")
    let decoder ← normalize { decoder with range := range, code := code }
    return (1, decoder)
  else do
    let decoder ← normalize { decoder with range := range }
    return (0, decoder)

end RangeDecoder

/-- `Probability::decode`: the bit, the adapted probability, and the decoder behind
it. -/
def decodeBit (probability : Nat) (decoder : RangeDecoder) :
    Metered (Nat × Nat × RangeDecoder) := do
  let bound ← okOr (tryFrom 32 ((decoder.range >>> probBits) * probability))
    (formatError "LZMA probability bound overflows")
  if decoder.code < bound then do
    let difference ← okOr (checkedSub probTotal probability)
      (formatError "LZMA probability underflows")
    let probability ← okOr (tryFrom 16 (probability + difference >>> moveBits))
      (formatError "LZMA probability overflows")
    let decoder ← RangeDecoder.normalize { decoder with range := bound }
    return (0, probability, decoder)
  else do
    let code ← okOr (checkedSub decoder.code bound) (formatError "LZMA range code underflows")
    let range ← okOr (checkedSub decoder.range bound) (formatError "LZMA range underflows")
    let probability ← okOr (checkedSub probability (probability >>> moveBits))
      (formatError "LZMA probability underflows")
    let decoder ← RangeDecoder.normalize { decoder with range := range, code := code }
    return (1, probability, decoder)

structure ProbabilityTree where
  probabilities : List Nat
  bits : Nat
  deriving DecidableEq, Repr

namespace ProbabilityTree

def new (bits : Nat) : Except Error ProbabilityTree := do
  rejectIf (¬(1 ≤ bits ∧ bits ≤ 8)) (formatError "LZMA probability-tree width is invalid")
  let count ← okOr (checkedShl 64 1 bits) (formatError "LZMA probability-tree size overflows")
  return { probabilities := List.replicate count probInitial, bits := bits }

def child (node bit : Nat) : Except Error Nat :=
  okOr ((tryFrom 64 (node * 2)).bind fun value => checkedAdd value bit)
    (formatError "LZMA probability-tree index overflows")

/-- The loop of `decode`. -/
def decodeLoop : Nat → Nat → ProbabilityTree → RangeDecoder →
    Metered (Nat × ProbabilityTree × RangeDecoder)
  | 0, node, tree, decoder => return (node, tree, decoder)
  | count + 1, node, tree, decoder => do
    let probability ← okOr tree.probabilities[node]?
      (formatError "LZMA probability-tree index is out of range")
    let (bit, probability, decoder) ← decodeBit probability decoder
    let next ← child node bit
    decodeLoop count next { tree with probabilities := tree.probabilities.set node probability }
      decoder

def decode (tree : ProbabilityTree) (decoder : RangeDecoder) :
    Metered (Nat × ProbabilityTree × RangeDecoder) := do
  let (node, tree, decoder) ← decodeLoop tree.bits 1 tree decoder
  let base ← okOr (checkedShl 64 1 tree.bits)
    (formatError "LZMA probability-tree base overflows")
  let value ← okOr (checkedSub node base) (formatError "LZMA probability-tree value underflows")
  let value ← okOr (tryFrom 32 value) (formatError "LZMA tree value is not representable")
  return (value, tree, decoder)

/-- The loop of `decode_reverse`, which puts the next bit at `shift`. -/
def reverseLoop : Nat → Nat → Nat → Nat → ProbabilityTree → RangeDecoder →
    Metered (Nat × ProbabilityTree × RangeDecoder)
  | 0, _, _, value, tree, decoder => return (value, tree, decoder)
  | count + 1, shift, node, value, tree, decoder => do
    let probability ← okOr tree.probabilities[node]?
      (formatError "LZMA reverse-tree index is out of range")
    let (bit, probability, decoder) ← decodeBit probability decoder
    let placed ← okOr (checkedShl 32 bit shift)
      (formatError "LZMA reverse-tree value overflows")
    let next ← child node bit
    reverseLoop count (shift + 1) next (value ||| placed)
      { tree with probabilities := tree.probabilities.set node probability } decoder

def decodeReverse (tree : ProbabilityTree) (decoder : RangeDecoder) :
    Metered (Nat × ProbabilityTree × RangeDecoder) :=
  reverseLoop tree.bits 0 1 0 tree decoder

end ProbabilityTree

/-- The decoder, and the probabilities that calls may use: single slots and trees. -/
structure Machine where
  decoder : RangeDecoder
  slots : Nat → Nat
  trees : Nat → ProbabilityTree

inductive Operation where
  | bit (slot : Nat)
  | direct
  | tree (index : Nat)
  | reverse (index : Nat)
  deriving DecidableEq, Repr

namespace Machine

def step (machine : Machine) : Operation → Metered Machine
  | .bit slot => do
    let (_, probability, decoder) ← decodeBit (machine.slots slot) machine.decoder
    return { machine with
      decoder := decoder
      slots := Function.update machine.slots slot probability }
  | .direct => do
    let (_, decoder) ← machine.decoder.decodeDirectBit
    return { machine with decoder := decoder }
  | .tree index => do
    let (_, tree, decoder) ← (machine.trees index).decode machine.decoder
    return { machine with
      decoder := decoder
      trees := Function.update machine.trees index tree }
  | .reverse index => do
    let (_, tree, decoder) ← (machine.trees index).decodeReverse machine.decoder
    return { machine with
      decoder := decoder
      trees := Function.update machine.trees index tree }

def run : List Operation → Machine → Metered Machine
  | [], machine => return machine
  | operation :: operations, machine => do
    let machine ← machine.step operation
    run operations machine

end Machine

end Lzma
end Unpackio
