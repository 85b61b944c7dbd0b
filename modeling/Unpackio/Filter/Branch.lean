/-
The Delta filter and the branch filters with four-byte instructions, from
`decode/filters.rs`.
-/
import Unpackio.Filter.Words
import Unpackio.Foundation.Rewriting

namespace Unpackio
namespace Filter

open Prog (whileLoop)

structure DeltaState where
  history : List UInt8
  position : UInt8
  deriving DecidableEq, Repr

def DeltaState.initial : DeltaState := ⟨List.replicate 256 0, 0⟩

def decodeDeltaLoop (distance : Nat) : List UInt8 → DeltaState → Metered (List UInt8)
  | [], _ => return []
  | byte :: bytes, state => do
    checkpoint 1
    let historyIndex ← okOr (checkedAdd distance state.position.toNat)
      (formatError "Delta history index overflows")
    let previous ← okOr state.history[historyIndex &&& 255]?
      (formatError "Delta history index is out of range")
    let byte := byte + previous
    let destination := state.position.toNat &&& 255
    rejectIf (state.history.length ≤ destination)
      (formatError "Delta history destination is out of range")
    let bytes ← decodeDeltaLoop distance bytes
      ⟨state.history.set destination byte, state.position - 1⟩
    return byte :: bytes

def decodeDelta (bytes properties : List UInt8) : Metered (List UInt8) := do
  let property ← okOr properties.head?
    (formatError "Delta properties must contain exactly one byte")
  rejectIf (properties.length ≠ 1) (formatError "Delta properties must contain exactly one byte")
  let distance ← okOr (checkedAdd property.toNat 1) (formatError "Delta distance overflows")
  decodeDeltaLoop distance bytes .initial

structure BranchState where
  bytes : List UInt8
  offset : Nat
  instructionPointer : Nat
  deriving DecidableEq, Repr

/-- `offset.checked_add(4).is_some_and(|end| end <= bytes.len())`. -/
def BranchState.hasWord (state : BranchState) : Bool :=
  (checkedAdd state.offset 4).any fun finish => finish ≤ state.bytes.length

/-- The body of the loops over words: `convert` is given the instruction pointer,
the buffer and the offset of the word. -/
def wordBody (name : String) (convert : Nat → List UInt8 → Nat → Except Error (List UInt8))
    (state : BranchState) : Metered BranchState := do
  checkpoint 4
  let bytes ← convert state.instructionPointer state.bytes state.offset
  let offset ← okOr (checkedAdd state.offset 4) (formatError (name ++ " position overflows"))
  return ⟨bytes, offset, wrappingAdd state.instructionPointer 4⟩

def decodeWords (name : String) (convert : Nat → List UInt8 → Nat → Except Error (List UInt8))
    (bytes : List UInt8) (start : Nat) : Metered (List UInt8) :=
  BranchState.bytes <$>
    whileLoop BranchState.hasWord (wordBody name convert) bytes.length ⟨bytes, 0, start⟩

def convertPpc (instructionPointer : Nat) (bytes : List UInt8) (offset : Nat) :
    Except Error (List UInt8) := do
  let first ← byteAt bytes offset 0 "PPC index overflows" "PPC opcode is truncated"
  let fourth ← byteAt bytes offset 3 "PPC index overflows" "PPC opcode is truncated"
  let value ← readU32Be bytes offset
  if first &&& 0xfc = 0x48 ∧ fourth &&& 3 = 1 then
    let value := wrappingSub value instructionPointer
    let value := value &&& 0x03ffffff
    let value := value ||| 0x48000000
    writeWord bytes offset (toBeBytes 4 value)
  else return bytes

def decodePpc (bytes properties : List UInt8) : Metered (List UInt8) := do
  let start ← startingPosition properties
  decodeWords "PPC" convertPpc bytes start

def convertArm (instructionPointer : Nat) (bytes : List UInt8) (offset : Nat) :
    Except Error (List UInt8) := do
  let instructionPointer := wrappingAdd instructionPointer 4
  let opcode ← byteAt bytes offset 3 "ARM index overflows" "ARM opcode is truncated"
  if opcode = 0xeb then do
    let value ← readU32Le bytes offset
    let value := wrappingSub value (instructionPointer >>> 2)
    let value := value &&& 0x00ffffff
    let value := value ||| 0xeb000000
    writeWord bytes offset (toLeBytes 4 value)
  else return bytes

def decodeArm (bytes properties : List UInt8) : Metered (List UInt8) := do
  let start ← startingPosition properties
  decodeWords "ARM" convertArm bytes (wrappingAdd start 4)

def arm64Flag : Nat := 1 <<< 20

def arm64Mask : Nat := (1 <<< 24) - (arm64Flag <<< 1)

def convertArm64 (instructionPointer : Nat) (bytes : List UInt8) (offset : Nat) :
    Except Error (List UInt8) := do
  let original ← readU32Le bytes offset
  if wrappingSub original 0x94000000 &&& 0xfc000000 = 0 then
    let value := wrappingSub original (instructionPointer >>> 2)
    let value := value &&& 0x03ffffff
    let value := value ||| 0x94000000
    writeWord bytes offset (toLeBytes 4 value)
  else
    let value := wrappingSub original 0x90000000
    if value &&& 0x9f000000 = 0 then
      let value := wrappingAdd value arm64Flag
      if value &&& arm64Mask = 0 then
        let transformed := value &&& 0xffffffe0 ||| value >>> 26
        let ip := instructionPointer >>> 9 &&& 0xfffffff8
        let transformed := wrappingSub transformed ip
        let value := value &&& 0x1f
        let value := value ||| 0x90000000
        let value := value ||| wrappingShl transformed 26
        let value := value |||
          0x00ffffe0 &&& wrappingSub (transformed &&& arm64Flag <<< 1 - 1) arm64Flag
        writeWord bytes offset (toLeBytes 4 value)
      else return bytes
    else return bytes

def decodeArm64 (bytes properties : List UInt8) : Metered (List UInt8) := do
  let start ← startingPosition properties
  decodeWords "ARM64" convertArm64 bytes start

def convertSparc (instructionPointer : Nat) (bytes : List UInt8) (offset : Nat) :
    Except Error (List UInt8) := do
  let first ← byteAt bytes offset 0 "SPARC index overflows" "SPARC opcode is truncated"
  let second ← byteAt bytes offset 1 "SPARC index overflows" "SPARC opcode is truncated"
  if (first = 0x40 ∧ second &&& 0xc0 = 0) ∨ (first = 0x7f ∧ second ≥ 0xc0) then do
    let value ← readU32Be bytes offset
    let value := wrappingShl value 2
    let value := wrappingSub value instructionPointer
    let value := value &&& 0x01ffffff
    let value := wrappingSub value (1 <<< 24)
    let value := value ^^^ 0xff000000
    let value := value >>> 2
    let value := value ||| 0x40000000
    writeWord bytes offset (toBeBytes 4 value)
  else return bytes

def decodeSparc (bytes properties : List UInt8) : Metered (List UInt8) := do
  let start ← startingPosition properties
  decodeWords "SPARC" convertSparc bytes start

end Filter
end Unpackio
