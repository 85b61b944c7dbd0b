/-
The filters of `decode/phase5_filters.rs`, and the choice of a filter by its method.
-/
import Unpackio.Execute
import Unpackio.Filter.Branch
import Unpackio.Filter.X86

namespace Unpackio
namespace Filter

open Prog (whileLoop)

def readCompatibilityLe (bytes : List UInt8) (offset : Nat) : Except Error Nat := do
  let word ← checkedRange bytes offset 4 "compatibility filter word range overflows"
    "compatibility filter word is truncated"
  return fromLeBytes word

def readCompatibilityBe (bytes : List UInt8) (offset : Nat) : Except Error Nat := do
  let word ← checkedRange bytes offset 4 "compatibility filter word range overflows"
    "compatibility filter word is truncated"
  return fromBeBytes word

def writeU32Le (bytes : List UInt8) (offset value : Nat) : Except Error (List UInt8) :=
  writeRange bytes offset (toLeBytes 4 value) "compatibility filter word range overflows"
    "compatibility filter word is truncated"

def readU48Le (bytes : List UInt8) (offset : Nat) : Except Error Nat := do
  let instruction ← checkedRange bytes offset 6 "IA64 instruction range overflows"
    "IA64 instruction is truncated"
  return fromLeBytes instruction

def writeU48Le (bytes : List UInt8) (offset value : Nat) : Except Error (List UInt8) :=
  writeRange bytes offset (toLeBytes 6 value) "IA64 instruction range overflows"
    "IA64 instruction is truncated"

def lowU32Offset (offset : Nat) : Nat := offset % 2 ^ 32

/-- The scan of a buffer, without an instruction pointer. -/
structure ScanState where
  bytes : List UInt8
  offset : Nat
  deriving DecidableEq, Repr

/-- The loop over `chunks_exact_mut(width)`; `count` is the number of chunks. -/
def decodeSwapLoop (width : Nat) : Nat → List UInt8 → Metered (List UInt8)
  | 0, bytes => return bytes
  | count + 1, bytes => do
    checkpoint width
    let rest ← decodeSwapLoop width count (bytes.drop width)
    return (bytes.take width).reverse ++ rest

def decodeSwap (bytes properties : List UInt8) (width : Nat) : Metered (List UInt8) := do
  rejectIf (properties ≠ []) (formatError "Swap filter properties must be empty")
  rejectIf (¬(width = 2 ∨ width = 4)) (formatError "Swap filter width is invalid")
  decodeSwapLoop width (bytes.length / width) bytes

def convertArmThumb (start : Nat) (state : ScanState) (second fourth : UInt8) :
    Except Error ScanState := do
  let first ← byteAt state.bytes state.offset 0 "ARM Thumb index overflows"
    "ARM Thumb instruction is truncated"
  let third ← byteAt state.bytes state.offset 2 "ARM Thumb index overflows"
    "ARM Thumb instruction is truncated"
  let source := (second &&& 7).toNat <<< 19 ||| first.toNat <<< 11 |||
    (fourth &&& 7).toNat <<< 8 ||| third.toNat
  let source := wrappingShl source 1
  let position := wrappingAdd (wrappingAdd start (lowU32Offset state.offset)) 4
  let destination := wrappingSub source position >>> 1
  let encoded : List UInt8 := [
    .ofNat (destination >>> 11 &&& 0xff),
    .ofNat (0xf0 ||| destination >>> 19 &&& 7),
    .ofNat (destination &&& 0xff),
    .ofNat (0xf8 ||| destination >>> 8 &&& 7)]
  let bytes ← writeRange state.bytes state.offset encoded "ARM Thumb range overflows"
    "ARM Thumb instruction is truncated"
  let offset ← okOr (checkedAdd state.offset 2) (formatError "ARM Thumb position overflows")
  return ⟨bytes, offset⟩

def armThumbBody (start : Nat) (state : ScanState) : Metered ScanState := do
  checkpoint 2
  let second ← byteAt state.bytes state.offset 1 "ARM Thumb index overflows"
    "ARM Thumb instruction is truncated"
  let fourth ← byteAt state.bytes state.offset 3 "ARM Thumb index overflows"
    "ARM Thumb instruction is truncated"
  let state ← (if second &&& 0xf8 = 0xf0 ∧ fourth &&& 0xf8 = 0xf8 then
    convertArmThumb start state second fourth else pure state)
  let offset ← okOr (checkedAdd state.offset 2) (formatError "ARM Thumb position overflows")
  return { state with offset := offset }

def decodeArmThumb (bytes properties : List UInt8) : Metered (List UInt8) :=
  if bytes.length < 4 then return bytes
  else do
    let start ← startingPosition properties
    let scanEnd ← okOr (checkedSub bytes.length 4)
      (formatError "ARM Thumb scan bound underflows")
    ScanState.bytes <$>
      whileLoop (fun state => state.offset ≤ scanEnd) (armThumbBody start) bytes.length ⟨bytes, 0⟩

def ia64BranchTable : List Nat :=
  [0, 0, 0, 0, 0, 0, 0, 0, 0, 0, 0, 0, 0, 0, 0, 0, 4, 4, 6, 6, 0, 0, 7, 7, 4, 4, 0, 0, 4, 4, 0, 0]

/-- The conversion of one slot of the bundle at `offset`. -/
def convertIa64 (start : Nat) (bytes : List UInt8) (offset bitPosition : Nat) :
    Except Error (List UInt8) := do
  let bytePosition := bitPosition >>> 3
  let bitRemainder := bitPosition &&& 7
  let instructionOffset ← okOr (checkedAdd offset bytePosition)
    (formatError "IA64 instruction offset overflows")
  let instruction ← readU48Le bytes instructionOffset
  let normalized := instruction >>> bitRemainder
  if normalized >>> 37 &&& 0x0f = 5 ∧ normalized >>> 9 &&& 7 = 0 then
    let low := normalized >>> 13 &&& 0x000fffff
    let high := normalized >>> 36 &&& 1
    let source := wrappingShl (low ||| high <<< 20) 4
    let position := wrappingAdd start (lowU32Offset offset)
    let destination := wrappingSub source position >>> 4
    -- The mask is `!(0x008f_ffff << 13)` on 64 bits.
    let normalized := normalized &&& 2 ^ 64 - 1 - 0x008fffff <<< 13
    let normalized := normalized ||| (destination &&& 0x000fffff) <<< 13
    let normalized := normalized ||| (destination &&& 0x00100000) <<< 16
    let lowMask ← okOr ((checkedShl 64 1 bitRemainder).bind fun value => checkedSub value 1)
      (formatError "IA64 instruction mask overflows")
    let shifted ← okOr (checkedShl 64 normalized bitRemainder)
      (formatError "IA64 instruction shift overflows")
    let instruction := instruction &&& lowMask ||| shifted
    writeU48Le bytes instructionOffset instruction
  else return bytes

/-- The loop over the slots that are left, the first of them `slot`. -/
def ia64Slots (start branchMask offset : Nat) : Nat → Nat → Nat → List UInt8 → Metered (List UInt8)
  | 0, _, _, bytes => return bytes
  | left + 1, slot, bitPosition, bytes => do
    checkpoint 1
    let selected ← okOr (checkedShl 8 1 slot) (formatError "IA64 slot mask overflows")
    let bytes ← (if branchMask &&& selected = 0 then pure bytes
      else convertIa64 start bytes offset bitPosition)
    let bitPosition ← okOr (checkedAdd bitPosition 41)
      (formatError "IA64 bit position overflows")
    ia64Slots start branchMask offset left (slot + 1) bitPosition bytes

def ia64Body (start : Nat) (state : ScanState) : Metered ScanState := do
  checkpoint 16
  let first ← okOr state.bytes[state.offset]? (formatError "IA64 bundle is truncated")
  let branchMask ← okOr ia64BranchTable[(first &&& 0x1f).toNat]?
    (formatError "IA64 bundle template is out of range")
  let bytes ← ia64Slots start branchMask state.offset 3 0 5 state.bytes
  let offset ← okOr (checkedAdd state.offset 16) (formatError "IA64 bundle offset overflows")
  return ⟨bytes, offset⟩

def decodeIa64 (bytes properties : List UInt8) : Metered (List UInt8) := do
  let start ← startingPosition properties
  -- The product is no more than the length.
  let processBytes := bytes.length / 16 * 16
  ScanState.bytes <$>
    whileLoop (fun state => state.offset < processBytes) (ia64Body start) bytes.length ⟨bytes, 0⟩

def isNotAuipcPair (auipc second : Nat) : Bool :=
  (wrappingShl auipc 8 ^^^ wrappingSub second 3) &&& 0x000f8003 ≠ 0

def isNotSpecialAuipc (auipc secondRs1 : Nat) : Bool :=
  secondRs1 &&& 0x1d ≤ wrappingShl (wrappingSub auipc 0x3117) 18

/-- The offset behind `bytes` more. -/
def riscvAdvance (offset bytes : Nat) : Except Error Nat :=
  okOr (checkedAdd offset bytes) (formatError "RISC-V position overflows")

def riscvSkip (state : ScanState) (bytes : Nat) : Except Error ScanState := do
  let offset ← riscvAdvance state.offset bytes
  return { state with offset := offset }

def riscvJal (start : Nat) (state : ScanState) (first second : UInt8) : Except Error ScanState := do
  let third ← byteAt state.bytes state.offset 2 "RISC-V index overflows"
    "RISC-V JAL is truncated"
  let fourth ← byteAt state.bytes state.offset 3 "RISC-V index overflows"
    "RISC-V JAL is truncated"
  let position := wrappingAdd start (lowU32Offset state.offset)
  let address := (second &&& 0xf0).toNat <<< 13 ||| third.toNat <<< 9 ||| fourth.toNat <<< 1
  let address := wrappingSub address position
  let decoded : List UInt8 := [
    first,
    .ofNat ((second &&& 0x0f).toNat ||| (address >>> 8 &&& 0xf0)),
    .ofNat ((address >>> 16 &&& 0x0f) ||| (address >>> 7 &&& 0x10) |||
      (wrappingShl address 4 &&& 0xe0)),
    .ofNat ((address >>> 4 &&& 0x7f) ||| (address >>> 13 &&& 0x80))]
  let bytes ← writeRange state.bytes state.offset decoded "RISC-V JAL range overflows"
    "RISC-V JAL is truncated"
  let offset ← riscvAdvance state.offset 4
  return ⟨bytes, offset⟩

def riscvWritePair (state : ScanState) (instruction second : Nat) : Except Error ScanState := do
  let bytes ← writeU32Le state.bytes state.offset instruction
  let secondOffset ← okOr (checkedAdd state.offset 4)
    (formatError "RISC-V pair offset overflows")
  let bytes ← writeU32Le bytes secondOffset second
  let offset ← riscvAdvance state.offset 8
  return ⟨bytes, offset⟩

def riscvAuipc (start : Nat) (state : ScanState) : Except Error ScanState := do
  let instruction ← readCompatibilityLe state.bytes state.offset
  if instruction &&& 0x0e80 ≠ 0 then do
    let secondOffset ← okOr (checkedAdd state.offset 4)
      (formatError "RISC-V pair offset overflows")
    let second ← readCompatibilityLe state.bytes secondOffset
    if isNotAuipcPair instruction second then riscvSkip state 6
    else
      let address := wrappingAdd (instruction &&& 0xfffff000) (second >>> 20)
      let instruction := 0x17 ||| 2 <<< 7 ||| wrappingShl second 12
      riscvWritePair state instruction address
  else
    let secondRs1 := instruction >>> 27
    if isNotSpecialAuipc instruction secondRs1 then riscvSkip state 4
    else do
      let addressOffset ← okOr (checkedAdd state.offset 4)
        (formatError "RISC-V pair offset overflows")
      let position := wrappingAdd start (lowU32Offset state.offset)
      let encoded ← readCompatibilityBe state.bytes addressOffset
      let address := wrappingSub encoded position
      let second := instruction >>> 12 ||| wrappingShl address 20
      let instruction := 0x17 ||| wrappingShl secondRs1 7 |||
        (wrappingAdd address 0x800 &&& 0xfffff000)
      riscvWritePair state instruction second

def riscvConvert (start : Nat) (state : ScanState) (first : UInt8) : Except Error ScanState :=
  if first = 0xef then do
    let second ← byteAt state.bytes state.offset 1 "RISC-V index overflows"
      "RISC-V JAL is truncated"
    if second &&& 0x0d = 0 then riscvJal start state first second else riscvSkip state 2
  else if first &&& 0x7f = 0x17 then riscvAuipc start state
  else riscvSkip state 2

def riscvBody (start : Nat) (state : ScanState) : Metered ScanState := do
  checkpoint 2
  let first ← okOr state.bytes[state.offset]? (formatError "RISC-V instruction is truncated")
  riscvConvert start state first

def decodeRiscv (bytes properties : List UInt8) : Metered (List UInt8) :=
  if bytes.length < 8 then return bytes
  else do
    let position ← startingPosition properties
    let start := position &&& 0xfffffffe
    let scanEnd ← okOr (checkedSub bytes.length 8) (formatError "RISC-V scan bound underflows")
    ScanState.bytes <$>
      whileLoop (fun state => state.offset ≤ scanEnd) (riscvBody start) bytes.length ⟨bytes, 0⟩

def decodePhase5Filter (method properties bytes : List UInt8) : Metered (List UInt8) :=
  if method = methodIa64 then decodeIa64 bytes properties
  else if method = methodArmThumb then decodeArmThumb bytes properties
  else if method = methodRiscv then decodeRiscv bytes properties
  else if method = methodSwap2 then decodeSwap bytes properties 2
  else if method = methodSwap4 then decodeSwap bytes properties 4
  else throw (.unsupportedMethod method)

/-- `decode_filter_in_place` of `decode/filters.rs`. -/
def decodeFilterInPlace (method properties bytes : List UInt8) : Metered (List UInt8) :=
  if method = methodDelta then decodeDelta bytes properties
  else if method = methodBcj then decodeX86Bcj bytes properties
  else if method = methodPpc then decodePpc bytes properties
  else if method = methodArm then decodeArm bytes properties
  else if method = methodArm64 then decodeArm64 bytes properties
  else if method = methodSparc then decodeSparc bytes properties
  else decodePhase5Filter method properties bytes

/-- `decode_filter`, which owns its buffer. -/
def decodeFilter (method properties bytes : List UInt8) : Metered (List UInt8) :=
  decodeFilterInPlace method properties bytes

end Filter
end Unpackio
