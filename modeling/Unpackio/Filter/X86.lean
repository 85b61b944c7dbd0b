/-
The x86 branch filter, `decode_x86_bcj` of `decode/filters.rs`.
-/
import Unpackio.Filter.Words

namespace Unpackio
namespace Filter

def testX86Msb (byte : UInt8) : Bool := (byte + 1) &&& 0xfe = 0

def x86LookAhead : Nat := 4

def x86InstructionSize : Nat := 5

/-- The search for the next opcode.  Every round moves the position, so `fuel` is
the number of positions before `scanEnd`. -/
def x86Scan (bytes : List UInt8) (scanEnd : Nat) : Nat → Nat → Metered Nat
  | 0, position => return position
  | fuel + 1, position =>
    if position < scanEnd then do
      checkpoint 1
      let byte ← okOr bytes[position]? (formatError "BCJ opcode index is out of range")
      if byte &&& 0xfe = 0xe8 then return position
      else do
        let position ← okOr (checkedAdd position 1) (formatError "BCJ position overflows")
        x86Scan bytes scanEnd fuel position
    else return position

/-- The mask at an opcode that is this far behind the last position. -/
def x86ShiftMask (mask distance : Nat) : Nat := if 2 < distance then 0 else mask >>> distance

/-- Does the history forbid a conversion at this opcode? -/
def x86Masked (bytes : List UInt8) (position mask : Nat) : Except Error Bool :=
  if mask ≠ 0 then do
    let look ← okOr ((checkedAdd position (mask >>> 1)).bind fun value => checkedAdd value 1)
      (formatError "BCJ mask index overflows")
    let tested ← okOr bytes[look]? (formatError "BCJ mask index is out of range")
    return 4 < mask ∨ mask = 3 ∨ testX86Msb tested
  else return false

/-- The absolute destination of a branch, made relative. -/
def x86Destination (value current mask : Nat) : Nat :=
  let value := wrappingSub value current
  if mask ≠ 0 then
    let shift := (mask &&& 6) <<< 2
    if testX86Msb (UInt8.ofNat (value >>> shift &&& 0xff)) then
      let value := value ^^^ (0x100 <<< shift - 1)
      wrappingSub value current
    else value
  else value

/-- The conversion of the instruction at `position`. -/
def x86Convert (instructionPointer : Nat) (bytes : List UInt8) (position mask : Nat) :
    Except Error (List UInt8) := do
  let valueIndex ← okOr (checkedAdd position 1) (formatError "BCJ value index overflows")
  let value ← readU32Le bytes valueIndex
  let position32 ← okOr (tryFrom 32 position)
    (formatError "BCJ position exceeds the 32-bit address domain")
  let current := wrappingAdd (wrappingAdd instructionPointer x86InstructionSize) position32
  let value := x86Destination value current mask
  let bytes ← writeWord bytes valueIndex (toLeBytes 4 value)
  -- The high byte is the sign of the 25 bits below it.
  let high ← okOr bytes[position + 4]? (formatError "BCJ high-byte index is out of range")
  return bytes.set (position + 4) (0 - (high &&& 1))

def x86Opcode (instructionPointer : Nat) (bytes : List UInt8) (position mask : Nat) :
    Except Error (List UInt8 × Nat × Nat) := do
  let masked ← x86Masked bytes position mask
  if masked then do
    let position ← okOr (checkedAdd position 1) (formatError "BCJ position overflows")
    return (bytes, position, mask >>> 1 ||| 4)
  else do
    let high ← byteAt bytes position 4 "BCJ high-byte index overflows"
      "BCJ high-byte index is out of range"
    if testX86Msb high then do
      let bytes ← x86Convert instructionPointer bytes position mask
      let position ← okOr (checkedAdd position x86InstructionSize)
        (formatError "BCJ position overflows")
      return (bytes, position, 0)
    else do
      let position ← okOr (checkedAdd position 1) (formatError "BCJ position overflows")
      return (bytes, position, mask >>> 1 ||| 4)

/-- The loop over the opcodes: the buffer, the position behind the last opcode,
and the mask.  Every round moves the position, so `fuel` is the number of bytes. -/
def decodeX86Loop (instructionPointer scanEnd : Nat) :
    Nat → List UInt8 → Nat → Nat → Metered (List UInt8)
  | 0, bytes, _, _ => return bytes
  | fuel + 1, bytes, previous, mask => do
    let position ← x86Scan bytes scanEnd (scanEnd - previous) previous
    let distance ← okOr (checkedSub position previous)
      (formatError "BCJ scan distance underflows")
    if scanEnd ≤ position then do
      let _ ← okOr (tryFrom 32 position)
        (formatError "BCJ position exceeds the 32-bit address domain")
      return bytes
    else do
      let (bytes, position, mask) ←
        x86Opcode instructionPointer bytes position (x86ShiftMask mask distance)
      decodeX86Loop instructionPointer scanEnd fuel bytes position mask

def decodeX86Bcj (bytes properties : List UInt8) : Metered (List UInt8) := do
  let minimum ← okOr (checkedAdd x86LookAhead 1)
    (formatError "BCJ minimum input size overflows")
  if bytes.length < minimum then return bytes
  else do
    let scanEnd ← okOr (checkedSub bytes.length x86LookAhead)
      (formatError "BCJ scan bound underflows")
    let instructionPointer ← startingPosition properties
    decodeX86Loop instructionPointer scanEnd bytes.length bytes 0 0

end Filter
end Unpackio
