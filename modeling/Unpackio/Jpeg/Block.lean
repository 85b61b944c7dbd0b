/-
The decoding of one block of WinZip JPEG, from `decode/winzip_jpeg.rs`.

The arithmetic decoder and the bins are the state of a program.  Each loop of the
source is a recursion over what is left of its range.
-/
import Unpackio.Jpeg.Contexts

namespace Unpackio
namespace Jpeg

/-- What decoding a block changes: the decoder, the bins of the models, and the
bin of the signs that nothing predicts. -/
structure Coder where
  decoder : ArithmeticDecoder
  models : List Bin
  fixed : Bin
  deriving DecidableEq, Repr

/-- A program over the state of the coder. -/
abbrev Coding (α : Type) : Type := StateT Coder Metered α

/-- `Models::new`, after its check of the memory limit. -/
def newModels : List Bin := List.replicate modelCount Bin.adaptive

section

variable (tables : LogTables)

/-- `Models::decode`. -/
def decodeModel (index : Nat) : Coding Nat := fun coder => do
  let bin ← okOr coder.models[index]?
    (formatError "WinZip JPEG probability model index is out of range")
  let (bit, bin, decoder) ← coder.decoder.decodeBit tables bin
  return (bit, { coder with decoder := decoder, models := coder.models.set index bin })

def decodeFixed : Coding Nat := fun coder => do
  let (bit, bin, decoder) ← coder.decoder.decodeBit tables coder.fixed
  return (bit, { coder with decoder := decoder, fixed := bin })

/-- The model whose index a context gives. -/
def decodeAt (index : Except Error Nat) : Coding Nat := do
  let index ← index
  decodeModel tables index

def countOnes (index : Nat → Except Error Nat) (maximum : Nat) (overflow : Error) :
    Nat → Nat → Coding Nat
  | 0, ones => return ones
  | left + 1, ones => do
    let bit ← decodeAt tables (index (min ones maximum))
    if bit = 0 then return ones
    else do
      let ones ← okOr (checkedAdd ones 1) overflow
      countOnes index maximum overflow left ones

/-- The loop of `decode_remainder`, from the highest bit down. -/
def remainderLoop (index : Nat → Except Error Nat) : Nat → Nat → Coding Nat
  | 0, value => return value
  | bitIndex + 1, value => do
    let bit ← decodeAt tables (index bitIndex)
    let position ← okOr (tryFrom 32 bitIndex)
      (formatError "WinZip JPEG remainder position is not representable")
    let shifted ← okOr (checkedShl 32 bit position) (formatError "WinZip JPEG remainder overflows")
    remainderLoop index bitIndex (value ||| shifted)

def decodeRemainder (ones maximumBit : Nat) (index : Nat → Except Error Nat) : Coding Int :=
  if ones = 0 then return 0
  else if ones = 1 then return 1
  else do
    let bits ← okOr (checkedSub ones 1) (formatError "WinZip JPEG binarization width underflows")
    rejectIf (maximumBit < bits) (formatError "WinZip JPEG binarization is too wide")
    let width ← okOr (tryFrom 32 bits)
      (formatError "WinZip JPEG binarization width is not representable")
    let value ← okOr (checkedShl 32 1 width) (formatError "WinZip JPEG binarization overflows")
    let value ← remainderLoop tables index bits value
    okOr (signed 32 value) (formatError "WinZip JPEG magnitude is not representable")

def decodeAcBinarization (component kind first second position : Nat) : Coding Int := do
  let ones ← countOnes tables (acMagnitudeIndex component kind first second) 8
    (formatError "WinZip JPEG AC magnitude width overflows") 14 0
  decodeRemainder tables ones 13 (acRemainderIndex component kind position)

def decodeDcBinarization (component valueContext : Nat) : Coding Int := do
  let ones ← countOnes tables (dcMagnitudeIndex component valueContext) 9
    (formatError "WinZip JPEG DC magnitude width overflows") 15 0
  decodeRemainder tables ones 14 (dcRemainderIndex component valueContext)

/-! ## Coefficients -/

/-- A coefficient of 16 bits. -/
def toInt16 (value : Int) : Option Int16 := (signed 16 value).map Int16.ofInt

def signMagnitude (absoluteValue : Int) : Except Error Nat := do
  let value ← okOr (unsigned absoluteValue) (formatError "WinZip JPEG AC magnitude is negative")
  let bits ← category value
  return min (bits / 2) 2

def decodeAcSign (signContexts : Vector Nat 64) (component coefficientIndex : Nat)
    (absoluteValue : Int) (current north west : Block) (quant : QuantTable) : Coding Nat := do
  let predicted ← predictedSign coefficientIndex current north west quant
  match predicted with
  | none => decodeFixed tables
  | some predicted => do
    let context ← okOr signContexts[coefficientIndex]?
      (formatError "WinZip JPEG sign context is out of range")
    let magnitude ← signMagnitude absoluteValue
    decodeAt tables (acSignIndex component context magnitude predicted)

def acFirstValue (row column coefficientIndex : Nat) (current north west : Block)
    (quant : QuantTable) : Except Error Int :=
  if row = 0 ∨ column = 0 then do
    let difference ← boundaryDifference north west coefficientIndex current quant
    okOr (signed 64 difference.natAbs)
      (formatError "WinZip JPEG AC prediction magnitude overflows")
  else average north west coefficientIndex quant

def acContextValues (coefficientIndex : Nat) (current north west : Block) (quant : QuantTable) :
    Except Error (Int × Int) := do
  let row ← rowOf coefficientIndex
  let column ← columnOf coefficientIndex
  let first ← acFirstValue row column coefficientIndex current north west quant
  let second ← current.sumFrom coefficientIndex
  return (first, second)

def decodeNonzero (canBeZero : Bool) (component coefficientContext : Nat) (first second : Int) :
    Coding Nat :=
  if canBeZero then do
    let firstContext ← categoryUpTo 2 first "WinZip JPEG AC zero context is negative"
    let secondContext ← categoryUpTo 5 second "WinZip JPEG AC zero context is negative"
    decodeAt tables (zeroIndex component coefficientContext firstContext secondContext)
  else return 1

/-- The models of a magnitude, by the row or the column or the place inside. -/
def acKind (coefficientIndex : Nat) : Except Error (Nat × Nat) := do
  let row ← rowOf coefficientIndex
  let column ← columnOf coefficientIndex
  if row = 0 then do
    let position ← okOr (checkedSub column 1)
      (formatError "WinZip JPEG AC column context underflows")
    return (0, position)
  else if column = 0 then do
    let position ← okOr (checkedSub row 1) (formatError "WinZip JPEG AC row context underflows")
    return (1, position)
  else do
    let adjusted ← okOr (checkedSub coefficientIndex 4)
      (formatError "WinZip JPEG AC magnitude context underflows")
    let position ← category adjusted
    return (2, position)

def decodeAcMagnitude (component coefficientIndex coefficientContext : Nat) (first second : Int) :
    Coding Int := do
  let firstContext ← categoryUpTo 4 first "WinZip JPEG AC pivot context is negative"
  let secondContext ← categoryUpTo 6 second "WinZip JPEG AC pivot context is negative"
  let pivot ← decodeAt tables
    (pivotIndex component coefficientContext firstContext secondContext)
  if pivot = 0 then return 1
  else do
    let (kind, position) ← acKind coefficientIndex
    let magnitudeFirst ← categoryUpTo 8 first "WinZip JPEG AC magnitude context is negative"
    let magnitudeSecond ← categoryUpTo 8 second "WinZip JPEG AC magnitude context is negative"
    let value ← decodeAcBinarization tables component kind magnitudeFirst magnitudeSecond position
    okOr (signed 32 (value + 2)) (formatError "WinZip JPEG AC magnitude overflows")

def decodeAcComponent (signContexts : Vector Nat 64) (component coefficientIndex : Nat)
    (canBeZero : Bool) (current : Block) (north west : Option Block) (quant : QuantTable) :
    Coding Int16 := do
  let north := north.getD Block.zero
  let west := west.getD Block.zero
  let coefficientContext ← okOr (checkedSub coefficientIndex 1)
    (formatError "WinZip JPEG AC coefficient context underflows")
  let (first, second) ← acContextValues coefficientIndex current north west quant
  let nonzero ← decodeNonzero tables canBeZero component coefficientContext first second
  if nonzero = 0 then return 0
  else do
    let absoluteValue ← decodeAcMagnitude tables component coefficientIndex coefficientContext
      first second
    let sign ← decodeAcSign tables signContexts component coefficientIndex absoluteValue current
      north west quant
    let value ← okOr (if sign = 0 then some absoluteValue else signed 32 (-absoluteValue))
      (formatError "WinZip JPEG AC coefficient overflows")
    okOr (toInt16 value) (formatError "WinZip JPEG AC coefficient is out of range")

def decodeDcValue (component : Nat) (predicted absoluteValue : Int) (north west : Option Block) :
    Coding Int :=
  if absoluteValue = 0 then return predicted
  else do
    let northValue ← (north.getD Block.zero).coefficient 0
    let westValue ← (west.getD Block.zero).coefficient 0
    let sign ← decodeAt tables (dcSignIndex component (if northValue < predicted then 1 else 0)
      (if westValue < predicted then 1 else 0) (if predicted < 0 then 1 else 0))
    okOr (signed 64 (if sign = 0 then predicted + absoluteValue else predicted - absoluteValue))
      (formatError "WinZip JPEG DC coefficient overflows")

def decodeDcComponent (component : Nat) (current : Block) (north west : Option Block)
    (quant : QuantTable) : Coding Int16 := do
  let predicted ← dcPrediction current north west quant
  let sum ← current.sumFrom 0
  let valueContext ← categoryUpTo 12 sum "WinZip JPEG DC magnitude context is negative"
  let absoluteValue ← decodeDcBinarization tables component valueContext
  let value ← decodeDcValue tables component predicted absoluteValue north west
  okOr (toInt16 value) (formatError "WinZip JPEG DC coefficient is out of range")

/-- The bits of the last coefficient, each with the model of the bits before it. -/
def eobLoop (component eobContext : Nat) : Nat → Nat → Coding Nat
  | 0, bitString => return bitString
  | rounds + 1, bitString => do
    let node ← okOr (checkedSub bitString 1) (formatError "WinZip JPEG EOB node underflows")
    let bit ← decodeAt tables (eobIndex component eobContext node)
    let bitString ← okOr ((checkedMul bitString 2).bind fun value => checkedAdd value bit)
      (formatError "WinZip JPEG EOB value overflows")
    eobLoop component eobContext rounds bitString

def acLoop (signContexts : Vector Nat 64) (component eob : Nat) (north west : Option Block)
    (quant : QuantTable) : Nat → Block → Coding Block
  | 0, current => return current
  | index + 1, current => do
    let value ← decodeAcComponent tables signContexts component (index + 1) (index + 1 ≠ eob)
      current north west quant
    let current ← current.setCoefficient (index + 1) value
    acLoop signContexts component eob north west quant index current

def decodeBlock (signContexts : Vector Nat 64) (component : Nat) (north west : Option Block)
    (quant : QuantTable) : Coding Block := do
  let averageValue ← eobAverage north west
  let eobContext ← categoryUpTo 12 averageValue "WinZip JPEG EOB context is negative"
  let bitString ← eobLoop tables component eobContext 6 1
  let eob := bitString &&& 0x3f
  let eob ← okOr (tryFrom 8 eob) (formatError "WinZip JPEG EOB is not representable")
  let current ← acLoop tables signContexts component eob north west quant eob
    { coefficients := Vector.replicate 64 0, eob := eob }
  let first ← decodeDcComponent tables component current north west quant
  return { current with coefficients := current.coefficients.set 0 first Block.first_lt }

end

end Jpeg
end Unpackio
