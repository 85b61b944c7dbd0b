/-
The contexts of WinZip JPEG coefficients, from `decode/winzip_jpeg.rs`: the
indices of the probability models and what the neighbouring blocks predict.
-/
import Unpackio.Jpeg.Arithmetic

namespace Unpackio
namespace Jpeg

/-- `checked_div` of a signed number of 64 bits. -/
def checkedDiv (a b : Int) : Option Int := if b = 0 then none else signed 64 (a.tdiv b)

/-- A number that is not negative. -/
def unsigned (value : Int) : Option Nat := if 0 ≤ value then some value.toNat else none

def modelCount : Nat := 28328

def eobOffset : Nat := 0

def zeroOffset : Nat := eobOffset + 4 * 13 * 63

def pivotOffset : Nat := zeroOffset + 4 * 62 * 3 * 6

def acMagnitudeOffset : Nat := pivotOffset + 4 * 63 * 5 * 7

def acRemainderOffset : Nat := acMagnitudeOffset + 4 * 3 * 9 * 9 * 9

def acSignOffset : Nat := acRemainderOffset + 4 * 3 * 7 * 13

def dcMagnitudeOffset : Nat := acSignOffset + 4 * 27 * 3 * 2

def dcRemainderOffset : Nat := dcMagnitudeOffset + 4 * 13 * 10

def dcSignOffset : Nat := dcRemainderOffset + 4 * 13 * 14

/-- One coordinate of `model_index`. -/
def coordinateStep (index : Nat) (axis : Nat × Nat) : Except Error Nat := do
  rejectIf (axis.2 ≤ axis.1) (formatError "WinZip JPEG probability context is out of range")
  okOr ((checkedMul index axis.2).bind fun value => checkedAdd value axis.1)
    (formatError "WinZip JPEG probability model index overflows")

def modelIndex (offset : Nat) (coordinates dimensions : List Nat) : Except Error Nat := do
  rejectIf (coordinates.length ≠ dimensions.length)
    (formatError "WinZip JPEG probability model rank is invalid")
  let index ← (coordinates.zip dimensions).foldlM coordinateStep 0
  okOr ((checkedAdd offset index).filter fun value => value < modelCount)
    (formatError "WinZip JPEG probability model index is out of range")

def eobIndex (component context node : Nat) : Except Error Nat :=
  modelIndex eobOffset [component, context, node] [4, 13, 63]

def zeroIndex (component coefficient first second : Nat) : Except Error Nat :=
  modelIndex zeroOffset [component, coefficient, first, second] [4, 62, 3, 6]

def pivotIndex (component coefficient first second : Nat) : Except Error Nat :=
  modelIndex pivotOffset [component, coefficient, first, second] [4, 63, 5, 7]

def acMagnitudeIndex (component kind first second context : Nat) : Except Error Nat :=
  modelIndex acMagnitudeOffset [component, kind, first, second, context] [4, 3, 9, 9, 9]

def acRemainderIndex (component kind position bit : Nat) : Except Error Nat :=
  modelIndex acRemainderOffset [component, kind, position, bit] [4, 3, 7, 13]

def acSignIndex (component context magnitude sign : Nat) : Except Error Nat :=
  modelIndex acSignOffset [component, context, magnitude, sign] [4, 27, 3, 2]

def dcMagnitudeIndex (component valueContext context : Nat) : Except Error Nat :=
  modelIndex dcMagnitudeOffset [component, valueContext, context] [4, 13, 10]

def dcRemainderIndex (component valueContext bit : Nat) : Except Error Nat :=
  modelIndex dcRemainderOffset [component, valueContext, bit] [4, 13, 14]

def dcSignIndex (component north west predicted : Nat) : Except Error Nat :=
  modelIndex dcSignOffset [component, north, west, predicted] [4, 2, 2, 2]

/-! ## Coefficients -/

structure Block where
  coefficients : Vector Int16 64
  eob : Nat
  deriving DecidableEq, Repr

/-- `Block::default`. -/
def Block.zero : Block := { coefficients := Vector.replicate 64 0, eob := 0 }

theorem Block.first_lt : 0 < 64 := by decide

def zigzag : List (List Nat) :=
  [[0, 1, 5, 6, 14, 15, 27, 28],
   [2, 4, 7, 13, 16, 26, 29, 42],
   [3, 8, 12, 17, 25, 30, 41, 43],
   [9, 11, 18, 24, 31, 40, 44, 53],
   [10, 19, 23, 32, 39, 45, 52, 54],
   [20, 22, 33, 38, 46, 51, 55, 60],
   [21, 34, 37, 47, 50, 56, 59, 61],
   [35, 36, 48, 49, 57, 58, 62, 63]]

/-- `ROW`. -/
def rows : List Nat :=
  [0, 0, 1, 2, 1, 0, 0, 1, 2, 3, 4, 3, 2, 1, 0, 0, 1, 2, 3, 4, 5, 6, 5, 4, 3, 2, 1, 0, 0, 1, 2, 3,
    4, 5, 6, 7, 7, 6, 5, 4, 3, 2, 1, 2, 3, 4, 5, 6, 7, 7, 6, 5, 4, 3, 4, 5, 6, 7, 7, 6, 5, 6, 7, 7]

/-- `COLUMN`. -/
def columns : List Nat :=
  [0, 1, 0, 0, 1, 2, 3, 2, 1, 0, 0, 1, 2, 3, 4, 5, 4, 3, 2, 1, 0, 0, 1, 2, 3, 4, 5, 6, 7, 6, 5, 4,
    3, 2, 1, 0, 1, 2, 3, 4, 5, 6, 7, 7, 6, 5, 4, 3, 2, 3, 4, 5, 6, 7, 7, 6, 5, 4, 5, 6, 7, 7, 6, 7]

def rowOf (coefficient : Nat) : Except Error Nat :=
  okOr rows[coefficient]? (formatError "WinZip JPEG coefficient index is out of range")

def columnOf (coefficient : Nat) : Except Error Nat :=
  okOr columns[coefficient]? (formatError "WinZip JPEG coefficient index is out of range")

def zigzagAt (row column : Nat) : Except Error Nat :=
  okOr (zigzag[row]?.bind fun values => values[column]?)
    (formatError "WinZip JPEG zigzag coordinate is out of range")

def leftOf (coefficient : Nat) : Except Error Nat := do
  let column ← columnOf coefficient
  let row ← rowOf coefficient
  let column ← okOr (checkedSub column 1) (formatError "WinZip JPEG left coefficient underflows")
  zigzagAt row column

def upOf (coefficient : Nat) : Except Error Nat := do
  let row ← rowOf coefficient
  let row ← okOr (checkedSub row 1) (formatError "WinZip JPEG upper coefficient underflows")
  let column ← columnOf coefficient
  zigzagAt row column

def upLeftOf (coefficient : Nat) : Except Error Nat := do
  let row ← rowOf coefficient
  let column ← columnOf coefficient
  let row ← okOr (checkedSub row 1) (formatError "WinZip JPEG upper-left row underflows")
  let column ← okOr (checkedSub column 1) (formatError "WinZip JPEG upper-left column underflows")
  zigzagAt row column

def rightOf (coefficient : Nat) : Except Error Nat := do
  let row ← rowOf coefficient
  let column ← columnOf coefficient
  let column ← okOr (checkedAdd column 1) (formatError "WinZip JPEG right coefficient overflows")
  zigzagAt row column

def downOf (coefficient : Nat) : Except Error Nat := do
  let row ← rowOf coefficient
  let row ← okOr (checkedAdd row 1) (formatError "WinZip JPEG lower coefficient overflows")
  let column ← columnOf coefficient
  zigzagAt row column

namespace Block

def coefficient (block : Block) (index : Nat) : Except Error Int := do
  let value ← okOr block.coefficients[index]?
    (formatError "WinZip JPEG coefficient index is out of range")
  return value.toInt

def absoluteCoefficient (block : Block) (index : Nat) : Except Error Int := do
  let value ← block.coefficient index
  okOr (signed 64 value.natAbs) (formatError "WinZip JPEG coefficient magnitude overflows")

/-- One coefficient of `coefficient_sum`. -/
def sumStep (block : Block) (coefficientIndex row column : Nat) (sum : Int) (index : Nat) :
    Except Error Int := do
  let indexRow ← rowOf index
  let indexColumn ← columnOf index
  if index ≠ coefficientIndex ∧ row ≤ indexRow ∧ column ≤ indexColumn then do
    let magnitude ← block.absoluteCoefficient index
    okOr (signed 64 (sum + magnitude)) (formatError "WinZip JPEG coefficient sum overflows")
  else return sum

/-- `coefficient_sum`. -/
def sumFrom (block : Block) (coefficientIndex : Nat) : Except Error Int := do
  let row ← rowOf coefficientIndex
  let column ← columnOf coefficientIndex
  (List.range 64).foldlM (block.sumStep coefficientIndex row column) 0

def setCoefficient (block : Block) (index : Nat) (value : Int16) : Except Error Block :=
  if h : index < 64 then .ok { block with coefficients := block.coefficients.set index value }
  else .error (formatError "WinZip JPEG AC coefficient index is out of range")

end Block

/-- The steps between the values of the coefficients. -/
abbrev QuantTable := Vector UInt16 64

def quantValue (quant : QuantTable) (index : Nat) : Except Error Int := do
  let value ← okOr quant[index]? (formatError "WinZip JPEG quantization index is out of range")
  rejectIf (value = 0) (formatError "WinZip JPEG quantization values must be nonzero")
  return value.toNat

section

variable (north west : Block)

def scaleNeighbours (index target : Nat) (quant : QuantTable) : Except Error Int := do
  let northMagnitude ← north.absoluteCoefficient index
  let westMagnitude ← west.absoluteCoefficient index
  let magnitude ← okOr (signed 64 (northMagnitude + westMagnitude))
    (formatError "WinZip JPEG neighbour scaling overflows")
  let step ← quantValue quant index
  let numerator ← okOr (signed 64 (magnitude * step))
    (formatError "WinZip JPEG neighbour scaling overflows")
  let step ← quantValue quant target
  return numerator.tdiv step

/-- A term of `average`. -/
def averageStep (coefficientIndex : Nat) (quant : QuantTable) (total : Int) (neighbour : Nat) :
    Except Error Int := do
  let scaled ← scaleNeighbours north west neighbour coefficientIndex quant
  okOr (signed 64 (total + scaled)) (formatError "WinZip JPEG coefficient average overflows")

/-- The neighbours that `average` weighs, with the number it divides by. -/
def averageNeighbours (coefficientIndex : Nat) : Except Error (List Nat × Int) := do
  let row ← rowOf coefficientIndex
  let column ← columnOf coefficientIndex
  if row = 0 then do
    let left ← leftOf coefficientIndex
    return ([left], 4)
  else if column = 0 then do
    let up ← upOf coefficientIndex
    return ([up], 4)
  else if coefficientIndex = 4 then do
    let up ← upOf coefficientIndex
    let left ← leftOf coefficientIndex
    return ([up, left], 6)
  else do
    let up ← upOf coefficientIndex
    let left ← leftOf coefficientIndex
    let upLeft ← upLeftOf coefficientIndex
    return ([up, left, upLeft], 8)

def average (coefficientIndex : Nat) (quant : QuantTable) : Except Error Int := do
  let northMagnitude ← north.absoluteCoefficient coefficientIndex
  let westMagnitude ← west.absoluteCoefficient coefficientIndex
  let direct ← okOr (signed 64 (northMagnitude + westMagnitude))
    (formatError "WinZip JPEG coefficient average overflows")
  if coefficientIndex ≤ 2 then do
    let value ← okOr (signed 64 (direct + 1))
      (formatError "WinZip JPEG coefficient average overflows")
    return value.tdiv 2
  else do
    let (neighbours, divisor) ← averageNeighbours coefficientIndex
    let total ← neighbours.foldlM (averageStep north west coefficientIndex quant) direct
    let total ← okOr (signed 64 (total + divisor.tdiv 2))
      (formatError "WinZip JPEG coefficient average overflows")
    return total.tdiv divisor

def besideDifference (neighbour current : Block) (coefficientIndex beside : Nat)
    (quant : QuantTable) : Except Error Int := do
  let neighbourValue ← neighbour.coefficient beside
  let currentValue ← current.coefficient beside
  let sum ← okOr (signed 64 (neighbourValue + currentValue))
    (formatError "WinZip JPEG boundary prediction overflows")
  let step ← quantValue quant beside
  let product ← okOr (signed 64 (sum * step))
    (formatError "WinZip JPEG boundary prediction overflows")
  let step ← quantValue quant coefficientIndex
  let value ← neighbour.coefficient coefficientIndex
  okOr (signed 64 (value - product.tdiv step))
    (formatError "WinZip JPEG boundary prediction overflows")

def boundaryDifference (coefficientIndex : Nat) (current : Block) (quant : QuantTable) :
    Except Error Int := do
  let row ← rowOf coefficientIndex
  let column ← columnOf coefficientIndex
  if row = 0 then do
    let down ← downOf coefficientIndex
    besideDifference north current coefficientIndex down quant
  else if column = 0 then do
    let right ← rightOf coefficientIndex
    besideDifference west current coefficientIndex right quant
  else return 0

end

def leadingZeros (value : Nat) : Nat := if value = 0 then 64 else 63 - Nat.log 2 value

/-- The bits of a number. -/
def category (value : Nat) : Except Error Nat :=
  if value = 0 then return 0
  else okOr (tryFrom 64 (64 - leadingZeros value))
    (formatError "WinZip JPEG category is not representable")

def categoryUpTo (maximum : Nat) (value : Int) (negative : String) : Except Error Nat := do
  let value ← okOr (unsigned value) (formatError negative)
  let bits ← category value
  return min bits maximum

/-- One entry of the loop of `sign_contexts`. -/
def signContextStep (state : Vector Nat 64 × Nat) (coefficientIndex : Nat) :
    Except Error (Vector Nat 64 × Nat) := do
  let (contexts, next) := state
  let row ← rowOf coefficientIndex
  let column ← columnOf coefficientIndex
  if row = 0 ∨ column = 0 ∨ row = 1 ∨ column = 1 then do
    let following ← okOr (checkedAdd next 1)
      (formatError "WinZip JPEG sign context count overflows")
    return (contexts.setIfInBounds coefficientIndex next, following)
  else return (contexts, next)

def signContexts : Except Error (Vector Nat 64) := do
  let (contexts, next) ← (List.range' 1 63).foldlM signContextStep (Vector.replicate 64 0, 0)
  rejectIf (next ≠ 27) (formatError "WinZip JPEG sign context table is inconsistent")
  return contexts

def signOf (value : Int) : Option Nat :=
  if value = 0 then none else some (if value < 0 then 1 else 0)

/-- The sign that `decode_ac_sign` predicts. -/
def predictedSign (coefficientIndex : Nat) (current north west : Block) (quant : QuantTable) :
    Except Error (Option Nat) := do
  let row ← rowOf coefficientIndex
  let column ← columnOf coefficientIndex
  if row = 0 ∨ column = 0 then do
    let difference ← boundaryDifference north west coefficientIndex current quant
    return signOf difference
  else if coefficientIndex = 4 then do
    let northValue ← north.coefficient coefficientIndex
    let westValue ← west.coefficient coefficientIndex
    let sum ← okOr (signed 64 (northValue.sign + westValue.sign))
      (formatError "WinZip JPEG sign prediction overflows")
    return signOf sum
  else if row = 1 then do
    let value ← north.coefficient coefficientIndex
    return signOf value
  else if column = 1 then do
    let value ← west.coefficient coefficientIndex
    return signOf value
  else return none

def roundedPrediction (value : Int) : Except Error Int := do
  let adjusted ← okOr (signed 64 (if value < 0 then value - 5000 else value + 5000))
    (formatError "WinZip JPEG DC rounding overflows")
  return adjusted.tdiv 10000

def directionalPrediction (neighbour current : Block) (neighbourCoefficient : Nat)
    (quant : QuantTable) : Except Error Int := do
  let first ← neighbour.coefficient 0
  let base ← okOr (signed 64 (first * 10000))
    (formatError "WinZip JPEG DC prediction overflows")
  let neighbourValue ← neighbour.coefficient neighbourCoefficient
  let currentValue ← current.coefficient neighbourCoefficient
  let sum ← okOr (signed 64 (neighbourValue + currentValue))
    (formatError "WinZip JPEG DC prediction overflows")
  let step ← quantValue quant neighbourCoefficient
  let scaled ← okOr (signed 64 (11038 * step)) (formatError "WinZip JPEG DC prediction overflows")
  let product ← okOr (signed 64 (scaled * sum)) (formatError "WinZip JPEG DC prediction overflows")
  let step ← quantValue quant 0
  let value ← okOr (signed 64 (base - product.tdiv step))
    (formatError "WinZip JPEG DC prediction overflows")
  roundedPrediction value

/-- The distance of two coefficients, added to the distances so far. -/
def differenceStep (neighbour current : Block) (index : Nat) (total : Int) : Except Error Int := do
  let neighbourValue ← neighbour.coefficient index
  let currentValue ← current.coefficient index
  let distance ← okOr ((signed 64 (neighbourValue - currentValue)).bind fun difference =>
      signed 64 difference.natAbs)
    (formatError "WinZip JPEG DC refinement overflows")
  okOr (signed 64 (total + distance)) (formatError "WinZip JPEG DC refinement overflows")

def differencesStep (current north west : Block) (totals : Int × Int) (coordinate : Nat) :
    Except Error (Int × Int) := do
  let vertical ← zigzagAt coordinate 0
  let horizontal ← zigzagAt 0 coordinate
  let northDifference ← differenceStep north current vertical totals.1
  let westDifference ← differenceStep west current horizontal totals.2
  return (northDifference, westDifference)

def weightedPrediction (weighted other difference : Int) : Except Error Int := do
  let shift ← okOr ((unsigned (min difference 31)).bind (tryFrom 32))
    (formatError "WinZip JPEG DC weight is not representable")
  let weight ← okOr (signed 64 (2 ^ shift)) (formatError "WinZip JPEG DC weight overflows")
  let denominator ← okOr (signed 64 (weight + 1)) (formatError "WinZip JPEG DC weight overflows")
  let product ← okOr (signed 64 (weight * weighted))
    (formatError "WinZip JPEG DC refinement overflows")
  let sum ← okOr (signed 64 (product + other)) (formatError "WinZip JPEG DC refinement overflows")
  okOr (checkedDiv sum denominator) (formatError "WinZip JPEG DC refinement overflows")

def bothPrediction (current north west : Block) (quant : QuantTable) : Except Error Int := do
  let northPrediction ← directionalPrediction north current 2 quant
  let westPrediction ← directionalPrediction west current 1 quant
  let (northDifference, westDifference) ←
    (List.range' 1 7).foldlM (differencesStep current north west) (0, 0)
  if westDifference < northDifference then do
    let difference ← okOr (signed 64 (northDifference - westDifference))
      (formatError "WinZip JPEG DC refinement underflows")
    weightedPrediction westPrediction northPrediction difference
  else do
    let difference ← okOr (signed 64 (westDifference - northDifference))
      (formatError "WinZip JPEG DC refinement underflows")
    weightedPrediction northPrediction westPrediction difference

def dcPrediction (current : Block) (north west : Option Block) (quant : QuantTable) :
    Except Error Int :=
  match north, west with
  | none, none => return 0
  | none, some west => directionalPrediction west current 1 quant
  | some north, none => directionalPrediction north current 2 quant
  | some north, some west => bothPrediction current north west quant

def eobAverage (north west : Option Block) : Except Error Int :=
  match north, west with
  | none, none => return 0
  | none, some west => west.sumFrom 0
  | some north, none => north.sumFrom 0
  | some north, some west => do
    let northSum ← north.sumFrom 0
    let westSum ← west.sumFrom 0
    let sum ← okOr (signed 64 (northSum + westSum))
      (formatError "WinZip JPEG EOB context overflows")
    let sum ← okOr (signed 64 (sum + 1)) (formatError "WinZip JPEG EOB context overflows")
    return sum.tdiv 2

end Jpeg
end Unpackio
