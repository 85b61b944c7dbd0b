/-
The LZMA decoder of `decode/lzma.rs`.

A decoder that the source changes in place is taken and handed back.  Every loop is
a recursion: over the bits of a literal, over the bytes of a match, and over the
rounds of `decode_stream`, of which there are never more than `maxRounds`.
-/
import Unpackio.Bounded
import Unpackio.Lzma.Range

namespace Unpackio
namespace Lzma

open Unpackio.Filter (wrappingShl)

def stateCount : Nat := 12

def positionStates : Nat := 1 <<< 4

def minMatchLength : Nat := 2

def lengthStates : Nat := 4

def startPositionModel : Nat := 4

def endPositionModel : Nat := 14

def positionSlotBits : Nat := 6

def alignBits : Nat := 4

def eosDistance : Nat := 2 ^ 32 - 1

/-- More than there are positions in an output. -/
def maxRounds : Nat := 2 ^ 64 + 1

def decodeAt (probabilities : List Nat) (index : Nat) (detail : String) (range : RangeDecoder) :
    Metered (Nat × List Nat × RangeDecoder) := do
  let probability ← okOr probabilities[index]? (formatError detail)
  let (bit, probability, range) ← decodeBit probability range
  return (bit, probabilities.set index probability, range)

def decodeTreeAt (decode : ProbabilityTree → RangeDecoder →
      Metered (Nat × ProbabilityTree × RangeDecoder))
    (trees : List ProbabilityTree) (index : Nat) (detail : String) (range : RangeDecoder) :
    Metered (Nat × List ProbabilityTree × RangeDecoder) := do
  let tree ← okOr trees[index]? (formatError detail)
  let (value, tree, range) ← decode tree range
  return (value, trees.set index tree, range)

structure LengthDecoder where
  choice : List Nat
  low : List ProbabilityTree
  middle : List ProbabilityTree
  high : ProbabilityTree
  deriving DecidableEq, Repr

namespace LengthDecoder

def new : Except Error LengthDecoder := do
  let low ← ProbabilityTree.new 3
  let middle ← ProbabilityTree.new 3
  let high ← ProbabilityTree.new 8
  return { choice := List.replicate 2 probInitial
           low := List.replicate positionStates low
           middle := List.replicate positionStates middle
           high := high }

def decode (lengths : LengthDecoder) (range : RangeDecoder) (positionState : Nat) :
    Metered (Nat × LengthDecoder × RangeDecoder) := do
  let (bit, choice, range) ← decodeAt lengths.choice 0 "LZMA length choice is missing" range
  if bit = 0 then do
    let (value, low, range) ← decodeTreeAt ProbabilityTree.decode lengths.low positionState
      "LZMA low-length state is out of range" range
    return (value, { lengths with choice, low }, range)
  else do
    let (bit, choice, range) ← decodeAt choice 1 "LZMA length choice is missing" range
    if bit = 0 then do
      let (value, middle, range) ← decodeTreeAt ProbabilityTree.decode lengths.middle
        positionState "LZMA middle-length state is out of range" range
      let value ← okOr (tryFrom 32 (value + 8)) (formatError "LZMA length overflows")
      return (value, { lengths with choice, middle }, range)
    else do
      let (value, high, range) ← lengths.high.decode range
      let value ← okOr (tryFrom 32 (value + 16)) (formatError "LZMA length overflows")
      return (value, { lengths with choice, high }, range)

end LengthDecoder

structure DistanceDecoder where
  positionSlots : List ProbabilityTree
  positionModels : List ProbabilityTree
  alignment : ProbabilityTree
  deriving DecidableEq, Repr

namespace DistanceDecoder

def new : Except Error DistanceDecoder := do
  let positionSlot ← ProbabilityTree.new positionSlotBits
  let positionModels ← (List.range' startPositionModel (endPositionModel - startPositionModel)).mapM
    fun slot => do
      let bits ← okOr (checkedSub (slot >>> 1) 1)
        (formatError "LZMA position-model width underflows")
      ProbabilityTree.new bits
  let alignment ← ProbabilityTree.new alignBits
  return { positionSlots := List.replicate lengthStates positionSlot, positionModels, alignment }

def directLoop : Nat → Nat → RangeDecoder → Metered (Nat × RangeDecoder)
  | 0, direct, range => return (direct, range)
  | count + 1, direct, range => do
    let (bit, range) ← range.decodeDirectBit
    let direct ← okOr ((checkedShl 32 direct 1).bind fun value => tryFrom 32 (value + bit))
      (formatError "LZMA direct distance overflows")
    directLoop count direct range

def decode (distances : DistanceDecoder) (range : RangeDecoder) (length : Nat) :
    Metered (Nat × DistanceDecoder × RangeDecoder) := do
  let lengthState := min length (lengthStates - 1)
  let (positionSlot, positionSlots, range) ← decodeTreeAt ProbabilityTree.decode
    distances.positionSlots lengthState "LZMA position-slot state is out of range" range
  let distances := { distances with positionSlots }
  if positionSlot < startPositionModel then return (positionSlot, distances, range)
  else do
    let bits ← okOr (checkedSub (positionSlot >>> 1) 1)
      (formatError "LZMA distance width underflows")
    let base ← okOr (checkedShl 32 (2 ||| positionSlot &&& 1) bits)
      (formatError "LZMA distance base overflows")
    if positionSlot < endPositionModel then do
      let model ← okOr (checkedSub positionSlot startPositionModel)
        (formatError "LZMA position-model index underflows")
      let (suffix, positionModels, range) ← decodeTreeAt ProbabilityTree.decodeReverse
        distances.positionModels model "LZMA position-model index is out of range" range
      let distance ← okOr (tryFrom 32 (base + suffix)) (formatError "LZMA distance overflows")
      return (distance, { distances with positionModels }, range)
    else do
      let directBits ← okOr (checkedSub bits alignBits)
        (formatError "LZMA direct-distance width underflows")
      let (direct, range) ← directLoop directBits 0 range
      let direct ← okOr (checkedShl 32 direct alignBits)
        (formatError "LZMA direct distance overflows")
      let (low, alignment, range) ← distances.alignment.decodeReverse range
      let distance ← okOr ((tryFrom 32 (base + direct)).bind fun value => tryFrom 32 (value + low))
        (formatError "LZMA distance overflows")
      return (distance, { distances with alignment }, range)

end DistanceDecoder

/-! ## Literals -/

structure LiteralDecoder where
  probabilities : List Nat
  literalContextBits : Nat
  literalPositionMask : Nat
  previousByteShift : Nat
  deriving DecidableEq, Repr

namespace LiteralDecoder

def new (literalContextBits literalPositionBits : Nat) : Except Error LiteralDecoder := do
  let contextBits ← okOr (tryFrom 32 (literalContextBits + literalPositionBits))
    (formatError "LZMA literal context width overflows")
  rejectIf (4 < contextBits) (formatError "LZMA literal context width exceeds 7z limits")
  let contexts ← okOr (checkedShl 64 1 contextBits)
    (formatError "LZMA literal context count overflows")
  let count ← okOr (tryFrom 64 (contexts * 0x300))
    (formatError "LZMA literal probability count overflows")
  let literalPositionMask ← okOr ((checkedShl 64 1 literalPositionBits).bind (checkedSub · 1))
    (formatError "LZMA literal position mask overflows")
  let previousByteShift ← okOr (checkedSub 8 literalContextBits)
    (formatError "LZMA literal context width exceeds one byte")
  return { probabilities := List.replicate count probInitial
           literalContextBits, literalPositionMask, previousByteShift }

def decodeSymbolBit (probabilities : List Nat) (base index symbol : Nat) (range : RangeDecoder) :
    Metered (Nat × Nat × List Nat × RangeDecoder) := do
  let index ← okOr (checkedAdd base index) (formatError "LZMA literal probability index overflows")
  let (bit, probabilities, range) ← decodeAt probabilities index
    "LZMA literal probability index is out of range" range
  let symbol ← okOr ((checkedShl 32 symbol 1).bind fun value => tryFrom 32 (value + bit))
    (formatError "LZMA literal symbol overflows")
  return (bit, symbol, probabilities, range)

def matchedLoop (base : Nat) : Nat → Nat → Nat → List Nat → RangeDecoder →
    Metered (Nat × List Nat × RangeDecoder)
  | 0, _, symbol, probabilities, range => return (symbol, probabilities, range)
  | count + 1, matched, symbol, probabilities, range => do
    let matchBit := matched >>> 7 &&& 1
    let index ← okOr ((tryFrom 32 (1 + matchBit)).bind (checkedShl 32 · 8))
      (formatError "LZMA literal match index overflows")
    let (bit, symbol, probabilities, range) ←
      decodeSymbolBit probabilities base (index ||| symbol) symbol range
    if matchBit ≠ bit ∨ 0x100 ≤ symbol then return (symbol, probabilities, range)
    else matchedLoop base count (wrappingShl matched 1) symbol probabilities range

def plainLoop (base : Nat) : Nat → Nat → List Nat → RangeDecoder →
    Metered (Nat × List Nat × RangeDecoder)
  | 0, symbol, probabilities, range => return (symbol, probabilities, range)
  | count + 1, symbol, probabilities, range =>
    if symbol < 0x100 then do
      let (_, symbol, probabilities, range) ←
        decodeSymbolBit probabilities base symbol symbol range
      plainLoop base count symbol probabilities range
    else return (symbol, probabilities, range)

/-- Both loops.  A symbol of eight bits behind a one is complete, so none has a ninth round. -/
def decodeSymbol (base state : Nat) (matchByte : UInt8) (probabilities : List Nat)
    (range : RangeDecoder) : Metered (Nat × List Nat × RangeDecoder) := do
  let (symbol, probabilities, range) ← matchedLoop base (if 7 ≤ state then 8 else 0)
    matchByte.toNat 1 probabilities range
  plainLoop base 8 symbol probabilities range

def decode (literal : LiteralDecoder) (range : RangeDecoder) (state : Nat)
    (matchByte previousByte : UInt8) (position : Nat) :
    Metered (UInt8 × LiteralDecoder × RangeDecoder) := do
  let positionPart ← okOr
    (checkedShl 64 (position &&& literal.literalPositionMask) literal.literalContextBits)
    (formatError "LZMA literal position state overflows")
  let previousPart := previousByte.toNat >>> literal.previousByteShift
  let base ← okOr (tryFrom 64 ((positionPart ||| previousPart) * 0x300))
    (formatError "LZMA literal probability base overflows")
  let (symbol, probabilities, range) ←
    decodeSymbol base state matchByte literal.probabilities range
  let value ← okOr (checkedSub symbol 0x100) (formatError "LZMA literal symbol underflows")
  let value ← okOr (tryFrom 8 value) (formatError "LZMA literal is not representable")
  return (UInt8.ofNat value, { literal with probabilities }, range)

end LiteralDecoder

/-- The four distances that a repetition can use. -/
structure Repetitions where
  rep0 : Nat
  rep1 : Nat
  rep2 : Nat
  rep3 : Nat
  deriving DecidableEq, Repr

structure LzmaState where
  repetitions : Repetitions
  isMatch : List Nat
  isRepZeroLong : List Nat
  isRep : List Nat
  isRepZero : List Nat
  isRepOne : List Nat
  isRepTwo : List Nat
  literal : LiteralDecoder
  length : LengthDecoder
  repetitionLength : LengthDecoder
  distance : DistanceDecoder
  state : Nat
  positionMask : Nat
  deriving DecidableEq, Repr

namespace LzmaState

def new (lc lp pb : Nat) : Except Error LzmaState := do
  rejectIf (4 < pb) (formatError "LZMA position-bit property is invalid")
  let positionMask ← okOr ((checkedShl 64 1 pb).bind (checkedSub · 1))
    (formatError "LZMA position mask overflows")
  let literal ← LiteralDecoder.new lc lp
  let length ← LengthDecoder.new
  let repetitionLength ← LengthDecoder.new
  let distance ← DistanceDecoder.new
  return { repetitions := ⟨0, 0, 0, 0⟩
           isMatch := List.replicate (stateCount * positionStates) probInitial
           isRepZeroLong := List.replicate (stateCount * positionStates) probInitial
           isRep := List.replicate stateCount probInitial
           isRepZero := List.replicate stateCount probInitial
           isRepOne := List.replicate stateCount probInitial
           isRepTwo := List.replicate stateCount probInitial
           state := 0
           literal, length, repetitionLength, distance, positionMask }

def updateLiteral (state : Nat) : Nat :=
  if state < 4 then 0 else if state < 10 then state - 3 else state - 6

def updateMatch (state : Nat) : Nat := if state < 7 then 7 else 10

def updateRepetition (state : Nat) : Nat := if state < 7 then 8 else 11

def updateShortRepetition (state : Nat) : Nat := if state < 7 then 9 else 11

end LzmaState

/-- `Operation` of the source. -/
inductive StreamOperation where
  | literal (byte : UInt8)
  | copy (distance length : Nat)
  | done
  deriving DecidableEq, Repr

/-! ## Operations -/

/-- The dictionary starts where it was last reset. -/
structure Output where
  bytes : List UInt8
  maximum : Nat
  dictionarySize : Nat
  dictionaryStart : Nat
  deriving DecidableEq, Repr

namespace Output

def new (maximum dictionarySize : Nat) (expected : Option Nat) : Except Error Output := do
  checkLimit (expected.getD 0) maximum .totalOutputBytes
  return { bytes := [], maximum, dictionarySize, dictionaryStart := 0 }

def position (output : Output) : Nat := output.bytes.length

def dictionaryLength (output : Output) : Except Error Nat :=
  okOr (checkedSub output.bytes.length output.dictionaryStart)
    (formatError "LZMA dictionary position underflows")

def previousByte (output : Output) : UInt8 := output.bytes.getLast?.getD 0

def matchByte (output : Output) (distanceOffset : Nat) : UInt8 :=
  ((checkedSub output.bytes.length (distanceOffset + 1)).bind (output.bytes[·]?)).getD 0

def ensureAdditional (output : Output) (additional : Nat) : Except Error Unit := do
  let requested ← okOr (checkedAdd output.position additional)
    (formatError "decoded LZMA size overflows")
  checkLimit requested output.maximum .totalOutputBytes

def push (output : Output) (byte : UInt8) : Metered Output := do
  output.ensureAdditional 1
  checkpoint 1
  return { output with bytes := output.bytes ++ [byte] }

def copyLoop (distance : Nat) : Nat → Output → Metered Output
  | 0, output => return output
  | count + 1, output => do
    checkpoint 1
    let source ← okOr (checkedSub output.bytes.length distance)
      (formatError "LZMA match source underflows")
    let byte ← okOr output.bytes[source]? (formatError "LZMA match source is out of range")
    copyLoop distance count { output with bytes := output.bytes ++ [byte] }

def copyMatch (output : Output) (distance length : Nat) : Metered Output := do
  rejectIf (distance = 0) (formatError "LZMA match distance is zero")
  rejectIf (output.dictionarySize < distance)
    (formatError "LZMA match distance exceeds the declared dictionary")
  let history ← output.dictionaryLength
  rejectIf (history < distance) (formatError
    s!"LZMA match distance {distance} exceeds available history {history} at output {output.position}")
  output.ensureAdditional length
  copyLoop distance length output

end Output

def propertiesFromByte (byte : UInt8) : Except Error (Nat × Nat × Nat) := do
  let parameter := byte.toNat
  rejectIf (224 < parameter) (formatError "invalid LZMA property byte")
  let lc := parameter % 9
  let remainder := parameter / 9
  let lp := remainder % 5
  let pb := remainder / 5
  rejectIf (4 < pb ∨ 4 < lc + lp) (formatError "invalid LZMA lc/lp/pb properties")
  return (lc, lp, pb)

namespace LzmaState

def decodeLiteral (state : LzmaState) (range : RangeDecoder) (output : Output) :
    Metered (StreamOperation × LzmaState × RangeDecoder) := do
  let (byte, literal, range) ← state.literal.decode range state.state
    (output.matchByte state.repetitions.rep0) output.previousByte output.position
  return (.literal byte, { state with literal, state := updateLiteral state.state }, range)

def decodeMatch (state : LzmaState) (range : RangeDecoder) (positionState : Nat) :
    Metered (StreamOperation × LzmaState × RangeDecoder) := do
  let (lengthOffset, length, range) ← state.length.decode range positionState
  let (distanceOffset, distance, range) ← state.distance.decode range lengthOffset
  let repetitions := ⟨distanceOffset, state.repetitions.rep0, state.repetitions.rep1,
    state.repetitions.rep2⟩
  let state :=
    { state with length, distance, repetitions, state := updateMatch state.state }
  if distanceOffset = eosDistance then return (.done, state, range)
  else do
    let distance ← okOr (tryFrom 32 (distanceOffset + 1))
      (formatError "LZMA match distance overflows")
    let length ← okOr (tryFrom 32 (lengthOffset + minMatchLength))
      (formatError "LZMA match length overflows")
    return (.copy distance length, state, range)

/-- What follows once the distance of a repetition is the first of the four. -/
def decodeRepeated (state : LzmaState) (range : RangeDecoder) (positionState : Nat) :
    Metered (StreamOperation × LzmaState × RangeDecoder) := do
  let (lengthOffset, repetitionLength, range) ← state.repetitionLength.decode range positionState
  let distance ← okOr (tryFrom 32 (state.repetitions.rep0 + 1))
    (formatError "LZMA repetition distance overflows")
  let length ← okOr (tryFrom 32 (lengthOffset + minMatchLength))
    (formatError "LZMA repetition length overflows")
  return (.copy distance length,
    { state with repetitionLength, state := updateRepetition state.state }, range)

/-- The branch of a match with one of the four distances. -/
def decodeRepetition (state : LzmaState) (range : RangeDecoder) (positionState combined : Nat) :
    Metered (StreamOperation × LzmaState × RangeDecoder) := do
  let (bit, isRepZero, range) ← decodeAt state.isRepZero state.state
    "LZMA repetition-zero state is out of range" range
  let state := { state with isRepZero }
  let ⟨rep0, rep1, rep2, rep3⟩ := state.repetitions
  if bit = 0 then do
    let (bit, isRepZeroLong, range) ← decodeAt state.isRepZeroLong combined
      "LZMA short-repetition state is out of range" range
    let state := { state with isRepZeroLong }
    if bit = 0 then do
      let distance ← okOr (tryFrom 32 (rep0 + 1))
        (formatError "LZMA repetition distance overflows")
      return (.copy distance 1, { state with state := updateShortRepetition state.state }, range)
    else state.decodeRepeated range positionState
  else do
    let (bit, isRepOne, range) ← decodeAt state.isRepOne state.state
      "LZMA repetition-one state is out of range" range
    let state := { state with isRepOne }
    if bit = 0 then
      decodeRepeated { state with repetitions := ⟨rep1, rep0, rep2, rep3⟩ } range positionState
    else do
      let (bit, isRepTwo, range) ← decodeAt state.isRepTwo state.state
        "LZMA repetition-two state is out of range" range
      let state := { state with isRepTwo }
      let repetitions := if bit = 0 then ⟨rep2, rep0, rep1, rep3⟩ else ⟨rep3, rep0, rep1, rep2⟩
      decodeRepeated { state with repetitions } range positionState

end LzmaState

def decodeOperation (state : LzmaState) (range : RangeDecoder) (output : Output) :
    Metered (StreamOperation × LzmaState × RangeDecoder) := do
  checkpoint 1
  let positionState := output.position &&& state.positionMask
  let combined ← okOr
    ((tryFrom 64 (state.state * positionStates)).bind (checkedAdd · positionState))
    (formatError "LZMA state index overflows")
  let (bit, isMatch, range) ← decodeAt state.isMatch combined "LZMA match state is out of range"
    range
  let state := { state with isMatch }
  if bit = 0 then state.decodeLiteral range output
  else do
    let (bit, isRep, range) ← decodeAt state.isRep state.state
      "LZMA repetition state is out of range" range
    let state := { state with isRep }
    if bit = 0 then state.decodeMatch range positionState
    else state.decodeRepetition range positionState combined

/-- The check of a match against the declared size. -/
def checkTarget (target : Option Nat) (output : Output) (length : Nat) : Except Error Unit :=
  match target with
  | none => return
  | some target => do
    let resulting ← okOr (checkedAdd output.position length)
      (formatError "LZMA match result size overflows")
    rejectIf (target < resulting) (formatError "LZMA output exceeds its declared size")

def checkEnd (target : Option Nat) (requireEos : Bool) (range : RangeDecoder) (output : Output) :
    Except Error Unit := do
  rejectIf (range.code ≠ 0) (formatError "LZMA range state is not final at EOS")
  rejectIf (range.cursor ≠ range.input.length)
    (formatError "LZMA stream has trailing input after EOS")
  rejectIf (target.getD output.position ≠ output.position)
    (formatError "LZMA EOS precedes its declared size")
  rejectIf (¬(requireEos ∨ target.isSome)) (formatError "LZMA stream ended unexpectedly")

def streamLoop (target : Option Nat) (requireEos requireExactInput : Bool) :
    Nat → LzmaState → RangeDecoder → Output → Metered (LzmaState × Output)
  | 0, _, _, _ => throw (formatError "decoded LZMA size overflows")
  | rounds + 1, state, range, output =>
    if target = some output.position then do
      rejectIf (requireExactInput ∧ range.cursor ≠ range.input.length)
        (formatError "LZMA stream has trailing input after its declared output")
      return (state, output)
    else do
      let (operation, state, range) ← decodeOperation state range output
      match operation with
      | .literal byte => do
        let output ← output.push byte
        streamLoop target requireEos requireExactInput rounds state range output
      | .copy distance length => do
        checkTarget target output length
        let output ← output.copyMatch distance length
        streamLoop target requireEos requireExactInput rounds state range output
      | .done => do
        checkEnd target requireEos range output
        return (state, output)

def decodeStream (state : LzmaState) (input : List UInt8) (output : Output)
    (expectedIncrement : Option Nat) (requireEos requireExactInput : Bool) :
    Metered (LzmaState × Output) := do
  let target ← (expectedIncrement.mapM fun size =>
    okOr (checkedAdd output.position size) (formatError "LZMA target size overflows") :
      Except Error (Option Nat))
  checkLimit (target.getD 0) output.maximum .totalOutputBytes
  let range ← RangeDecoder.new input
  streamLoop target requireEos requireExactInput maxRounds state range output

def lzmaDictionary (properties : List UInt8) : Except Error (UInt8 × Nat) :=
  match properties with
  | [property, a, b, c, d] => return (property, max (fromLeBytes [a, b, c, d]) 1)
  | _ => throw (formatError "LZMA properties must contain exactly five bytes")

/-- What `decode_lzma` and `decode_lzma_exact` do. -/
def decodeWhole (input properties : List UInt8) (expected : Option Nat) (maximum : Nat)
    (requireExactInput : Bool) : Metered (List UInt8) := do
  let (property, dictionary) ← lzmaDictionary properties
  let (lc, lp, pb) ← propertiesFromByte property
  let state ← LzmaState.new lc lp pb
  let output ← Output.new maximum dictionary expected
  let (_, output) ← decodeStream state input output expected expected.isNone requireExactInput
  return output.bytes

def decodeLzma (input properties : List UInt8) (expected : Option Nat) (maximum : Nat) :
    Metered (List UInt8) :=
  decodeWhole input properties expected maximum false

def decodeLzmaExact (input properties : List UInt8) (expected maximum : Nat) :
    Metered (List UInt8) :=
  decodeWhole input properties (some expected) maximum true

end Lzma
end Unpackio
