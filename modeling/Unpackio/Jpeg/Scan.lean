/-
The slices of a WinZip JPEG scan and the writer of JPEG scans, from
`decode/winzip_jpeg.rs`: how high the slices are, the buffer they are decoded into,
and how they are written.
-/
import Unpackio.Jpeg.Block
import Unpackio.Jpeg.Metadata

namespace Unpackio
namespace Jpeg

structure ScanWriter where
  output : List UInt8
  expected : Nat
  maximum : Nat
  bitString : Nat
  bitLength : Nat
  predicted : Vector Int16 4
  mcuCounter : Nat
  restartMarkerIndex : Nat
  deriving DecidableEq, Repr

namespace ScanWriter

def new (output : List UInt8) (expected maximum : Nat) : ScanWriter where
  output := output
  expected := expected
  maximum := maximum
  bitString := 0
  bitLength := 0
  predicted := Vector.replicate 4 0
  mcuCounter := 0
  restartMarkerIndex := 0

def appendByte (writer : ScanWriter) (value : UInt8) : Metered ScanWriter := do
  let newSize ← okOr (checkedAdd writer.output.length 1)
    (formatError "WinZip JPEG output size overflows")
  rejectIf (writer.expected < newSize)
    (formatError "WinZip JPEG output exceeds its ZIP declaration")
  checkLimit newSize writer.maximum .totalOutputBytes
  checkpoint 1
  return { writer with output := writer.output ++ [value] }

def emitScanByte (writer : ScanWriter) (value : UInt8) : Metered ScanWriter := do
  let writer ← writer.appendByte value
  if value = 0xff then writer.appendByte 0 else return writer

def onesMask (size length : Nat) (detail : String) : Except Error Nat :=
  okOr ((checkedShl size 1 length).bind fun value => checkedSub value 1) (formatError detail)

def pushMask (length : Nat) : Except Error Nat :=
  if length = 32 then return 2 ^ 32 - 1 else onesMask 64 length "WinZip JPEG bit mask overflows"

def residualMask (remaining : Nat) : Except Error Nat :=
  if remaining = 0 then return 0
  else onesMask 64 remaining "WinZip JPEG residual bit mask overflows"

/-- One byte of the loop of `push_bits`. -/
def flushByte (writer : ScanWriter) : Metered ScanWriter := do
  let remaining ← okOr (checkedSub writer.bitLength 8)
    (formatError "WinZip JPEG bit length underflows")
  let byte ← okOr (tryFrom 8 (writer.bitString >>> remaining &&& 0xff))
    (formatError "WinZip JPEG scan byte is not representable")
  let writer ← writer.emitScanByte (UInt8.ofNat byte)
  let mask ← residualMask remaining
  return { writer with bitLength := remaining, bitString := writer.bitString &&& mask }

/-- The loop of `push_bits`.  A round takes eight bits. -/
def flushLoop : Nat → ScanWriter → Metered ScanWriter
  | 0, writer => return writer
  | rounds + 1, writer =>
    if 8 ≤ writer.bitLength then do
      let writer ← writer.flushByte
      flushLoop rounds writer
    else return writer

def pushBits (writer : ScanWriter) (bits length : Nat) : Metered ScanWriter :=
  if length = 0 then return writer
  else do
    rejectIf (32 < length ∨ 7 < writer.bitLength)
      (formatError "WinZip JPEG bit writer state is invalid")
    let mask ← pushMask length
    let bitString ← okOr ((checkedShl 64 writer.bitString length).bind fun value =>
        checkedAdd value (bits &&& mask))
      (formatError "WinZip JPEG bit writer overflows")
    let bitLength ← okOr (tryFrom 8 (writer.bitLength + length))
      (formatError "WinZip JPEG bit length overflows")
    flushLoop (bitLength / 8) { writer with bitString := bitString, bitLength := bitLength }

def pushHuffman (writer : ScanWriter) (table : HuffTable) (symbol : Nat) : Metered ScanWriter := do
  let code ← okOr table[symbol]? (formatError "WinZip JPEG Huffman symbol is out of range")
  rejectIf (code.length = 0) (formatError "WinZip JPEG scan uses an absent Huffman symbol")
  writer.pushBits code.code code.length

def valueMask (bits : Nat) : Except Error Nat :=
  if bits = 0 then return 0 else onesMask 32 bits "WinZip JPEG encoded-value mask overflows"

def valueBits (value : Int) (bits : Nat) : Except Error Nat := do
  let mask ← valueMask bits
  if 0 ≤ value then do
    let value ← okOr ((unsigned value).bind (tryFrom 32))
      (formatError "WinZip JPEG encoded value is invalid")
    return value &&& mask
  else do
    let magnitude ← okOr (tryFrom 32 value.natAbs)
      (formatError "WinZip JPEG negative value is not representable")
    okOr (checkedSub mask magnitude)
      (formatError "WinZip JPEG negative value exceeds its category")

def pushEncodedValue (writer : ScanWriter) (table : HuffTable) (value : Int) (highBits : Nat) :
    Metered ScanWriter := do
  let magnitude ← okOr (signed 64 value.natAbs)
    (formatError "WinZip JPEG encoded magnitude overflows")
  let magnitude ← okOr (unsigned magnitude)
    (formatError "WinZip JPEG encoded magnitude is not representable")
  let bits ← category magnitude
  rejectIf (15 < bits ∨ 15 < highBits)
    (formatError "WinZip JPEG value is not Huffman-representable")
  let encoded ← valueBits value bits
  let symbol ← okOr ((checkedMul highBits 16).bind fun symbol => checkedAdd symbol bits)
    (formatError "WinZip JPEG Huffman symbol overflows")
  let writer ← writer.pushHuffman table symbol
  writer.pushBits encoded bits

def padWithOnes (writer : ScanWriter) : Metered ScanWriter :=
  if writer.bitLength = 0 then return writer
  else do
    let padding ← okOr (checkedSub 8 writer.bitLength)
      (formatError "WinZip JPEG padding length underflows")
    let bits ← onesMask 32 padding "WinZip JPEG padding bits overflow"
    writer.pushBits bits padding

def restart (writer : ScanWriter) : Metered ScanWriter := do
  let writer ← writer.padWithOnes
  let writer ← writer.appendByte 0xff
  let marker ← okOr (tryFrom 8 (0xd0 + writer.restartMarkerIndex))
    (formatError "WinZip JPEG restart marker overflows")
  let writer ← writer.appendByte (UInt8.ofNat marker)
  let next ← okOr (tryFrom 8 (writer.restartMarkerIndex + 1))
    (formatError "WinZip JPEG restart marker index overflows")
  return { writer with
    restartMarkerIndex := next &&& 7, mcuCounter := 0, predicted := Vector.replicate 4 0 }

end ScanWriter

/-- The first divisor of `slice_height`: the MCU rows that a slice has room for. -/
def firstDivisor (power horizontal : Nat) : Nat := max (power / horizontal) 1

def sliceHeight (metadata : Metadata) (sliceValue : Nat) : Except Error Nat := do
  rejectIf (metadata.horizontalMcus = 0 ∨ metadata.verticalMcus = 0)
    (formatError "WinZip JPEG frame has no MCUs")
  if sliceValue = 0 then return metadata.verticalMcus
  else do
    let shift ← okOr (tryFrom 32 (sliceValue + 6)) (formatError "WinZip JPEG slice shift overflows")
    let power ← okOr (checkedShl 64 1 shift) (formatError "WinZip JPEG slice size overflows")
    let first := firstDivisor power metadata.horizontalMcus
    let rounding ← okOr (checkedSub first 1) (formatError "WinZip JPEG slice divisor underflows")
    let sum ← okOr (checkedAdd metadata.verticalMcus rounding)
      (formatError "WinZip JPEG slice divisor overflows")
    let second := sum / first
    let rounding ← okOr (checkedSub second 1) (formatError "WinZip JPEG slice divisor underflows")
    let sum ← okOr (checkedAdd metadata.verticalMcus rounding)
      (formatError "WinZip JPEG slice height overflows")
    return sum / second

def scanParts (metadata : Metadata) (scanIndex : Nat) : Except Error (ScanComponent × Component) :=
  do
    let scan ← okOr metadata.scanComponents[scanIndex]?
      (formatError "WinZip JPEG scan component is missing")
    let component ← okOr metadata.components[scan.componentIndex]?
      (formatError "WinZip JPEG frame component is missing")
    return (scan, component)

def sliceBlockCount (metadata : Metadata) (sliceHeight scanIndex : Nat) : Except Error Nat := do
  let (_, component) ← scanParts metadata scanIndex
  let count ← okOr (((checkedMul metadata.horizontalMcus sliceHeight).bind fun value =>
      checkedMul value component.horizontalFactor).bind fun value =>
      checkedMul value component.verticalFactor)
    (formatError "WinZip JPEG slice block count overflows")
  rejectIf (count = 0) (formatError "WinZip JPEG slice block count is zero")
  return count

def blockSize : Nat := 130

def binSize : Nat := 16

/-- `Models::required_bytes`. -/
def modelBytes : Nat := modelCount * binSize

def allocateBlocks (metadata : Metadata) (sliceHeight modelBytes maximum : Nat) :
    Except Error (List (List Block)) := do
  let counts ← (List.range metadata.numScanComponents).mapM (sliceBlockCount metadata sliceHeight)
  let total ← okOr (tryFrom 64 counts.sum)
    (formatError "WinZip JPEG aggregate block count overflows")
  let bytes ← okOr (checkedMul total blockSize)
    (formatError "WinZip JPEG slice buffer size overflows")
  let aggregate ← okOr (checkedAdd modelBytes bytes)
    (formatError "WinZip JPEG decoder memory size overflows")
  checkLimit aggregate maximum .dictionaryBytes
  return counts.map fun count => List.replicate count Block.zero

/-- Where a block goes, and where the blocks above and to the left of it are. -/
structure Address where
  index : Nat
  north : Option Nat
  west : Option Nat
  deriving DecidableEq, Repr

def sliceNorth (blocksPerRow previousRow finishedRows row column index : Nat) :
    Except Error (Option Nat) :=
  if 0 < row then do
    let north ← okOr (checkedSub index blocksPerRow)
      (formatError "WinZip JPEG north block index underflows")
    return some north
  else if 0 < finishedRows then do
    let north ← okOr ((checkedMul previousRow blocksPerRow).bind fun value =>
        checkedAdd value column)
      (formatError "WinZip JPEG north block index overflows")
    return some north
  else return none

/-- The block to the left, in the same row. -/
def westOf (column index : Nat) : Except Error (Option Nat) :=
  if 0 < column then do
    let west ← okOr (checkedSub index 1) (formatError "WinZip JPEG west block index underflows")
    return some west
  else return none

def sliceAddress (blocksPerRow previousRow finishedRows row column : Nat) :
    Except Error Address := do
  let index ← okOr ((checkedMul row blocksPerRow).bind fun value => checkedAdd value column)
    (formatError "WinZip JPEG block index overflows")
  let north ← sliceNorth blocksPerRow previousRow finishedRows row column index
  let west ← westOf column index
  return { index := index, north := north, west := west }

section

variable (tables : LogTables) (signContexts : Vector Nat 64)

def decodeAddress (scanIndex : Nat) (quant : QuantTable) (address : Address)
    (state : List Block × Coder) : Metered (List Block × Coder) := do
  let north := address.north.bind fun index => state.1[index]?
  let west := address.west.bind fun index => state.1[index]?
  let (block, coder) ← decodeBlock tables signContexts scanIndex north west quant state.2
  rejectIf (state.1.length ≤ address.index) (formatError "WinZip JPEG block index is out of range")
  return (state.1.set address.index block, coder)

def decodeRow (scanIndex : Nat) (quant : QuantTable) (addresses : Nat → Nat → Except Error Address)
    (blocksPerRow : Nat) (state : List Block × Coder) (row : Nat) :
    Metered (List Block × Coder) := do
  checkpoint 0
  (List.range blocksPerRow).foldlM (fun state column => do
    let address ← addresses row column
    decodeAddress tables signContexts scanIndex quant address state) state

/-- What decoding a slice changes. -/
structure SliceState where
  input : Input
  blocks : List (List Block)
  models : List Bin
  fixed : Bin

def decodeComponentWith (metadata : Metadata) (currentHeight : Nat)
    (addresses : Component → Nat → Except Error (Nat → Nat → Except Error Address))
    (state : SliceState) (scanIndex : Nat) : Metered SliceState := do
  let (_, component) ← scanParts metadata scanIndex
  let quant ← okOr metadata.quantTables[component.quantIndex]?
    (formatError "WinZip JPEG quantization table is missing")
  let blocksPerRow ← okOr (checkedMul metadata.horizontalMcus component.horizontalFactor)
    (formatError "WinZip JPEG block-row width overflows")
  let rows ← okOr (checkedMul currentHeight component.verticalFactor)
    (formatError "WinZip JPEG component row count overflows")
  let addresses ← addresses component blocksPerRow
  let buffer ← okOr state.blocks[scanIndex]?
    (formatError "WinZip JPEG component buffer is missing")
  let decoder ← ArithmeticDecoder.new tables state.input
  let (buffer, coder) ← (List.range rows).foldlM
    (decodeRow tables signContexts scanIndex quant addresses blocksPerRow)
    (buffer, { decoder := decoder, models := state.models, fixed := state.fixed })
  let decoder ← coder.decoder.flush tables
  return { input := decoder.input, blocks := state.blocks.set scanIndex buffer,
           models := coder.models, fixed := coder.fixed }

def sliceAddresses (sliceHeight finishedRows : Nat) (component : Component) (blocksPerRow : Nat) :
    Except Error (Nat → Nat → Except Error Address) := do
  let previousRow ← okOr ((checkedMul sliceHeight component.verticalFactor).bind fun value =>
      checkedSub value 1)
    (formatError "WinZip JPEG previous slice row underflows")
  return sliceAddress blocksPerRow previousRow finishedRows

def decodeSlice (metadata : Metadata) (sliceHeight currentHeight finishedRows : Nat)
    (state : SliceState) : Metered SliceState :=
  (List.range metadata.numScanComponents).foldlM
    (decodeComponentWith tables signContexts metadata currentHeight
      (sliceAddresses sliceHeight finishedRows)) state

end

/-! ## Writing -/

def skipZeros (block : Block) (runEnd : Nat) : Nat → Nat → Except Error Nat
  | 0, index => return index
  | rounds + 1, index =>
    if index < 63 ∧ index < runEnd then do
      let value ← okOr block.coefficients[index]?
        (formatError "WinZip JPEG AC coefficient is missing")
      if value = 0 then do
        let next ← okOr (checkedAdd index 1)
          (formatError "WinZip JPEG AC coefficient index overflows")
        skipZeros block runEnd rounds next
      else return index
    else return index

/-- One coefficient with the zeros before it. -/
def encodeRun (acTable : HuffTable) (block : Block) (writer : ScanWriter) (first : Nat) :
    Metered (ScanWriter × Nat) := do
  let runEnd ← okOr (checkedAdd first 15) (formatError "WinZip JPEG AC run overflows")
  let index ← skipZeros block runEnd 15 first
  let zeroes ← okOr (checkedSub index first) (formatError "WinZip JPEG AC run underflows")
  let value ← okOr block.coefficients[index]?
    (formatError "WinZip JPEG AC coefficient is missing")
  let writer ← writer.pushEncodedValue acTable value.toInt zeroes
  let next ← okOr (checkedAdd index 1) (formatError "WinZip JPEG AC coefficient index overflows")
  return (writer, next)

/-- The runs up to the last coefficient.  Each takes at least one coefficient. -/
def encodeRuns (acTable : HuffTable) (block : Block) : Nat → ScanWriter → Nat → Metered ScanWriter
  | 0, writer, _ => return writer
  | rounds + 1, writer, index =>
    if index ≤ block.eob then do
      let (writer, next) ← encodeRun acTable block writer index
      encodeRuns acTable block rounds writer next
    else return writer

/-- The first coefficient, as the difference from the one before. -/
def encodeDc (dcTable : HuffTable) (scanIndex : Nat) (block : Block) (writer : ScanWriter) :
    Metered ScanWriter := do
  let dc ← okOr block.coefficients[0]? (formatError "WinZip JPEG DC coefficient is missing")
  let predicted ← okOr writer.predicted[scanIndex]?
    (formatError "WinZip JPEG predictor is missing")
  let difference ← okOr (signed 32 (dc.toInt - predicted.toInt))
    (formatError "WinZip JPEG DC difference overflows")
  let writer ← writer.pushEncodedValue dcTable difference 0
  let predicted ← okOr (setAt writer.predicted scanIndex dc)
    (formatError "WinZip JPEG predictor is missing")
  return { writer with predicted := predicted }

def encodeBlock (dcTable acTable : HuffTable) (scanIndex : Nat) (block : Block)
    (writer : ScanWriter) : Metered ScanWriter := do
  let writer ← encodeDc dcTable scanIndex block writer
  let writer ← encodeRuns acTable block block.eob writer 1
  if block.eob ≠ 63 then writer.pushHuffman acTable 0 else return writer

def huffTable (metadata : Metadata) (classIndex index : Nat) (detail : String) :
    Except Error HuffTable :=
  okOr (metadata.huffCodes[classIndex]?.bind fun tables => tables[index]?) (formatError detail)

def mcuBlockIndex (component : Component) (blocksPerRow mcuRow mcuColumn blockY blockX : Nat) :
    Except Error Nat := do
  let x ← okOr ((checkedMul mcuColumn component.horizontalFactor).bind fun value =>
      checkedAdd value blockX)
    (formatError "WinZip JPEG block column overflows")
  let y ← okOr ((checkedMul mcuRow component.verticalFactor).bind fun value =>
      checkedAdd value blockY)
    (formatError "WinZip JPEG block row overflows")
  okOr ((checkedMul y blocksPerRow).bind fun value => checkedAdd value x)
    (formatError "WinZip JPEG block index overflows")

def encodeMcuComponent (metadata : Metadata) (blocks : List (List Block)) (mcuRow mcuColumn : Nat)
    (writer : ScanWriter) (scanIndex : Nat) : Metered ScanWriter := do
  let (scan, component) ← scanParts metadata scanIndex
  let dcTable ← huffTable metadata 0 scan.dcTable "WinZip JPEG DC Huffman table is missing"
  let acTable ← huffTable metadata 1 scan.acTable "WinZip JPEG AC Huffman table is missing"
  let blocksPerRow ← okOr (checkedMul metadata.horizontalMcus component.horizontalFactor)
    (formatError "WinZip JPEG block-row width overflows")
  (List.range component.verticalFactor).foldlM (fun writer blockY =>
    (List.range component.horizontalFactor).foldlM (fun writer blockX => do
      let index ← mcuBlockIndex component blocksPerRow mcuRow mcuColumn blockY blockX
      let block ← okOr (blocks[scanIndex]?.bind fun items => items[index]?)
        (formatError "WinZip JPEG block is missing")
      encodeBlock dcTable acTable scanIndex block writer) writer) writer

def encodeRestart (metadata : Metadata) (writer : ScanWriter) : Metered ScanWriter :=
  if metadata.restartInterval ≠ 0 ∧ writer.mcuCounter = metadata.restartInterval then
    writer.restart
  else return writer

def encodeMcu (metadata : Metadata) (blocks : List (List Block)) (mcuRow : Nat)
    (writer : ScanWriter) (mcuColumn : Nat) : Metered ScanWriter := do
  let writer ← encodeRestart metadata writer
  let writer ← (List.range metadata.numScanComponents).foldlM
    (encodeMcuComponent metadata blocks mcuRow mcuColumn) writer
  let counter ← okOr (checkedAdd writer.mcuCounter 1)
    (formatError "WinZip JPEG MCU counter overflows")
  return { writer with mcuCounter := counter }

def encodeSlice (metadata : Metadata) (writer : ScanWriter) (blocks : List (List Block))
    (currentHeight : Nat) (isLast : Bool) : Metered ScanWriter := do
  let writer ← (List.range currentHeight).foldlM (fun writer mcuRow =>
    (List.range metadata.horizontalMcus).foldlM (encodeMcu metadata blocks mcuRow) writer) writer
  if isLast then writer.padWithOnes else return writer

/-- `check_frame`. -/
def checkFrame (maximum counter : Nat) : Except Error Nat := do
  let counter ← okOr (checkedAdd counter 1) (formatError "WinZip JPEG frame count overflows")
  checkLimit counter maximum .streamFrames
  return counter

/-- What the loop over the slices changes, with what was written of them. -/
structure ScanLoop (W : Type) where
  slice : SliceState
  written : W
  frameCount : Nat
  finishedRows : Nat

section

variable {W : Type}

def scanRoundWith (decode : Nat → Nat → SliceState → Metered SliceState)
    (write : W → List (List Block) → Nat → Nat → Bool → Metered W) (metadata : Metadata)
    (height maxFrames : Nat) (state : ScanLoop W) : Metered (ScanLoop W) := do
  let frameCount ← checkFrame maxFrames state.frameCount
  let remaining ← okOr (checkedSub metadata.verticalMcus state.finishedRows)
    (formatError "WinZip JPEG remaining rows underflow")
  let currentHeight := min height remaining
  let slice ← decode currentHeight state.finishedRows state.slice
  let finishedRows ← okOr (checkedAdd state.finishedRows currentHeight)
    (formatError "WinZip JPEG finished row count overflows")
  let written ← write state.written slice.blocks state.finishedRows currentHeight
    (finishedRows = metadata.verticalMcus)
  return { slice := slice, written := written, frameCount := frameCount,
           finishedRows := finishedRows }

def scanLoopWith (decode : Nat → Nat → SliceState → Metered SliceState)
    (write : W → List (List Block) → Nat → Nat → Bool → Metered W) (metadata : Metadata)
    (height maxFrames : Nat) : Nat → ScanLoop W → Metered (ScanLoop W)
  | 0, state => return state
  | rounds + 1, state =>
    if state.finishedRows < metadata.verticalMcus then do
      let state ← scanRoundWith decode write metadata height maxFrames state
      scanLoopWith decode write metadata height maxFrames rounds state
    else return state

end

section

variable (tables : LogTables) (signContexts : Vector Nat 64)

/-- The loop of `decode_zip_jpeg` over the slices of a scan. -/
def scanLoop (metadata : Metadata) (height maxFrames : Nat) :
    Nat → ScanLoop ScanWriter → Metered (ScanLoop ScanWriter) :=
  scanLoopWith (decodeSlice tables signContexts metadata height)
    (fun writer blocks _ currentHeight isLast =>
      encodeSlice metadata writer blocks currentHeight isLast)
    metadata height maxFrames

/-- What `decode_zip_jpeg` does with one scan. -/
def decodeScan (metadata : Metadata) (sliceValue maxMemory maxFrames expected maximum : Nat)
    (input : Input) (fixed : Bin) (frameCount : Nat) (output : List UInt8) :
    Metered (ScanLoop ScanWriter) := do
  let height ← sliceHeight metadata sliceValue
  let blocks ← allocateBlocks metadata height modelBytes maxMemory
  checkLimit modelBytes maxMemory .dictionaryBytes
  scanLoop tables signContexts metadata height maxFrames metadata.verticalMcus
    { slice := { input := input, blocks := blocks, models := newModels, fixed := fixed }
      written := ScanWriter.new output expected maximum
      frameCount := frameCount
      finishedRows := 0 }

end

end Jpeg
end Unpackio
