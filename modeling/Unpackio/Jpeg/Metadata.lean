/-
The frame and scan headers of WinZip JPEG, from `decode/winzip_jpeg.rs`.

A position is a number of bytes from the start of a bundle.  Each loop over a
segment takes at least one byte a round, so what is left of the segment bounds
the rounds.
-/
import Unpackio.Jpeg.Contexts

namespace Unpackio
namespace Jpeg

/-- `get_mut`, as the table with the new entry. -/
def setAt {α : Type} {size : Nat} (table : Vector α size) (index : Nat) (value : α) :
    Option (Vector α size) :=
  if h : index < size then some (table.set index value) else none

structure HuffCode where
  code : Nat
  length : Nat
  deriving DecidableEq, Repr

/-- A code for each symbol, of length zero where there is none. -/
abbrev HuffTable := Vector HuffCode 256

def HuffTable.empty : HuffTable := Vector.replicate 256 { code := 0, length := 0 }

structure Component where
  identifier : UInt8
  horizontalFactor : Nat
  verticalFactor : Nat
  quantIndex : Nat
  deriving DecidableEq, Repr

structure ScanComponent where
  componentIndex : Nat
  dcTable : Nat
  acTable : Nat
  deriving DecidableEq, Repr

structure Metadata where
  quantTables : Vector QuantTable 4
  quantPresent : Vector Bool 4
  huffCodes : Vector (Vector HuffTable 4) 2
  huffPresent : Vector (Vector Bool 4) 2
  bits : UInt8
  height : Nat
  width : Nat
  numComponents : Nat
  components : Vector Component 4
  horizontalMcus : Nat
  verticalMcus : Nat
  numScanComponents : Nat
  scanComponents : Vector ScanComponent 4
  restartInterval : Nat
  frameSeen : Bool

/-- `Metadata::default`. -/
def Metadata.default : Metadata where
  quantTables := Vector.replicate 4 (Vector.replicate 64 0)
  quantPresent := Vector.replicate 4 false
  huffCodes := Vector.replicate 2 (Vector.replicate 4 HuffTable.empty)
  huffPresent := Vector.replicate 2 (Vector.replicate 4 false)
  bits := 0
  height := 0
  width := 0
  numComponents := 0
  components := Vector.replicate 4
    { identifier := 0, horizontalFactor := 0, verticalFactor := 0, quantIndex := 0 }
  horizontalMcus := 0
  verticalMcus := 0
  numScanComponents := 0
  scanComponents := Vector.replicate 4 { componentIndex := 0, dcTable := 0, acTable := 0 }
  restartInterval := 0
  frameSeen := false

section

variable (bytes : List UInt8)

/-- `bytes.get(offset)`, with the error of its absence. -/
def byteAt (offset : Nat) (detail : String) : Except Error UInt8 :=
  okOr bytes[offset]? (formatError detail)

def parseU16Be (offset : Nat) : Except Error Nat := do
  let finish ← okOr (checkedAdd offset 2) (formatError "WinZip JPEG metadata offset overflows")
  let pair ← okOr (getRange bytes offset finish) (formatError "truncated WinZip JPEG metadata")
  match pair with
  | [high, low] => return high.toNat * 256 + low.toNat
  | _ => throw (formatError "truncated WinZip JPEG metadata")

def segmentEnd (offset : Nat) : Except Error Nat := do
  let size ← parseU16Be bytes offset
  rejectIf (size < 2) (formatError "WinZip JPEG marker segment is too short")
  let finish ← okOr (checkedAdd offset size)
    (formatError "WinZip JPEG marker segment overflows")
  rejectIf (bytes.length < finish) (formatError "truncated WinZip JPEG marker segment")
  return finish

def nextMarker (offset : Nat) : Except Error (UInt8 × Nat) := do
  rejectIf (bytes[offset]? ≠ some 0xff)
    (formatError "WinZip JPEG metadata marker prefix is missing")
  let offset := offset + ((bytes.drop offset).takeWhile (· == 0xff)).length
  let marker ← byteAt bytes offset "truncated WinZip JPEG metadata marker"
  rejectIf (marker = 0x00 ∨ marker = 0xff) (formatError "invalid WinZip JPEG metadata marker")
  let offset ← okOr (checkedAdd offset 1) (formatError "WinZip JPEG metadata offset overflows")
  return (marker, offset)

/-! ## Huffman tables -/

/-- What the loop over the lengths of a Huffman table changes. -/
structure CodeState where
  table : HuffTable
  seen : Vector Bool 256
  code : Nat
  symbolPosition : Nat

section

variable (symbols : List UInt8)

def assignSymbol (length : Nat) (state : CodeState) : Except Error CodeState := do
  let symbol ← byteAt symbols state.symbolPosition "truncated WinZip JPEG Huffman symbols"
  let symbolPosition ← okOr (checkedAdd state.symbolPosition 1)
    (formatError "WinZip JPEG symbol offset overflows")
  let seen ← okOr state.seen[symbol.toNat]?
    (formatError "WinZip JPEG Huffman symbol is out of range")
  rejectIf (seen = true) (formatError "WinZip JPEG Huffman table repeats a symbol")
  let seen ← okOr (setAt state.seen symbol.toNat true)
    (formatError "WinZip JPEG Huffman symbol is out of range")
  let code ← okOr (tryFrom 16 state.code) (formatError "WinZip JPEG Huffman code is too wide")
  let length ← okOr (tryFrom 8 length)
    (formatError "WinZip JPEG Huffman length is not representable")
  let table ← okOr (setAt state.table symbol.toNat { code := code, length := length })
    (formatError "WinZip JPEG Huffman symbol is out of range")
  return { table := table, seen := seen, code := state.code + 1, symbolPosition := symbolPosition }

def assignSymbols (length : Nat) : Nat → CodeState → Except Error CodeState
  | 0, state => return state
  | count + 1, state => do
    let state ← assignSymbol symbols length state
    assignSymbols length count state

def assignLength (state : CodeState) (entry : UInt8 × Nat) : Except Error CodeState := do
  let length := entry.2 + 1
  let count := entry.1.toNat
  let limit ← okOr (checkedShl 32 1 length)
    (formatError "WinZip JPEG Huffman code limit overflows")
  let after ← okOr (tryFrom 32 (state.code + count))
    (formatError "WinZip JPEG Huffman code overflows")
  rejectIf (limit < after) (formatError "WinZip JPEG Huffman table is oversubscribed")
  let state ← assignSymbols symbols length count state
  let code ← okOr (checkedShl 32 state.code 1) (formatError "WinZip JPEG Huffman code overflows")
  return { state with code := code }

end

def buildCodes (counts symbols : List UInt8) : Except Error HuffTable := do
  let state ← counts.zipIdx.foldlM (assignLength symbols)
    { table := HuffTable.empty, seen := Vector.replicate 256 false, code := 0, symbolPosition := 0 }
  return state.table

def symbolTotal (counts : List UInt8) : Nat := (counts.map (·.toNat)).sum

def parseDhtTable (metadata : Metadata) (position : Nat) : Except Error (Metadata × Nat) := do
  let descriptor ← byteAt bytes position "truncated WinZip JPEG DHT descriptor"
  let position ← okOr (checkedAdd position 1) (formatError "WinZip JPEG DHT offset overflows")
  let classIndex := (descriptor >>> 4).toNat
  let index := (descriptor &&& 0x0f).toNat
  rejectIf (1 < classIndex ∨ 4 ≤ index)
    (formatError "WinZip JPEG Huffman table selector is invalid")
  let counts ← checkedRange bytes position 16 "WinZip JPEG DHT count range overflows"
    "truncated WinZip JPEG Huffman counts"
  let position := position + 16
  let total ← okOr (tryFrom 64 (symbolTotal counts))
    (formatError "WinZip JPEG Huffman symbol count overflows")
  rejectIf (total = 0 ∨ 256 < total) (formatError "WinZip JPEG Huffman symbol count is invalid")
  let symbols ← checkedRange bytes position total "WinZip JPEG Huffman symbol range overflows"
    "truncated WinZip JPEG Huffman symbols"
  let tables ← okOr metadata.huffCodes[classIndex]?
    (formatError "WinZip JPEG Huffman table is out of range")
  let table ← buildCodes counts symbols
  let tables ← okOr (setAt tables index table)
    (formatError "WinZip JPEG Huffman table is out of range")
  let huffCodes ← okOr (setAt metadata.huffCodes classIndex tables)
    (formatError "WinZip JPEG Huffman table is out of range")
  let present ← okOr metadata.huffPresent[classIndex]?
    (formatError "WinZip JPEG Huffman table is out of range")
  let present ← okOr (setAt present index true)
    (formatError "WinZip JPEG Huffman table is out of range")
  let huffPresent ← okOr (setAt metadata.huffPresent classIndex present)
    (formatError "WinZip JPEG Huffman table is out of range")
  return ({ metadata with huffCodes := huffCodes, huffPresent := huffPresent }, position + total)

def parseDhtLoop (finish : Nat) : Nat → Metadata → Nat → Except Error (Metadata × Nat)
  | 0, metadata, position => return (metadata, position)
  | rounds + 1, metadata, position =>
    if position < finish then do
      let (metadata, position) ← parseDhtTable bytes metadata position
      parseDhtLoop finish rounds metadata position
    else return (metadata, position)

def parseDht (metadata : Metadata) (offset : Nat) : Except Error (Metadata × Nat) := do
  let finish ← segmentEnd bytes offset
  let position ← okOr (checkedAdd offset 2) (formatError "WinZip JPEG DHT offset overflows")
  rejectIf (position = finish) (formatError "WinZip JPEG DHT segment is empty")
  let (metadata, position) ← parseDhtLoop bytes finish (finish - position) metadata position
  rejectIf (position ≠ finish) (formatError "WinZip JPEG DHT segment has trailing bytes")
  return (metadata, finish)

def quantEntryValue (width offset : Nat) : Except Error Nat :=
  if width = 1 then do
    let value ← byteAt bytes offset "truncated WinZip JPEG quantization table"
    return value.toNat
  else parseU16Be bytes offset

def quantEntry (position width : Nat) (quant : QuantTable) (coefficient : Nat) :
    Except Error QuantTable := do
  let offset ← okOr ((checkedMul coefficient width).bind (checkedAdd position))
    (formatError "WinZip JPEG quantization offset overflows")
  let value ← quantEntryValue bytes width offset
  rejectIf (value = 0) (formatError "WinZip JPEG quantization values must be nonzero")
  okOr (setAt quant coefficient (UInt16.ofNat value))
    (formatError "WinZip JPEG quantization index is out of range")

def parseDqtTable (finish : Nat) (metadata : Metadata) (position : Nat) :
    Except Error (Metadata × Nat) := do
  let descriptor ← byteAt bytes position "truncated WinZip JPEG DQT descriptor"
  let position ← okOr (checkedAdd position 1) (formatError "WinZip JPEG DQT offset overflows")
  let precision := (descriptor >>> 4).toNat
  let index := (descriptor &&& 0x0f).toNat
  rejectIf (4 ≤ index ∨ 1 < precision)
    (formatError "WinZip JPEG quantization table selector is invalid")
  let width := if precision = 0 then 1 else 2
  let tableBytes ← okOr (checkedMul 64 width)
    (formatError "WinZip JPEG quantization table size overflows")
  let tableEnd ← okOr (checkedAdd position tableBytes)
    (formatError "WinZip JPEG quantization table range overflows")
  rejectIf (finish < tableEnd) (formatError "truncated WinZip JPEG quantization table")
  let quant ← okOr metadata.quantTables[index]?
    (formatError "WinZip JPEG quantization index is out of range")
  let quant ← (List.range 64).foldlM (quantEntry bytes position width) quant
  let quantTables ← okOr (setAt metadata.quantTables index quant)
    (formatError "WinZip JPEG quantization index is out of range")
  let quantPresent ← okOr (setAt metadata.quantPresent index true)
    (formatError "WinZip JPEG quantization index is out of range")
  return ({ metadata with quantTables := quantTables, quantPresent := quantPresent }, tableEnd)

def parseDqtLoop (finish : Nat) : Nat → Metadata → Nat → Except Error (Metadata × Nat)
  | 0, metadata, position => return (metadata, position)
  | rounds + 1, metadata, position =>
    if position < finish then do
      let (metadata, position) ← parseDqtTable bytes finish metadata position
      parseDqtLoop finish rounds metadata position
    else return (metadata, position)

def parseDqt (metadata : Metadata) (offset : Nat) : Except Error (Metadata × Nat) := do
  let finish ← segmentEnd bytes offset
  let position ← okOr (checkedAdd offset 2) (formatError "WinZip JPEG DQT offset overflows")
  rejectIf (position = finish) (formatError "WinZip JPEG DQT segment is empty")
  let (metadata, _) ← parseDqtLoop bytes finish (finish - position) metadata position
  return (metadata, finish)

def parseDri (metadata : Metadata) (offset : Nat) : Except Error (Metadata × Nat) := do
  let finish ← segmentEnd bytes offset
  rejectIf (checkedSub finish offset ≠ some 4)
    (formatError "WinZip JPEG DRI segment has an invalid size")
  let offset ← okOr (checkedAdd offset 2) (formatError "WinZip JPEG DRI offset overflows")
  let interval ← parseU16Be bytes offset
  return ({ metadata with restartInterval := interval }, finish)

/-! ## The frame -/

/-- What the loop over the components of a frame changes. -/
structure FrameState where
  components : Vector Component 4
  identifiers : List UInt8
  maxHorizontal : Nat
  maxVertical : Nat

def frameComponent (offset : Nat) (state : FrameState) (componentIndex : Nat) :
    Except Error FrameState := do
  let base ← okOr ((checkedMul componentIndex 3).bind fun value =>
      (checkedAdd value 8).bind (checkedAdd offset))
    (formatError "WinZip JPEG component offset overflows")
  let identifier ← byteAt bytes base "truncated WinZip JPEG component"
  rejectIf (identifier ∈ state.identifiers)
    (formatError "WinZip JPEG frame repeats a component identifier")
  let factorsOffset ← okOr (checkedAdd base 1)
    (formatError "WinZip JPEG sampling-factor offset overflows")
  let factors ← byteAt bytes factorsOffset "truncated WinZip JPEG sampling factors"
  let horizontalFactor := (factors >>> 4).toNat
  let verticalFactor := (factors &&& 0x0f).toNat
  let quantOffset ← okOr (checkedAdd base 2)
    (formatError "WinZip JPEG quantization-selector offset overflows")
  let quantIndex ← byteAt bytes quantOffset "truncated WinZip JPEG quantization selector"
  rejectIf (¬(1 ≤ horizontalFactor ∧ horizontalFactor ≤ 4) ∨
      ¬(1 ≤ verticalFactor ∧ verticalFactor ≤ 4) ∨ 4 ≤ quantIndex.toNat)
    (formatError "WinZip JPEG component parameters are invalid")
  let components ← okOr (setAt state.components componentIndex
      { identifier := identifier, horizontalFactor := horizontalFactor,
        verticalFactor := verticalFactor, quantIndex := quantIndex.toNat })
    (formatError "WinZip JPEG component index is out of range")
  return { components := components, identifiers := identifier :: state.identifiers,
           maxHorizontal := max state.maxHorizontal horizontalFactor,
           maxVertical := max state.maxVertical verticalFactor }

def singleComponent (count : Nat) (state : FrameState) : FrameState :=
  if count = 1 then
    { state with
      components := state.components.set 0
        { state.components[0] with horizontalFactor := 1, verticalFactor := 1 }
      maxHorizontal := 1
      maxVertical := 1 }
  else state

/-- The MCUs that cover so many samples. -/
def mcuCount (size factor : Nat) (sizeDetail underflow overflow : String) : Except Error Nat := do
  let mcuSize ← okOr (checkedMul factor 8) (formatError sizeDetail)
  let rounding ← okOr (checkedSub mcuSize 1) (formatError underflow)
  let sum ← okOr (checkedAdd size rounding) (formatError overflow)
  return sum / mcuSize

def parseSof (metadata : Metadata) (offset : Nat) (marker : UInt8) :
    Except Error (Metadata × Nat) := do
  let finish ← segmentEnd bytes offset
  let size ← okOr (checkedSub finish offset) (formatError "WinZip JPEG SOF size underflows")
  rejectIf (size < 11) (formatError "WinZip JPEG SOF segment is too short")
  let bitsOffset ← okOr (checkedAdd offset 2)
    (formatError "WinZip JPEG SOF precision offset overflows")
  let bits ← byteAt bytes bitsOffset "truncated WinZip JPEG SOF precision"
  rejectIf ((marker = 0xc0 ∧ bits ≠ 8) ∨ (marker = 0xc1 ∧ ¬(bits = 8 ∨ bits = 12)))
    (.unsupportedFeature ("winzip-jpeg-" ++ toString bits.toNat ++ "-bit-sequential"))
  let heightOffset ← okOr (checkedAdd offset 3)
    (formatError "WinZip JPEG SOF height offset overflows")
  let widthOffset ← okOr (checkedAdd offset 5)
    (formatError "WinZip JPEG SOF width offset overflows")
  let countOffset ← okOr (checkedAdd offset 7)
    (formatError "WinZip JPEG component-count offset overflows")
  let height ← parseU16Be bytes heightOffset
  let width ← parseU16Be bytes widthOffset
  let count ← byteAt bytes countOffset "truncated WinZip JPEG component count"
  let count := count.toNat
  rejectIf (width = 0 ∨ height = 0 ∨ ¬(1 ≤ count ∧ count ≤ 4))
    (formatError "WinZip JPEG frame geometry is invalid")
  rejectIf (size ≠ 8 + count * 3) (formatError "WinZip JPEG SOF segment has an invalid size")
  let state ← (List.range count).foldlM (frameComponent bytes offset)
    { components := metadata.components, identifiers := [], maxHorizontal := 1, maxVertical := 1 }
  let state := singleComponent count state
  let horizontalMcus ← mcuCount width state.maxHorizontal "WinZip JPEG MCU width overflows"
    "WinZip JPEG MCU width underflows" "WinZip JPEG horizontal MCU count overflows"
  let verticalMcus ← mcuCount height state.maxVertical "WinZip JPEG MCU height overflows"
    "WinZip JPEG MCU height underflows" "WinZip JPEG vertical MCU count overflows"
  return ({ metadata with
    components := state.components, horizontalMcus := horizontalMcus
    verticalMcus := verticalMcus, bits := bits, height := height, width := width
    numComponents := count, frameSeen := true }, finish)

/-- What the loop over the components of a scan changes. -/
structure ScanState where
  scanComponents : Vector ScanComponent 4
  selected : Vector Bool 4

def scanComponent (metadata : Metadata) (offset : Nat) (state : ScanState) (scanIndex : Nat) :
    Except Error ScanState := do
  let base ← okOr ((checkedMul scanIndex 2).bind fun value =>
      (checkedAdd value 3).bind (checkedAdd offset))
    (formatError "WinZip JPEG scan-component offset overflows")
  let identifier ← byteAt bytes base "truncated WinZip JPEG scan component"
  let frameComponents ← okOr (getRange metadata.components.toList 0 metadata.numComponents)
    (formatError "WinZip JPEG component range is out of bounds")
  let componentIndex ← okOr (frameComponents.findIdx? (·.identifier == identifier))
    (formatError "WinZip JPEG scan references an unknown component")
  let selection ← okOr state.selected[componentIndex]?
    (formatError "WinZip JPEG component index is out of range")
  rejectIf (selection = true) (formatError "WinZip JPEG scan repeats a component")
  let selected ← okOr (setAt state.selected componentIndex true)
    (formatError "WinZip JPEG component index is out of range")
  let selectorsOffset ← okOr (checkedAdd base 1)
    (formatError "WinZip JPEG Huffman-selector offset overflows")
  let selectors ← byteAt bytes selectorsOffset "truncated WinZip JPEG Huffman selectors"
  let dcTable := (selectors >>> 4).toNat
  let acTable := (selectors &&& 0x0f).toNat
  let component ← okOr metadata.components[componentIndex]?
    (formatError "WinZip JPEG component index is out of range")
  let dcPresent := (metadata.huffPresent[0]?.bind fun tables => tables[dcTable]?) = some true
  let acPresent := (metadata.huffPresent[1]?.bind fun tables => tables[acTable]?) = some true
  let quantPresent := metadata.quantPresent[component.quantIndex]? = some true
  rejectIf (4 ≤ dcTable ∨ 4 ≤ acTable ∨ ¬dcPresent ∨ ¬acPresent ∨ ¬quantPresent)
    (formatError "WinZip JPEG scan references a missing table")
  let scanComponents ← okOr (setAt state.scanComponents scanIndex
      { componentIndex := componentIndex, dcTable := dcTable, acTable := acTable })
    (formatError "WinZip JPEG scan index is out of range")
  return { scanComponents := scanComponents, selected := selected }

def parseSos (metadata : Metadata) (offset : Nat) : Except Error (Metadata × Nat) := do
  rejectIf (metadata.frameSeen = false) (formatError "WinZip JPEG scan precedes its frame header")
  let finish ← segmentEnd bytes offset
  let size ← okOr (checkedSub finish offset) (formatError "WinZip JPEG SOS size underflows")
  let countOffset ← okOr (checkedAdd offset 2)
    (formatError "WinZip JPEG scan-count offset overflows")
  let count ← byteAt bytes countOffset "truncated WinZip JPEG scan component count"
  let count := count.toNat
  rejectIf (¬(1 ≤ count ∧ count ≤ metadata.numComponents))
    (formatError "WinZip JPEG scan component count is invalid")
  rejectIf (size ≠ 6 + count * 2) (formatError "WinZip JPEG SOS segment has an invalid size")
  let state ← (List.range count).foldlM (scanComponent bytes metadata offset)
    { scanComponents := metadata.scanComponents, selected := Vector.replicate 4 false }
  let spectral ← okOr ((checkedAdd offset 3).bind fun value => checkedAdd value (count * 2))
    (formatError "WinZip JPEG spectral selector offset overflows")
  let spectralEnd ← okOr (checkedAdd spectral 3)
    (formatError "WinZip JPEG spectral selector range overflows")
  rejectIf (getRange bytes spectral spectralEnd ≠ some [0, 63, 0])
    (.unsupportedFeature "winzip-jpeg-nonsequential-scan")
  return ({ metadata with scanComponents := state.scanComponents, numScanComponents := count },
    finish)

inductive MetadataResult where
  | scan
  | finish
  deriving DecidableEq, Repr

def parseSegment (metadata : Metadata) (marker : UInt8) (offset : Nat) :
    Except Error (Metadata × (MetadataResult ⊕ Nat)) :=
  if marker = 0xd8 then return (metadata, .inr offset)
  else if marker = 0xd9 then do
    rejectIf (offset ≠ bytes.length)
      (formatError "WinZip JPEG EOI bundle has trailing metadata")
    return (metadata, .inl .finish)
  else if marker = 0xc4 then do
    let (metadata, offset) ← parseDht bytes metadata offset
    return (metadata, .inr offset)
  else if marker = 0xdb then do
    let (metadata, offset) ← parseDqt bytes metadata offset
    return (metadata, .inr offset)
  else if marker = 0xdd then do
    let (metadata, offset) ← parseDri bytes metadata offset
    return (metadata, .inr offset)
  else if marker = 0xc0 ∨ marker = 0xc1 then do
    let (metadata, offset) ← parseSof bytes metadata offset marker
    return (metadata, .inr offset)
  else if marker = 0xda then do
    let (metadata, offset) ← parseSos bytes metadata offset
    rejectIf (offset ≠ bytes.length)
      (formatError "WinZip JPEG SOS bundle has trailing metadata")
    return (metadata, .inl .scan)
  else if 0xc2 ≤ marker ∧ marker ≤ 0xcf ∧ marker ≠ 0xc8 ∧ marker ≠ 0xcc then
    throw (.unsupportedFeature "winzip-jpeg-nonsequential-frame")
  else if marker = 0x01 ∨ 0xd0 ≤ marker ∧ marker ≤ 0xd7 then
    throw (formatError "standalone marker is invalid in WinZip JPEG metadata")
  else do
    let offset ← segmentEnd bytes offset
    return (metadata, .inr offset)

/-- The loop of `parse_metadata`.  Each round takes a marker. -/
def parseMetadataLoop : Nat → Metadata → Nat → Except Error (Metadata × MetadataResult)
  | 0, _, _ => throw (formatError "WinZip JPEG metadata marker prefix is missing")
  | rounds + 1, metadata, offset => do
    let (marker, offset) ← nextMarker bytes offset
    let (metadata, next) ← parseSegment bytes metadata marker offset
    match next with
    | .inl result => return (metadata, result)
    | .inr offset => parseMetadataLoop rounds metadata offset

def parseMetadata (metadata : Metadata) : Except Error (Metadata × MetadataResult) :=
  parseMetadataLoop bytes (bytes.length + 1) metadata 0

end

end Jpeg
end Unpackio
