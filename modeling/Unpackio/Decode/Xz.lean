/-
Checked XZ container preflight and block decoding, from `decode/xz.rs`.

`decode_lzma2`, `decode_filter_in_place` and SHA-256 are parameters.
-/
import Unpackio.Execute

namespace Unpackio
namespace Xz

def headerBytes : Nat := 12

def footerBytes : Nat := 12

def minimumStreamBytes : Nat := 32

def magic : List UInt8 := [0xfd, 0x37, 0x7a, 0x58, 0x5a, 0]

def internalFilterIdStart : Nat := 2 ^ 62

def maxFilters : Nat := 4

inductive Profile where
  | packagePayload
  | zipMember (memberIndex : Nat)
  deriving DecidableEq, Repr

namespace Profile

def label : Profile → String
  | .packagePayload => "package XZ"
  | .zipMember _ => "ZIP: XZ"

def format (profile : Profile) (detail : String) : Error :=
  .format (profile.label ++ " " ++ detail)

def checksum : Profile → Error
  | .packagePayload => .checksum .packagePayload none
  | .zipMember memberIndex => .checksum .member (some memberIndex)

def isZipMethod95 : Profile → Bool
  | .packagePayload => false
  | .zipMember _ => true

def contextualize (profile : Profile) : Error → Error
  | .format detail => .format (profile.label ++ " " ++ detail)
  | other => other

/-- `checked_range` in the words of the profile. -/
def range (profile : Profile) (bytes : List UInt8) (start length : Nat)
    (overflowDetail truncatedDetail : String) : Except Error (List UInt8) :=
  (checkedRange bytes start length overflowDetail truncatedDetail).mapError profile.contextualize

end Profile

inductive Check where
  | none
  | crc32
  | crc64
  | sha256
  deriving DecidableEq, Repr

namespace Check

def fromId (identifier : UInt8) : Option Check :=
  if identifier = 0x00 then some .none
  else if identifier = 0x01 then some .crc32
  else if identifier = 0x04 then some .crc64
  else if identifier = 0x0a then some .sha256
  else Option.none

def size : Check → Nat
  | .none => 0
  | .crc32 => 4
  | .crc64 => 8
  | .sha256 => 32

end Check

def crc64Polynomial : UInt64 := 0xc96c5795d7870f42

def crc64TableStep (value : UInt64) : UInt64 :=
  if value &&& 1 = 0 then value >>> 1 else (value >>> 1) ^^^ crc64Polynomial

/-- `make_crc64_xz_table`, one entry at a time. -/
def crc64TableEntry (index : Nat) : UInt64 :=
  Nat.repeat crc64TableStep 8 (UInt64.ofNat index)

def crc64Table : List UInt64 := (List.range 256).map crc64TableEntry

structure Crc64 where
  state : UInt64
  deriving DecidableEq, Repr

namespace Crc64

def new : Crc64 := { state := 0xffffffffffffffff }

def updateByte (crc : Crc64) (byte : UInt8) : Crc64 :=
  let tableIndex := (crc.state.toUInt8 ^^^ byte).toNat
  { state := crc64Table.getD tableIndex 0 ^^^ (crc.state >>> 8) }

def update (crc : Crc64) (bytes : List UInt8) : Crc64 := bytes.foldl updateByte crc

def finalize (crc : Crc64) : UInt64 := ~~~crc.state

end Crc64

def verifyCrc32 (bytes : List UInt8) (expected : Nat) (profile : Profile) : Metered Unit := do
  let actual ← checksumWithControl bytes
  rejectIf (actual.toNat ≠ expected) profile.checksum

/-- The loop of `read_vli` over the bytes that are left. -/
def readVliFrom (bytes : List UInt8) (profile : Profile) :
    Nat → Nat → Nat → Nat → Metered (Nat × Nat)
  | 0, _, _, _ => throw (profile.format "VLI is too long")
  | left + 1, ordinal, value, position => do
    let single ← profile.range bytes position 1 "XZ VLI range overflows" "XZ VLI is truncated"
    let byte ← okOr single.head? (profile.format "VLI byte is missing")
    checkpoint 1
    rejectIf (ordinal = 8 ∧ 0x7f < byte) (profile.format "VLI exceeds the 63-bit domain")
    let shifted ← okOr (checkedShl 64 (byte &&& 0x7f).toNat (ordinal * 7))
      (profile.format "VLI value overflows")
    let value ← okOr (checkedAdd value shifted) (profile.format "VLI value overflows")
    let position ← okOr (checkedAdd position 1) (profile.format "VLI position overflows")
    if byte &&& 0x80 = 0 then do
      rejectIf (ordinal ≠ 0 ∧ byte = 0) (profile.format "VLI is not minimally encoded")
      return (value, position)
    else readVliFrom bytes profile left (ordinal + 1) value position

def readVli (bytes : List UInt8) (start : Nat) (profile : Profile) : Metered (Nat × Nat) :=
  readVliFrom bytes profile 9 0 0 start

def leU32 (bytes : List UInt8) (offset : Nat) (profile : Profile) (detail : String) :
    Except Error Nat := do
  let value ← profile.range bytes offset 4 detail detail
  return fromLeBytes value

def paddingFor (value : Nat) (profile : Profile) : Except Error Nat :=
  if value % 4 = 0 then .ok 0
  else okOr (checkedSub 4 (value % 4)) (profile.format "padding calculation underflows")

def alignUp (value alignment : Nat) (profile : Profile) : Except Error Nat := do
  let padding ←
    if value % alignment = 0 then pure 0
    else okOr (checkedSub alignment (value % alignment)) (profile.format "alignment underflows")
  okOr (checkedAdd value padding) (profile.format "alignment overflows")

structure FilterPlan where
  identifier : Nat
  propertiesStart : Nat
  propertiesSize : Nat
  deriving DecidableEq, Repr

def bcjAlignment (identifier : Nat) : Option Nat :=
  if identifier = 0x04 then some 1
  else if identifier ∈ [0x05, 0x07, 0x09, 0x0a] then some 4
  else if identifier = 0x06 then some 16
  else if identifier ∈ [0x08, 0x0b] then some 2
  else none

def validateBcjProperties (identifier : Nat) (properties : List UInt8) (profile : Profile) :
    Except Error Unit :=
  if properties = [] then .ok ()
  else do
    rejectIf (properties.length ≠ 4)
      (profile.format "BCJ Filter Properties must be empty or four bytes")
    let alignment ← okOr (bcjAlignment identifier) (profile.format "BCJ Filter ID is invalid")
    rejectIf (fromLeBytes properties % alignment ≠ 0)
      (profile.format "BCJ start offset violates its alignment")

def lzma2DictionarySize (property : UInt8) (profile : Profile) : Except Error Nat :=
  if property = 40 then .ok (2 ^ 32 - 1)
  else okOr (checkedShl 32 (2 ||| (property &&& 1)).toNat (property.toNat / 2 + 11))
    (profile.format "LZMA2 dictionary size overflows")

def validateFilter (identifier : Nat) (properties : List UInt8) (last : Bool) (profile : Profile) :
    Except Error (Option Nat) :=
  if identifier = 0x21 then do
    rejectIf (last = false) (profile.format "LZMA2 is not the final Block filter")
    let property ← okOr (if properties.length = 1 then properties.head? else none)
      (profile.format "LZMA2 Filter Properties must contain exactly one byte")
    rejectIf (40 < property) (profile.format "LZMA2 dictionary property is invalid")
    let dictionary ← lzma2DictionarySize property profile
    return some dictionary
  else if identifier = 0x03 then do
    rejectIf (last = true) (profile.format "Delta cannot be the final Block filter")
    rejectIf (properties.length ≠ 1)
      (profile.format "Delta Filter Properties must contain exactly one byte")
    return none
  else if 0x04 ≤ identifier ∧ identifier ≤ 0x09 ∨
      identifier ∈ [0x0a, 0x0b] ∧ profile.isZipMethod95 = false then do
    rejectIf (last = true) (profile.format "BCJ cannot be the final Block filter")
    validateBcjProperties identifier properties profile
    return none
  else if identifier ∈ [0x0a, 0x0b] then
    .error (.unsupportedFeature "zip-xz-post-1.0.4-filter")
  else .error (.unsupportedFeature "xz-filter")

/-- The filter loop of `preflight_block` from the given ordinal on.  The last
component is the dictionary property. -/
def readFilters (body : List UInt8) (offset : Nat) (limits : Limits) (profile : Profile)
    (filterCount : Nat) :
    Nat → Nat → Nat → Option UInt8 → Metered (List FilterPlan × Nat × Option UInt8)
  | 0, _, position, dictionaryProperty => return ([], position, dictionaryProperty)
  | left + 1, ordinal, position, dictionaryProperty => do
    let (identifier, next) ← readVli body position profile
    rejectIf (internalFilterIdStart ≤ identifier)
      (profile.format "Block uses a reserved internal Filter ID")
    let (propertySize, propertyStart) ← readVli body next profile
    checkLimit propertySize limits.maxCoderPropertyBytes .coderPropertyBytes
    let properties ← profile.range body propertyStart propertySize
      "XZ Filter Properties range overflows" "XZ Filter Properties are truncated"
    consumeBytes properties
    let position ← okOr (checkedAdd propertyStart propertySize)
      (profile.format "Filter Properties offset overflows")
    let parsedDictionary ← validateFilter identifier properties (ordinal + 1 = filterCount) profile
    let dictionaryProperty ←
      match parsedDictionary with
      | some dictionary => do
        checkLimit dictionary limits.maxDictionaryBytes .dictionaryBytes
        pure properties.head?
      | none => pure dictionaryProperty
    let absoluteStart ← okOr (checkedAdd offset propertyStart)
      (profile.format "Filter Properties absolute offset overflows")
    rejectIf (maxFilters ≤ ordinal) (profile.format "Block filter count exceeds its fixed bound")
    let filter : FilterPlan := ⟨identifier, absoluteStart, propertySize⟩
    let (filters, position, dictionaryProperty) ←
      readFilters body offset limits profile filterCount left (ordinal + 1) position
        dictionaryProperty
    return (filter :: filters, position, dictionaryProperty)

structure BlockPlan where
  compressedStart : Nat
  compressedSize : Nat
  checkStart : Nat
  uncompressedSize : Nat
  dictionaryProperty : UInt8
  filters : List FilterPlan
  filterCount : Nat
  deriving DecidableEq, Repr

/-- A size that the block header may declare. -/
def readDeclared (body : List UInt8) (declared : Bool) (position : Nat) (profile : Profile) :
    Metered (Option Nat × Nat) :=
  if declared then do
    let (value, next) ← readVli body position profile
    return (some value, next)
  else return (none, position)

/-- What `preflight_block` reads from the block header. -/
structure BlockHeader where
  headerSize : Nat
  declaredCompressed : Option Nat
  declaredUncompressed : Option Nat
  filters : List FilterPlan
  filterCount : Nat
  dictionaryProperty : UInt8
  deriving DecidableEq, Repr

def blockHeaderBody (input : List UInt8) (offset unpaddedSize : Nat) (limits : Limits)
    (profile : Profile) : Metered (Nat × List UInt8) := do
  let single ← profile.range input offset 1 "XZ Block Header range overflows"
    "XZ Block Header is truncated"
  let encodedSize ← okOr single.head? (profile.format "Block Header Size is missing")
  checkpoint 1
  rejectIf (encodedSize = 0) (profile.format "Block Header unexpectedly starts the Index")
  let headerSize := (encodedSize.toNat + 1) * 4
  rejectIf (¬(8 ≤ headerSize ∧ headerSize ≤ 1024) ∨ unpaddedSize < headerSize)
    (profile.format "Block Header size is invalid")
  checkLimit headerSize limits.maxHeaderBytes .headerBytes
  let header ← profile.range input offset headerSize "XZ Block Header range overflows"
    "XZ Block Header is truncated"
  let crcStart ← okOr (checkedSub headerSize 4)
    (profile.format "Block Header CRC offset underflows")
  let body ← profile.range header 0 crcStart "XZ Block Header body range overflows"
    "XZ Block Header body is truncated"
  let crc ← leU32 header crcStart profile "Block Header CRC is truncated"
  verifyCrc32 body crc profile
  return (headerSize, body)

def readBlockHeader (input : List UInt8) (offset unpaddedSize : Nat) (limits : Limits)
    (profile : Profile) : Metered BlockHeader := do
  let (headerSize, body) ← blockHeaderBody input offset unpaddedSize limits profile
  let flags ← okOr body[1]? (profile.format "Block Flags are truncated")
  checkpoint 1
  rejectIf (flags &&& 0x3c ≠ 0) (profile.format "Block Flags contain reserved bits")
  let filterCount := ((flags &&& 3) + 1).toNat
  rejectIf (profile.isZipMethod95 = true ∧ 2 < filterCount)
    (.unsupportedFeature "zip-xz-filter-count")
  checkLimit filterCount limits.maxCodersPerFolder .codersPerFolder
  let (declaredCompressed, position) ← readDeclared body (flags &&& 0x40 ≠ 0) 2 profile
  let (declaredUncompressed, position) ← readDeclared body (flags &&& 0x80 ≠ 0) position profile
  let (filters, position, dictionaryProperty) ←
    readFilters body offset limits profile filterCount filterCount 0 position none
  let dictionaryProperty ← okOr dictionaryProperty
    (profile.format "Block has no final LZMA2 filter")
  let paddingSize ← okOr (checkedSub body.length position)
    (profile.format "Block Header fields exceed its declared size")
  let headerPadding ← profile.range body position paddingSize
    "XZ Block Header Padding range overflows" "XZ Block Header Padding is truncated"
  consumeBytes headerPadding
  rejectIf (headerPadding.any (· ≠ 0) = true) (profile.format "Block Header Padding is nonzero")
  return {
    headerSize := headerSize
    declaredCompressed := declaredCompressed
    declaredUncompressed := declaredUncompressed
    filters := filters
    filterCount := filterCount
    dictionaryProperty := dictionaryProperty }

def preflightBlock (input : List UInt8) (offset unpaddedSize uncompressedSize : Nat)
    (check : Check) (limits : Limits) (profile : Profile) : Metered (BlockPlan × Nat × Nat) := do
  let header ← readBlockHeader input offset unpaddedSize limits profile
  let fixedSize ← okOr (checkedAdd header.headerSize check.size)
    (profile.format "Block fixed size overflows")
  let compressedSize ← okOr (checkedSub unpaddedSize fixedSize)
    (profile.format "Index Unpadded Size is smaller than the Block")
  rejectIf (compressedSize = 0) (profile.format "Block Compressed Data is empty")
  rejectIf (∃ size ∈ header.declaredCompressed, size ≠ compressedSize)
    (profile.format "Block Compressed Size differs from the Index record")
  rejectIf (∃ size ∈ header.declaredUncompressed, size ≠ uncompressedSize)
    (profile.format "Block Uncompressed Size differs from the Index record")
  let compressedStart ← okOr (checkedAdd offset header.headerSize)
    (profile.format "Block Compressed Data offset overflows")
  let _ ← profile.range input compressedStart compressedSize
    "XZ Block Compressed Data range overflows" "XZ Block Compressed Data is truncated"
  let blockPaddingSize ← paddingFor compressedSize profile
  let blockPaddingStart ← okOr (checkedAdd compressedStart compressedSize)
    (profile.format "Block Padding offset overflows")
  let blockPadding ← profile.range input blockPaddingStart blockPaddingSize
    "XZ Block Padding range overflows" "XZ Block Padding is truncated"
  consumeBytes blockPadding
  rejectIf (blockPadding.any (· ≠ 0) = true) (profile.format "Block Padding is nonzero")
  let checkStart ← okOr (checkedAdd blockPaddingStart blockPaddingSize)
    (profile.format "Block Check offset overflows")
  let physicalEnd ← okOr (checkedAdd checkStart check.size)
    (profile.format "Block physical end overflows")
  let _ ← profile.range input checkStart check.size "XZ Block Check range overflows"
    "XZ Block Check is truncated"
  let indexedEnd ← okOr (checkedAdd offset unpaddedSize)
    (profile.format "Block indexed end overflows")
  let indexedEnd ← alignUp indexedEnd 4 profile
  rejectIf (physicalEnd ≠ indexedEnd)
    (profile.format "Block layout disagrees with its Index record")
  return ({
    compressedStart := compressedStart
    compressedSize := compressedSize
    checkStart := checkStart
    uncompressedSize := uncompressedSize
    dictionaryProperty := header.dictionaryProperty
    filters := header.filters
    filterCount := header.filterCount }, physicalEnd, header.headerSize)

/-! ## The stream -/

structure Plan where
  blocks : List BlockPlan
  check : Check
  totalOutput : Nat
  deriving DecidableEq, Repr

/-- The stream padding loop from the given end.  `fuel` is the number of
four-byte groups in front of it. -/
def skipStreamPadding (input : List UInt8) (profile : Profile) : Nat → Nat → Metered Nat
  | 0, streamEnd => return streamEnd
  | fuel + 1, streamEnd =>
    if streamEnd < 4 then return streamEnd
    else do
      let paddingStart ← okOr (checkedSub streamEnd 4)
        (profile.format "Stream Padding offset underflows")
      let tail ← profile.range input paddingStart 4 "XZ Stream Padding range overflows"
        "XZ Stream Padding is truncated"
      consumeBytes tail
      if tail.all (· = 0) then skipStreamPadding input profile fuel paddingStart
      else return streamEnd

def readStreamHeader (input : List UInt8) (profile : Profile) : Metered (List UInt8 × Check) := do
  let header ← profile.range input 0 headerBytes "XZ Stream Header range overflows"
    "XZ Stream Header is truncated"
  rejectIf (getRange header 0 magic.length ≠ some magic)
    (profile.format "Stream Header magic is invalid")
  let streamFlags ← okOr (getRange header 6 8) (profile.format "Stream Flags are truncated")
  let crc ← leU32 header 8 profile "Stream Header CRC is truncated"
  verifyCrc32 streamFlags crc profile
  let version ← okOr streamFlags[0]? (profile.format "Stream version flag is missing")
  let checkIdentifier ← okOr streamFlags[1]? (profile.format "Stream Check flag is missing")
  rejectIf (version ≠ 0 ∨ checkIdentifier &&& 0xf0 ≠ 0)
    (profile.format "Stream Flags contain reserved bits")
  let check ← okOr (Check.fromId checkIdentifier) (.unsupportedFeature "xz-check-type")
  return (streamFlags, check)

def readStreamFooter (input : List UInt8) (streamEnd : Nat) (streamFlags : List UInt8)
    (profile : Profile) : Metered (Nat × Nat) := do
  let footerStart ← okOr (checkedSub streamEnd footerBytes)
    (profile.format "Stream Footer offset underflows")
  let footer ← profile.range input footerStart footerBytes "XZ Stream Footer range overflows"
    "XZ Stream Footer is truncated"
  rejectIf (getRange footer 10 12 ≠ some [0x59, 0x5a] ∨ getRange footer 8 10 ≠ some streamFlags)
    (profile.format "Stream Footer magic or flags do not match")
  let footerCrcInput ← okOr (getRange footer 4 10)
    (profile.format "Stream Footer CRC range is truncated")
  let crc ← leU32 footer 0 profile "Stream Footer CRC is truncated"
  verifyCrc32 footerCrcInput crc profile
  let backward ← leU32 footer 4 profile "Backward Size is truncated"
  return (footerStart, (backward + 1) * 4)

def readIndexBody (input : List UInt8) (footerStart indexSize : Nat) (limits : Limits)
    (profile : Profile) : Metered (Nat × List UInt8) := do
  checkLimit indexSize limits.maxHeaderBytes .headerBytes
  let indexStart ← okOr (checkedSub footerStart indexSize)
    (profile.format "Index offset underflows")
  let index ← profile.range input indexStart indexSize "XZ Index range overflows"
    "XZ Index is truncated"
  rejectIf (index.length < 8 ∨ index.head? ≠ some 0) (profile.format "Index Indicator is invalid")
  checkpoint 1
  let crcStart ← okOr (checkedSub indexSize 4) (profile.format "Index CRC offset underflows")
  let indexBody ← profile.range index 0 crcStart "XZ Index body range overflows"
    "XZ Index body is truncated"
  let crc ← leU32 index crcStart profile "Index CRC is truncated"
  verifyCrc32 indexBody crc profile
  return (indexStart, indexBody)

/-- What the record loop of `preflight_xz` carries. -/
structure RecordState where
  position : Nat
  blockOffset : Nat
  totalCoders : Nat
  headerBytes : Nat
  totalOutput : Nat
  deriving DecidableEq, Repr

section

variable (input indexBody : List UInt8) (maximum : Nat) (check : Check) (limits : Limits)
  (profile : Profile)

def preflightRecord (state : RecordState) : Metered (BlockPlan × RecordState) := do
  let (unpaddedSize, next) ← readVli indexBody state.position profile
  let (uncompressedSize, after) ← readVli indexBody next profile
  rejectIf (unpaddedSize = 0) (profile.format "Index contains a zero Unpadded Size")
  let (block, physicalEnd, blockHeaderSize) ←
    preflightBlock input state.blockOffset unpaddedSize uncompressedSize check limits profile
  let totalCoders ← okOr (checkedAdd state.totalCoders block.filterCount)
    (profile.format "total filter count overflows")
  checkLimit totalCoders limits.maxTotalCoders .totalCoders
  let headerBytes ← okOr (checkedAdd state.headerBytes blockHeaderSize)
    (profile.format "header accounting overflows")
  checkLimit headerBytes limits.maxHeaderBytes .headerBytes
  let totalOutput ← okOr (checkedAdd state.totalOutput uncompressedSize)
    (profile.format "declared output size overflows")
  checkLimit totalOutput maximum .totalOutputBytes
  return (block, {
    position := after
    blockOffset := physicalEnd
    totalCoders := totalCoders
    headerBytes := headerBytes
    totalOutput := totalOutput })

/-- The record loop of `preflight_xz`. -/
def preflightRecords : Nat → RecordState → Metered (List BlockPlan × RecordState)
  | 0, state => return ([], state)
  | count + 1, state => do
    let (block, state) ← preflightRecord input indexBody maximum check limits profile state
    let (blocks, state) ← preflightRecords count state
    return (block :: blocks, state)

end

def validateIndexPadding (indexBody : List UInt8) (position : Nat) (profile : Profile) :
    Metered Unit := do
  let paddingSize ← okOr (checkedSub indexBody.length position)
    (profile.format "Index records exceed the Index size")
  let expectedPadding ← paddingFor position profile
  rejectIf (paddingSize ≠ expectedPadding) (profile.format "Index Padding length is invalid")
  let padding ← profile.range indexBody position paddingSize "XZ Index Padding range overflows"
    "XZ Index Padding is truncated"
  consumeBytes padding
  rejectIf (padding.any (· ≠ 0) = true) (profile.format "Index Padding is nonzero")

def preflight (input : List UInt8) (expected : Option Nat) (maximum : Nat) (limits : Limits)
    (profile : Profile) : Metered Plan := do
  rejectIf (input.length % 4 ≠ 0)
    (profile.format "input size is not a multiple of four bytes")
  let streamEnd ← skipStreamPadding input profile (input.length / 4) input.length
  rejectIf (streamEnd < minimumStreamBytes) (profile.format "Stream is truncated")
  let (streamFlags, check) ← readStreamHeader input profile
  let (footerStart, indexSize) ← readStreamFooter input streamEnd streamFlags profile
  let (indexStart, indexBody) ← readIndexBody input footerStart indexSize limits profile
  let (recordCount, position) ← readVli indexBody 1 profile
  checkLimit recordCount limits.maxStreamFrames .streamFrames
  let headerTotal ← okOr (checkedAdd (headerBytes + footerBytes) indexSize)
    (profile.format "header accounting overflows")
  checkLimit headerTotal limits.maxHeaderBytes .headerBytes
  let (blocks, state) ← preflightRecords input indexBody maximum check limits profile recordCount {
    position := position
    blockOffset := headerBytes
    totalCoders := 0
    headerBytes := headerTotal
    totalOutput := 0 }
  validateIndexPadding indexBody state.position profile
  rejectIf (state.blockOffset ≠ indexStart)
    (profile.format "Block records do not reach the Index exactly")
  rejectIf (∃ size ∈ expected, size ≠ state.totalOutput)
    (profile.format "Index output size differs from its declaration")
  return { blocks := blocks, check := check, totalOutput := state.totalOutput }

/-- `decode_lzma2` on the input, the properties, the expected size and the maximum,
`decode_filter_in_place` on the method, the properties and the bytes, and the
digest of SHA-256. -/
structure Codecs where
  lzma2 : List UInt8 → List UInt8 → Option Nat → Nat → Metered (List UInt8)
  filter : List UInt8 → List UInt8 → List UInt8 → Metered (List UInt8)
  sha256 : List UInt8 → List UInt8

def filterMethod (identifier : Nat) : Option (List UInt8) :=
  if identifier = 0x03 then some methodDelta
  else if identifier = 0x04 then some methodBcj
  else if identifier = 0x05 then some methodPpc
  else if identifier = 0x06 then some methodIa64
  else if identifier = 0x07 then some methodArm
  else if identifier = 0x08 then some methodArmThumb
  else if identifier = 0x09 then some methodSparc
  else if identifier = 0x0a then some methodArm64
  else if identifier = 0x0b then some methodRiscv
  else none

section

variable (codecs : Codecs) (input : List UInt8) (profile : Profile)

def applyPrefilter (filter : FilterPlan) (output : List UInt8) : Metered (List UInt8) := do
  let properties ← profile.range input filter.propertiesStart filter.propertiesSize
    "XZ prefilter properties range overflows" "XZ prefilter properties are truncated"
  let method ← okOr (filterMethod filter.identifier)
    (profile.format "Block prefilter plan contains an unknown Filter ID")
  (codecs.filter method properties output).mapError profile.contextualize

/-- The prefilter loop over the ordinals below `count`, the last one first. -/
def applyPrefilterLoop (block : BlockPlan) : Nat → List UInt8 → Metered (List UInt8)
  | 0, output => return output
  | count + 1, output => do
    let filter ← okOr block.filters[count]? (profile.format "Block prefilter plan is incomplete")
    let output ← applyPrefilter codecs input profile filter output
    applyPrefilterLoop block count output

def applyPrefilters (block : BlockPlan) (output : List UInt8) : Metered (List UInt8) := do
  let prefilterCount ← okOr (checkedSub block.filterCount 1)
    (profile.format "Block has no LZMA2 filter")
  applyPrefilterLoop codecs input profile block prefilterCount output

end

def crc64WithControl : List (List UInt8) → Crc64 → Metered UInt64
  | [], crc => return crc.finalize
  | chunk :: rest, crc => do
    checkpoint chunk.length
    crc64WithControl rest (crc.update chunk)

def verifyBlockCheck (sha256 : List UInt8 → List UInt8) (output expected : List UInt8)
    (check : Check) (profile : Profile) : Metered Unit := do
  let actual ←
    match check with
    | .none => pure []
    | .crc32 => do
      let crc ← checksumWithControl output
      pure (toLeBytes 4 crc.toNat)
    | .crc64 => do
      let crc ← crc64WithControl (chunks controlChunkSize output) .new
      pure (toLeBytes 8 crc.toNat)
    | .sha256 => do
      (chunks controlChunkSize output).forM fun chunk => checkpoint chunk.length
      pure (sha256 output)
  rejectIf (actual ≠ expected) profile.checksum

section

variable (codecs : Codecs) (input : List UInt8) (maximum : Nat) (check : Check) (profile : Profile)

def decodeBlock (block : BlockPlan) : Metered (List UInt8) := do
  let compressed ← profile.range input block.compressedStart block.compressedSize
    "XZ compressed-data range overflows" "XZ compressed data is truncated"
  let decoded ← (codecs.lzma2 compressed [block.dictionaryProperty] (some block.uncompressedSize)
    maximum).mapError profile.contextualize
  let decoded ← applyPrefilters codecs input profile block decoded
  let expectedCheck ← profile.range input block.checkStart check.size
    "XZ Block Check range overflows" "XZ Block Check is truncated"
  verifyBlockCheck codecs.sha256 decoded expectedCheck check profile
  return decoded

def appendBlock (output decoded : List UInt8) : Except Error (List UInt8) :=
  if output = [] then .ok decoded
  else do
    let next ← okOr (checkedAdd output.length decoded.length)
      (profile.format "decoded output size overflows")
    checkLimit next maximum .totalOutputBytes
    return output ++ decoded

def decodeBlocks : List BlockPlan → List UInt8 → Metered (List UInt8)
  | [], output => return output
  | block :: blocks, output => do
    let decoded ← decodeBlock codecs input maximum check profile block
    let output ← appendBlock maximum profile output decoded
    decodeBlocks blocks output

end

def checkExpected (expected : Option Nat) (maximum : Nat) : Except Error Unit :=
  match expected with
  | some size => checkLimit size maximum .totalOutputBytes
  | none => .ok ()

def decode (codecs : Codecs) (input : List UInt8) (expected : Option Nat) (maximum : Nat)
    (limits : Limits) (profile : Profile) : Metered (List UInt8) := do
  checkExpected expected maximum
  let plan ← preflight input expected maximum limits profile
  let output ← decodeBlocks codecs input maximum plan.check profile plan.blocks []
  rejectIf (output.length ≠ plan.totalOutput)
    (profile.format "decoded output differs from the Index")
  return output

end Xz
end Unpackio
