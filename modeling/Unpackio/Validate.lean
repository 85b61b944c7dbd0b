/-
Conversion from syntax records to the validated archive model, from
`validate.rs`.

Cursors that the source moves through a vector are arguments and results here.
The bit-vector reader of the source file is the one of `raw.rs`.
-/
import Unpackio.CoderProperties
import Unpackio.Model
import Mathlib.Data.List.Sort

namespace Unpackio

def fixedHeaderSize : Nat := 32

def unknownSize : Nat := 2 ^ 64 - 1

def valueAt {α : Type} (values : Option (List α)) (index : Nat) (detail : String) :
    Except Error (Option α) :=
  match values with
  | some items => some <$> okOr items[index]? (formatError detail)
  | none => .ok none

def optionalSize (value : Nat) : Option Nat := if value ≠ unknownSize then some value else none

def copyProperties (properties : List RawProperty) : Metered (List StoredProperty) := do
  checkpoint properties.length
  properties.mapM fun property => do
    let data ← copyBytes property.data
    return { id := property.id, data := data }

structure FolderDraft where
  coders : List Coder
  bindPairs : List BindPair
  packedInputIndices : List Nat
  unpackSizes : List (Option Nat)
  rootOutputIndex : Nat
  rootSize : Option Nat
  topologicalCoderOrder : List Nat
  crc : Option UInt32
  dictionaryBytes : Nat
  firstPackStream : Nat

def addDictionary (total : Nat) (limits : Limits) : Option Nat → Except Error Nat
  | none => .ok total
  | some bytes => do
    let total ← okOr (checkedAdd total bytes)
      (formatError "folder dictionary accounting overflows")
    checkLimit total limits.maxDictionaryBytes .dictionaryBytes
    return total

/-- The coder loop of `validate_folder`, with the ports and dictionaries so far. -/
def validateCoders (limits : Limits) :
    List RawCoder → Nat → Nat → Nat → Metered (List Coder × Nat × Nat × Nat)
  | [], inputStart, outputStart, dictionaryBytes =>
    return ([], inputStart, outputStart, dictionaryBytes)
  | raw :: raws, inputStart, outputStart, dictionaryBytes => do
    checkpoint 1
    let dictionary ← validateCoderProperties raw.methodId raw.properties limits
    let dictionaryBytes ← addDictionary dictionaryBytes limits dictionary
    let methodId ← copyBytes raw.methodId
    let properties ← copyBytes raw.properties
    let nextInput ← okOr (checkedAdd inputStart raw.inputStreams)
      (formatError "coder input range overflows")
    let nextOutput ← okOr (checkedAdd outputStart raw.outputStreams)
      (formatError "coder output range overflows")
    let (coders, inputEnd, outputEnd, dictionaryBytes) ←
      validateCoders limits raws nextInput nextOutput dictionaryBytes
    return ({ methodId := methodId, inputStart := inputStart, inputCount := raw.inputStreams,
              outputStart := outputStart, outputCount := raw.outputStreams,
              properties := properties, dictionaryBytes := dictionary } :: coders,
      inputEnd, outputEnd, dictionaryBytes)

def validateFolder (raw : RawFolder) (folderCrc : Option UInt32) (firstPackStream : Nat)
    (limits : Limits) : Metered FolderDraft := do
  checkpoint raw.coders.length
  let (coders, inputEnd, outputEnd, dictionaryBytes) ← validateCoders limits raw.coders 0 0 0
  rejectIf (inputEnd ≠ raw.inputStreams ∨ outputEnd ≠ raw.outputStreams)
    (formatError "folder stream-port totals are inconsistent")
  let graph ← validateFolderGraph raw
  rejectIf (raw.unpackSizes.length ≠ raw.outputStreams)
    (formatError "folder unpack-size count is inconsistent")
  let unpackSizes := raw.unpackSizes.map optionalSize
  let rootSize ← okOr unpackSizes[graph.rootOutputIndex]?
    (formatError "root output size is missing")
  return { coders := coders, bindPairs := graph.bindPairs,
           packedInputIndices := graph.packedInputIndices, unpackSizes := unpackSizes,
           rootOutputIndex := graph.rootOutputIndex, rootSize := rootSize,
           topologicalCoderOrder := graph.topologicalCoderOrder, crc := folderCrc,
           dictionaryBytes := dictionaryBytes, firstPackStream := firstPackStream }

def explicitSizeLoop (explicitSizes : Option (List Nat)) :
    Nat → Nat → Nat → Bool → Metered (List (Option Nat) × Nat × Nat × Bool)
  | 0, cursor, total, allKnown => return ([], cursor, total, allKnown)
  | count + 1, cursor, total, allKnown => do
    checkpoint 1
    match explicitSizes with
    | none => do
      let (sizes, cursor, total, allKnown) ←
        explicitSizeLoop explicitSizes count cursor total allKnown
      return (none :: sizes, cursor, total, allKnown)
    | some values => do
      let value ← okOr values[cursor]? (formatError "explicit substream-size vector is too short")
      let cursor ← okOr (checkedAdd cursor 1) (formatError "substream-size index overflows")
      match optionalSize value with
      | some knownSize => do
        let total ← okOr (checkedAdd total knownSize)
          (formatError "substream-size sum overflows")
        let (sizes, cursor, total, allKnown) ←
          explicitSizeLoop explicitSizes count cursor total allKnown
        return (some knownSize :: sizes, cursor, total, allKnown)
      | none => do
        let (sizes, cursor, total, allKnown) ←
          explicitSizeLoop explicitSizes count cursor total false
        return (none :: sizes, cursor, total, allKnown)

/-- The last size of a folder is what the others leave of it. -/
def finalSize (rootSize : Option Nat) (explicitSizes : Option (List Nat)) (allKnown : Bool)
    (total : Nat) : Except Error (Option Nat) :=
  match rootSize, explicitSizes, allKnown with
  | some folderSize, some _, true =>
    some <$> okOr (checkedSub folderSize total) (formatError "substream sizes exceed folder size")
  | _, _, _ => .ok none

def substreamSizes (rootSize : Option Nat) (count : Nat) (explicitSizes : Option (List Nat))
    (cursor : Nat) : Metered (List (Option Nat) × Nat) :=
  if count = 0 then return ([], cursor)
  else if count = 1 then return ([rootSize], cursor)
  else do
    let (sizes, cursor, total, allKnown) ←
      explicitSizeLoop explicitSizes (count - 1) cursor 0 true
    let last ← finalSize rootSize explicitSizes allKnown total
    return (sizes ++ [last], cursor)

/-- The loop that gives every size its digest. -/
def attachCrcs (inherited : Option UInt32) (explicitCrcs : Option (List (Option UInt32))) :
    List (Option Nat) → Nat → Metered (List Substream × Nat)
  | [], cursor => return ([], cursor)
  | size :: sizes, cursor => do
    checkpoint 1
    match inherited, explicitCrcs with
    | some _, _ => do
      let (streams, cursor) ← attachCrcs inherited explicitCrcs sizes cursor
      return (⟨size, inherited⟩ :: streams, cursor)
    | none, some values => do
      let crc ← okOr values[cursor]? (formatError "substream CRC vector is too short")
      let cursor ← okOr (checkedAdd cursor 1) (formatError "substream CRC index overflows")
      let (streams, cursor) ← attachCrcs inherited explicitCrcs sizes cursor
      return (⟨size, crc⟩ :: streams, cursor)
    | none, none => do
      let (streams, cursor) ← attachCrcs inherited explicitCrcs sizes cursor
      return (⟨size, none⟩ :: streams, cursor)

def buildSubstreams (draft : FolderDraft) (count : Nat) (explicitSizes : Option (List Nat))
    (sizeCursor : Nat) (explicitCrcs : Option (List (Option UInt32))) (crcCursor : Nat) :
    Metered (List Substream × Nat × Nat) := do
  checkpoint count
  let (sizes, sizeCursor) ← substreamSizes draft.rootSize count explicitSizes sizeCursor
  let inherited := if count = 1 then draft.crc else none
  let (streams, crcCursor) ← attachCrcs inherited explicitCrcs sizes crcCursor
  return (streams, sizeCursor, crcCursor)

def packStreamLoop (envelope : HeaderEnvelope) (archiveBytes : List UInt8)
    (crcs : Option (List (Option UInt32))) : List Nat → Nat → Nat → Metered (List PackStream × Nat)
  | [], _, offset => return ([], offset)
  | rawSize :: sizes, index, offset => do
    checkpoint 1
    rejectIf (rawSize = unknownSize) (.unsupportedFeature "unknown-packed-stream-size")
    let finish ← okOr (checkedAdd offset rawSize) (formatError "packed-stream range overflows")
    rejectIf (envelope.nextHeaderOffset < finish)
      (formatError "packed stream overlaps the stored next header")
    let _ ← checkedRange archiveBytes offset rawSize "packed-stream range overflows"
      "packed-stream range is outside the supplied archive"
    let crc ← valueAt crcs index "packed-stream CRC count is inconsistent"
    let (streams, finish) ← packStreamLoop envelope archiveBytes crcs sizes (index + 1) finish
    return ({ offset := offset, size := some rawSize, crc := crc.join } :: streams, finish)

/-- The packed streams, and `ranges` with the bytes they cover. -/
def validatePackRanges (pack : Option RawPackInfo) (envelope : HeaderEnvelope)
    (archiveBytes : List UInt8) (ranges : List (Nat × Nat)) :
    Metered (Nat × List PackStream × List (Nat × Nat)) :=
  match pack with
  | none => return (0, [], ranges)
  | some pack => do
    let sizes ← okOr pack.sizes (formatError "PackInfo is missing packed-stream sizes")
    checkpoint pack.streams
    rejectIf (sizes.length ≠ pack.streams)
      (formatError "packed-stream size count is inconsistent")
    rejectIf (∃ crcs ∈ pack.crcs, crcs.length ≠ pack.streams)
      (formatError "packed-stream CRC count is inconsistent")
    let fixedEnd ← okOr (checkedAdd envelope.signatureOffset fixedHeaderSize)
      (formatError "signature-header end overflows")
    let sectionStart ← okOr (checkedAdd fixedEnd pack.position)
      (formatError "packed-data position overflows")
    let (streams, offset) ← packStreamLoop envelope archiveBytes pack.crcs sizes 0 sectionStart
    return (pack.position, streams,
      if sectionStart < offset then ranges ++ [(sectionStart, offset)] else ranges)

/-- The folder loop of `validate_streams`, and the packed streams it assigns. -/
def validateFolders (crcs : Option (List (Option UInt32))) (limits : Limits) :
    List RawFolder → Nat → Nat → Metered (List FolderDraft × Nat)
  | [], _, assigned => return ([], assigned)
  | folder :: folders, folderIndex, assigned => do
    let crc ← valueAt crcs folderIndex "folder CRC count is inconsistent"
    let draft ← validateFolder folder crc.join assigned limits
    let assigned ← okOr (checkedAdd assigned folder.packedStreams)
      (formatError "assigned packed-stream count overflows")
    let (drafts, assigned) ← validateFolders crcs limits folders (folderIndex + 1) assigned
    return (draft :: drafts, assigned)

def FolderDraft.toFolder (draft : FolderDraft) (substreams : List Substream) : Folder :=
  { coders := draft.coders, bindPairs := draft.bindPairs,
    packedInputIndices := draft.packedInputIndices, unpackSizes := draft.unpackSizes,
    rootOutputIndex := draft.rootOutputIndex,
    topologicalCoderOrder := draft.topologicalCoderOrder, crc := draft.crc,
    substreams := substreams, dictionaryBytes := draft.dictionaryBytes,
    firstPackStream := draft.firstPackStream }

/-- The cursors of the substream loop. -/
structure SubstreamCursors where
  size : Nat
  crc : Nat
  total : Nat
  deriving DecidableEq, Repr

def countAt (counts : List Nat) (index : Nat) : Except Error Nat :=
  if counts.isEmpty then .ok 1
  else okOr counts[index]? (formatError "substream count vector is too short")

/-- The substream loop of `validate_streams`. -/
def buildFolders (counts : List Nat) (explicitSizes : Option (List Nat))
    (explicitCrcs : Option (List (Option UInt32))) (limits : Limits) :
    List FolderDraft → Nat → SubstreamCursors → Metered (List Folder × SubstreamCursors)
  | [], _, cursors => return ([], cursors)
  | draft :: drafts, index, cursors => do
    let count ← countAt counts index
    let total ← okOr (checkedAdd cursors.total count)
      (formatError "total substream count overflows")
    checkLimit total limits.maxSubstreams .substreams
    let (substreams, size, crc) ←
      buildSubstreams draft count explicitSizes cursors.size explicitCrcs cursors.crc
    let (folders, cursors) ← buildFolders counts explicitSizes explicitCrcs limits drafts
      (index + 1) { size := size, crc := crc, total := total }
    return (draft.toFolder substreams :: folders, cursors)

/-- `validate_streams` for streams with PackInfo and UnpackInfo. -/
def validateUnpack (pack : RawPackInfo) (unpack : RawUnpackInfo)
    (substreams : Option RawSubstreamsInfo) (envelope : HeaderEnvelope)
    (archiveBytes : List UInt8) (limits : Limits) (ranges : List (Nat × Nat)) :
    Metered (StreamsInfo × List (Nat × Nat)) := do
  let (packPosition, packStreams, ranges) ←
    validatePackRanges (some pack) envelope archiveBytes ranges
  rejectIf (∃ crcs ∈ unpack.crcs, crcs.length ≠ unpack.folders.length)
    (formatError "folder CRC count is inconsistent")
  checkpoint unpack.folders.length
  let (drafts, assigned) ← validateFolders unpack.crcs limits unpack.folders 0 0
  rejectIf (assigned ≠ packStreams.length)
    (formatError "folder packed-stream total does not match PackInfo")
  let counts := substreams.elim [] RawSubstreamsInfo.counts
  rejectIf (counts ≠ [] ∧ counts.length ≠ drafts.length)
    (formatError "substream folder-count vector is inconsistent")
  let explicitSizes := substreams.bind RawSubstreamsInfo.explicitSizes
  let explicitCrcs := substreams.bind RawSubstreamsInfo.crcs
  let (folders, cursors) ← buildFolders counts explicitSizes explicitCrcs limits drafts 0 ⟨0, 0, 0⟩
  rejectIf (∃ sizes ∈ explicitSizes, cursors.size ≠ sizes.length)
    (formatError "substream-size vector has unused values")
  rejectIf (∃ crcs ∈ explicitCrcs, cursors.crc ≠ crcs.length)
    (formatError "substream CRC vector has unused values")
  return ({ packPosition := packPosition, packStreams := packStreams, folders := folders,
            substreamCount := cursors.total }, ranges)

def validateStreams (raw : RawStreamsInfo) (envelope : HeaderEnvelope)
    (archiveBytes : List UInt8) (limits : Limits) (ranges : List (Nat × Nat)) :
    Metered (StreamsInfo × List (Nat × Nat)) :=
  match raw.pack, raw.unpack with
  | none, none => do
    rejectIf raw.substreams.isSome (formatError "SubStreamsInfo has no streams")
    return ({ packPosition := 0, packStreams := [], folders := [], substreamCount := 0 }, ranges)
  | some pack, some unpack =>
    validateUnpack pack unpack raw.substreams envelope archiveBytes limits ranges
  | _, _ => throw (formatError "PackInfo and UnpackInfo must appear together")

/-- The loop of `check_non_overlapping_ranges` over the sorted ranges. -/
def checkSortedRanges : Option Nat → List (Nat × Nat) → Except Error Unit
  | _, [] => .ok ()
  | previousEnd, (start, finish) :: ranges => do
    rejectIf (∃ value ∈ previousEnd, start < value) (formatError "packed-stream ranges overlap")
    checkSortedRanges (some finish) ranges

def checkNonOverlappingRanges (ranges : List (Nat × Nat)) : Except Error Unit :=
  checkSortedRanges none (ranges.insertionSort fun a b => a.1 ≤ b.1)

def folderMappings (folderIndex : Nat) (folder : Folder) : List FileStream :=
  folder.substreams.zipIdx.map fun (stream, substreamIndex) =>
    { folderIndex := folderIndex, substreamIndex := substreamIndex,
      size := stream.size, crc := stream.crc }

def streamMappings (folders : List Folder) : List FileStream :=
  folders.zipIdx.flatMap fun (folder, folderIndex) => folderMappings folderIndex folder

def collectStreamMappings (streams : Option StreamsInfo) : Metered (List FileStream) := do
  let total := streams.elim 0 StreamsInfo.substreamCount
  checkpoint total
  let mappings := streams.elim [] fun info => streamMappings info.folders
  mappings.forM fun _ => checkpoint 1
  rejectIf (mappings.length ≠ total) (formatError "member-stream count is inconsistent")
  return mappings

inductive PropertyValues (α : Type) where
  | inline (values : List (Option α))
  | external (dataIndex : Nat) (defined : List Bool)

def readU64 : Reading Nat := do
  checkpoint 8
  reading BoundedReader.readU64Le

def parseOptionalBits (count : Nat) : Reading (List Bool) := do
  let allDefined ← readU8
  if allDefined = 0 then parseBits count else return List.replicate count true

def readDefinedValue {α : Type} (readValue : Reading α) (isDefined : Bool) :
    Reading (Option α) :=
  if isDefined then some <$> readValue else return none

def readDefinedValues {α : Type} (readValue : Reading α) : List Bool → Reading (List (Option α))
  | [] => return []
  | isDefined :: defined => do
    checkpoint 1
    let value ← readDefinedValue readValue isDefined
    let values ← readDefinedValues readValue defined
    return value :: values

def parseDefinedValues {α : Type} (data : List UInt8) (count : Nat) (readValue : Reading α) :
    Metered (PropertyValues α) := do
  let (defined, reader) ← parseOptionalBits count (.new data)
  let (external, reader) ← readU8 reader
  if external ≠ 0 then do
    let (dataIndex, reader) ← readUint reader
    reader.finish "external property was not consumed exactly"
    return .external dataIndex defined
  else do
    let (values, reader) ← readDefinedValues readValue defined reader
    reader.finish "inline property was not consumed exactly"
    return .inline values

def parsePlainBits (property : RawProperty) (count : Nat) : Metered (List Bool) := do
  let (bits, reader) ← parseBits count (.new property.data)
  reader.finish "bit-vector property was not consumed exactly"
  return bits

def validateDataIndex (dataIndex additionalCount : Nat) : Except Error Unit :=
  rejectIf (additionalCount ≤ dataIndex)
    (formatError "external property data index is outside additional streams")

def readCodeUnit : Reading UInt16 := do
  let pair ← reading fun reader => reader.readBytes 2
  checkpoint 2
  return UInt16.ofNat (fromLeBytes pair)

/-- The scan of `parse_names`.  Every round reads two bytes, so `fuel` is the
number of bytes. -/
def scanNames (limits : Limits) : Nat → Nat → Nat → Nat → Reading Unit
  | _, 0, _, _ => return ()
  | 0, _ + 1, _, _ => throw (formatError "truncated bounded byte range")
  | fuel + 1, names + 1, currentBytes, totalBytes => do
    let codeUnit ← readCodeUnit
    if codeUnit = 0 then do
      checkLimit currentBytes limits.maxNameBytesPerEntry .nameBytesPerEntry
      let totalBytes ← okOr (checkedAdd totalBytes currentBytes)
        (formatError "total name bytes overflow")
      checkLimit totalBytes limits.maxTotalNameBytes .totalNameBytes
      scanNames limits fuel names 0 totalBytes
    else do
      let currentBytes ← okOr (checkedAdd currentBytes 2)
        (formatError "name byte count overflows")
      checkLimit currentBytes limits.maxNameBytesPerEntry .nameBytesPerEntry
      scanNames limits fuel (names + 1) currentBytes totalBytes

/-- The inner loop of the second pass: one name up to its terminator. -/
def readName : Nat → Reading (List UInt16)
  | 0 => throw (formatError "truncated bounded byte range")
  | fuel + 1 => do
    let codeUnit ← readCodeUnit
    if codeUnit = 0 then return []
    else do
      let name ← readName fuel
      return codeUnit :: name

def parseNames (data : List UInt8) (count : Nat) (limits : Limits) :
    Metered (PropertyValues (List UInt16)) := do
  let (external, scan) ← readU8 (.new data)
  if external ≠ 0 then do
    let (dataIndex, scan) ← readUint scan
    scan.finish "external Name property was not consumed exactly"
    return .external dataIndex (List.replicate count true)
  else do
    let (_, scan) ← scanNames limits data.length count 0 0 scan
    scan.finish "Name property was not consumed exactly"
    let (external, reader) ← readU8 (.new data)
    rejectIf (external ≠ 0) (formatError "Name property changed during validation")
    let (names, reader) ← repeatReading (some <$> readName data.length) count reader
    reader.finish "Name property was not consumed exactly"
    return .inline names

def applyExternal {α : Type} (propertyId : UInt8) (values : PropertyValues α)
    (additionalCount : Nat) (external : List ExternalProperty) :
    Except Error (Option (List (Option α)) × List ExternalProperty) :=
  match values with
  | .inline values => .ok (some values, external)
  | .external dataIndex defined => do
    validateDataIndex dataIndex additionalCount
    return (none, external ++
      [{ propertyId := propertyId, dataIndex := dataIndex, definedEntries := defined }])

/-! ## Files -/

structure FilePropertySlots where
  emptyStream : Option RawProperty
  emptyFile : Option RawProperty
  anti : Option RawProperty
  name : Option RawProperty
  creation : Option RawProperty
  access : Option RawProperty
  modification : Option RawProperty
  attributes : Option RawProperty
  startPosition : Option RawProperty
  unknown : List StoredProperty

def FilePropertySlots.empty : FilePropertySlots :=
  ⟨none, none, none, none, none, none, none, none, none, []⟩

def knownPropertySlot (slot : Option RawProperty) (property : RawProperty) :
    Except Error (Option RawProperty) := do
  rejectIf slot.isSome (formatError "FilesInfo property is duplicated")
  return some property

/-- One round of the property loop of `validate_files`. -/
def placeProperty (slots : FilePropertySlots) (property : RawProperty) :
    Metered FilePropertySlots :=
  if property.id = idEmptyStream then do
    let slot ← knownPropertySlot slots.emptyStream property
    return { slots with emptyStream := slot }
  else if property.id = idEmptyFile then do
    let slot ← knownPropertySlot slots.emptyFile property
    return { slots with emptyFile := slot }
  else if property.id = idAnti then do
    let slot ← knownPropertySlot slots.anti property
    return { slots with anti := slot }
  else if property.id = idName then do
    let slot ← knownPropertySlot slots.name property
    return { slots with name := slot }
  else if property.id = idCtime then do
    let slot ← knownPropertySlot slots.creation property
    return { slots with creation := slot }
  else if property.id = idAtime then do
    let slot ← knownPropertySlot slots.access property
    return { slots with access := slot }
  else if property.id = idMtime then do
    let slot ← knownPropertySlot slots.modification property
    return { slots with modification := slot }
  else if property.id = idWinAttributes then do
    let slot ← knownPropertySlot slots.attributes property
    return { slots with attributes := slot }
  else if property.id = idStartPos then do
    let slot ← knownPropertySlot slots.startPosition property
    return { slots with startPosition := slot }
  else if property.id = idDummy then do
    rejectIf (∃ byte ∈ property.data, byte ≠ 0)
      (formatError "Dummy property contains a non-zero byte")
    return slots
  else do
    let data ← copyBytes property.data
    return { slots with unknown := slots.unknown ++ [{ id := property.id, data := data }] }

/-- A bit vector of the files, all clear when the property is absent. -/
def optionalPlainBits (property : Option RawProperty) (count : Nat) : Metered (List Bool) :=
  match property with
  | some property => parsePlainBits property count
  | none => return List.replicate count false

def optionalValues {α : Type} (propertyId : UInt8) (property : Option RawProperty)
    (parse : List UInt8 → Metered (PropertyValues α)) (additionalCount : Nat)
    (external : List ExternalProperty) :
    Metered (Option (List (Option α)) × List ExternalProperty) :=
  match property with
  | some property => do
    let values ← parse property.data
    applyExternal propertyId values additionalCount external
  | none => return (none, external)

/-- The vectors that the file loop reads. -/
structure FileVectors where
  emptyStreams : List Bool
  emptyFileBits : List Bool
  antiBits : List Bool
  names : Option (List (Option (List UInt16)))
  creationTimes : Option (List (Option Nat))
  accessTimes : Option (List (Option Nat))
  modificationTimes : Option (List (Option Nat))
  attributeValues : Option (List (Option UInt32))
  startPositions : Option (List (Option Nat))
  mappings : List FileStream

def emptyBitsAt (vectors : FileVectors) (isEmptyStream : Bool) (emptyCursor : Nat) :
    Except Error ((Bool × Bool) × Nat) :=
  if isEmptyStream then do
    let emptyValue ← okOr vectors.emptyFileBits[emptyCursor]?
      (formatError "EmptyFile vector is too short")
    let antiValue ← okOr vectors.antiBits[emptyCursor]? (formatError "Anti vector is too short")
    let emptyCursor ← okOr (checkedAdd emptyCursor 1)
      (formatError "empty-file index overflows")
    return ((emptyValue, antiValue), emptyCursor)
  else .ok ((false, false), emptyCursor)

def streamAt (vectors : FileVectors) (isEmptyStream : Bool) (streamCursor : Nat) :
    Except Error (Option FileStream × Nat) :=
  if isEmptyStream then .ok (none, streamCursor)
  else do
    let value ← okOr vectors.mappings[streamCursor]?
      (formatError "member-stream mapping is too short")
    let streamCursor ← okOr (checkedAdd streamCursor 1)
      (formatError "member-stream index overflows")
    return (some value, streamCursor)

/-- The file loop of `validate_files`, with the two cursors behind it. -/
def fileEntries (vectors : FileVectors) :
    Nat → Nat → Nat → Nat → Metered (List FileEntry × Nat × Nat)
  | 0, _, emptyCursor, streamCursor => return ([], emptyCursor, streamCursor)
  | remaining + 1, fileIndex, emptyCursor, streamCursor => do
    checkpoint 1
    let isEmptyStream ← okOr vectors.emptyStreams[fileIndex]?
      (formatError "EmptyStream vector is too short")
    let ((isEmptyFile, isAnti), emptyCursor) ← emptyBitsAt vectors isEmptyStream emptyCursor
    let (stream, streamCursor) ← streamAt vectors isEmptyStream streamCursor
    let rawName ← valueAt vectors.names fileIndex "Name vector is too short"
    let creationTime ← valueAt vectors.creationTimes fileIndex "creation-time vector is too short"
    let accessTime ← valueAt vectors.accessTimes fileIndex "access-time vector is too short"
    let modificationTime ← valueAt vectors.modificationTimes fileIndex
      "modification-time vector is too short"
    let windowsAttributes ← valueAt vectors.attributeValues fileIndex
      "attribute vector is too short"
    let startPosition ← valueAt vectors.startPositions fileIndex "StartPos vector is too short"
    let (files, emptyCursor, streamCursor) ←
      fileEntries vectors remaining (fileIndex + 1) emptyCursor streamCursor
    return ({ rawName := rawName.join, hasStream := !isEmptyStream, emptyFile := isEmptyFile,
              antiItem := isAnti, creationTime := creationTime.join,
              accessTime := accessTime.join, modificationTime := modificationTime.join,
              windowsAttributes := windowsAttributes.join,
              startPosition := startPosition.join, stream := stream } :: files,
      emptyCursor, streamCursor)

def validateFiles (raw : RawFilesInfo) (mainStreams additionalStreams : Option StreamsInfo)
    (limits : Limits) : Metered FilesInfo := do
  checkpoint raw.count
  let slots ← raw.properties.foldlM placeProperty FilePropertySlots.empty
  let emptyStreams ← optionalPlainBits slots.emptyStream raw.count
  let emptyCount := emptyStreams.count true
  let emptyFileBits ← optionalPlainBits slots.emptyFile emptyCount
  let antiBits ← optionalPlainBits slots.anti emptyCount
  let additionalCount := additionalStreams.elim 0 fun streams => streams.folders.length
  let (names, external) ← optionalValues idName slots.name
    (fun data => parseNames data raw.count limits) additionalCount []
  let (creationTimes, external) ← optionalValues idCtime slots.creation
    (fun data => parseDefinedValues data raw.count readU64) additionalCount external
  let (accessTimes, external) ← optionalValues idAtime slots.access
    (fun data => parseDefinedValues data raw.count readU64) additionalCount external
  let (modificationTimes, external) ← optionalValues idMtime slots.modification
    (fun data => parseDefinedValues data raw.count readU64) additionalCount external
  let (attributeValues, external) ← optionalValues idWinAttributes slots.attributes
    (fun data => parseDefinedValues data raw.count readU32Le) additionalCount external
  let (startPositions, external) ← optionalValues idStartPos slots.startPosition
    (fun data => parseDefinedValues data raw.count readU64) additionalCount external
  let mappings ← collectStreamMappings mainStreams
  rejectIf (mappings.length ≠ emptyStreams.count false)
    (formatError "file stream count does not match main-stream substreams")
  let vectors : FileVectors :=
    { emptyStreams := emptyStreams, emptyFileBits := emptyFileBits, antiBits := antiBits,
      names := names, creationTimes := creationTimes, accessTimes := accessTimes,
      modificationTimes := modificationTimes, attributeValues := attributeValues,
      startPositions := startPositions, mappings := mappings }
  let (files, emptyCursor, streamCursor) ← fileEntries vectors raw.count 0 0 0
  rejectIf (emptyCursor ≠ emptyFileBits.length ∨ emptyCursor ≠ antiBits.length ∨
    streamCursor ≠ mappings.length) (formatError "file property vectors have unused values")
  return { entries := files, externalProperties := external, unknownProperties := slots.unknown }

def validateOptionalStreams (raw : Option RawStreamsInfo) (envelope : HeaderEnvelope)
    (archiveBytes : List UInt8) (limits : Limits) (ranges : List (Nat × Nat)) :
    Metered (Option StreamsInfo × List (Nat × Nat)) :=
  match raw with
  | some streams => do
    let (streams, ranges) ← validateStreams streams envelope archiveBytes limits ranges
    return (some streams, ranges)
  | none => return (none, ranges)

def validateOptionalFiles (raw : Option RawFilesInfo)
    (mainStreams additionalStreams : Option StreamsInfo) (limits : Limits) :
    Metered (Option FilesInfo) :=
  match raw with
  | some files => some <$> validateFiles files mainStreams additionalStreams limits
  | none => return none

def validatePlainHeader (raw : RawHeader) (envelope : HeaderEnvelope)
    (archiveBytes : List UInt8) (limits : Limits) : Metered ArchiveHeader := do
  let (additionalStreams, ranges) ←
    validateOptionalStreams raw.additionalStreams envelope archiveBytes limits []
  let (mainStreams, ranges) ←
    validateOptionalStreams raw.mainStreams envelope archiveBytes limits ranges
  checkNonOverlappingRanges ranges
  let files ← validateOptionalFiles raw.files mainStreams additionalStreams limits
  let archiveProperties ← copyProperties raw.archiveProperties
  return { archiveProperties := archiveProperties, additionalStreams := additionalStreams,
           mainStreams := mainStreams, files := files }

def validateNextHeader (raw : RawNextHeader) (envelope : HeaderEnvelope)
    (archiveBytes : List UInt8) (limits : Limits) : Metered ParsedNextHeader :=
  match raw with
  | .header header => .header <$> validatePlainHeader header envelope archiveBytes limits
  | .externalFolders pending => do
    let (additionalStreams, ranges) ←
      validateStreams pending.additionalStreams envelope archiveBytes limits []
    rejectIf pending.mainPack.isNone
      (formatError "PackInfo and external UnpackInfo must appear together")
    let (_, _, ranges) ← validatePackRanges pending.mainPack envelope archiveBytes ranges
    checkNonOverlappingRanges ranges
    validateDataIndex pending.dataIndex additionalStreams.folders.length
    let headerBytes ← copyBytes pending.headerBytes
    return .pendingExternalFolders
      { additionalStreams := additionalStreams, dataIndex := pending.dataIndex,
        headerBytes := headerBytes }
  | .encoded streams => do
    let (streams, ranges) ← validateStreams streams envelope archiveBytes limits []
    checkNonOverlappingRanges ranges
    return .encodedHeader streams

end Unpackio
