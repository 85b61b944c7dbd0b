/-
Syntax records of the 7z next header, from `raw.rs`.

A parser works on the bounded reader and on `ParseState`, which counts what the
whole header has declared so far.  Repetitions of the source are recursions on
the declared count.
-/
import Unpackio.Bounded

namespace Unpackio

def idEnd : UInt8 := 0x00
def idHeader : UInt8 := 0x01
def idArchiveProperties : UInt8 := 0x02
def idAdditionalStreamsInfo : UInt8 := 0x03
def idMainStreamsInfo : UInt8 := 0x04
def idFilesInfo : UInt8 := 0x05
def idPackInfo : UInt8 := 0x06
def idUnpackInfo : UInt8 := 0x07
def idSubstreamsInfo : UInt8 := 0x08
def idSize : UInt8 := 0x09
def idCrc : UInt8 := 0x0a
def idFolder : UInt8 := 0x0b
def idCodersUnpackSize : UInt8 := 0x0c
def idNumUnpackStream : UInt8 := 0x0d
def idEmptyStream : UInt8 := 0x0e
def idEmptyFile : UInt8 := 0x0f
def idAnti : UInt8 := 0x10
def idName : UInt8 := 0x11
def idCtime : UInt8 := 0x12
def idAtime : UInt8 := 0x13
def idMtime : UInt8 := 0x14
def idWinAttributes : UInt8 := 0x15
def idEncodedHeader : UInt8 := 0x17
def idStartPos : UInt8 := 0x18
def idDummy : UInt8 := 0x19

structure RawProperty where
  id : UInt8
  data : List UInt8
  deriving DecidableEq, Repr

structure RawFilesInfo where
  count : Nat
  properties : List RawProperty
  deriving DecidableEq, Repr

structure RawPackInfo where
  position : Nat
  streams : Nat
  sizes : Option (List Nat)
  crcs : Option (List (Option UInt32))
  deriving DecidableEq, Repr

structure RawBindPair where
  input : Nat
  output : Nat
  deriving DecidableEq, Repr

structure RawCoder where
  methodId : List UInt8
  inputStreams : Nat
  outputStreams : Nat
  properties : List UInt8
  deriving DecidableEq, Repr

structure RawFolder where
  coders : List RawCoder
  inputStreams : Nat
  outputStreams : Nat
  bindPairs : List RawBindPair
  packedStreams : Nat
  packedIndices : Option (List Nat)
  unpackSizes : List Nat
  deriving DecidableEq, Repr

structure RawUnpackInfo where
  folders : List RawFolder
  crcs : Option (List (Option UInt32))
  deriving DecidableEq, Repr

structure RawSubstreamsInfo where
  counts : List Nat
  explicitSizes : Option (List Nat)
  crcs : Option (List (Option UInt32))
  deriving DecidableEq, Repr

structure RawStreamsInfo where
  pack : Option RawPackInfo
  unpack : Option RawUnpackInfo
  substreams : Option RawSubstreamsInfo
  deriving DecidableEq, Repr

structure RawHeader where
  archiveProperties : List RawProperty
  additionalStreams : Option RawStreamsInfo
  mainStreams : Option RawStreamsInfo
  files : Option RawFilesInfo
  deriving DecidableEq, Repr

structure RawExternalFolderHeader where
  additionalStreams : RawStreamsInfo
  mainPack : Option RawPackInfo
  dataIndex : Nat
  headerBytes : List UInt8
  deriving DecidableEq, Repr

inductive RawNextHeader where
  | header (header : RawHeader)
  | encoded (streams : RawStreamsInfo)
  | externalFolders (pending : RawExternalFolderHeader)
  deriving DecidableEq, Repr

structure ExternalFolderData where
  dataIndex : Nat
  bytes : List UInt8

inductive ParsedUnpackInfo where
  | complete (unpack : RawUnpackInfo)
  | external (dataIndex : Nat)

inductive ParsedStreamsInfo where
  | complete (streams : RawStreamsInfo)
  | external (pack : Option RawPackInfo) (dataIndex : Nat)

structure ParseState where
  totalFolders : Nat
  totalCoders : Nat
  totalStreams : Nat
  totalPackedStreams : Nat
  totalSubstreams : Nat
  totalProperties : Nat
  deriving DecidableEq, Repr

/-- `ParseState::default`. -/
def ParseState.default : ParseState := ⟨0, 0, 0, 0, 0, 0⟩

/-- Parsers that also see the declared totals. -/
abbrev Parsing (α : Type) : Type := StateT ParseState Reading α

namespace ParseState

def addLimited (value additional maximum : Nat) (limit : LimitKind) (overflowDetail : String) :
    Except Error Nat := do
  let total ← okOr (checkedAdd value additional) (formatError overflowDetail)
  checkLimit total maximum limit
  return total

def addFolders (count : Nat) (limits : Limits) : Parsing Unit := do
  let state ← get
  let total ← addLimited state.totalFolders count limits.maxFolders .folders
    "total folder count overflows"
  set { state with totalFolders := total }

def addCoders (count : Nat) (limits : Limits) : Parsing Unit := do
  let state ← get
  let total ← addLimited state.totalCoders count limits.maxTotalCoders .totalCoders
    "total coder count overflows"
  set { state with totalCoders := total }

def addStreams (count : Nat) (limits : Limits) : Parsing Unit := do
  let state ← get
  let total ← addLimited state.totalStreams count limits.maxTotalStreams .totalStreams
    "total stream count overflows"
  set { state with totalStreams := total }

def addPackedStreams (count : Nat) (limits : Limits) : Parsing Unit := do
  let state ← get
  let total ← addLimited state.totalPackedStreams count limits.maxTotalStreams .totalStreams
    "total packed-stream count overflows"
  set { state with totalPackedStreams := total }

def addSubstreams (count : Nat) (limits : Limits) : Parsing Unit := do
  let state ← get
  let total ← addLimited state.totalSubstreams count limits.maxSubstreams .substreams
    "total substream count overflows"
  set { state with totalSubstreams := total }

def addProperty (limits : Limits) : Parsing Unit := do
  let state ← get
  let total ← addLimited state.totalProperties 1 limits.maxHeaderProperties .headerProperties
    "header property count overflows"
  set { state with totalProperties := total }

end ParseState

open ParseState

def readU8 : Reading UInt8 := do
  checkpoint 1
  reading BoundedReader.readU8

def readU32Le : Reading UInt32 := do
  checkpoint 4
  reading BoundedReader.readU32Le

def readUint : Reading Nat := do
  checkpoint 9
  reading BoundedReader.read7zUint

def readBytes (length : Nat) : Reading (List UInt8) := do
  let bytes ← reading fun reader => reader.readBytes length
  consumeBytes bytes
  return bytes

/-- `for _ in 0..count { values.push(p()?) }`. -/
def repeatReading {α : Type} (p : Reading α) : Nat → Reading (List α)
  | 0 => return []
  | count + 1 => do
    let value ← p
    let values ← repeatReading p count
    return value :: values

/-- The loop of `parse_bits`: a new byte is read when the mask has run out. -/
def parseBitsLoop : Nat → Nat → Nat → Reading (List Bool)
  | 0, _, _ => return []
  | count + 1, byte, mask =>
    if mask = 0 then do
      let byte ← readU8
      let bits ← parseBitsLoop count byte.toNat (0x80 >>> 1)
      return (byte.toNat &&& 0x80 != 0) :: bits
    else do
      let bits ← parseBitsLoop count byte (mask >>> 1)
      return (byte &&& mask != 0) :: bits

def parseBits (count : Nat) : Reading (List Bool) := do
  checkpoint count
  parseBitsLoop count 0 0

def readDigests : List Bool → Reading (List (Option UInt32))
  | [] => return []
  | true :: defined => do
    let digest ← readU32Le
    let digests ← readDigests defined
    return some digest :: digests
  | false :: defined => do
    let digests ← readDigests defined
    return none :: digests

def parseDigests (count : Nat) : Reading (List (Option UInt32)) :=
  if count = 0 then return []
  else do
    checkpoint count
    let allDefined ← readU8
    let defined ←
      if allDefined = 0 then parseBits count else pure (List.replicate count true)
    readDigests defined

def parseSizes (count : Nat) : Reading (List Nat) := do
  checkpoint count
  repeatReading readUint count

/-- `if id == expected { value = Some(p()?); id = read_u8()? }`. -/
def optionalSection {α : Type} (expected id : UInt8) (p : Reading α) :
    Reading (Option α × UInt8) :=
  if id = expected then do
    let value ← p
    let id ← readU8
    return (some value, id)
  else return (none, id)

/-! ## Streams -/

def parsePackInfo (limits : Limits) : Parsing RawPackInfo := do
  let position ← readUint
  let streams ← readUint
  rejectIf (streams = 0) (formatError "PackInfo declares zero packed streams")
  addPackedStreams streams limits
  let id ← readU8
  let (sizes, id) ← optionalSection idSize id (parseSizes streams)
  let (crcs, id) ← optionalSection idCrc id (parseDigests streams)
  rejectIf (id ≠ idEnd) (formatError "unexpected PackInfo identifier")
  return { position := position, streams := streams, sizes := sizes, crcs := crcs }

def parseCoderStreams (flags : UInt8) : Reading (Nat × Nat) :=
  if flags &&& 0x10 ≠ 0 then do
    let input ← readUint
    let output ← readUint
    rejectIf (input = 0 ∨ output = 0) (formatError "coder stream counts must be non-zero")
    return (input, output)
  else return (1, 1)

def parseCoderProperties (flags : UInt8) (limits : Limits) : Reading (List UInt8) :=
  if flags &&& 0x20 ≠ 0 then do
    let length ← readUint
    checkLimit length limits.maxCoderPropertyBytes .coderPropertyBytes
    readBytes length
  else return []

def parseCoder (limits : Limits) : Reading RawCoder := do
  let flags ← readU8
  rejectIf (flags &&& 0x80 ≠ 0) (.unsupportedFeature "alternative-coder-methods")
  rejectIf (flags &&& 0x40 ≠ 0) (formatError "coder uses a reserved flag")
  rejectIf (flags &&& 0x0f = 0) (formatError "coder method identifier is empty")
  let methodId ← readBytes (flags &&& 0x0f).toNat
  let (input, output) ← parseCoderStreams flags
  let properties ← parseCoderProperties flags limits
  return { methodId := methodId, inputStreams := input, outputStreams := output,
           properties := properties }

/-- The coder loop of `parse_folder`, with the stream totals so far. -/
def parseCoders (limits : Limits) : Nat → Nat → Nat → Reading (List RawCoder × Nat × Nat)
  | 0, inputs, outputs => return ([], inputs, outputs)
  | count + 1, inputs, outputs => do
    let coder ← parseCoder limits
    let inputs ← okOr (checkedAdd inputs coder.inputStreams)
      (formatError "folder input-stream count overflows")
    let outputs ← okOr (checkedAdd outputs coder.outputStreams)
      (formatError "folder output-stream count overflows")
    let (coders, inputs, outputs) ← parseCoders limits count inputs outputs
    return (coder :: coders, inputs, outputs)

def parseBindPair : Reading RawBindPair := do
  let input ← readUint
  let output ← readUint
  return { input := input, output := output }

def parsePackedIndices (packedStreams : Nat) : Reading (Option (List Nat)) :=
  if packedStreams = 1 then return none
  else do
    let values ← repeatReading readUint packedStreams
    return some values

def parseFolder (limits : Limits) : Parsing RawFolder := do
  let coderCount ← readUint
  rejectIf (coderCount = 0) (formatError "folder declares zero coders")
  checkLimit coderCount limits.maxCodersPerFolder .codersPerFolder
  addCoders coderCount limits
  let (coders, inputs, outputs) ← parseCoders limits coderCount 0 0
  let folderStreams ← okOr (checkedAdd inputs outputs)
    (formatError "folder stream-port count overflows")
  checkLimit folderStreams limits.maxStreamsPerFolder .streamsPerFolder
  addStreams folderStreams limits
  rejectIf (inputs < outputs) (formatError "folder has fewer input streams than output streams")
  let bindCount ← okOr (checkedSub outputs 1) (formatError "folder bind-pair count underflows")
  let bindPairs ← repeatReading parseBindPair bindCount
  let packedStreams ← okOr (checkedSub inputs bindCount)
    (formatError "folder packed-stream count underflows")
  rejectIf (packedStreams = 0) (formatError "folder has no packed input stream")
  let packedIndices ← parsePackedIndices packedStreams
  return { coders := coders, inputStreams := inputs, outputStreams := outputs,
           bindPairs := bindPairs, packedStreams := packedStreams,
           packedIndices := packedIndices, unpackSizes := [] }

def parseFolders (limits : Limits) : Nat → Parsing (List RawFolder)
  | 0 => return []
  | count + 1 => do
    let folder ← parseFolder limits
    let folders ← parseFolders limits count
    return folder :: folders

def onReader {α : Type} (other : BoundedReader) (p : Parsing α) : Parsing (α × BoundedReader) :=
  fun state reader => do
    let ((value, state), other) ← p state other
    return (((value, other), state), reader)

/-- The external branch of `parse_unpack_info`. -/
def parseExternalFolders (limits : Limits) (folderCount : Nat) (source : ExternalFolderData)
    (dataIndex : Nat) : Parsing (List RawFolder) := do
  rejectIf (source.dataIndex ≠ dataIndex)
    (formatError "external folder data index changed during header resolution")
  let (folders, externalReader) ← onReader (.new source.bytes) (parseFolders limits folderCount)
  externalReader.finish "external folder stream was not consumed exactly"
  return folders

def parseUnpackSizes : List RawFolder → Reading (List RawFolder)
  | [] => return []
  | folder :: folders => do
    let sizes ← parseSizes folder.outputStreams
    let folders ← parseUnpackSizes folders
    return { folder with unpackSizes := sizes } :: folders

/-- What follows the folders in `parse_unpack_info`. -/
def parseUnpackTail (folderCount : Nat) (folders : List RawFolder) : Reading RawUnpackInfo := do
  let id ← readU8
  rejectIf (id ≠ idCodersUnpackSize) (formatError "UnpackInfo is missing CodersUnpackSize")
  let folders ← parseUnpackSizes folders
  let id ← readU8
  let (crcs, id) ← optionalSection idCrc id (parseDigests folderCount)
  rejectIf (id ≠ idEnd) (formatError "unexpected UnpackInfo identifier")
  return { folders := folders, crcs := crcs }

def parseUnpackInfo (limits : Limits) (externalFolders : Option ExternalFolderData) :
    Parsing ParsedUnpackInfo := do
  let id ← readU8
  rejectIf (id ≠ idFolder) (formatError "UnpackInfo is missing Folder")
  let folderCount ← readUint
  rejectIf (folderCount = 0) (formatError "UnpackInfo declares zero folders")
  addFolders folderCount limits
  checkpoint folderCount
  let external ← readU8
  if external = 0 then do
    let folders ← parseFolders limits folderCount
    let unpack ← parseUnpackTail folderCount folders
    return .complete unpack
  else do
    let dataIndex ← readUint
    match externalFolders with
    | none => return .external dataIndex
    | some source => do
      let folders ← parseExternalFolders limits folderCount source dataIndex
      let unpack ← parseUnpackTail folderCount folders
      return .complete unpack

/-- The count loop of `parse_substreams_info`: all substreams, and those whose
size is written. -/
def substreamTotals : List Nat → Nat → Nat → Except Error (Nat × Nat)
  | [], total, explicit => .ok (total, explicit)
  | count :: counts, total, explicit => do
    let total ← okOr (checkedAdd total count) (formatError "substream count overflows")
    let explicit ← okOr (checkedAdd explicit (count - 1))
      (formatError "explicit substream-size count overflows")
    substreamTotals counts total explicit

/-- The digest of a folder, as `parse_substreams_info` looks it up. -/
def inheritedDigest (folderCrcs : Option (List (Option UInt32))) (folderIndex : Nat) :
    Option UInt32 :=
  folderCrcs.bind fun crcs => (crcs[folderIndex]?).join

/-- The digest loop of `parse_substreams_info`: a folder with one substream and
a digest of its own writes none. -/
def substreamDigestCount (folderCrcs : Option (List (Option UInt32))) :
    List Nat → Nat → Nat → Except Error Nat
  | [], _, total => .ok total
  | count :: counts, folderIndex, total =>
    if count ≠ 1 ∨ inheritedDigest folderCrcs folderIndex = none then do
      let total ← okOr (checkedAdd total count)
        (formatError "substream digest count overflows")
      substreamDigestCount folderCrcs counts (folderIndex + 1) total
    else substreamDigestCount folderCrcs counts (folderIndex + 1) total

def parseSubstreamCounts (id : UInt8) (folderCount : Nat) : Reading (List Nat × UInt8) :=
  if id = idNumUnpackStream then do
    let counts ← repeatReading readUint folderCount
    let id ← readU8
    return (counts, id)
  else return (List.replicate folderCount 1, id)

def parseSubstreamsInfo (limits : Limits) (unpack : RawUnpackInfo) :
    Parsing RawSubstreamsInfo := do
  let id ← readU8
  let (counts, id) ← parseSubstreamCounts id unpack.folders.length
  let (total, explicit) ← substreamTotals counts 0 0
  addSubstreams total limits
  let (explicitSizes, id) ← optionalSection idSize id (parseSizes explicit)
  let digestCount ← substreamDigestCount unpack.crcs counts 0 0
  let (crcs, id) ← optionalSection idCrc id (parseDigests digestCount)
  rejectIf (id ≠ idEnd) (formatError "unexpected SubStreamsInfo identifier")
  return { counts := counts, explicitSizes := explicitSizes, crcs := crcs }

def parsePackSection (limits : Limits) (id : UInt8) : Parsing (Option RawPackInfo × UInt8) :=
  if id = idPackInfo then do
    let value ← parsePackInfo limits
    let id ← readU8
    return (some value, id)
  else return (none, id)

def parseSubstreamsSection (limits : Limits) (unpack : Option RawUnpackInfo) (id : UInt8) :
    Parsing (Option RawSubstreamsInfo × UInt8) :=
  if id = idSubstreamsInfo then
    match unpack with
    | none => throw (formatError "SubStreamsInfo has no UnpackInfo")
    | some unpackInfo => do
      let value ← parseSubstreamsInfo limits unpackInfo
      let id ← readU8
      return (some value, id)
  else
    match unpack with
    | none => return (none, id)
    | some unpackInfo => do
      addSubstreams unpackInfo.folders.length limits
      return (none, id)

/-- What follows UnpackInfo in `parse_streams_info`. -/
def parseStreamsTail (limits : Limits) (pack : Option RawPackInfo)
    (unpack : Option RawUnpackInfo) (id : UInt8) : Parsing ParsedStreamsInfo := do
  let (substreams, id) ← parseSubstreamsSection limits unpack id
  rejectIf (id ≠ idEnd) (formatError "unexpected StreamsInfo identifier")
  return .complete { pack := pack, unpack := unpack, substreams := substreams }

def parseStreamsInfo (limits : Limits) (externalFolders : Option ExternalFolderData) :
    Parsing ParsedStreamsInfo := do
  let id ← readU8
  let (pack, id) ← parsePackSection limits id
  if id = idUnpackInfo then do
    match ← parseUnpackInfo limits externalFolders with
    | .complete value => do
      let id ← readU8
      parseStreamsTail limits pack (some value) id
    | .external dataIndex => return .external pack dataIndex
  else parseStreamsTail limits pack none id

/-- The loop of `parse_property_list`.  Every round reads a byte, so as many
rounds as there are bytes left, and one more, are enough. -/
def parsePropertyLoop (limits : Limits) : Nat → Parsing (List RawProperty)
  | 0 => throw (formatError "truncated bounded byte range")
  | fuel + 1 => do
    let id ← readU8
    if id = idEnd then return []
    else do
      addProperty limits
      let length ← readUint
      checkLimit length limits.maxHeaderBytes .headerBytes
      let data ← readBytes length
      let properties ← parsePropertyLoop limits fuel
      return { id := id, data := data } :: properties

def parsePropertyList (limits : Limits) : Parsing (List RawProperty) :=
  fun state reader =>
    parsePropertyLoop limits (reader.bytes.length - reader.position + 1) state reader

def parseFilesInfo (limits : Limits) : Parsing RawFilesInfo := do
  let count ← readUint
  checkLimit count limits.maxFiles .files
  let properties ← parsePropertyList limits
  return { count := count, properties := properties }

def parseArchiveProperties (limits : Limits) (id : UInt8) : Parsing (List RawProperty × UInt8) :=
  if id = idArchiveProperties then do
    let properties ← parsePropertyList limits
    let id ← readU8
    return (properties, id)
  else return ([], id)

def acceptAdditional : ParsedStreamsInfo → Parsing (Option RawStreamsInfo × UInt8)
  | .complete streams => do
    let id ← readU8
    return (some streams, id)
  | .external _ _ =>
    throw (formatError "AdditionalStreamsInfo cannot source its own folder definitions")

def parseAdditionalStreams (limits : Limits) (id : UInt8) :
    Parsing (Option RawStreamsInfo × UInt8) :=
  if id = idAdditionalStreamsInfo then parseStreamsInfo limits none >>= acceptAdditional
  else return (none, id)

def parseFilesSection (limits : Limits) (id : UInt8) : Parsing (Option RawFilesInfo × UInt8) :=
  if id = idFilesInfo then do
    let files ← parseFilesInfo limits
    let id ← readU8
    return (some files, id)
  else return (none, id)

/-- What follows MainStreamsInfo in `parse_header_body`. -/
def parseHeaderTail (limits : Limits) (archiveProperties : List RawProperty)
    (additionalStreams mainStreams : Option RawStreamsInfo) (id : UInt8) :
    Parsing RawNextHeader := do
  let (files, id) ← parseFilesSection limits id
  rejectIf (id ≠ idEnd) (formatError "unexpected Header identifier")
  return .header
    { archiveProperties := archiveProperties, additionalStreams := additionalStreams,
      mainStreams := mainStreams, files := files }

def parseHeaderBody (limits : Limits) (headerBytes : List UInt8)
    (externalFolders : Option ExternalFolderData) : Parsing RawNextHeader := do
  let id ← readU8
  let (archiveProperties, id) ← parseArchiveProperties limits id
  let (additionalStreams, id) ← parseAdditionalStreams limits id
  if id = idMainStreamsInfo then do
    match ← parseStreamsInfo limits externalFolders with
    | .complete streams => do
      let id ← readU8
      parseHeaderTail limits archiveProperties additionalStreams (some streams) id
    | .external pack dataIndex => do
      let additionalStreams ← okOr additionalStreams
        (formatError "external folder definitions require AdditionalStreamsInfo")
      return .externalFolders
        { additionalStreams := additionalStreams, mainPack := pack, dataIndex := dataIndex,
          headerBytes := headerBytes }
  else parseHeaderTail limits archiveProperties additionalStreams none id

def parseNextHeaderKind (limits : Limits) (bytes : List UInt8)
    (externalFolders : Option ExternalFolderData) : Parsing RawNextHeader := do
  let kind ← readU8
  if kind = idHeader then parseHeaderBody limits bytes externalFolders
  else if kind = idEncodedHeader then do
    match ← parseStreamsInfo limits none with
    | .complete streams => return .encoded streams
    | .external _ _ =>
      throw (formatError "encoded-header folder definitions have no additional stream source")
  else throw (formatError "unexpected next-header identifier")

def parseNextHeaderInner (limits : Limits) (bytes : List UInt8) (state : ParseState)
    (externalFolders : Option ExternalFolderData) : Metered (RawNextHeader × ParseState) := do
  checkLimit 1 limits.maxRecursionDepth .recursionDepth
  let ((header, state), reader) ←
    parseNextHeaderKind limits bytes externalFolders state (.new bytes)
  match header with
  | .externalFolders pending => return (.externalFolders pending, state)
  | header => do
    reader.finish "next-header body was not consumed exactly"
    return (header, state)

def parseNextHeader (limits : Limits) (bytes : List UInt8) (state : ParseState) :
    Metered (RawNextHeader × ParseState) :=
  parseNextHeaderInner limits bytes state none

def parseNextHeaderWithExternalFolders (limits : Limits) (bytes : List UInt8) (dataIndex : Nat)
    (folderBytes : List UInt8) (state : ParseState) : Metered (RawNextHeader × ParseState) :=
  parseNextHeaderInner limits bytes state
    (some { dataIndex := dataIndex, bytes := folderBytes })

end Unpackio
