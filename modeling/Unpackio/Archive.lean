/-
Opening an archive, from `archive.rs`, and sequential volumes, from `volume.rs`.

The codecs stand for the decoders under the limits and the password of the
session.  The accounting of retained memory is not modelled.  A provider is a
function of its request, and a volume is its bytes: its reads fill the buffer they
are given.
-/
import Unpackio.Metadata
import Unpackio.Parser

namespace Unpackio

structure VolumeRequest where
  index : Nat
  expectedName : String
  deriving DecidableEq, Repr

abbrev VolumeProvider : Type := VolumeRequest → Except Error (List UInt8)

/-- `MemoryVolumeProvider`. -/
def memoryVolumeProvider (volumes : List (List UInt8)) : VolumeProvider := fun request =>
  okOr volumes[request.index]? (.missingVolume request.expectedName)

inductive VolumeTermination where
  | missing (error : Error)
  | limit (requested maximum : Nat)

structure VolumeBytes where
  bytes : List UInt8
  termination : VolumeTermination

/-- `name.strip_suffix(suffix)`. -/
def stripSuffix (name suffix : List Char) : Option (List Char) :=
  if suffix <:+ name then some (name.take (name.length - suffix.length)) else none

def ordinalDigits (ordinal : Nat) : List Char :=
  let digits := Nat.toDigits 10 ordinal
  List.replicate (3 - digits.length) '0' ++ digits

def sequentialName (firstName : String) (index : Nat) : Except Error String :=
  if index = 0 then .ok firstName
  else do
    let stem ← okOr (stripSuffix firstName.toList ".001".toList)
      (formatError "sequential volume access requires a .001 first-volume name")
    let ordinal ← okOr (checkedAdd index 1)
      (formatError "sequential volume ordinal overflows")
    return String.ofList (stem ++ '.' :: ordinalDigits ordinal)

/-- The read loop of `append_volume`, chunk by chunk. -/
def appendChunks : List (List UInt8) → List UInt8 → Metered (List UInt8)
  | [], output => return output
  | chunk :: chunks, output => do
    checkpoint 0
    consumeBytes chunk
    appendChunks chunks (output ++ chunk)

def appendVolume (output volume : List UInt8) (limits : Limits) : Metered (List UInt8) := do
  checkpoint 0
  let requested ← okOr (checkedAdd output.length volume.length)
    (formatError "total volume length overflows")
  checkLimit requested limits.maxTotalInputBytes .totalInputBytes
  appendChunks (chunks ioChunkSize volume) output

/-- The volume loop.  The volume limit ends it, so `fuel` is the number of
volumes that the limit still allows. -/
def readVolumes (provider : VolumeProvider) (firstName : String) (limits : Limits) :
    Nat → Nat → List UInt8 → Metered VolumeBytes
  | fuel, index, bytes => do
    let requestedCount ← okOr (checkedAdd index 1) (formatError "volume count overflows")
    match fuel with
    | 0 =>
      if bytes = [] then throw (.limitExceeded .volumes requestedCount limits.maxVolumes)
      else return ⟨bytes, .limit requestedCount limits.maxVolumes⟩
    | fuel + 1 => do
      checkpoint 0
      let expectedName ← sequentialName firstName index
      match provider ⟨index, expectedName⟩ with
      | .ok volume => do
        let bytes ← appendVolume bytes volume limits
        readVolumes provider firstName limits fuel requestedCount bytes
      | .error (.missingVolume expected) => return ⟨bytes, .missing (.missingVolume expected)⟩
      | .error error => throw error

def readSequentialVolumes (provider : VolumeProvider) (firstName : String) (limits : Limits) :
    Metered VolumeBytes :=
  readVolumes provider firstName limits limits.maxVolumes 0 []

structure Archive where
  bytes : List UInt8
  envelope : HeaderEnvelope
  header : ArchiveHeader
  limits : Limits
  deriving DecidableEq

def Archive.entries (archive : Archive) : List FileEntry :=
  archive.header.files.elim [] FilesInfo.entries

def checkDeclaredTotal (limits : Limits) (maximumOutput : Nat) : List Folder → Nat →
    Except Error Unit
  | [], _ => .ok ()
  | folder :: folders, declaredTotal => do
    let rootSize ← okOr folder.unpackSizes[folder.rootOutputIndex]?
      (formatError "encoded-header root output size is missing")
    match rootSize with
    | none => checkDeclaredTotal limits maximumOutput folders declaredTotal
    | some size => do
      let declaredTotal ← okOr (checkedAdd declaredTotal size)
        (formatError "decoded-header declared size overflows")
      checkLimit declaredTotal limits.maxHeaderBytes .headerBytes
      checkLimit declaredTotal maximumOutput .totalOutputBytes
      checkDeclaredTotal limits maximumOutput folders declaredTotal

/-- The substream loop of `verify_encoded_header_folder`. -/
def verifyEncodedSubstreams (decoded : DecodedFolder) (count : Nat) :
    List Substream → Nat → Nat → Metered Nat
  | [], _, start => return start
  | substream :: substreams, index, start => do
    checkpoint 1
    let finish ← substreamEnd count index start decoded.bytes.length substream.size
      "encoded-header substream range overflows"
      "unknown-nonfinal-encoded-header-substream-size"
    rejectIf (decoded.bytes.length < finish)
      (formatError "encoded-header substream range exceeds its folder output")
    let range ← okOr (getRange decoded.bytes start finish)
      (formatError "encoded-header substream range is out of bounds")
    checkSubstream range substream.crc (digestError decoded.encrypted .encodedHeader none)
    verifyEncodedSubstreams decoded count substreams (index + 1) finish

def verifyEncodedHeaderFolder (folder : Folder) (decoded : DecodedFolder) : Metered Unit := do
  let start ← verifyEncodedSubstreams decoded folder.substreams.length folder.substreams 0 0
  rejectIf (start ≠ decoded.bytes.length)
    (formatError "encoded-header substreams do not consume their folder output exactly")
  rejectIf (decoded.crcMismatch = true) (digestError decoded.encrypted .encodedHeader none)

/-- The folder loop of `decode_encoded_header`, with the header so far. -/
def decodeEncodedFolders (decodeCoder : CoderDecoder) (archiveBytes : List UInt8)
    (streams : StreamsInfo) (limits : Limits) (maximumOutput : Nat) :
    List Folder → Nat → Nat → List UInt8 → Metered (List UInt8)
  | [], _, _, header => return header
  | folder :: folders, folderIndex, decodedTotal, header => do
    checkpoint 1
    let remaining ← okOr (checkedSub (min limits.maxHeaderBytes maximumOutput) decodedTotal)
      (formatError "decoded-header output accounting underflows")
    let decoded ← (decodeFolder decodeCoder archiveBytes streams folderIndex limits
      remaining).mapError (mapEncryptedError (folderIsEncrypted folder))
    verifyEncodedHeaderFolder folder decoded
    let decodedTotal ← okOr (checkedAdd decodedTotal decoded.bytes.length)
      (formatError "decoded-header output accounting overflows")
    checkLimit decodedTotal limits.maxHeaderBytes .headerBytes
    checkLimit decodedTotal maximumOutput .totalOutputBytes
    (chunks controlChunkSize decoded.bytes).forM fun chunk => checkpoint chunk.length
    decodeEncodedFolders decodeCoder archiveBytes streams limits maximumOutput folders
      (folderIndex + 1) decodedTotal (header ++ decoded.bytes)

def decodeEncodedHeader (decodeCoder : CoderDecoder) (archiveBytes : List UInt8)
    (streams : StreamsInfo) (limits : Limits) (maximumOutput : Nat) : Metered (List UInt8) := do
  rejectIf (streams.folders = []) (formatError "encoded header has no folders")
  checkDeclaredTotal limits maximumOutput streams.folders 0
  decodeEncodedFolders decodeCoder archiveBytes streams limits maximumOutput streams.folders 0 0 []

def addDecoded (limits : Limits) (decodedBytes additional : Nat) (detail : String) :
    Except Error Nat := do
  let decodedBytes ← okOr (checkedAdd decodedBytes additional) (formatError detail)
  checkLimit decodedBytes limits.maxTotalOutputBytes .totalOutputBytes
  return decodedBytes

def remainingOutput (limits : Limits) (decodedBytes : Nat) (detail : String) :
    Except Error Nat :=
  okOr (checkedSub limits.maxTotalOutputBytes decodedBytes) (formatError detail)

def openPlainHeader (codecs : Codecs) (bytes : List UInt8) (limits : Limits)
    (header : ArchiveHeader) (decodedBytes : Nat) : Metered ArchiveHeader := do
  let remaining ← remainingOutput limits decodedBytes
    "external-property output accounting underflows"
  let (header, externalBytes) ←
    resolveExternalProperties (decodeCoder codecs) header bytes limits remaining
  let _ ← addDecoded limits decodedBytes externalBytes
    "decoded metadata output accounting overflows"
  return header

def openEncodedHeader (codecs : Codecs) (bytes : List UInt8) (envelope : HeaderEnvelope)
    (limits : Limits) (streams : StreamsInfo) (decodedBytes : Nat) :
    Metered (ParsedNextHeader × Nat) := do
  let encrypted := streams.folders.any folderIsEncrypted
  let remaining ← remainingOutput limits decodedBytes "decoded-header output accounting underflows"
  let decoded ← (decodeEncodedHeader (decodeCoder codecs) bytes streams limits
    remaining).mapError (mapEncryptedError encrypted)
  let decodedBytes ← addDecoded limits decodedBytes decoded.length
    "decoded-header output accounting overflows"
  let nextHeader ← (parseDecodedNextHeader decoded envelope bytes limits).mapError
    (mapEncryptedError encrypted)
  return (nextHeader, decodedBytes)

def openExternalFolders (codecs : Codecs) (bytes : List UInt8) (envelope : HeaderEnvelope)
    (limits : Limits) (pending : PendingExternalFolderHeader) (decodedBytes : Nat) :
    Metered ArchiveHeader := do
  let remaining ← remainingOutput limits decodedBytes
    "external-folder output accounting underflows"
  let decoded ← decodeAdditionalStreams (decodeCoder codecs) bytes pending.additionalStreams
    limits remaining
  let _ ← addDecoded limits decodedBytes decoded.totalBytes
    "external-folder output accounting overflows"
  let folderStream ← decoded.get pending.dataIndex
  let resolved ← (parseNextHeaderFromExternalFolders pending.headerBytes pending.dataIndex
    folderStream.bytes envelope bytes limits).mapError (mapEncryptedError folderStream.encrypted)
  match resolved with
  | .header header => applyExternalProperties header decoded limits
  | _ => throw (formatError "external folder resolution did not produce a plain header")

/-- The loop of `open_bytes_inner`.  The recursion limit ends it, so `fuel` is
the number of levels that the limit still allows. -/
def resolveHeader (codecs : Codecs) (bytes : List UInt8) (envelope : HeaderEnvelope)
    (limits : Limits) : Nat → Nat → Nat → ParsedNextHeader → Metered ArchiveHeader
  | _, _, decodedBytes, .header header => openPlainHeader codecs bytes limits header decodedBytes
  | fuel, depth, decodedBytes, .encodedHeader streams => do
    let depth ← okOr (checkedAdd depth 1)
      (formatError "encoded-header recursion depth overflows")
    match fuel with
    | 0 => throw (.limitExceeded .recursionDepth depth limits.maxRecursionDepth)
    | fuel + 1 => do
      let (nextHeader, decodedBytes) ←
        openEncodedHeader codecs bytes envelope limits streams decodedBytes
      resolveHeader codecs bytes envelope limits fuel depth decodedBytes nextHeader
  | fuel, depth, decodedBytes, .pendingExternalFolders pending => do
    let depth ← okOr (checkedAdd depth 1)
      (formatError "external-folder resolution depth overflows")
    match fuel with
    | 0 => throw (.limitExceeded .recursionDepth depth limits.maxRecursionDepth)
    | _ + 1 => openExternalFolders codecs bytes envelope limits pending decodedBytes

namespace Archive

def openBytes (codecs : Codecs) (bytes : List UInt8) (limits : Limits) : Metered Archive := do
  let parsed ← parseArchive bytes limits
  let header ← resolveHeader codecs bytes parsed.envelope limits limits.maxRecursionDepth 0 0
    parsed.nextHeader
  return { bytes := bytes, envelope := parsed.envelope, header := header, limits := limits }

/-- The error of `open_volumes_inner` when the bytes end too early. -/
def terminationError : VolumeTermination → Error
  | .missing error => error
  | .limit requested maximum => .limitExceeded .volumes requested maximum

def needsMore (volumes : VolumeBytes) (limits : Limits) : Metered Bool :=
  if volumes.bytes = [] then return true else archiveDeclaresMoreBytes volumes.bytes limits

def openVolumes (codecs : Codecs) (provider : VolumeProvider) (firstVolumeName : String)
    (limits : Limits) : Metered Archive := do
  let volumes ← readSequentialVolumes provider firstVolumeName limits
  let needsMore ← needsMore volumes limits
  match ← (openBytes codecs volumes.bytes limits).attempt with
  | .ok archive => return archive
  | .error error => if needsMore then throw (terminationError volumes.termination) else throw error

end Archive

end Unpackio
