/-
Decoding of additional streams and the external file properties in them, from
`metadata.rs`.
-/
import Unpackio.Execute

namespace Unpackio

def folderIsEncrypted (folder : Folder) : Bool :=
  folder.coders.any fun coder => coder.methodId = methodAes

/-- Under a password, corruption cannot be told from a wrong password. -/
def mapEncryptedError (encrypted : Bool) (error : Error) : Error :=
  if encrypted then
    match error with
    | .format _ | .checksum _ _ | .wrongPasswordOrCorrupt => .wrongPasswordOrCorrupt
    | error => error
  else error

/-- Where substream `index` of `count` ends, from where it starts. -/
def substreamEnd (count index start folderSize : Nat) (size : Option Nat)
    (overflowDetail unknownFeature : String) : Except Error Nat :=
  match size with
  | some size => okOr (checkedAdd start size) (formatError overflowDetail)
  | none => if index + 1 = count then .ok folderSize else .error
      (.unsupportedFeature unknownFeature)

/-- The failure of a digest, which a wrong password can also explain. -/
def digestError (encrypted : Bool) (scope : ChecksumScope) (memberIndex : Option Nat) : Error :=
  if encrypted then .wrongPasswordOrCorrupt else .checksum scope memberIndex

def checkSubstream (bytes : List UInt8) (crc : Option UInt32) (error : Error) : Metered Unit :=
  match crc with
  | some expected => do
    let actual ← checksumWithControl bytes
    rejectIf (actual ≠ expected) error
  | none => return ()

structure DecodedAdditionalStream where
  bytes : List UInt8
  encrypted : Bool

structure DecodedAdditionalStreams where
  streams : List DecodedAdditionalStream
  totalBytes : Nat

def DecodedAdditionalStreams.get (decoded : DecodedAdditionalStreams) (dataIndex : Nat) :
    Except Error DecodedAdditionalStream :=
  okOr decoded.streams[dataIndex]? (formatError "additional-stream index is out of range")

/-- The substream loop of `verify_decoded_additional_folder`. -/
def verifyAdditionalSubstreams (bytes : List UInt8) (encrypted : Bool) (count : Nat) :
    List Substream → Nat → Nat → Metered Nat
  | [], _, offset => return offset
  | substream :: substreams, index, offset => do
    checkpoint 1
    let finish ← substreamEnd count index offset bytes.length substream.size
      "additional-stream range overflows" "unknown-nonfinal-additional-stream-size"
    rejectIf (bytes.length < finish)
      (formatError "additional-stream range exceeds its folder output")
    let range ← okOr (getRange bytes offset finish)
      (formatError "additional-stream range is out of bounds")
    checkSubstream range substream.crc (digestError encrypted .additionalStream none)
    verifyAdditionalSubstreams bytes encrypted count substreams (index + 1) finish

def verifyDecodedAdditionalFolder (folder : Folder) (decoded : DecodedFolder) (encrypted : Bool) :
    Metered Unit := do
  rejectIf (decoded.crcMismatch = true) (digestError encrypted .folder none)
  let offset ← verifyAdditionalSubstreams decoded.bytes encrypted folder.substreams.length
    folder.substreams 0 0
  rejectIf (offset ≠ decoded.bytes.length)
    (formatError "additional streams do not consume their folder output exactly")

/-- The folder loop of `process_additional_streams`: the decoded folders, and the
bytes so far. -/
def processAdditionalFolders (decodeCoder : CoderDecoder) (archiveBytes : List UInt8)
    (streams : StreamsInfo) (limits : Limits) (maximumOutput : Nat) :
    List Folder → Nat → Nat → Metered (List DecodedAdditionalStream × Nat)
  | [], _, totalOutput => return ([], totalOutput)
  | folder :: folders, folderIndex, totalOutput => do
    checkpoint 1
    let remainingHeader ← okOr (checkedSub limits.maxHeaderBytes totalOutput)
      (formatError "external metadata output accounting underflows")
    let remainingTotal ← okOr (checkedSub maximumOutput totalOutput)
      (formatError "external output accounting underflows")
    let encrypted := folderIsEncrypted folder
    let decoded ← (decodeFolder decodeCoder archiveBytes streams folderIndex limits
      (min remainingHeader remainingTotal)).mapError (mapEncryptedError encrypted)
    let totalOutput ← okOr (checkedAdd totalOutput decoded.bytes.length)
      (formatError "external metadata output accounting overflows")
    checkLimit totalOutput limits.maxHeaderBytes .headerBytes
    checkLimit totalOutput maximumOutput .totalOutputBytes
    verifyDecodedAdditionalFolder folder decoded encrypted
    let (rest, totalOutput) ← processAdditionalFolders decodeCoder archiveBytes streams limits
      maximumOutput folders (folderIndex + 1) totalOutput
    return ({ bytes := decoded.bytes, encrypted := encrypted } :: rest, totalOutput)

def decodeAdditionalStreams (decodeCoder : CoderDecoder) (archiveBytes : List UInt8)
    (streams : StreamsInfo) (limits : Limits) (maximumOutput : Nat) :
    Metered DecodedAdditionalStreams := do
  let (outputs, totalOutput) ← processAdditionalFolders decodeCoder archiveBytes streams limits
    maximumOutput streams.folders 0 0
  rejectIf (outputs.length ≠ streams.folders.length)
    (formatError "decoded additional-stream count does not match its declaration")
  return { streams := outputs, totalBytes := totalOutput }

def verifyAdditionalStreams (decodeCoder : CoderDecoder) (archiveBytes : List UInt8)
    (streams : StreamsInfo) (limits : Limits) (maximumOutput : Nat) : Metered Nat := do
  let (_, totalOutput) ← processAdditionalFolders decodeCoder archiveBytes streams limits
    maximumOutput streams.folders 0 0
  return totalOutput

/-! ## External properties -/

/-- `read_bytes` of an external property. -/
def readExternal (count : Nat) : Reading (List UInt8) := do
  checkpoint 0
  let bytes ← reading fun reader => reader.readBytes count
  checkpoint count
  return bytes

def readExternalU32 : Reading UInt32 := do
  let bytes ← readExternal 4
  return UInt32.ofNat (fromLeBytes bytes)

def readExternalU64 : Reading Nat := do
  let bytes ← readExternal 8
  return fromLeBytes bytes

def applyDefined {σ : Type} (apply : FileEntry → σ → Reading (FileEntry × σ)) :
    List (FileEntry × Bool) → σ → Reading (List FileEntry × σ)
  | [], total => return ([], total)
  | (entry, isDefined) :: rest, total => do
    checkpoint 1
    if isDefined then do
      let (entry, total) ← apply entry total
      let (entries, total) ← applyDefined apply rest total
      return (entry :: entries, total)
    else do
      let (entries, total) ← applyDefined apply rest total
      return (entry :: entries, total)

/-- One external name with its byte count.  Every round reads two bytes, so
`fuel` is more than the bytes left. -/
def readExternalName (limits : Limits) : Nat → Nat → Reading (List UInt16 × Nat)
  | 0, _ => throw (formatError "truncated bounded byte range")
  | fuel + 1, nameBytes => do
    let pair ← readExternal 2
    let unit := UInt16.ofNat (fromLeBytes pair)
    if unit = 0 then return ([], nameBytes)
    else do
      let nameBytes ← okOr (checkedAdd nameBytes 2)
        (formatError "external name byte count overflows")
      checkLimit nameBytes limits.maxNameBytesPerEntry .nameBytesPerEntry
      let (name, nameBytes) ← readExternalName limits fuel nameBytes
      return (unit :: name, nameBytes)

def applyExternalName (limits : Limits) (fuel : Nat) (entry : FileEntry) (totalNameBytes : Nat) :
    Reading (FileEntry × Nat) := do
  let (name, nameBytes) ← readExternalName limits fuel 0
  let totalNameBytes ← okOr (checkedAdd totalNameBytes nameBytes)
    (formatError "total external name bytes overflow")
  checkLimit totalNameBytes limits.maxTotalNameBytes .totalNameBytes
  return ({ entry with rawName := some name }, totalNameBytes)

def applyExternalU64 (propertyId : UInt8) (entry : FileEntry) : Reading FileEntry := do
  let value ← readExternalU64
  if propertyId = idCtime then return { entry with creationTime := some value }
  else if propertyId = idAtime then return { entry with accessTime := some value }
  else if propertyId = idMtime then return { entry with modificationTime := some value }
  else if propertyId = idStartPos then return { entry with startPosition := some value }
  else throw (formatError "external u64 property identifier is invalid")

def applyExternalAttributes (entry : FileEntry) : Reading FileEntry := do
  let value ← readExternalU32
  return { entry with windowsAttributes := some value }

def applyExternalStream {σ : Type} (apply : FileEntry → σ → Reading (FileEntry × σ))
    (entries : List FileEntry) (property : ExternalProperty) (data : List UInt8) (total : σ)
    (detail : String) : Metered (List FileEntry × σ) := do
  rejectIf (entries.length ≠ property.definedEntries.length)
    (formatError "external-property definition count does not match the file count")
  let (result, reader) ← applyDefined apply (entries.zip property.definedEntries) total (.new data)
  reader.finish detail
  return result

/-- A step that leaves the accumulator alone. -/
def keeping {σ : Type} (apply : FileEntry → Reading FileEntry) (entry : FileEntry) (total : σ) :
    Reading (FileEntry × σ) := do
  let entry ← apply entry
  return (entry, total)

def applyExternalProperty (limits : Limits) (entries : List FileEntry)
    (property : ExternalProperty) (data : List UInt8) (totalNameBytes : Nat) :
    Metered (List FileEntry × Nat) :=
  if property.propertyId = idName then
    applyExternalStream (applyExternalName limits (data.length + 1)) entries property data
      totalNameBytes "external Name stream was not consumed exactly"
  else if property.propertyId ∈ [idCtime, idAtime, idMtime, idStartPos] then
    applyExternalStream (keeping (applyExternalU64 property.propertyId)) entries property data
      totalNameBytes "external u64 property stream was not consumed exactly"
  else if property.propertyId = idWinAttributes then
    applyExternalStream (keeping applyExternalAttributes) entries property data totalNameBytes
      "external attribute stream was not consumed exactly"
  else throw (formatError "external-property descriptor has an unknown identifier")

def initialNameBytes : List FileEntry → Nat → Except Error Nat
  | [], total => .ok total
  | entry :: entries, total => do
    let bytes := 2 * (entry.rawName.getD []).length
    rejectIf (2 ^ 64 ≤ bytes) (formatError "name byte count overflows")
    let total ← okOr (checkedAdd total bytes) (formatError "total name byte count overflows")
    initialNameBytes entries total

def applyExternalLoop (decoded : DecodedAdditionalStreams) (limits : Limits) :
    List ExternalProperty → List FileEntry → Nat → Metered (List FileEntry)
  | [], entries, _ => return entries
  | property :: properties, entries, totalNameBytes => do
    checkpoint 1
    let stream ← decoded.get property.dataIndex
    let (entries, totalNameBytes) ←
      (applyExternalProperty limits entries property stream.bytes totalNameBytes).mapError
        (mapEncryptedError stream.encrypted)
    applyExternalLoop decoded limits properties entries totalNameBytes

def applyExternalProperties (header : ArchiveHeader) (decoded : DecodedAdditionalStreams)
    (limits : Limits) : Metered ArchiveHeader :=
  match header.files with
  | none => return header
  | some files =>
    if files.externalProperties = [] then return header
    else do
      let totalNameBytes ← initialNameBytes files.entries 0
      let entries ← applyExternalLoop decoded limits files.externalProperties files.entries
        totalNameBytes
      return { header with files := some { files with entries := entries } }

def resolveExternalProperties (decodeCoder : CoderDecoder) (header : ArchiveHeader)
    (archiveBytes : List UInt8) (limits : Limits) (maximumOutput : Nat) :
    Metered (ArchiveHeader × Nat) :=
  match header.files with
  | none => return (header, 0)
  | some files =>
    if files.externalProperties = [] then return (header, 0)
    else do
      let streams ← okOr header.additionalStreams
        (formatError "external file properties have no additional streams")
      let decoded ← decodeAdditionalStreams decodeCoder archiveBytes streams limits maximumOutput
      let header ← applyExternalProperties header decoded limits
      return (header, decoded.totalBytes)

end Unpackio
