/-
The structure of a ZIP file, from `zip/parse.rs`.

The end of the central directory is found by a locator outside the crate, which
also walks the central directory.  Of it only the values are modelled that it
hands to the parser; a panic of it is caught and becomes an error.
-/
import Unpackio.Zip.Fields
import Mathlib.Data.List.Sort

namespace Unpackio
namespace Zip

def eocdFixedBytes : Nat := 22

def eocdSearchBytes : Nat := 65557

def eocdSignature : Nat := 0x06054b50

def zip64EocdSignature : Nat := 0x06064b50

def zip64LocatorSignature : Nat := 0x07064b50

def dataDescriptorSignature : Nat := 0x08074b50

/-- What a call of the locator ends with. -/
inductive Outcome (α : Type) where
  | found (value : α)
  | invalid
  | panicked
  deriving DecidableEq, Repr

/-- `map_err` on a call inside `catch_unwind`. -/
def Outcome.get {α : Type} (outcome : Outcome α) (detail : String) : Except Error α :=
  match outcome with
  | found value => .ok value
  | invalid => .error (zipFormat detail)
  | panicked => .error (zipFormat "structural parser rejected hostile input")

/-- An entry as the locator walks over it. -/
structure RawEntry where
  centralDirectoryOffset : Nat
  filePath : List UInt8
  compressedSizeHint : Nat
  uncompressedSizeHint : Nat
  localHeaderOffset : Nat
  deriving DecidableEq, Repr

structure LocatedZip where
  endOffset : Nat
  directoryOffset : Nat
  eocdOffset : Nat
  entriesHint : Nat
  comment : List UInt8
  entries : List (Outcome RawEntry)
  deriving DecidableEq, Repr

/-- `ZipLocator::locate_in_slice`. -/
abbrev Locator : Type := List UInt8 → Outcome LocatedZip

/-- The loop over the places of an end record, the last one first. -/
def eocdLoop (scan : List UInt8) : Nat → Except Error (Option Nat)
  | 0 => return none
  | relative + 1 => do
    let candidate ← okOr (getRange scan relative scan.length)
      (zipFormat "EOCD candidate range is invalid")
    if getRange candidate 0 4 ≠ some (toLeBytes 4 eocdSignature) then eocdLoop scan relative
    else do
      let commentLength ← leU16 candidate 20 "EOCD comment length is truncated"
      if candidate.length = eocdFixedBytes + commentLength then return some relative
      else eocdLoop scan relative

def zip64Loop (bytes recordScan : List UInt8) (recordScanStart locator : Nat) :
    Nat → Except Error (Option Nat)
  | 0 => return none
  | relative + 1 =>
    if getRange recordScan relative (relative + 4) ≠ some (toLeBytes 4 zip64EocdSignature) then
      zip64Loop bytes recordScan recordScanStart locator relative
    else do
      let candidate ← okOr (checkedAdd recordScanStart relative)
        (zipFormat "ZIP64 EOCD candidate offset overflows")
      let sizeOffset ← okOr (checkedAdd candidate 4) (zipFormat "ZIP64 EOCD size offset overflows")
      let size ← leU64 bytes sizeOffset "ZIP64 EOCD size is truncated"
      if size < 44 then zip64Loop bytes recordScan recordScanStart locator relative
      else do
        let finish ← okOr ((checkedAdd candidate 12).bind fun offset => checkedAdd offset size)
          (zipFormat "ZIP64 EOCD range overflows")
        if finish = locator then return some candidate
        else zip64Loop bytes recordScan recordScanStart locator relative

/-- Whether the end record leaves a value to the ZIP64 end record. -/
def usesZip64 (fixed : List UInt8) : Except Error Bool := do
  let diskEntries ← leU16 fixed 8 "EOCD disk entry count is truncated"
  if diskEntries = u16Max then return true
  let totalEntries ← leU16 fixed 10 "EOCD total entry count is truncated"
  if totalEntries = u16Max then return true
  let directorySize ← leU32 fixed 12 "EOCD directory size is truncated"
  if directorySize = u32Max then return true
  let directoryOffset ← leU32 fixed 16 "EOCD directory offset is truncated"
  return decide (directoryOffset = u32Max)

/-- The part of `locate_zip_slice_start` for a ZIP64 file. -/
def locateZip64Start (bytes : List UInt8) (eocd : Nat) (limits : Limits) : Metered Nat := do
  let locator ← okOr (checkedSub eocd 20) (zipFormat "ZIP64 locator offset underflows")
  let signature ← leU32 bytes locator "ZIP64 locator is truncated"
  rejectIf (signature ≠ zip64LocatorSignature) (zipFormat "ZIP64 locator signature is invalid")
  let declaredOffset ← okOr (checkedAdd locator 8) (zipFormat "ZIP64 locator offset overflows")
  let declared ← leU64 bytes declaredOffset "ZIP64 EOCD offset is truncated"
  let recordScanStart := locator - limits.maxHeaderBytes
  let recordScan ← okOr (getRange bytes recordScanStart locator)
    (zipFormat "ZIP64 EOCD search range is invalid")
  consumeBytes recordScan
  let actual ← zip64Loop bytes recordScan recordScanStart locator (recordScan.length - 3)
  let actual ← okOr actual (zipFormat "ZIP64 EOCD record is missing")
  let sliceStart ← okOr (checkedSub actual declared) (zipFormat "ZIP64 SFX base offset underflows")
  checkLimit sliceStart limits.sfxScanLimit .sfxScanBytes
  return sliceStart

def locateZipSliceStart (bytes : List UInt8) (limits : Limits) : Metered Nat := do
  let scanStart := bytes.length - eocdSearchBytes
  let scan ← okOr (getRange bytes scanStart bytes.length)
    (zipFormat "EOCD search range is invalid")
  consumeBytes scan
  let last ← okOr (checkedSub scan.length eocdFixedBytes) (zipFormat "EOCD is truncated")
  let relative ← eocdLoop scan (last + 1)
  let relative ← okOr relative (zipFormat "end of central directory is missing")
  let eocd ← okOr (checkedAdd scanStart relative) (zipFormat "EOCD input offset overflows")
  let fixed ← okOr (getRange bytes eocd (eocd + eocdFixedBytes))
    (zipFormat "EOCD fixed record is truncated")
  let zip64 ← usesZip64 fixed
  if zip64 then locateZip64Start bytes eocd limits
  else return 0

def absoluteOffset (base relative : Nat) : Except Error Nat :=
  okOr (checkedAdd base relative) (zipFormat "ZIP absolute offset overflows")

/-- The ZIP64 part of `validate_single_disk`. -/
def validateZip64Disk (bytes : List UInt8) (eocdOffset imageStart : Nat) : Except Error Unit := do
  let locatorOffset ← okOr (checkedSub eocdOffset 20) (zipFormat "ZIP64 locator offset underflows")
  let signature ← leU32 bytes locatorOffset "ZIP64 locator is truncated"
  rejectIf (signature ≠ zip64LocatorSignature) (zipFormat "ZIP64 locator signature is invalid")
  let diskOffset ← advance locatorOffset 4 "ZIP64 locator offset overflows"
  let zip64Disk ← leU32 bytes diskOffset "ZIP64 locator disk is truncated"
  let declaredOffset ← advance locatorOffset 8 "ZIP64 locator offset overflows"
  let zip64Offset ← leU64 bytes declaredOffset "ZIP64 EOCD offset is truncated"
  let disksOffset ← advance locatorOffset 16 "ZIP64 locator offset overflows"
  let disks ← leU32 bytes disksOffset "ZIP64 disk count is truncated"
  rejectIf (zip64Disk ≠ 0 ∨ disks ≠ 1) (.unsupportedFeature "split-zip-archive")
  let zip64Offset ← absoluteOffset imageStart zip64Offset
  let zip64Signature ← leU32 bytes zip64Offset "ZIP64 EOCD is truncated"
  rejectIf (zip64Signature ≠ zip64EocdSignature) (zipFormat "ZIP64 EOCD signature is invalid")
  let numberOffset ← advance zip64Offset 16 "ZIP64 EOCD offset overflows"
  let diskNumber ← leU32 bytes numberOffset "ZIP64 EOCD disk number is truncated"
  let directoryOffset ← advance zip64Offset 20 "ZIP64 EOCD offset overflows"
  let directoryDiskNumber ← leU32 bytes directoryOffset "ZIP64 EOCD directory disk is truncated"
  let entriesOffset ← advance zip64Offset 24 "ZIP64 EOCD offset overflows"
  let entriesOnDisk ← leU64 bytes entriesOffset "ZIP64 EOCD disk entry count is truncated"
  let allOffset ← advance zip64Offset 32 "ZIP64 EOCD offset overflows"
  let allEntries ← leU64 bytes allOffset "ZIP64 EOCD total entry count is truncated"
  rejectIf (diskNumber ≠ 0 ∨ directoryDiskNumber ≠ 0 ∨ entriesOnDisk ≠ allEntries)
    (.unsupportedFeature "split-zip-archive")

def validateSingleDisk (bytes : List UInt8) (eocdOffset imageStart : Nat) :
    Except Error Unit := do
  let fixed ← checkedRange bytes eocdOffset eocdFixedBytes "EOCD range overflows"
    "EOCD is truncated"
  let signature ← leU32 fixed 0 "EOCD signature is truncated"
  rejectIf (signature ≠ eocdSignature) (zipFormat "EOCD signature is invalid")
  let disk ← leU16 fixed 4 "EOCD disk number is truncated"
  let directoryDisk ← leU16 fixed 6 "EOCD directory disk is truncated"
  let diskEntries ← leU16 fixed 8 "EOCD disk entry count is truncated"
  let totalEntries ← leU16 fixed 10 "EOCD total entry count is truncated"
  rejectIf (disk ≠ 0 ∨ directoryDisk ≠ 0) (.unsupportedFeature "split-zip-archive")
  rejectIf (diskEntries ≠ totalEntries ∧ diskEntries ≠ u16Max ∧ totalEntries ≠ u16Max)
    (.unsupportedFeature "split-zip-archive")
  let zip64 ← usesZip64 fixed
  if zip64 then validateZip64Disk bytes eocdOffset imageStart
  else return ()

structure LocalRange where
  dataStart : Nat
  dataEnd : Nat
  recordEnd : Nat
  deriving DecidableEq, Repr

def descriptorSizes (bytes : List UInt8) (sizesStart : Nat) (zip64 : Bool) :
    Except Error (Nat × Nat × Nat) :=
  if zip64 then do
    let compressed ← leU64 bytes sizesStart "ZIP64 descriptor compressed size is truncated"
    let next ← okOr (checkedAdd sizesStart 8) (zipFormat "ZIP64 descriptor offset overflows")
    let uncompressed ← leU64 bytes next "ZIP64 descriptor uncompressed size is truncated"
    return (compressed, uncompressed, 16)
  else do
    let compressed ← leU32 bytes sizesStart "data descriptor compressed size is truncated"
    let next ← okOr (checkedAdd sizesStart 4) (zipFormat "data-descriptor offset overflows")
    let uncompressed ← leU32 bytes next "data descriptor uncompressed size is truncated"
    return (compressed, uncompressed, 8)

def validateDescriptorValues (bytes : List UInt8) (valuesStart expectedCrc expectedCompressed
    expectedUncompressed : Nat) (zip64 : Bool) (directoryOffset : Nat) : Except Error Nat := do
  let crc ← leU32 bytes valuesStart "data descriptor CRC is truncated"
  let sizesStart ← okOr (checkedAdd valuesStart 4)
    (zipFormat "data-descriptor size offset overflows")
  let (compressed, uncompressed, sizeBytes) ← descriptorSizes bytes sizesStart zip64
  rejectIf (crc ≠ expectedCrc ∨ compressed ≠ expectedCompressed ∨
    uncompressed ≠ expectedUncompressed)
    (zipFormat "data descriptor disagrees with the central entry")
  let finish ← okOr (checkedAdd sizesStart sizeBytes) (zipFormat "data-descriptor range overflows")
  rejectIf (directoryOffset < finish) (zipFormat "data descriptor overlaps the central directory")
  return finish

def validateDescriptor (bytes : List UInt8) (offset expectedCrc expectedCompressed
    expectedUncompressed : Nat) (zip64 : Bool) (directoryOffset : Nat) : Except Error Nat := do
  let first ← leU32 bytes offset "data descriptor is truncated"
  if first = dataDescriptorSignature then do
    let signedStart ← okOr (checkedAdd offset 4) (zipFormat "data-descriptor offset overflows")
    match validateDescriptorValues bytes signedStart expectedCrc expectedCompressed
      expectedUncompressed zip64 directoryOffset with
    | .ok finish => return finish
    | .error _ =>
      validateDescriptorValues bytes offset expectedCrc expectedCompressed expectedUncompressed
        zip64 directoryOffset
  else
    validateDescriptorValues bytes offset expectedCrc expectedCompressed expectedUncompressed zip64
      directoryOffset

/-- Where the record ends whose data ends at `dataEnd`. -/
def validateSizes (bytes : List UInt8) (dataEnd : Nat) (fixed : LocalFixed)
    (localExtra : List UInt8) (central : CentralFixed) (resolved : ResolvedCentral)
    (directoryOffset : Nat) : Except Error Nat :=
  if fixed.flags &&& flagDataDescriptor ≠ 0 then
    validateDescriptor bytes dataEnd central.crc32 resolved.compressedSize
      resolved.uncompressedSize resolved.descriptorUsesZip64 directoryOffset
  else do
    let (localCompressed, localUncompressed) ← resolveLocalSizes fixed localExtra
    rejectIf (fixed.crc32 ≠ central.crc32 ∨ localCompressed ≠ resolved.compressedSize ∨
      localUncompressed ≠ resolved.uncompressedSize)
      (zipFormat "local and central entry CRC or sizes do not match")
    return dataEnd

def validateLocal (bytes : List UInt8) (offset : Nat) (centralName centralExtra : List UInt8)
    (central : CentralFixed) (resolved : ResolvedCentral) (directoryOffset : Nat) :
    Except Error LocalRange := do
  let fixed ← parseLocalFixed bytes offset
  rejectIf (fixed.flags ≠ central.flags ∨ fixed.method ≠ central.method)
    (zipFormat "local and central entry method or flags do not match")
  let variableStart ← okOr (checkedAdd offset localFixedBytes)
    (zipFormat "local-header variable offset overflows")
  let variableLength ← okOr (checkedAdd fixed.nameLength fixed.extraLength)
    (zipFormat "local-header variable length overflows")
  let content ← checkedRange bytes variableStart variableLength
    "local-header variable range overflows" "local-header variable range is truncated"
  let localName ← okOr (getRange content 0 fixed.nameLength)
    (zipFormat "local-header name is truncated")
  let localExtra ← okOr (getRange content fixed.nameLength content.length)
    (zipFormat "local-header extra fields are truncated")
  rejectIf (localName ≠ centralName) (zipFormat "local and central entry names do not match")
  validateExtraFields localExtra
  let centralAes ← parseAes centralExtra central.method
  let localAes ← parseAes localExtra fixed.method
  rejectIf (centralAes ≠ localAes)
    (zipFormat "local and central WinZip AES fields do not match")
  let dataStart ← okOr (checkedAdd variableStart variableLength)
    (zipFormat "ZIP entry data offset overflows")
  let dataEnd ← okOr (checkedAdd dataStart resolved.compressedSize)
    (zipFormat "ZIP entry data range overflows")
  rejectIf (directoryOffset < dataEnd) (zipFormat "ZIP entry data overlaps the central directory")
  let recordEnd ← validateSizes bytes dataEnd fixed localExtra central resolved directoryOffset
  return { dataStart := dataStart, dataEnd := dataEnd, recordEnd := recordEnd }

/-- The loop of `validate_non_overlapping`. -/
def nonOverlappingLoop (directoryOffset : Nat) : List (Nat × Nat) → Nat → Except Error Unit
  | [], _ => return ()
  | (start, finish) :: ranges, previousEnd => do
    rejectIf (start < previousEnd ∨ finish < start ∨ directoryOffset < finish)
      (zipFormat "ZIP local entry ranges overlap or are invalid")
    nonOverlappingLoop directoryOffset ranges finish

def validateNonOverlapping (ranges : List (Nat × Nat)) (directoryOffset : Nat) :
    Except Error Unit :=
  nonOverlappingLoop directoryOffset
    (ranges.insertionSort fun first second => first.1 ≤ second.1) 0

/-! ## Entries -/

structure CentralRecord where
  fixed : CentralFixed
  name : List UInt8
  extra : List UInt8
  comment : List UInt8
  deriving DecidableEq, Repr

/-- The central-directory record at an offset, as `parse_inner` takes it apart. -/
def parseCentral (bytes : List UInt8) (centralOffset : Nat) : Except Error CentralRecord := do
  let fixed ← parseCentralFixed bytes centralOffset
  let variableStart ← okOr (checkedAdd centralOffset centralFixedBytes)
    (zipFormat "central-directory variable offset overflows")
  let variableLength ← okOr ((checkedAdd fixed.nameLength fixed.extraLength).bind fun length =>
    checkedAdd length fixed.commentLength)
    (zipFormat "central-directory variable length overflows")
  let content ← checkedRange bytes variableStart variableLength
    "central-directory variable range overflows" "central-directory variable range is truncated"
  let extraEnd ← okOr (checkedAdd fixed.nameLength fixed.extraLength)
    (zipFormat "central-directory extra offset overflows")
  let name ← okOr (getRange content 0 fixed.nameLength)
    (zipFormat "central-directory name is truncated")
  let extra ← okOr (getRange content fixed.nameLength extraEnd)
    (zipFormat "central-directory extra fields are truncated")
  let comment ← okOr (getRange content extraEnd content.length)
    (zipFormat "central-directory comment is truncated")
  return { fixed := fixed, name := name, extra := extra, comment := comment }

def entryEncryption (record : CentralRecord) (aes : Option ParsedAes) :
    Except Error ZipEncryption := do
  let fixed := record.fixed
  -- The extra field is only looked for when the flags say nothing.
  let strong ← if fixed.flags &&& (flagStrongEncryption ||| flagMaskedHeaderValues) ≠ 0 then
      pure true
    else do
      let field ← findUniqueExtra record.extra extraStrongEncryption
      pure field.isSome
  let encrypted := decide (fixed.flags &&& flagEncrypted ≠ 0)
  if strong then return .strong
  else match aes with
    | some aes => do
      rejectIf (encrypted = false) (zipFormat "WinZip AES entry omits the encryption flag")
      let keyBits ← okOr ((tryFrom 16 aes.keyBytes).bind fun bytes => tryFrom 16 (bytes * 8))
        (zipFormat "WinZip AES key size overflows")
      return .winZipAes aes.vendorVersion keyBits
    | none => return if encrypted then .zipCrypto else .none

def entryCrc32 (fixed : CentralFixed) (aes : Option ParsedAes) : Except Error (Option Nat) :=
  if aes.any fun value => value.vendorVersion = 2 then do
    rejectIf (fixed.crc32 ≠ 0) (zipFormat "AE-2 entry must store a zero CRC")
    return none
  else return some fixed.crc32

structure ParseState where
  entries : List ZipEntry
  ranges : List (Nat × Nat)
  count : Nat
  totalNameBytes : Nat
  baseOffset : Option Nat
  deriving DecidableEq, Repr

def ParseState.initial : ParseState := ⟨[], [], 0, 0, none⟩

def checkCentral (record : CentralRecord) (raw : RawEntry) (totalNameBytes : Nat)
    (limits : Limits) : Except Error (ResolvedCentral × Nat) := do
  let nameLength := record.fixed.nameLength
  rejectIf (raw.filePath ≠ record.name) (zipFormat "structural parser disagrees on an entry name")
  validateExtraFields record.extra
  checkLimit nameLength limits.maxNameBytesPerEntry .nameBytesPerEntry
  let totalNameBytes ← okOr (checkedAdd totalNameBytes nameLength)
    (zipFormat "total ZIP name bytes overflow")
  checkLimit totalNameBytes limits.maxTotalNameBytes .totalNameBytes
  let resolved ← resolveCentral record.fixed record.extra
  rejectIf (resolved.compressedSize ≠ raw.compressedSizeHint ∨
    resolved.uncompressedSize ≠ raw.uncompressedSizeHint)
    (zipFormat "structural parser disagrees on ZIP64 entry sizes")
  rejectIf (resolved.diskStart ≠ 0) (.unsupportedFeature "split-zip-archive")
  checkLimit resolved.uncompressedSize limits.maxEntryOutputBytes .entryOutputBytes
  checkLimit resolved.compressedSize limits.maxTotalInputBytes .totalInputBytes
  return (resolved, totalNameBytes)

def buildEntry (record : CentralRecord) (resolved : ResolvedCentral) (localOffset : Nat)
    (range : LocalRange) (entryIndex : Nat) : Metered ZipEntry := do
  let fixed := record.fixed
  let aes ← parseAes record.extra fixed.method
  let encryption ← entryEncryption record aes
  let crc32 ← entryCrc32 fixed aes
  let displayName ← decodeName record.name fixed.flags record.extra
  let creator := fixed.versionMadeBy >>> 8
  let rawName ← copyBytes record.name
  let rawComment ← copyBytes record.comment
  let extra ← copyBytes record.extra
  return {
    index := entryIndex
    rawName := rawName
    name := displayName
    rawComment := rawComment
    extra := extra
    compression := ZipCompressionMethod.fromId
      (match aes with | some value => value.method | none => fixed.method)
    encryption := encryption
    compressedSize := resolved.compressedSize
    uncompressedSize := resolved.uncompressedSize
    crc32 := crc32
    isDirectory := decide (record.name.getLast? = some 0x2f)
    unixMode := if creator = 3 ∨ creator = 19 then some (fixed.externalAttributes >>> 16) else none
    modified := parseDosTimestamp fixed.modifiedDate fixed.modifiedTime
    modifiedTimeRaw := fixed.modifiedTime
    modifiedDateRaw := fixed.modifiedDate
    versionMadeBy := fixed.versionMadeBy
    versionNeeded := fixed.versionNeeded
    flags := fixed.flags
    internalAttributes := fixed.internalAttributes
    externalAttributes := fixed.externalAttributes
    localHeaderOffset := localOffset
    dataStart := range.dataStart
    dataEnd := range.dataEnd
    zipcryptoCheckByte :=
      if fixed.flags &&& flagDataDescriptor ≠ 0 then fixed.modifiedTime >>> 8
      else fixed.crc32 >>> 24
    aes := aes.map fun value => ⟨value.vendorVersion, value.keyBytes⟩ }

def parseEntry (bytes : List UInt8) (sliceStart directoryOffset : Nat) (limits : Limits)
    (state : ParseState) (raw : RawEntry) : Metered ParseState := do
  checkpoint 1
  let count ← okOr (checkedAdd state.count 1) (zipFormat "ZIP entry count overflows")
  checkLimit count limits.maxFiles .files
  let centralOffset ← absoluteOffset sliceStart raw.centralDirectoryOffset
  let record ← parseCentral bytes centralOffset
  let (resolved, totalNameBytes) ← checkCentral record raw state.totalNameBytes limits
  let correctedLocal ← absoluteOffset sliceStart raw.localHeaderOffset
  let observedBase ← okOr (checkedSub correctedLocal resolved.localHeaderOffset)
    (zipFormat "SFX base offset underflows")
  rejectIf (state.baseOffset.any fun expected => expected ≠ observedBase)
    (zipFormat "entry offsets disagree on the SFX base")
  let range ← validateLocal bytes correctedLocal record.name record.extra record.fixed resolved
    directoryOffset
  let entryIndex ← okOr (checkedSub count 1) (zipFormat "ZIP entry index underflows")
  let entry ← buildEntry record resolved correctedLocal range entryIndex
  return {
    entries := state.entries ++ [entry]
    ranges := state.ranges ++ [(correctedLocal, range.recordEnd)]
    count := count
    totalNameBytes := totalNameBytes
    baseOffset := some observedBase }

/-- The entry loop of `parse_inner`. -/
def entryLoop (bytes : List UInt8) (sliceStart directoryOffset : Nat) (limits : Limits) :
    List (Outcome RawEntry) → ParseState → Metered ParseState
  | [], state => return state
  | outcome :: outcomes, state => do
    let raw ← outcome.get "central-directory entry is malformed"
    let state ← parseEntry bytes sliceStart directoryOffset limits state raw
    entryLoop bytes sliceStart directoryOffset limits outcomes state

structure ParsedZip where
  entries : List ZipEntry
  comment : List UInt8
  deriving DecidableEq, Repr

def parse (locate : Locator) (bytes : List UInt8) (limits : Limits) : Metered ParsedZip := do
  let sliceStart ← locateZipSliceStart bytes limits
  let archiveBytes ← okOr (getRange bytes sliceStart bytes.length)
    (zipFormat "ZIP image start is outside the input")
  let archive ← (locate archiveBytes).get "end of central directory is missing or invalid"
  let endOffset ← absoluteOffset sliceStart archive.endOffset
  rejectIf (endOffset ≠ bytes.length)
    (zipFormat "end of central directory does not consume the complete input")
  let directoryOffset ← absoluteOffset sliceStart archive.directoryOffset
  let eocdOffset ← absoluteOffset sliceStart archive.eocdOffset
  rejectIf (eocdOffset < directoryOffset ∨ bytes.length < eocdOffset)
    (zipFormat "central-directory bounds are invalid")
  let headerBytes ← okOr (checkedSub bytes.length directoryOffset)
    (zipFormat "ZIP header size underflows")
  checkLimit headerBytes limits.maxHeaderBytes .headerBytes
  validateSingleDisk bytes eocdOffset sliceStart
  checkLimit archive.entriesHint limits.maxFiles .files
  let state ← entryLoop bytes sliceStart directoryOffset limits archive.entries .initial
  rejectIf (state.count ≠ archive.entriesHint)
    (zipFormat "central-directory entry count differs from the EOCD declaration")
  validateNonOverlapping state.ranges directoryOffset
  checkLimit archive.comment.length limits.maxHeaderBytes .headerBytes
  let comment ← copyBytes archive.comment
  return { entries := state.entries, comment := comment }

end Zip
end Unpackio
