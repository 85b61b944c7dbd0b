/-
The headers of an ARJ archive, from `arj/mod.rs`.

A reference to the totals is passed and returned.  The body of the scan for the main header
is a function of its own, and the loops take the number of rounds that are left.
-/
import Unpackio.Bounded
import Unpackio.Checksum

namespace Unpackio
namespace Arj

def magic : List UInt8 := [0x60, 0xea]
def maxBasicHeaderBytes : Nat := 2600
def mainFixedBytes : Nat := 30
def localFixedBytes : Nat := 30

def arjFormat (detail : String) : Error := formatError ("ARJ: " ++ detail)

inductive ArjCompressionMethod where
  | stored
  | compressedMost
  | compressed
  | compressedFaster
  | compressedFastest
  | noDataNoCrc
  | noData
  | unknown (identifier : UInt8)
  deriving DecidableEq, Repr

def ArjCompressionMethod.fromId (identifier : UInt8) : ArjCompressionMethod :=
  if identifier = 0 then stored
  else if identifier = 1 then compressedMost
  else if identifier = 2 then compressed
  else if identifier = 3 then compressedFaster
  else if identifier = 4 then compressedFastest
  else if identifier = 8 then noDataNoCrc
  else if identifier = 9 then noData
  else unknown identifier

inductive ArjEntryKind where
  | binary
  | text
  | comment
  | directory
  | volumeLabel
  | chapterLabel
  | unknown (identifier : UInt8)
  deriving DecidableEq, Repr

def ArjEntryKind.fromId (identifier : UInt8) : ArjEntryKind :=
  if identifier = 0 then binary
  else if identifier = 1 then text
  else if identifier = 2 then comment
  else if identifier = 3 then directory
  else if identifier = 4 then volumeLabel
  else if identifier = 5 then chapterLabel
  else unknown identifier

structure HeaderTotals where
  bytes : Nat
  properties : Nat
  deriving DecidableEq, Repr

structure HeaderRecord where
  basic : List UInt8
  nextOffset : Nat
  deriving DecidableEq, Repr

structure MainFields where
  rawName : List UInt8
  rawComment : List UInt8
  archiverVersion : UInt8
  minimumVersion : UInt8
  hostOs : UInt8
  flags : UInt8
  creationTime : Nat
  modificationTime : Nat
  lastChapter : UInt8
  deriving DecidableEq, Repr

structure LocalFields where
  rawName : List UInt8
  rawComment : List UInt8
  archiverVersion : UInt8
  minimumVersion : UInt8
  hostOs : UInt8
  flags : UInt8
  method : ArjCompressionMethod
  kind : ArjEntryKind
  modifiedTime : Nat
  compressedSize : Nat
  originalSize : Nat
  crc32 : Option Nat
  fileSpecPosition : Nat
  accessMode : Nat
  firstChapter : UInt8
  lastChapter : UInt8
  deriving DecidableEq, Repr

def byte (bytes : List UInt8) (offset : Nat) (detail : String) : Except Error UInt8 := do
  let value ← checkedRange bytes offset 1 detail detail
  okOr value[0]? (arjFormat detail)

/-- `le_u16` and `le_u32`. -/
def leUint (width : Nat) (bytes : List UInt8) (offset : Nat) (detail : String) :
    Except Error Nat := do
  let value ← checkedRange bytes offset width detail detail
  return fromLeBytes value

def leU16 : List UInt8 → Nat → String → Except Error Nat := leUint 2

def leU32 : List UInt8 → Nat → String → Except Error Nat := leUint 4

/-- `position` of a NUL. -/
def nulPosition (bytes : List UInt8) : Option Nat :=
  if 0 ∈ bytes then some (bytes.idxOf 0) else none

def parseStrings (basic : List UInt8) (firstSize : Nat) :
    Except Error (List UInt8 × List UInt8) := do
  let remainingLength ← okOr (checkedSub basic.length firstSize)
    (arjFormat "header string range underflows")
  let strings ← checkedRange basic firstSize remainingLength
    "ARJ header string range overflows" "ARJ header strings are truncated"
  let nameEnd ← okOr (nulPosition strings) (arjFormat "header name is not NUL terminated")
  let name ← okOr (getRange strings 0 nameEnd) (arjFormat "header name range is invalid")
  let commentStart ← okOr (checkedAdd nameEnd 1) (arjFormat "header comment offset overflows")
  let comments ← okOr (getRange strings commentStart strings.length)
    (arjFormat "header comment is truncated")
  let commentEnd ← okOr (nulPosition comments)
    (arjFormat "header comment is not NUL terminated")
  let comment ← okOr (getRange comments 0 commentEnd)
    (arjFormat "header comment range is invalid")
  return (name, comment)

def validateHeaderStrings (name comment : List UInt8) (limits : Limits) : Except Error Unit := do
  checkLimit name.length limits.maxNameBytesPerEntry .nameBytesPerEntry
  checkLimit comment.length limits.maxHeaderBytes .headerBytes

def parseMainHeader (basic : List UInt8) (limits : Limits) : Metered MainFields := do
  rejectIf (basic.length < mainFixedBytes) (arjFormat "main header is too short")
  let firstSize ← byte basic 0 "main first-header size is truncated"
  rejectIf (firstSize.toNat < mainFixedBytes ∨ basic.length < firstSize.toNat)
    (arjFormat "main first-header size is invalid")
  let fileType ← byte basic 6 "main file type is truncated"
  rejectIf (fileType ≠ 2) (arjFormat "main header file type is invalid")
  let (name, comment) ← parseStrings basic firstSize.toNat
  validateHeaderStrings name comment limits
  let rawName ← copyBytes name
  let rawComment ← copyBytes comment
  let archiverVersion ← byte basic 1 "main archiver version is truncated"
  let minimumVersion ← byte basic 2 "main minimum version is truncated"
  let hostOs ← byte basic 3 "main host OS is truncated"
  let flags ← byte basic 4 "main flags are truncated"
  let creationTime ← leU32 basic 8 "main creation time is truncated"
  let modificationTime ← leU32 basic 12 "main modification time is truncated"
  let lastChapter ← byte basic 29 "main last chapter is truncated"
  return ⟨rawName, rawComment, archiverVersion, minimumVersion, hostOs, flags, creationTime,
    modificationTime, lastChapter⟩

def parseLocalHeader (basic : List UInt8) (limits : Limits) : Metered LocalFields := do
  rejectIf (basic.length < localFixedBytes) (arjFormat "local header is too short")
  let firstSize ← byte basic 0 "local first-header size is truncated"
  rejectIf (firstSize.toNat < localFixedBytes ∨ basic.length < firstSize.toNat)
    (arjFormat "local first-header size is invalid")
  let (name, comment) ← parseStrings basic firstSize.toNat
  rejectIf name.isEmpty (arjFormat "local member name is empty")
  validateHeaderStrings name comment limits
  let methodId ← byte basic 5 "local method is truncated"
  let declaredCrc ← leU32 basic 20 "local CRC is truncated"
  let rawName ← copyBytes name
  let rawComment ← copyBytes comment
  let archiverVersion ← byte basic 1 "local archiver version is truncated"
  let minimumVersion ← byte basic 2 "local minimum version is truncated"
  let hostOs ← byte basic 3 "local host OS is truncated"
  let flags ← byte basic 4 "local flags are truncated"
  let fileType ← byte basic 6 "local file type is truncated"
  let modifiedTime ← leU32 basic 8 "local modification time is truncated"
  let compressedSize ← leU32 basic 12 "local compressed size is truncated"
  let originalSize ← leU32 basic 16 "local original size is truncated"
  let fileSpecPosition ← leU16 basic 24 "local file-spec position is truncated"
  let accessMode ← leU16 basic 26 "local access mode is truncated"
  let firstChapter ← byte basic 28 "local first chapter is truncated"
  let lastChapter ← byte basic 29 "local last chapter is truncated"
  return ⟨rawName, rawComment, archiverVersion, minimumVersion, hostOs, flags,
    .fromId methodId, .fromId fileType, modifiedTime, compressedSize, originalSize,
    if ArjCompressionMethod.fromId methodId = .noDataNoCrc then none else some declaredCrc,
    fileSpecPosition, accessMode, firstChapter, lastChapter⟩

/-! ## Headers -/

def accountHeader (size : Nat) (limits : Limits) (totals : HeaderTotals) :
    Except Error HeaderTotals := do
  let bytes ← okOr ((checkedAdd totals.bytes size).bind fun value => checkedAdd value 8)
    (arjFormat "total header bytes overflow")
  checkLimit bytes limits.maxHeaderBytes .headerBytes
  return { totals with bytes := bytes }

inductive Candidate where
  | missed
  | checksumFailure
  | found (record : HeaderRecord) (totals : HeaderTotals)
  deriving DecidableEq, Repr

/-- The body of the loop of `find_main_header`. -/
def candidateAt (bytes : List UInt8) (limits : Limits) (position : Nat) (totals : HeaderTotals) :
    Metered Candidate := do
  if (bytes.drop position).take 2 ≠ magic then return .missed
  else do
    let sizeOffset ← okOr (checkedAdd position 2)
      (arjFormat "candidate header size offset overflows")
    match leU16 bytes sizeOffset "candidate header size is truncated" with
    | .error _ => return .missed
    | .ok size =>
      if size = 0 ∨ maxBasicHeaderBytes < size then return .missed
      else do
        checkLimit size limits.maxHeaderBytes .headerBytes
        let basicStart ← okOr (checkedAdd position 4)
          (arjFormat "candidate basic-header offset overflows")
        match checkedRange bytes basicStart size "ARJ candidate basic-header range overflows"
          "ARJ candidate basic header is truncated" with
        | .error _ => return .missed
        | .ok basic => do
          let crcOffset ← okOr (checkedAdd basicStart size)
            (arjFormat "candidate CRC offset overflows")
          match leU32 bytes crcOffset "candidate header CRC is truncated" with
          | .error _ => return .missed
          | .ok expected => do
            let actual ← checksumWithControl basic
            if actual.toNat ≠ expected then return .checksumFailure
            else do
              let totals ← accountHeader size limits totals
              let nextOffset ← okOr (checkedAdd crcOffset 4)
                (arjFormat "candidate header end overflows")
              return .found ⟨basic, nextOffset⟩ totals

/-- What `find_main_header` returns where its loop ends without a header. -/
def missingMainHeader (bytes : List UInt8) (limits : Limits) (sawChecksumFailure : Bool) : Error :=
  if sawChecksumFailure then .checksum .packageHeader none
  else if limits.sfxScanLimit < bytes.length then
    if limits.sfxScanLimit + 1 < 2 ^ 64 then
      .limitExceeded .sfxScanBytes (limits.sfxScanLimit + 1) limits.sfxScanLimit
    else arjFormat "SFX scan-limit report overflows"
  else arjFormat "validated main header is missing"

/-- The loop of `find_main_header` over the windows that are left. -/
def findLoop (bytes : List UInt8) (limits : Limits) :
    Nat → Nat → HeaderTotals → Bool → Metered (Nat × HeaderRecord × HeaderTotals)
  | 0, _, _, sawChecksumFailure => throw (missingMainHeader bytes limits sawChecksumFailure)
  | windows + 1, position, totals, sawChecksumFailure =>
    if limits.sfxScanLimit < position then
      throw (missingMainHeader bytes limits sawChecksumFailure)
    else do
      checkpoint 1
      match ← candidateAt bytes limits position totals with
      | .missed => findLoop bytes limits windows (position + 1) totals sawChecksumFailure
      | .checksumFailure => findLoop bytes limits windows (position + 1) totals true
      | .found record totals => return (position, record, totals)

def findMainHeader (bytes : List UInt8) (limits : Limits) (totals : HeaderTotals) :
    Metered (Nat × HeaderRecord × HeaderTotals) :=
  findLoop bytes limits (bytes.length - 1) 0 totals false

def readHeaderAt (bytes : List UInt8) (offset : Nat) (limits : Limits) (totals : HeaderTotals) :
    Metered (Option (HeaderRecord × HeaderTotals)) := do
  let found ← checkedRange bytes offset 2 "ARJ header magic range overflows"
    "ARJ header magic is truncated"
  rejectIf (found ≠ magic) (arjFormat "local header magic is invalid")
  let sizeOffset ← okOr (checkedAdd offset 2) (arjFormat "header size offset overflows")
  let size ← leU16 bytes sizeOffset "header size is truncated"
  if size = 0 then return none
  else do
    rejectIf (maxBasicHeaderBytes < size) (arjFormat "basic header exceeds the format maximum")
    checkLimit size limits.maxHeaderBytes .headerBytes
    let basicStart ← okOr (checkedAdd offset 4) (arjFormat "basic-header offset overflows")
    let basic ← checkedRange bytes basicStart size "ARJ basic-header range overflows"
      "ARJ basic header is truncated"
    let crcOffset ← okOr (checkedAdd basicStart size) (arjFormat "header CRC offset overflows")
    let expected ← leU32 bytes crcOffset "header CRC is truncated"
    let actual ← checksumWithControl basic
    rejectIf (actual.toNat ≠ expected) (.checksum .packageHeader none)
    let totals ← accountHeader size limits totals
    let nextOffset ← okOr (checkedAdd crcOffset 4) (arjFormat "header end offset overflows")
    return some (⟨basic, nextOffset⟩, totals)

/-- The loop of `read_extended_headers`.  Every round takes two bytes or more, so one more
than the bytes behind the offset is enough of them. -/
def extendedLoop (bytes : List UInt8) (limits : Limits) :
    Nat → Nat → HeaderTotals → Metered (Nat × HeaderTotals)
  | 0, _, _ => throw (formatError "extended-header size is truncated")
  | fuel + 1, offset, totals => do
    checkpoint 1
    let size ← leU16 bytes offset "extended-header size is truncated"
    let offset ← okOr (checkedAdd offset 2) (arjFormat "extended-header offset overflows")
    let total ← okOr (checkedAdd totals.bytes 2) (arjFormat "total header bytes overflow")
    checkLimit total limits.maxHeaderBytes .headerBytes
    if size = 0 then return (offset, { totals with bytes := total })
    else do
      let properties ← okOr (checkedAdd totals.properties 1)
        (arjFormat "extended-header count overflows")
      checkLimit properties limits.maxHeaderProperties .headerProperties
      checkLimit size limits.maxHeaderBytes .headerBytes
      let extension ← checkedRange bytes offset size "ARJ extended-header range overflows"
        "ARJ extended header is truncated"
      let crcOffset ← okOr (checkedAdd offset size)
        (arjFormat "extended-header CRC offset overflows")
      let expected ← leU32 bytes crcOffset "extended-header CRC is truncated"
      let actual ← checksumWithControl extension
      rejectIf (actual.toNat ≠ expected) (.checksum .packageHeader none)
      let total ← okOr ((checkedAdd total size).bind fun value => checkedAdd value 4)
        (arjFormat "total header bytes overflow")
      checkLimit total limits.maxHeaderBytes .headerBytes
      let offset ← okOr (checkedAdd crcOffset 4)
        (arjFormat "extended-header end offset overflows")
      extendedLoop bytes limits fuel offset ⟨total, properties⟩

def readExtendedHeaders (bytes : List UInt8) (offset : Nat) (limits : Limits)
    (totals : HeaderTotals) : Metered (Nat × HeaderTotals) :=
  extendedLoop bytes limits (bytes.length + 1 - offset) offset totals

end Arj
end Unpackio
