/-
The record loop of a CPIO archive and `CpioArchive`, from `cpio.rs`: opening, and the
four ways to read a member.
-/
import Unpackio.Cpio.Header
import Unpackio.Extraction

namespace Unpackio
namespace Cpio

structure CpioEntry where
  index : Nat
  format : CpioFormat
  rawName : List UInt8
  inode : Nat
  mode : Nat
  uid : Nat
  gid : Nat
  linkCount : Nat
  modifiedTime : Nat
  size : Nat
  deviceMajor : Nat
  deviceMinor : Nat
  rdevMajor : Nat
  rdevMinor : Nat
  checksum : Option Nat
  dataStart : Nat
  dataEnd : Nat
  deriving DecidableEq, Repr

def CpioEntry.isSymlink (entry : CpioEntry) : Prop := entry.mode &&& 0o170000 = 0o120000

instance (entry : CpioEntry) : Decidable entry.isSymlink := inferInstanceAs (Decidable (_ = _))

def alignPadding (remainder alignment : Nat) : Except Error Nat :=
  if remainder = 0 then .ok 0
  else okOr (checkedSub alignment remainder) (cpioFormat "alignment underflows")

def alignUp (value alignment : Nat) : Except Error Nat := do
  rejectIf (alignment = 0) (cpioFormat "alignment is zero")
  let padding ← alignPadding (value % alignment) alignment
  okOr (checkedAdd value padding) (cpioFormat "alignment overflows")

def validateZeroPadding (bytes : List UInt8) (start finish : Nat) : Except Error Unit := do
  let length ← okOr (checkedSub finish start) (cpioFormat "padding length underflows")
  let padding ← checkedRange bytes start length "CPIO padding range overflows"
    "CPIO padding is truncated"
  rejectIf (∃ byte ∈ padding, byte ≠ 0) (cpioFormat "alignment padding is nonzero")

def byteSumLoop : List (List UInt8) → Nat → Metered Nat
  | [], sum => return sum
  | chunk :: chunks, sum => do
    checkpoint chunk.length
    byteSumLoop chunks (chunk.foldl (fun sum byte => (sum + byte.toNat) % 2 ^ 32) sum)

def byteSum (bytes : List UInt8) : Metered Nat := byteSumLoop (chunks controlChunkSize bytes) 0

def verifyChecksum (data : List UInt8) (entry : CpioEntry) : Metered Unit :=
  match entry.checksum with
  | some expected => do
    let sum ← byteSum data
    rejectIf (sum ≠ expected) (.checksum .member (some entry.index))
  | none => return ()

/-! ## Records -/

/-- What a record holds behind its header. -/
structure RecordBody where
  name : List UInt8
  nameLength : Nat
  dataStart : Nat
  dataEnd : Nat
  data : List UInt8
  recordEnd : Nat
  deriving DecidableEq, Repr

def parseBody (payload : List UInt8) (offset : Nat) (parsed : ParsedHeader) :
    Except Error RecordBody := do
  rejectIf (parsed.nameSize = 0) (cpioFormat "name size is zero")
  let nameStart ← okOr (checkedAdd offset parsed.headerBytes) (cpioFormat "name offset overflows")
  let nameWithNul ← checkedRange payload nameStart parsed.nameSize "CPIO name range overflows"
    "CPIO name is truncated"
  rejectIf (nameWithNul.getLast? ≠ some 0) (cpioFormat "name is not NUL terminated")
  let nameLength ← okOr (checkedSub parsed.nameSize 1) (cpioFormat "name length underflows")
  let name ← checkedRange nameWithNul 0 nameLength "CPIO name range overflows"
    "CPIO name is truncated"
  rejectIf (0 ∈ name) (cpioFormat "name contains an embedded NUL")
  let unalignedData ← okOr (checkedAdd nameStart parsed.nameSize)
    (cpioFormat "data offset overflows")
  let dataStart ← alignUp unalignedData parsed.alignment
  validateZeroPadding payload unalignedData dataStart
  let dataEnd ← okOr (checkedAdd dataStart parsed.fileSize) (cpioFormat "data range overflows")
  let data ← checkedRange payload dataStart parsed.fileSize "CPIO data range overflows"
    "CPIO member data is truncated"
  let recordEnd ← alignUp dataEnd parsed.alignment
  validateZeroPadding payload dataEnd recordEnd
  return ⟨name, nameLength, dataStart, dataEnd, data, recordEnd⟩

structure EntriesState where
  entries : List CpioEntry
  offset : Nat
  totalNameBytes : Nat
  totalHeaderBytes : Nat
  archiveFormat : Option CpioFormat
  sawTrailer : Bool
  deriving DecidableEq, Repr

def EntriesState.initial : EntriesState := ⟨[], 0, 0, 0, none, false⟩

def mergeFormat (archiveFormat : Option CpioFormat) (format : CpioFormat) : CpioFormat :=
  match archiveFormat with
  | none => format
  | some .mixed => .mixed
  | some current => if current = format then current else .mixed

def addHeaderBytes (total : Nat) (parsed : ParsedHeader) (limits : Limits) : Except Error Nat := do
  let total ← okOr ((checkedAdd total parsed.headerBytes).bind fun value =>
    checkedAdd value parsed.nameSize) (cpioFormat "total header bytes overflow")
  checkLimit total limits.maxHeaderBytes .headerBytes
  return total

def parseEntry (state : EntriesState) (parsed : ParsedHeader) (body : RecordBody)
    (limits : Limits) : Metered (CpioEntry × Nat) := do
  let nextCount ← okOr (checkedAdd state.entries.length 1) (cpioFormat "entry count overflows")
  checkLimit nextCount limits.maxFiles .files
  checkLimit body.nameLength limits.maxNameBytesPerEntry .nameBytesPerEntry
  let totalNameBytes ← okOr (checkedAdd state.totalNameBytes body.nameLength)
    (cpioFormat "total name bytes overflow")
  checkLimit totalNameBytes limits.maxTotalNameBytes .totalNameBytes
  checkLimit parsed.fileSize limits.maxEntryOutputBytes .entryOutputBytes
  let entryIndex ← okOr (checkedSub nextCount 1) (cpioFormat "entry index underflows")
  let rawName ← copyBytes body.name
  let entry : CpioEntry := {
    index := entryIndex
    format := parsed.format
    rawName := rawName
    inode := parsed.inode
    mode := parsed.mode
    uid := parsed.uid
    gid := parsed.gid
    linkCount := parsed.linkCount
    modifiedTime := parsed.modifiedTime
    size := parsed.fileSize
    deviceMajor := parsed.deviceMajor
    deviceMinor := parsed.deviceMinor
    rdevMajor := parsed.rdevMajor
    rdevMinor := parsed.rdevMinor
    checksum := parsed.checksum
    dataStart := body.dataStart
    dataEnd := body.dataEnd }
  verifyChecksum body.data entry
  return (entry, totalNameBytes)

/-- The loop of `parse_entries`.  Every record moves the offset, so `fuel` is
the number of bytes. -/
def entriesLoop (payload : List UInt8) (limits : Limits) :
    Nat → EntriesState → Metered EntriesState
  | 0, state => return state
  | fuel + 1, state =>
    if state.offset < payload.length then do
      checkpoint 1
      let parsed ← parseHeader payload state.offset
      let archiveFormat := some (mergeFormat state.archiveFormat parsed.format)
      let totalHeaderBytes ← addHeaderBytes state.totalHeaderBytes parsed limits
      let body ← parseBody payload state.offset parsed
      if body.name = trailerName then do
        rejectIf (parsed.fileSize ≠ 0) (cpioFormat "trailer has data")
        return { state with
          offset := body.recordEnd
          totalHeaderBytes := totalHeaderBytes
          archiveFormat := archiveFormat
          sawTrailer := true }
      else do
        let (entry, totalNameBytes) ← parseEntry state parsed body limits
        entriesLoop payload limits fuel {
          entries := state.entries ++ [entry]
          offset := body.recordEnd
          totalNameBytes := totalNameBytes
          totalHeaderBytes := totalHeaderBytes
          archiveFormat := archiveFormat
          sawTrailer := false }
    else return state

/-- What follows the loop of `parse_entries`. -/
def finishEntries (payload : List UInt8) (state : EntriesState) :
    Except Error (CpioFormat × List CpioEntry) := do
  rejectIf (state.sawTrailer = false) (cpioFormat "trailer is missing")
  let left ← okOr (checkedSub payload.length state.offset)
    (cpioFormat "trailing range underflows")
  let trailing ← checkedRange payload state.offset left "CPIO trailing range overflows"
    "CPIO trailing range is truncated"
  rejectIf (∃ byte ∈ trailing, byte ≠ 0)
    (cpioFormat "payload has nonzero bytes after its trailer")
  let format ← okOr state.archiveFormat (cpioFormat "archive is empty")
  return (format, state.entries)

def parseEntries (payload : List UInt8) (limits : Limits) :
    Metered (CpioFormat × List CpioEntry) := do
  let state ← entriesLoop payload limits payload.length EntriesState.initial
  finishEntries payload state

/-! ## Archives -/

open Extraction

structure CpioArchive where
  bytes : List UInt8
  entries : List CpioEntry
  format : CpioFormat
  limits : Limits
  deriving DecidableEq, Repr

def checkedOutputTotal (current entrySize : Nat) (limits : Limits) : Except Error Nat := do
  checkLimit entrySize limits.maxEntryOutputBytes .entryOutputBytes
  let total ← okOr (checkedAdd current entrySize)
    (.limitExceeded .totalOutputBytes (2 ^ 64 - 1) limits.maxTotalOutputBytes)
  checkLimit total limits.maxTotalOutputBytes .totalOutputBytes
  return total

namespace CpioArchive

def openBytes (bytes : List UInt8) (limits : Limits) : Metered CpioArchive := do
  checkLimit bytes.length limits.maxTotalInputBytes .totalInputBytes
  let (format, entries) ← parseEntries bytes limits
  return ⟨bytes, entries, format, limits⟩

variable (archive : CpioArchive)

def requiredEntry (index : Nat) : Except Error CpioEntry :=
  okOr archive.entries[index]? (cpioFormat "entry index is out of range")

def data (entry : CpioEntry) : Except Error (List UInt8) := do
  let length ← okOr (checkedSub entry.dataEnd entry.dataStart)
    (cpioFormat "member data range underflows")
  checkedRange archive.bytes entry.dataStart length "CPIO member data range overflows"
    "CPIO member data range is invalid"

def verifiedData (entry : CpioEntry) : Metered (List UInt8) := do
  let data ← archive.data entry
  verifyChecksum data entry
  return data

def symlinkTarget (entryIndex : Nat) : Except Error (Option (List UInt8)) := do
  let entry ← archive.requiredEntry entryIndex
  if ¬entry.isSymlink then return none
  else some <$> archive.data entry

def extractEntryTo (entryIndex : Nat) : Copying Nat := do
  let entry ← archive.requiredEntry entryIndex
  let data ← (archive.verifiedData entry).mapRequest CopyRequest.work
  checkLimit entry.size archive.limits.maxEntryOutputBytes .entryOutputBytes
  copyChunks data
  return entry.size

/-- The accounting and the checks of one member. -/
def fetch (total : Nat) (entry : CpioEntry) : Metered (Nat × List UInt8) := do
  let total ← checkedOutputTotal total entry.size archive.limits
  let data ← archive.verifiedData entry
  return (total, data)

def extractEntriesTo : Extracting CpioEntry Nat :=
  extractLoop CpioEntry.index archive.fetch archive.entries 0

def verify : Metered Unit :=
  verifyLoop (fun total entry => Prod.fst <$> archive.fetch total entry) archive.entries 0

end CpioArchive

end Cpio
end Unpackio
