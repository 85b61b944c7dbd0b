/-
Checked V7, ustar, GNU-extension and POSIX pax tar parsing for `.deb` payloads,
from `deb/tar.rs`, with the entries of `deb/mod.rs`.

The totals that the source moves by reference are arguments and results here.
`i128` accumulators never go below zero before the last step, so they are
natural numbers under a bound.
-/
import Unpackio.ParseUtil
import Mathlib.Data.List.DropRight

namespace Unpackio
namespace Deb

def debFormat (detail : String) : Error := formatError ("Debian package: " ++ detail)

def blockBytes : Nat := 512

inductive DebSection where
  | control
  | data
  deriving DecidableEq, Repr

inductive DebEntryKind where
  | regular
  | hardLink
  | symbolicLink
  | characterDevice
  | blockDevice
  | directory
  | fifo
  | other (typeFlag : UInt8)
  deriving DecidableEq, Repr

def DebEntryKind.fromTypeFlag (value : UInt8) : DebEntryKind :=
  if value = 0 ∨ value = 0x30 ∨ value = 0x37 then .regular
  else if value = 0x31 then .hardLink
  else if value = 0x32 then .symbolicLink
  else if value = 0x33 then .characterDevice
  else if value = 0x34 then .blockDevice
  else if value = 0x35 then .directory
  else if value = 0x36 then .fifo
  else .other value

structure DebEntry where
  index : Nat
  tarSection : DebSection
  rawName : List UInt8
  rawLinkName : Option (List UInt8)
  kind : DebEntryKind
  mode : Nat
  uid : Nat
  gid : Nat
  modifiedTime : Option Int
  size : Nat
  userName : Option (List UInt8)
  groupName : Option (List UInt8)
  deviceMajor : Option Nat
  deviceMinor : Option Nat
  headerChecksum : Nat
  dataStart : Nat
  dataEnd : Nat
  deriving DecidableEq, Repr

structure ArchiveTotals where
  files : Nat
  nameBytes : Nat
  headerBytes : Nat
  nextEntryIndex : Nat
  properties : Nat
  deriving DecidableEq, Repr

/-- `ArchiveTotals::default`. -/
def ArchiveTotals.default : ArchiveTotals := ⟨0, 0, 0, 0, 0⟩

structure PaxValues where
  path : Option (List UInt8)
  linkPath : Option (List UInt8)
  size : Option Nat
  uid : Option Nat
  gid : Option Nat
  modifiedTime : Option Int
  userName : Option (List UInt8)
  groupName : Option (List UInt8)
  deriving DecidableEq, Repr

/-- `PaxValues::default`. -/
def PaxValues.default : PaxValues := ⟨none, none, none, none, none, none, none, none⟩

/-- A value that an `i128` can hold. -/
def checkedI128 (value : Nat) : Option Nat := if value < 2 ^ 127 then some value else none

/-- `byte.checked_sub(b'0').filter(|digit| *digit < base)`. -/
def digitOf (base : Nat) (byte : UInt8) : Option Nat :=
  match checkedSub byte.toNat 0x30 with
  | some digit => if digit < base then some digit else none
  | none => none

def decimalBytesLoop (detail : String) : List UInt8 → Nat → Except Error Nat
  | [], value => .ok value
  | byte :: bytes, value => do
    let digit ← okOr (digitOf 10 byte) (debFormat detail)
    let scaled ← okOr (tryFrom 64 (value * 10)) (debFormat detail)
    let value ← okOr (checkedAdd scaled digit) (debFormat detail)
    decimalBytesLoop detail bytes value

def decimalBytes (bytes : List UInt8) (detail : String) : Except Error Nat := do
  rejectIf (bytes = []) (debFormat detail)
  decimalBytesLoop detail bytes 0

/-- `slice.split(|byte| *byte == separator).next()`. -/
def splitFirst (separator : UInt8) (bytes : List UInt8) : List UInt8 :=
  bytes.takeWhile fun byte => byte ≠ separator

def paxTime (bytes : List UInt8) : Except Error Int := do
  let negative := bytes.head? = some 0x2d
  let digits := if negative then bytes.drop 1 else bytes
  let value ← decimalBytes (splitFirst 0x2e digits) "pax mtime is invalid"
  let value ← okOr (tryFrom 63 value) (debFormat "pax mtime is too large")
  return if negative then -(value : Int) else value

def base256Loop (detail : String) : List UInt8 → Nat → Except Error Nat
  | [], value => .ok value
  | byte :: bytes, value => do
    let scaled ← okOr (checkedI128 (value * 256)) (debFormat detail)
    let value ← okOr (checkedI128 (scaled + byte.toNat)) (debFormat detail)
    base256Loop detail bytes value

def octalLoop (detail : String) : List UInt8 → Nat → Bool → Bool → Except Error Nat
  | [], value, _, _ => .ok value
  | byte :: bytes, value, sawDigit, trailing =>
    if byte = 0 ∨ byte = 0x20 then
      octalLoop detail bytes value sawDigit (if sawDigit then true else trailing)
    else do
      rejectIf (trailing = true) (debFormat detail)
      let digit ← okOr (digitOf 8 byte) (debFormat detail)
      let scaled ← okOr (checkedI128 (value * 8)) (debFormat detail)
      let value ← okOr (checkedI128 (scaled + digit)) (debFormat detail)
      octalLoop detail bytes value true trailing

def fieldNumber (field : List UInt8) (detail : String) : Except Error Int := do
  let first ← okOr field.head? (debFormat detail)
  if first &&& 0x80 ≠ 0 then do
    let bitCount ← okOr (checkedSub (field.length * 8) 1) (debFormat detail)
    rejectIf (127 ≤ bitCount) (debFormat detail)
    let value ← base256Loop detail (field.drop 1) (first &&& 0x7f).toNat
    let signShift ← okOr (checkedSub bitCount 1) (debFormat detail)
    if value &&& 2 ^ signShift ≠ 0 then return (value : Int) - 2 ^ bitCount
    else return value
  else do
    let value ← octalLoop detail field 0 false false
    return value

def tarI128 (bytes : List UInt8) (offset length : Nat) (detail : String) : Except Error Int := do
  let field ← checkedRange bytes offset length detail detail
  fieldNumber field detail

def tarU64 (bytes : List UInt8) (offset length : Nat) (detail : String) : Except Error Nat := do
  let value ← tarI128 bytes offset length detail
  if 0 ≤ value ∧ value < 2 ^ 64 then return value.toNat else throw (debFormat detail)

def tarI64 (bytes : List UInt8) (offset length : Nat) (detail : String) : Except Error Int := do
  let value ← tarI128 bytes offset length detail
  if -2 ^ 63 ≤ value ∧ value < 2 ^ 63 then return value else throw (debFormat detail)

/-- `u32::try_from`. -/
def toU32 (value : Nat) (detail : String) : Except Error Nat :=
  okOr (tryFrom 32 value) (debFormat detail)

def tarString (bytes : List UInt8) (offset length : Nat) (detail : String) :
    Except Error (List UInt8) := do
  let field ← checkedRange bytes offset length detail detail
  let value := field.takeWhile fun byte => byte ≠ 0
  let remainder := field.drop value.length
  rejectIf (∃ byte ∈ remainder, byte ≠ 0 ∧ byte ≠ 0x20)
    (debFormat "tar string padding is invalid")
  return value

def copyPaxName (value : List UInt8) (limits : Limits) : Metered (List UInt8) := do
  rejectIf (0 ∈ value) (debFormat "pax string contains NUL")
  checkLimit value.length limits.maxNameBytesPerEntry .nameBytesPerEntry
  copyBytes value

def longValueEnd (data : List UInt8) : List UInt8 :=
  data.rdropWhile fun byte => byte = 0 ∨ byte = 0x0a

def parseLongValue (data : List UInt8) (limits : Limits) : Metered (List UInt8) :=
  copyPaxName (longValueEnd data) limits

def copyOptional (value : Option (List UInt8)) : Metered (Option (List UInt8)) :=
  match value with
  | some bytes => some <$> copyBytes bytes
  | none => return none

/-! ## Pax records -/

def keyPath : List UInt8 := [0x70, 0x61, 0x74, 0x68]
def keyLinkPath : List UInt8 := [0x6c, 0x69, 0x6e, 0x6b, 0x70, 0x61, 0x74, 0x68]
def keySize : List UInt8 := [0x73, 0x69, 0x7a, 0x65]
def keyUid : List UInt8 := [0x75, 0x69, 0x64]
def keyGid : List UInt8 := [0x67, 0x69, 0x64]
def keyMtime : List UInt8 := [0x6d, 0x74, 0x69, 0x6d, 0x65]
def keyUname : List UInt8 := [0x75, 0x6e, 0x61, 0x6d, 0x65]
def keyGname : List UInt8 := [0x67, 0x6e, 0x61, 0x6d, 0x65]

def applyPaxValue (key value : List UInt8) (values : PaxValues) (limits : Limits) :
    Metered PaxValues :=
  if key = keyPath then do
    let path ← copyPaxName value limits
    return { values with path := some path }
  else if key = keyLinkPath then do
    let linkPath ← copyPaxName value limits
    return { values with linkPath := some linkPath }
  else if key = keySize then do
    let size ← decimalBytes value "pax size is invalid"
    return { values with size := some size }
  else if key = keyUid then do
    let uid ← decimalBytes value "pax uid is invalid"
    return { values with uid := some uid }
  else if key = keyGid then do
    let gid ← decimalBytes value "pax gid is invalid"
    return { values with gid := some gid }
  else if key = keyMtime then do
    let modifiedTime ← paxTime value
    return { values with modifiedTime := some modifiedTime }
  else if key = keyUname then do
    let userName ← copyPaxName value limits
    return { values with userName := some userName }
  else if key = keyGname then do
    let groupName ← copyPaxName value limits
    return { values with groupName := some groupName }
  else do
    consumeBytes value
    return values

/-- `slice.iter().position(|item| *item == byte)`. -/
def positionOf (byte : UInt8) (bytes : List UInt8) : Option Nat :=
  bytes.findIdx? fun item => item = byte

/-- One record at `offset`: its key, its value and its length. -/
def paxRecord (data : List UInt8) (offset : Nat) :
    Except Error (List UInt8 × List UInt8 × Nat) := do
  let left ← okOr (checkedSub data.length offset) (debFormat "pax remaining length underflows")
  let remaining ← checkedRange data offset left "pax record range overflows"
    "pax record is truncated"
  let separator ← okOr (positionOf 0x20 remaining)
    (debFormat "pax record length is not terminated")
  let recordLength ← decimalBytes (remaining.take separator) "pax record length is invalid"
  rejectIf (recordLength = 0) (debFormat "pax record length is zero")
  let record ← checkedRange data offset recordLength "pax record range overflows"
    "pax record is truncated"
  rejectIf (record.getLast? ≠ some 0x0a) (debFormat "pax record is not newline terminated")
  let prefixBytes ← okOr (checkedAdd separator 1)
    (debFormat "pax record prefix length overflows")
  let bodyLength ← okOr ((checkedSub recordLength prefixBytes).bind fun value => checkedSub value 1)
    (debFormat "pax record body length underflows")
  let body ← checkedRange record prefixBytes bodyLength "pax record body range overflows"
    "pax record body is truncated"
  let equals ← okOr (positionOf 0x3d body) (debFormat "pax record has no equals separator")
  let valueStart ← okOr (checkedAdd equals 1) (debFormat "pax value offset overflows")
  return (body.take equals, body.drop valueStart, recordLength)

/-- The loop of `parse_pax`.  Every record takes a byte, so `fuel` is the number
of bytes left. -/
def parsePaxLoop (data : List UInt8) (limits : Limits) :
    Nat → Nat → PaxValues → ArchiveTotals → Metered (PaxValues × ArchiveTotals)
  | 0, offset, values, totals => do
    rejectIf (offset ≠ data.length) (debFormat "pax records were not consumed exactly")
    return (values, totals)
  | fuel + 1, offset, values, totals =>
    if offset < data.length then do
      checkpoint 1
      let properties ← okOr (checkedAdd totals.properties 1)
        (debFormat "pax property count overflows")
      checkLimit properties limits.maxHeaderProperties .headerProperties
      let (key, value, recordLength) ← paxRecord data offset
      let values ← applyPaxValue key value values limits
      let offset ← okOr (checkedAdd offset recordLength)
        (debFormat "pax record offset overflows")
      parsePaxLoop data limits fuel offset values { totals with properties := properties }
    else do
      rejectIf (offset ≠ data.length) (debFormat "pax records were not consumed exactly")
      return (values, totals)

def parsePax (data : List UInt8) (values : PaxValues) (limits : Limits)
    (totals : ArchiveTotals) : Metered (PaxValues × ArchiveTotals) :=
  parsePaxLoop data limits data.length 0 values totals

def checksumByte (index : Nat) (byte : UInt8) : UInt8 :=
  if 148 ≤ index ∧ index < 156 then 0x20 else byte

/-- The two sums of the header bytes, from `index` on. -/
def checksumLoop : List UInt8 → Nat → Nat → Int → Metered (Nat × Int)
  | [], _, unsigned, signed => return (unsigned, signed)
  | byte :: bytes, index, unsigned, signed => do
    checkpoint 1
    let value := checksumByte index byte
    let unsigned ← okOr (checkedAdd unsigned value.toNat) (debFormat "tar checksum overflows")
    let sum := signed + value.toInt8.toInt
    rejectIf (¬(-2 ^ 63 ≤ sum ∧ sum < 2 ^ 63)) (debFormat "tar signed checksum overflows")
    checksumLoop bytes (index + 1) unsigned sum

def verifyHeaderChecksum (header : List UInt8) : Metered Unit := do
  let expected ← tarU64 header 148 8 "tar checksum is invalid"
  let (unsigned, signed) ← checksumLoop header 0 0 0
  rejectIf (unsigned ≠ expected ∧ signed ≠ expected) (.checksum .packageHeader none)

def validateMagic (header : List UInt8) : Except Error Unit := do
  let magic ← okOr (getRange header 257 263) (debFormat "tar magic is truncated")
  rejectIf (¬(magic = [0x75, 0x73, 0x74, 0x61, 0x72, 0] ∨
    magic = [0x75, 0x73, 0x74, 0x61, 0x72, 0x20] ∨ ∀ byte ∈ magic, byte = 0))
    (debFormat "tar magic is invalid")

def headerPath (header : List UInt8) (limits : Limits) : Metered (List UInt8) := do
  let name ← tarString header 0 100 "tar name is truncated"
  let pathPrefix ← tarString header 345 155 "tar prefix is truncated"
  if pathPrefix = [] then copyBytes name
  else do
    let total ← okOr ((checkedAdd pathPrefix.length 1).bind fun value =>
      checkedAdd value name.length)
      (debFormat "tar path length overflows")
    checkLimit total limits.maxNameBytesPerEntry .nameBytesPerEntry
    checkpoint total
    return pathPrefix ++ 0x2f :: name

def validateName (name : List UInt8) (limits : Limits) (totals : ArchiveTotals) :
    Except Error ArchiveTotals := do
  rejectIf (name = []) (debFormat "tar member name is empty")
  rejectIf (0 ∈ name) (debFormat "tar member name contains NUL")
  checkLimit name.length limits.maxNameBytesPerEntry .nameBytesPerEntry
  let nameBytes ← okOr (checkedAdd totals.nameBytes name.length)
    (debFormat "total Debian name bytes overflow")
  checkLimit nameBytes limits.maxTotalNameBytes .totalNameBytes
  return { totals with nameBytes := nameBytes }

def alignPadding (remainder alignment : Nat) : Except Error Nat :=
  if remainder = 0 then .ok 0
  else okOr (checkedSub alignment remainder) (debFormat "tar alignment underflows")

def alignUp (value alignment : Nat) : Except Error Nat := do
  let padding ← alignPadding (value % alignment) alignment
  okOr (checkedAdd value padding) (debFormat "tar alignment overflows")

def nextRecordOffset (dataStart size : Nat) : Except Error Nat := do
  let dataEnd ← okOr (checkedAdd dataStart size) (debFormat "tar record data range overflows")
  alignUp dataEnd blockBytes

/-- `totals.header_bytes += count`, under its limit. -/
def addHeaderBytes (totals : ArchiveTotals) (count : Nat) (limits : Limits) :
    Except Error ArchiveTotals := do
  let headerBytes ← okOr (checkedAdd totals.headerBytes count)
    (debFormat "total tar header bytes overflow")
  checkLimit headerBytes limits.maxHeaderBytes .headerBytes
  return { totals with headerBytes := headerBytes }

/-! ## The archive -/

/-- The variables of the record loop. -/
structure TarState where
  offset : Nat
  entries : List DebEntry
  globalPax : PaxValues
  localPax : Option PaxValues
  longName : Option (List UInt8)
  longLink : Option (List UInt8)
  totals : ArchiveTotals
  deriving DecidableEq, Repr

/-- `bytes` is only this block of zeros: the end of the archive. -/
def parseEnd (bytes : List UInt8) (limits : Limits) (offset : Nat) (totals : ArchiveTotals) :
    Metered ArchiveTotals := do
  let secondOffset ← okOr (checkedAdd offset blockBytes)
    (debFormat "tar end marker offset overflows")
  let second ← checkedRange bytes secondOffset blockBytes "tar end marker range overflows"
    "tar second end block is truncated"
  rejectIf (∃ byte ∈ second, byte ≠ 0) (debFormat "tar second end block is nonzero")
  let totals ← addHeaderBytes totals blockBytes limits
  let trailingStart ← okOr (checkedAdd secondOffset blockBytes)
    (debFormat "tar trailing offset overflows")
  let trailingLength ← okOr (checkedSub bytes.length trailingStart)
    (debFormat "tar trailing range underflows")
  let trailing ← checkedRange bytes trailingStart trailingLength "tar trailing range overflows"
    "tar trailing range is truncated"
  rejectIf (∃ byte ∈ trailing, byte ≠ 0) (debFormat "tar has nonzero bytes after its end marker")
  consumeBytes trailing
  return totals

def applyExtension (data : List UInt8) (limits : Limits) (state : TarState) (typeFlag : UInt8) :
    Metered TarState :=
  if typeFlag = 0x67 then do
    let (values, totals) ← parsePax data state.globalPax limits state.totals
    return { state with globalPax := values, totals := totals }
  else if typeFlag = 0x78 then do
    let (values, totals) ← parsePax data PaxValues.default limits state.totals
    return { state with localPax := some values, totals := totals }
  else if typeFlag = 0x4c then do
    let longName ← parseLongValue data limits
    return { state with longName := some longName }
  else if typeFlag = 0x4b then do
    let longLink ← parseLongValue data limits
    return { state with longLink := some longLink }
  else throw (debFormat "internal tar extension dispatch is invalid")

/-- The branch of the extension records `g`, `x`, `L` and `K`. -/
def parseExtension (bytes : List UInt8) (limits : Limits) (state : TarState) (typeFlag : UInt8)
    (headerSize dataStart : Nat) : Metered TarState := do
  checkLimit headerSize limits.maxHeaderBytes .headerBytes
  let totals ← addHeaderBytes state.totals headerSize limits
  let data ← checkedRange bytes dataStart headerSize "tar extension data range overflows"
    "tar extension data is truncated"
  let state ← applyExtension data limits { state with totals := totals } typeFlag
  let offset ← nextRecordOffset dataStart headerSize
  return { state with offset := offset }

/-- `(!value.is_empty()).then_some(value)`. -/
def nonEmpty (value : List UInt8) : Option (List UInt8) := if value = [] then none else some value

def checkLink (link : Option (List UInt8)) (limits : Limits) : Except Error Unit :=
  match link with
  | some value => do
    rejectIf (0 ∈ value) (debFormat "tar link name contains NUL")
    checkLimit value.length limits.maxNameBytesPerEntry .nameBytesPerEntry
  | none => .ok ()

def deviceNumber (header : List UInt8) (kind : DebEntryKind) (offset : Nat)
    (invalidDetail largeDetail : String) : Except Error (Option Nat) :=
  if kind = .blockDevice ∨ kind = .characterDevice then do
    let value ← tarU64 header offset 8 invalidDetail
    some <$> toU32 value largeDetail
  else .ok none

/-- The branch of a member, which takes the pending extensions. -/
def parseMember (bytes header : List UInt8) (tarSection : DebSection) (limits : Limits)
    (state : TarState) (typeFlag : UInt8) (headerSize dataStart : Nat) : Metered TarState := do
  let local' := state.localPax.getD PaxValues.default
  let headerName ← headerPath header limits
  let name := ((local'.path.or state.globalPax.path).or state.longName).getD headerName
  let totals ← validateName name limits state.totals
  let headerLink ← tarString header 157 100 "tar link name is truncated"
  let link := ((local'.linkPath.or state.globalPax.linkPath).or state.longLink).or
    (nonEmpty headerLink)
  checkLink link limits
  let size := (local'.size.or state.globalPax.size).getD headerSize
  checkLimit size limits.maxEntryOutputBytes .entryOutputBytes
  let dataEnd ← okOr (checkedAdd dataStart size) (debFormat "tar member data range overflows")
  let _ ← checkedRange bytes dataStart size "tar member data range overflows"
    "tar member data is truncated"
  let files ← okOr (checkedAdd totals.files 1) (debFormat "total Debian entry count overflows")
  checkLimit files limits.maxFiles .files
  let index := totals.nextEntryIndex
  let nextEntryIndex ← okOr (checkedAdd index 1) (debFormat "Debian entry index overflows")
  let modeValue ← tarU64 header 100 8 "tar mode is invalid"
  let mode ← toU32 modeValue "tar mode is too large"
  let headerUid ← tarU64 header 108 8 "tar uid is invalid"
  let headerGid ← tarU64 header 116 8 "tar gid is invalid"
  let headerTime ← tarI64 header 136 12 "tar mtime is invalid"
  let headerUser ← tarString header 265 32 "tar user name is truncated"
  let headerGroup ← tarString header 297 32 "tar group name is truncated"
  let kind := DebEntryKind.fromTypeFlag typeFlag
  let deviceMajor ← deviceNumber header kind 329 "tar device major is invalid"
    "tar device major is too large"
  let deviceMinor ← deviceNumber header kind 337 "tar device minor is invalid"
    "tar device minor is too large"
  let checksum ← tarU64 header 148 8 "tar checksum is invalid"
  let checksum ← toU32 checksum "tar checksum is too large"
  let rawName ← copyBytes name
  let rawLinkName ← copyOptional link
  let userName ← copyOptional
    ((local'.userName.or state.globalPax.userName).or (nonEmpty headerUser))
  let groupName ← copyOptional
    ((local'.groupName.or state.globalPax.groupName).or (nonEmpty headerGroup))
  let entry : DebEntry :=
    { index := index, tarSection := tarSection, rawName := rawName, rawLinkName := rawLinkName,
      kind := kind, mode := mode,
      uid := (local'.uid.or state.globalPax.uid).getD headerUid,
      gid := (local'.gid.or state.globalPax.gid).getD headerGid,
      modifiedTime := (local'.modifiedTime.or state.globalPax.modifiedTime).or (some headerTime),
      size := size, userName := userName, groupName := groupName, deviceMajor := deviceMajor,
      deviceMinor := deviceMinor, headerChecksum := checksum, dataStart := dataStart,
      dataEnd := dataEnd }
  let offset ← nextRecordOffset dataStart size
  return { offset := offset, entries := state.entries ++ [entry], globalPax := state.globalPax,
           localPax := none, longName := none, longLink := none,
           totals := { totals with files := files, nextEntryIndex := nextEntryIndex } }

def isExtensionFlag (typeFlag : UInt8) : Prop :=
  typeFlag = 0x67 ∨ typeFlag = 0x78 ∨ typeFlag = 0x4c ∨ typeFlag = 0x4b

instance (typeFlag : UInt8) : Decidable (isExtensionFlag typeFlag) :=
  inferInstanceAs (Decidable (_ ∨ _))

def parseRecord (bytes header : List UInt8) (tarSection : DebSection) (limits : Limits)
    (state : TarState) : Metered TarState := do
  verifyHeaderChecksum header
  validateMagic header
  let headerSize ← tarU64 header 124 12 "tar size is invalid"
  let typeFlag ← okOr header[156]? (debFormat "tar type flag is truncated")
  let dataStart ← okOr (checkedAdd state.offset blockBytes)
    (debFormat "tar data offset overflows")
  if isExtensionFlag typeFlag then
    parseExtension bytes limits state typeFlag headerSize dataStart
  else parseMember bytes header tarSection limits state typeFlag headerSize dataStart

/-- The record loop, up to the end marker.  Every round moves the offset by a
block, so `fuel` is the number of bytes. -/
def parseLoop (bytes : List UInt8) (tarSection : DebSection) (limits : Limits) :
    Nat → TarState → Metered TarState
  | 0, _ => throw (debFormat "tar end marker is missing")
  | fuel + 1, state =>
    if state.offset < bytes.length then do
      checkpoint 1
      let header ← checkedRange bytes state.offset blockBytes "tar header range overflows"
        "tar header is truncated"
      let totals ← addHeaderBytes state.totals blockBytes limits
      let state := { state with totals := totals }
      if ∀ byte ∈ header, byte = 0 then do
        let totals ← parseEnd bytes limits state.offset state.totals
        return { state with totals := totals }
      else do
        let state ← parseRecord bytes header tarSection limits state
        parseLoop bytes tarSection limits fuel state
    else throw (debFormat "tar end marker is missing")

def TarState.initial (totals : ArchiveTotals) : TarState where
  offset := 0
  entries := []
  globalPax := PaxValues.default
  localPax := none
  longName := none
  longLink := none
  totals := totals

def parse (bytes : List UInt8) (tarSection : DebSection) (limits : Limits)
    (totals : ArchiveTotals) : Metered (List DebEntry × ArchiveTotals) := do
  let state ← parseLoop bytes tarSection limits (bytes.length + 1) (TarState.initial totals)
  rejectIf (state.localPax.isSome ∨ state.longName.isSome ∨ state.longLink.isSome)
    (debFormat "tar extension header has no following member")
  return (state.entries, state.totals)

end Deb
end Unpackio
