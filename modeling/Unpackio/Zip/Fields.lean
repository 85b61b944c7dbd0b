/-
The fields of ZIP records, from `zip/parse.rs`: fixed parts, extra fields, ZIP64
sizes, the WinZip AES field, names, and timestamps.
-/
import Unpackio.Zip.Decode

namespace Unpackio
namespace Zip

def centralFixedBytes : Nat := 46

def localFixedBytes : Nat := 30

def centralSignature : Nat := 0x02014b50

def localSignature : Nat := 0x04034b50

def extraZip64 : Nat := 0x0001

def extraStrongEncryption : Nat := 0x0017

def extraUnicodePath : Nat := 0x7075

def extraWinzipAes : Nat := 0x9901

def flagEncrypted : Nat := 1 <<< 0

def flagDataDescriptor : Nat := 1 <<< 3

def flagStrongEncryption : Nat := 1 <<< 6

def flagUtf8 : Nat := 1 <<< 11

def flagMaskedHeaderValues : Nat := 1 <<< 13

/-- `u16::MAX` and `u32::MAX`, which stand for a value in the ZIP64 field. -/
def u16Max : Nat := 2 ^ 16 - 1

def u32Max : Nat := 2 ^ 32 - 1

/-- `le_u16`, `le_u32` and `le_u64`. -/
def leUint (width : Nat) (bytes : List UInt8) (offset : Nat) (detail : String) :
    Except Error Nat := do
  let value ← checkedRange bytes offset width detail detail
  return fromLeBytes value

def leU16 : List UInt8 → Nat → String → Except Error Nat := leUint 2

def leU32 : List UInt8 → Nat → String → Except Error Nat := leUint 4

def leU64 : List UInt8 → Nat → String → Except Error Nat := leUint 8

def advance (offset amount : Nat) (detail : String) : Except Error Nat :=
  okOr (checkedAdd offset amount) (zipFormat detail)

/-! ## Fixed parts -/

structure CentralFixed where
  versionMadeBy : Nat
  versionNeeded : Nat
  flags : Nat
  method : Nat
  modifiedTime : Nat
  modifiedDate : Nat
  crc32 : Nat
  compressedSize : Nat
  uncompressedSize : Nat
  nameLength : Nat
  extraLength : Nat
  commentLength : Nat
  diskStart : Nat
  internalAttributes : Nat
  externalAttributes : Nat
  localHeaderOffset : Nat
  deriving DecidableEq, Repr

structure LocalFixed where
  flags : Nat
  method : Nat
  crc32 : Nat
  compressedSize : Nat
  uncompressedSize : Nat
  nameLength : Nat
  extraLength : Nat
  deriving DecidableEq, Repr

def parseCentralFixed (bytes : List UInt8) (offset : Nat) : Except Error CentralFixed := do
  let fixed ← checkedRange bytes offset centralFixedBytes
    "central-directory fixed range overflows" "central-directory fixed record is truncated"
  let signature ← leU32 fixed 0 "central-directory signature is truncated"
  rejectIf (signature ≠ centralSignature) (zipFormat "central-directory signature is invalid")
  let versionMadeBy ← leU16 fixed 4 "version-made-by field is truncated"
  let versionNeeded ← leU16 fixed 6 "version-needed field is truncated"
  let flags ← leU16 fixed 8 "entry flags are truncated"
  let method ← leU16 fixed 10 "entry method is truncated"
  let modifiedTime ← leU16 fixed 12 "entry time is truncated"
  let modifiedDate ← leU16 fixed 14 "entry date is truncated"
  let crc32 ← leU32 fixed 16 "entry CRC is truncated"
  let compressedSize ← leU32 fixed 20 "compressed size is truncated"
  let uncompressedSize ← leU32 fixed 24 "uncompressed size is truncated"
  let nameLength ← leU16 fixed 28 "name length is truncated"
  let extraLength ← leU16 fixed 30 "extra length is truncated"
  let commentLength ← leU16 fixed 32 "comment length is truncated"
  let diskStart ← leU16 fixed 34 "disk-start field is truncated"
  let internalAttributes ← leU16 fixed 36 "internal attributes are truncated"
  let externalAttributes ← leU32 fixed 38 "external attributes are truncated"
  let localHeaderOffset ← leU32 fixed 42 "local-header offset is truncated"
  return {
    versionMadeBy := versionMadeBy
    versionNeeded := versionNeeded
    flags := flags
    method := method
    modifiedTime := modifiedTime
    modifiedDate := modifiedDate
    crc32 := crc32
    compressedSize := compressedSize
    uncompressedSize := uncompressedSize
    nameLength := nameLength
    extraLength := extraLength
    commentLength := commentLength
    diskStart := diskStart
    internalAttributes := internalAttributes
    externalAttributes := externalAttributes
    localHeaderOffset := localHeaderOffset }

def parseLocalFixed (bytes : List UInt8) (offset : Nat) : Except Error LocalFixed := do
  let fixed ← checkedRange bytes offset localFixedBytes "local-header fixed range overflows"
    "local-header fixed record is truncated"
  let signature ← leU32 fixed 0 "local-header signature is truncated"
  rejectIf (signature ≠ localSignature) (zipFormat "local-header signature is invalid")
  let flags ← leU16 fixed 6 "local flags are truncated"
  let method ← leU16 fixed 8 "local method is truncated"
  let crc32 ← leU32 fixed 14 "local CRC is truncated"
  let compressedSize ← leU32 fixed 18 "local compressed size is truncated"
  let uncompressedSize ← leU32 fixed 22 "local uncompressed size is truncated"
  let nameLength ← leU16 fixed 26 "local name length is truncated"
  let extraLength ← leU16 fixed 28 "local extra length is truncated"
  return {
    flags := flags
    method := method
    crc32 := crc32
    compressedSize := compressedSize
    uncompressedSize := uncompressedSize
    nameLength := nameLength
    extraLength := extraLength }

/-- The loop of `validate_extra_fields`.  Every round moves at least four bytes. -/
def validateExtraLoop (bytes : List UInt8) : Nat → Nat → Except Error Nat
  | 0, position => return position
  | fuel + 1, position =>
    if position < bytes.length then do
      let header ← checkedRange bytes position 4 "ZIP extra-field header range overflows"
        "ZIP extra-field header is truncated"
      let bodyLength ← leU16 header 2 "ZIP extra-field length is truncated"
      let position ← advance position 4 "ZIP extra-field offset overflows"
      let _ ← checkedRange bytes position bodyLength "ZIP extra-field body range overflows"
        "ZIP extra-field body is truncated"
      let position ← advance position bodyLength "ZIP extra-field offset overflows"
      validateExtraLoop bytes fuel position
    else return position

def validateExtraFields (bytes : List UInt8) : Except Error Unit := do
  let position ← validateExtraLoop bytes bytes.length 0
  rejectIf (position ≠ bytes.length) (zipFormat "ZIP extra fields were not consumed exactly")

/-- The loop of `find_unique_extra`. -/
def findExtraLoop (bytes : List UInt8) (identifier : Nat) :
    Nat → Nat → Option (List UInt8) → Except Error (Option (List UInt8))
  | 0, _, found => return found
  | fuel + 1, position, found =>
    if position < bytes.length then do
      let fieldIdentifier ← leU16 bytes position "ZIP extra-field identifier is truncated"
      let lengthOffset ← advance position 2 "ZIP extra-field offset overflows"
      let bodyLength ← leU16 bytes lengthOffset "ZIP extra-field length is truncated"
      let bodyStart ← advance position 4 "ZIP extra-field offset overflows"
      let body ← checkedRange bytes bodyStart bodyLength "ZIP extra-field range overflows"
        "ZIP extra-field body is truncated"
      rejectIf (fieldIdentifier = identifier ∧ found.isSome)
        (zipFormat "critical ZIP extra field is duplicated")
      let position ← advance bodyStart bodyLength "ZIP extra-field offset overflows"
      findExtraLoop bytes identifier fuel position
        (if fieldIdentifier = identifier then some body else found)
    else return found

def findUniqueExtra (bytes : List UInt8) (identifier : Nat) :
    Except Error (Option (List UInt8)) :=
  findExtraLoop bytes identifier bytes.length 0 none

structure ResolvedCentral where
  compressedSize : Nat
  uncompressedSize : Nat
  localHeaderOffset : Nat
  diskStart : Nat
  descriptorUsesZip64 : Bool
  deriving DecidableEq, Repr

def resolveNext (width marker fixedValue : Nat) (field : List UInt8) (position : Nat)
    (truncated overflows : String) : Except Error (Nat × Nat) :=
  if fixedValue = marker then do
    let value ← leUint width field position truncated
    let position ← advance position width overflows
    return (value, position)
  else return (fixedValue, position)

def resolveLocalSizes (fixed : LocalFixed) (extra : List UInt8) : Except Error (Nat × Nat) :=
  if fixed.uncompressedSize ≠ u32Max ∧ fixed.compressedSize ≠ u32Max then
    return (fixed.compressedSize, fixed.uncompressedSize)
  else do
    let found ← findUniqueExtra extra extraZip64
    let field ← okOr found (zipFormat "local ZIP64 sizes are missing")
    let (uncompressed, position) ← resolveNext 8 u32Max fixed.uncompressedSize field 0
      "local ZIP64 uncompressed size is truncated" "local ZIP64 offset overflows"
    let (compressed, position) ← resolveNext 8 u32Max fixed.compressedSize field position
      "local ZIP64 compressed size is truncated" "local ZIP64 offset overflows"
    rejectIf (position ≠ field.length) (zipFormat "local ZIP64 size field has trailing bytes")
    return (compressed, uncompressed)

def resolveCentral (fixed : CentralFixed) (extra : List UInt8) : Except Error ResolvedCentral :=
  if fixed.uncompressedSize ≠ u32Max ∧ fixed.compressedSize ≠ u32Max ∧
      fixed.localHeaderOffset ≠ u32Max ∧ fixed.diskStart ≠ u16Max then
    return {
      compressedSize := fixed.compressedSize
      uncompressedSize := fixed.uncompressedSize
      localHeaderOffset := fixed.localHeaderOffset
      diskStart := fixed.diskStart
      descriptorUsesZip64 := false }
  else do
    let found ← findUniqueExtra extra extraZip64
    let field ← okOr found (zipFormat "central ZIP64 field is missing")
    let (uncompressedSize, position) ← resolveNext 8 u32Max fixed.uncompressedSize field 0
      "ZIP64 uncompressed size is truncated" "ZIP64 field offset overflows"
    let (compressedSize, position) ← resolveNext 8 u32Max fixed.compressedSize field position
      "ZIP64 compressed size is truncated" "ZIP64 field offset overflows"
    let (localHeaderOffset, position) ← resolveNext 8 u32Max fixed.localHeaderOffset field
      position "ZIP64 local-header offset is truncated" "ZIP64 field offset overflows"
    let (diskStart, position) ← resolveNext 4 u16Max fixed.diskStart field position
      "ZIP64 disk number is truncated" "ZIP64 field offset overflows"
    rejectIf (position ≠ field.length) (zipFormat "central ZIP64 field has trailing bytes")
    return {
      compressedSize := compressedSize
      uncompressedSize := uncompressedSize
      localHeaderOffset := localHeaderOffset
      diskStart := diskStart
      descriptorUsesZip64 :=
        decide (fixed.uncompressedSize = u32Max ∨ fixed.compressedSize = u32Max) }

structure ParsedAes where
  vendorVersion : Nat
  keyBytes : Nat
  method : Nat
  deriving DecidableEq, Repr

def aesKeyBytes (strength : UInt8) : Except Error Nat :=
  if strength = 1 then .ok 16
  else if strength = 2 then .ok 24
  else if strength = 3 then .ok 32
  else .error (zipFormat "WinZip AES strength is invalid")

def parseAes (extra : List UInt8) (headerMethod : Nat) : Except Error (Option ParsedAes) := do
  let field ← findUniqueExtra extra extraWinzipAes
  if headerMethod ≠ 99 then do
    rejectIf field.isSome (zipFormat "WinZip AES field appears on a non-AES method")
    return none
  else do
    let field ← okOr field (zipFormat "WinZip AES field is missing")
    rejectIf (field.length ≠ 7) (zipFormat "WinZip AES field must contain seven bytes")
    let vendorVersion ← leU16 field 0 "WinZip AES vendor version is truncated"
    rejectIf (¬(vendorVersion = 1 ∨ vendorVersion = 2))
      (zipFormat "WinZip AES vendor version is unsupported")
    rejectIf (getRange field 2 4 ≠ some [0x41, 0x45])
      (zipFormat "WinZip AES vendor identifier is invalid")
    let strength ← okOr field[4]? (zipFormat "WinZip AES strength is missing")
    let keyBytes ← aesKeyBytes strength
    let method ← leU16 field 5 "WinZip AES compression method is truncated"
    rejectIf (method = 99) (zipFormat "WinZip AES method recursively wraps itself")
    return some { vendorVersion := vendorVersion, keyBytes := keyBytes, method := method }

/-- `copy_utf8`. -/
def copyUtf8 (bytes : List UInt8) (detail : String) : Except Error String :=
  okOr (String.fromUTF8? ⟨bytes.toArray⟩) (zipFormat detail)

def unicodePath (rawName extra : List UInt8) : Except Error (Option (List UInt8)) := do
  match ← findUniqueExtra extra extraUnicodePath with
  | none => return none
  | some unicode =>
    if 5 ≤ unicode.length ∧ unicode.head? = some 1 then do
      let expectedCrc ← leU32 unicode 1 "Unicode-path CRC is truncated"
      if (Crc32.checksum rawName).toNat = expectedCrc then
        some <$> okOr (getRange unicode 5 unicode.length)
          (zipFormat "Unicode-path value is truncated")
      else return none
    else return none

def decodeName (rawName : List UInt8) (flags : Nat) (extra : List UInt8) : Metered String := do
  match ← unicodePath rawName extra with
  | some utf8 => do
    consumeBytes utf8
    copyUtf8 utf8 "Unicode-path value is not valid UTF-8"
  | none => do
    consumeBytes rawName
    if flags &&& flagUtf8 ≠ 0 then copyUtf8 rawName "UTF-8 name flag is set on an invalid name"
    else decodeCp437 rawName

def parseDosTimestamp (date time : Nat) : Option ZipTimestamp :=
  let day := date &&& 0x1f
  let month := date >>> 5 &&& 0x0f
  let year := 1980 + (date >>> 9 &&& 0x7f)
  let second := (time &&& 0x1f) * 2
  let minute := time >>> 5 &&& 0x3f
  let hour := time >>> 11 &&& 0x1f
  if month = 0 ∨ 12 < month ∨ day = 0 ∨ 31 < day ∨ 59 < minute ∨ 23 < hour then none
  else some {
    year := year
    month := month
    day := day
    hour := hour
    minute := minute
    second := second }

end Zip
end Unpackio
