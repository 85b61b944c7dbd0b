/-
`RpmArchive` of `rpm/mod.rs`: opening a package, and the ways to read a member of
its payload.
-/
import Unpackio.Cpio.Entries
import Unpackio.Rpm.Header

namespace Unpackio
namespace Rpm

open Extraction
open Cpio (CpioEntry)

def tagPayloadFormat : Nat := 1124
def tagPayloadCompressor : Nat := 1125
def signatureTagSha1 : Nat := 269
def signatureTagSha256 : Nat := 273
def signatureTagSha3256 : Nat := 279
def tagPayloadSha256 : Nat := 5092
def tagPayloadSha256Algorithm : Nat := 5093
def tagPayloadSha256Alt : Nat := 5097
def tagPayloadSha512 : Nat := 5121
def tagPayloadSha512Alt : Nat := 5122
def tagPayloadSha3256 : Nat := 5123
def tagPayloadSha3256Alt : Nat := 5124

abbrev RpmEntry : Type := CpioEntry

structure RpmArchive where
  lead : RpmLead
  signature : RpmHeader
  header : RpmHeader
  payload : List UInt8
  entries : List RpmEntry
  compression : RpmPayloadCompression
  limits : Limits
  deriving DecidableEq, Repr

def asciiBytes (text : String) : List UInt8 := text.toList.map fun letter =>
    UInt8.ofNat letter.toNat

def toAsciiLowercase (byte : UInt8) : UInt8 :=
  if 0x41 ≤ byte ∧ byte ≤ 0x5a then byte + 0x20 else byte

def eqIgnoreAsciiCase (first second : List UInt8) : Prop :=
  first.map toAsciiLowercase = second.map toAsciiLowercase

instance (first second : List UInt8) : Decidable (eqIgnoreAsciiCase first second) :=
  inferInstanceAs (Decidable (_ = _))

def isAsciiHexdigit (byte : UInt8) : Prop :=
  (0x30 ≤ byte ∧ byte ≤ 0x39) ∨ (0x41 ≤ byte ∧ byte ≤ 0x46) ∨ (0x61 ≤ byte ∧ byte ≤ 0x66)

instance (byte : UInt8) : Decidable (isAsciiHexdigit byte) := inferInstanceAs (Decidable (_ ∨ _))

def isAsciiAlphanumeric (byte : UInt8) : Prop :=
  (0x30 ≤ byte ∧ byte ≤ 0x39) ∨ (0x41 ≤ byte ∧ byte ≤ 0x5a) ∨ (0x61 ≤ byte ∧ byte ≤ 0x7a)

instance (byte : UInt8) : Decidable (isAsciiAlphanumeric byte) :=
  inferInstanceAs (Decidable (_ ∨ _))

/-- An identifier in the text of an error: at most 32 letters, others as `_`. -/
def escapedIdentifier (bytes : List UInt8) : String :=
  let output := (bytes.take 32).map fun byte =>
    if isAsciiAlphanumeric byte ∨ byte = 0x2d ∨ byte = 0x5f ∨ byte = 0x2e then
      Char.ofNat byte.toNat
    else '_'
  if output = [] then "empty" else String.ofList output

def headerScalarBytes (header : RpmHeader) (tag : Nat) : Except Error (Option (List UInt8)) :=
  match header.value tag with
  | none => .ok none
  | some (.string value) => .ok (some value)
  | some _ => .error (rpmFormat "header scalar string tag has the wrong type")

def payloadCompression (header : RpmHeader) : Except Error RpmPayloadCompression := do
  match ← headerScalarBytes header tagPayloadCompressor with
  -- The default of RPM version 4.
  | none => return .gzip
  | some value =>
    if eqIgnoreAsciiCase value (asciiBytes "gzip") ∨ eqIgnoreAsciiCase value (asciiBytes "gz") then
      return .gzip
    else if eqIgnoreAsciiCase value (asciiBytes "bzip2") ∨
        eqIgnoreAsciiCase value (asciiBytes "bzip") then
      return .bzip2
    else if eqIgnoreAsciiCase value (asciiBytes "xz") then return .xz
    else if eqIgnoreAsciiCase value (asciiBytes "lzma") then return .lzma
    else if eqIgnoreAsciiCase value (asciiBytes "zstd") ∨
        eqIgnoreAsciiCase value (asciiBytes "zstandard") then
      return .zstandard
    else if eqIgnoreAsciiCase value (asciiBytes "none") ∨ value = [] then return .none
    else throw (.unsupportedFeature ("rpm-payload-compression-" ++ escapedIdentifier value))

def checkPayloadFormat (header : RpmHeader) : Except Error Unit := do
  match ← headerScalarBytes header tagPayloadFormat with
  | none => return ()
  | some format =>
    rejectIf (¬eqIgnoreAsciiCase format (asciiBytes "cpio"))
      (.unsupportedFeature ("rpm-payload-format-" ++ escapedIdentifier format))

def unsupportedDigests : List (Nat × String) :=
  [(tagPayloadSha512, "rpm-payload-sha512-verification"),
    (tagPayloadSha512Alt, "rpm-uncompressed-payload-sha512-verification"),
    (tagPayloadSha3256, "rpm-payload-sha3-256-verification"),
    (tagPayloadSha3256Alt, "rpm-uncompressed-payload-sha3-256-verification")]

def rejectUnsupportedDigests (header : RpmHeader) : Except Error Unit :=
  unsupportedDigests.forM fun (tag, feature) =>
    rejectIf (header.value tag).isSome (.unsupportedFeature feature)

def verifyHexDigest (expected actual : List UInt8) (scope : ChecksumScope) : Except Error Unit :=
  rejectIf (expected.length ≠ actual.length ∨ ¬(∀ byte ∈ expected, isAsciiHexdigit byte) ∨
    ¬eqIgnoreAsciiCase expected actual) (.checksum scope none)

/-- The digest of `bytes` is that of a scalar tag, where the header has it. -/
def verifyScalarDigest (header : RpmHeader) (tag : Nat)
    (hex : List UInt8 → Metered (List UInt8)) (bytes : List UInt8) : Metered Unit := do
  match ← headerScalarBytes header tag with
  | none => return ()
  | some expected => do
    let actual ← hex bytes
    verifyHexDigest expected actual .packageHeader

def verifyHeaderDigests (codecs : Codecs) (bytes : List UInt8) (parsed : ParsedHeaders) :
    Metered Unit := do
  rejectIf (parsed.signature.value signatureTagSha3256).isSome
    (.unsupportedFeature "rpm-header-sha3-256-verification")
  let mainSize ← okOr (checkedSub parsed.payloadStart parsed.mainStart)
    (rpmFormat "main-header range underflows")
  let main ← checkedRange bytes parsed.mainStart mainSize "RPM main-header range overflows"
    "RPM main header is truncated"
  verifyScalarDigest parsed.signature signatureTagSha256 (sha256Hex codecs) main
  verifyScalarDigest parsed.signature signatureTagSha1 (sha1Hex codecs) main

def validatePayloadDigestAlgorithm (header : RpmHeader) : Except Error Unit :=
  match header.value tagPayloadSha256Algorithm with
  | none => .ok ()
  | some (.int32 values) => do
    rejectIf (values.length ≠ 1) (rpmFormat "payload digest algorithm tag must contain one value")
    let algorithm ← okOr values.head? (rpmFormat "payload digest algorithm is missing")
    rejectIf (algorithm ≠ 8)
      (.unsupportedFeature ("rpm-payload-digest-algorithm-" ++ toString algorithm))
  | some _ => .error (rpmFormat "payload digest algorithm tag has the wrong type")

def verifyPayloadDigest (codecs : Codecs) (header : RpmHeader) (tag : Nat) (bytes : List UInt8) :
    Metered Unit :=
  match header.value tag with
  | none => return ()
  | some (.stringArray values) => do
    rejectIf (values.length ≠ 1) (.unsupportedFeature "rpm-multiple-payload-digests")
    let expected ← okOr values.head? (rpmFormat "payload digest array is empty")
    let actual ← sha256Hex codecs bytes
    verifyHexDigest expected actual .packagePayload
  | some _ => throw (rpmFormat "payload digest tag has the wrong type")

namespace RpmArchive

def openBytes (codecs : Codecs) (bytes : List UInt8) (limits : Limits) : Metered RpmArchive := do
  checkLimit bytes.length limits.maxTotalInputBytes .totalInputBytes
  let parsed ← parse bytes limits
  verifyHeaderDigests codecs bytes parsed
  validatePayloadDigestAlgorithm parsed.header
  let compression ← payloadCompression parsed.header
  checkPayloadFormat parsed.header
  rejectUnsupportedDigests parsed.header
  let compressedSize ← okOr (checkedSub bytes.length parsed.payloadStart)
    (rpmFormat "payload start is past the input")
  let compressed ← checkedRange bytes parsed.payloadStart compressedSize
    "RPM payload range overflows" "RPM payload is truncated"
  verifyPayloadDigest codecs parsed.header tagPayloadSha256 compressed
  let payload ← decodePayload codecs compressed compression limits
  verifyPayloadDigest codecs parsed.header tagPayloadSha256Alt payload
  let (_, entries) ← Cpio.parseEntries payload limits
  return ⟨parsed.lead, parsed.signature, parsed.header, payload, entries, compression, limits⟩

variable (archive : RpmArchive)

def requiredEntry (index : Nat) : Except Error RpmEntry :=
  okOr archive.entries[index]? (rpmFormat "entry index is out of range")

def verifiedData (entry : RpmEntry) : Metered (List UInt8) := do
  let length ← okOr (checkedSub entry.dataEnd entry.dataStart)
    (rpmFormat "member data range underflows")
  let data ← checkedRange archive.payload entry.dataStart length
    "RPM member data range overflows" "RPM member data range is invalid"
  Cpio.verifyChecksum data entry
  return data

def extractEntryTo (entryIndex : Nat) : Copying Nat := do
  let entry ← archive.requiredEntry entryIndex
  let data ← (archive.verifiedData entry).mapRequest CopyRequest.work
  copyChunks data
  return entry.size

def addSize (total : Nat) (entry : RpmEntry) : Except Error Nat :=
  okOr (checkedAdd total entry.size)
    (.limitExceeded .totalOutputBytes (2 ^ 64 - 1) archive.limits.maxTotalOutputBytes)

/-- The accounting of `extract_entries_to`. -/
def account (total : Nat) (entry : RpmEntry) : Except Error Nat := do
  let total ← archive.addSize total entry
  checkLimit entry.size archive.limits.maxEntryOutputBytes .entryOutputBytes
  checkLimit total archive.limits.maxTotalOutputBytes .totalOutputBytes
  return total

def extractEntriesTo : Extracting RpmEntry Nat :=
  extractLoop CpioEntry.index
    (fun total entry => do
      let total ← archive.account total entry
      let data ← archive.verifiedData entry
      return (total, data))
    archive.entries 0

/-- One entry of `verify`, which does not look at the limit of one entry. -/
def verifyEntry (total : Nat) (entry : RpmEntry) : Metered Nat := do
  let total ← archive.addSize total entry
  checkLimit total archive.limits.maxTotalOutputBytes .totalOutputBytes
  let _ ← archive.verifiedData entry
  return total

def verify : Metered Unit := verifyLoop archive.verifyEntry archive.entries 0

end RpmArchive
end Rpm
end Unpackio
