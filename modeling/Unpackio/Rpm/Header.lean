/-
The lead, the two headers, the digests and the payload of an RPM package, from
`rpm/header.rs`, `rpm/decode.rs` and `rpm/mod.rs`.

A header is an index of tags, types, offsets and counts, and a store that the
offsets point into.  The bytes that the parsed headers will hold are charged to
an account before they are copied.  The hash functions and the decompression of a
container are parameters.
-/
import Unpackio.Foundation.Numerals
import Unpackio.ParseUtil

namespace Unpackio
namespace Rpm

open Numerals (numeral)

def rpmFormat (detail : String) : Error := formatError ("RPM: " ++ detail)

def leadBytes : Nat := 96

def leadMagic : List UInt8 := [0xed, 0xab, 0xee, 0xdb]

def headerMagic : List UInt8 := [0x8e, 0xad, 0xe8]

def headerFixedBytes : Nat := 16

def indexBytes : Nat := 16

/-- `size_of::<RpmHeaderEntry>()`, a tag beside a value of a discriminant and a
boxed slice. -/
def headerEntrySize : Nat := 32

/-- `size_of::<Box<[u8]>>()`. -/
def boxedBytesSize : Nat := 16

inductive RpmValue where
  | null
  | char (value : List UInt8)
  | int8 (value : List UInt8)
  | int16 (value : List Nat)
  | int32 (value : List Nat)
  | int64 (value : List Nat)
  | string (value : List UInt8)
  | binary (value : List UInt8)
  | stringArray (value : List (List UInt8))
  | i18nString (value : List (List UInt8))
  deriving DecidableEq, Repr

structure RpmHeaderEntry where
  tag : Nat
  value : RpmValue
  deriving DecidableEq, Repr

structure RpmHeader where
  entries : List RpmHeaderEntry
  rawSize : Nat
  deriving DecidableEq, Repr

/-- The last value carrying `tag`. -/
def RpmHeader.value (header : RpmHeader) (tag : Nat) : Option RpmValue :=
  (header.entries.reverse.find? fun entry => entry.tag = tag).map fun entry => entry.value

structure RpmLead where
  major : UInt8
  minor : UInt8
  packageType : Nat
  architecture : Nat
  name : List UInt8
  operatingSystem : Nat
  signatureType : Nat
  reserved : List UInt8
  deriving DecidableEq, Repr

structure ParsedHeaders where
  lead : RpmLead
  signature : RpmHeader
  header : RpmHeader
  mainStart : Nat
  payloadStart : Nat
  deriving DecidableEq, Repr

structure ModelAccount where
  retained : Nat
  maximum : Nat
  deriving DecidableEq, Repr

namespace ModelAccount

def new (maximum : Nat) : ModelAccount := { retained := 0, maximum := maximum }

def charge (model : ModelAccount) (bytes : Nat) : Except Error ModelAccount := do
  let requested ← okOr (checkedAdd model.retained bytes)
    (.limitExceeded .headerBytes (2 ^ 64 - 1) model.maximum)
  checkLimit requested model.maximum .headerBytes
  return { model with retained := requested }

/-- Charge `count` elements of `width` bytes. -/
def chargeElements (model : ModelAccount) (width count : Nat) : Except Error ModelAccount := do
  let bytes ← okOr (tryFrom 64 (count * width))
    (.limitExceeded .headerBytes (2 ^ 64 - 1) model.maximum)
  model.charge bytes

end ModelAccount

/-- `be_u16`, `be_u32` and `be_u64`. -/
def beUint (width : Nat) (bytes : List UInt8) (offset : Nat) (detail : String) :
    Except Error Nat := do
  let value ← checkedRange bytes offset width detail detail
  return numeral 256 UInt8.toNat value

def beU16 : List UInt8 → Nat → String → Except Error Nat := beUint 2

def beU32 : List UInt8 → Nat → String → Except Error Nat := beUint 4

def beU64 : List UInt8 → Nat → String → Except Error Nat := beUint 8

def alignPadding (remainder alignment : Nat) (detail : String) : Except Error Nat :=
  if remainder = 0 then .ok 0 else okOr (checkedSub alignment remainder) (rpmFormat detail)

def alignUp (value alignment : Nat) (detail : String) : Except Error Nat := do
  let padding ← alignPadding (value % alignment) alignment detail
  okOr (checkedAdd value padding) (rpmFormat detail)

def requireAlignment (offset alignment : Nat) : Except Error Unit :=
  rejectIf (offset % alignment ≠ 0) (rpmFormat "numeric header value is misaligned")

def preflightNumeric (store : List UInt8) (offset count width : Nat) : Except Error Unit := do
  let length ← okOr (tryFrom 64 (count * width))
    (rpmFormat "numeric header value length overflows")
  let _ ← checkedRange store offset length "numeric header value range overflows"
    "numeric header value is outside the store"

/-- The loop of `parse_int16`, `parse_int32` and `parse_int64`. -/
def intLoop (width : Nat) (name : String) (store : List UInt8) (offset : Nat) :
    Nat → Nat → Except Error (List Nat)
  | _, 0 => return []
  | ordinal, remaining + 1 => do
    let relative ← okOr (tryFrom 64 (ordinal * width)) (rpmFormat (name ++ " offset overflows"))
    let position ← okOr (checkedAdd offset relative) (rpmFormat (name ++ " offset overflows"))
    let value ← beUint width store position (name ++ " value is truncated")
    let values ← intLoop width name store offset (ordinal + 1) remaining
    return value :: values

def parseInt (width : Nat) (name : String) (store : List UInt8) (offset count : Nat) :
    Except Error (List Nat) := do
  preflightNumeric store offset count width
  intLoop width name store offset 0 count

def parseInt16 : List UInt8 → Nat → Nat → Except Error (List Nat) := parseInt 2 "INT16"

def parseInt32 : List UInt8 → Nat → Nat → Except Error (List Nat) := parseInt 4 "INT32"

def parseInt64 : List UInt8 → Nat → Nat → Except Error (List Nat) := parseInt 8 "INT64"

def copyFixed (store : List UInt8) (offset count width : Nat) (model : ModelAccount) :
    Metered (List UInt8 × ModelAccount) := do
  let length ← okOr (tryFrom 64 (count * width)) (rpmFormat "header value byte length overflows")
  let bytes ← checkedRange store offset length "RPM header value range overflows"
    "RPM header value is out of the store"
  let model ← model.charge length
  let value ← copyBytes bytes
  return (value, model)

def parseString (store : List UInt8) (offset : Nat) (model : ModelAccount) :
    Metered (List UInt8 × ModelAccount) := do
  let remaining ← okOr (getRange store offset store.length)
    (rpmFormat "string offset is outside the header store")
  let length ← okOr (remaining.findIdx? fun byte => byte = 0)
    (rpmFormat "header string is not NUL terminated")
  let value ← okOr (getRange remaining 0 length) (rpmFormat "header string range is invalid")
  let model ← model.charge value.length
  let value ← copyBytes value
  return (value, model)

def stringsLoop (store : List UInt8) :
    Nat → Nat → ModelAccount → Metered (List (List UInt8) × ModelAccount)
  | _, 0, model => return ([], model)
  | position, remaining + 1, model => do
    let (value, model) ← parseString store position model
    let length ← okOr (checkedAdd value.length 1) (rpmFormat "header string length overflows")
    let position ← okOr (checkedAdd position length)
      (rpmFormat "header string-array offset overflows")
    let (values, model) ← stringsLoop store position remaining model
    return (value :: values, model)

def parseStrings (store : List UInt8) (offset count : Nat) (model : ModelAccount) :
    Metered (List (List UInt8) × ModelAccount) := do
  let minimumEnd ← okOr (checkedAdd offset count)
    (rpmFormat "string-array minimum range overflows")
  rejectIf (store.length < minimumEnd) (rpmFormat "string-array count exceeds the header store")
  let model ← model.chargeElements boxedBytesSize count
  stringsLoop store offset count model

def parseValue (store : List UInt8) (valueType offset count : Nat) (model : ModelAccount) :
    Metered (RpmValue × ModelAccount) :=
  match valueType with
  | 0 => do
    rejectIf (count ≠ 0) (rpmFormat "NULL header value has a nonzero count")
    return (.null, model)
  | 1 => do
    let (value, model) ← copyFixed store offset count 1 model
    return (.char value, model)
  | 2 => do
    let (value, model) ← copyFixed store offset count 1 model
    return (.int8 value, model)
  | 3 => do
    requireAlignment offset 2
    let model ← model.chargeElements 2 count
    let value ← parseInt16 store offset count
    return (.int16 value, model)
  | 4 => do
    requireAlignment offset 4
    let model ← model.chargeElements 4 count
    let value ← parseInt32 store offset count
    return (.int32 value, model)
  | 5 => do
    requireAlignment offset 8
    let model ← model.chargeElements 8 count
    let value ← parseInt64 store offset count
    return (.int64 value, model)
  | 6 => do
    rejectIf (count ≠ 1) (rpmFormat "STRING header value count must be one")
    let (value, model) ← parseString store offset model
    return (.string value, model)
  | 7 => do
    let (value, model) ← copyFixed store offset count 1 model
    return (.binary value, model)
  | 8 => do
    let (value, model) ← parseStrings store offset count model
    return (.stringArray value, model)
  | 9 => do
    let (value, model) ← parseStrings store offset count model
    return (.i18nString value, model)
  | other => throw (.unsupportedFeature ("rpm-header-type-" ++ toString other))

/-! ## Headers -/

/-- One index record and the value it points to. -/
def parseEntry (bytes : List UInt8) (start : Nat) (store : List UInt8) (ordinal : Nat)
    (model : ModelAccount) : Metered (RpmHeaderEntry × ModelAccount) := do
  checkpoint 1
  let indexStart ← okOr ((checkedAdd start headerFixedBytes).bind fun offset =>
      (tryFrom 64 (ordinal * indexBytes)).bind fun relative => checkedAdd offset relative)
    (rpmFormat "header index offset overflows")
  let index ← checkedRange bytes indexStart indexBytes "RPM header index range overflows"
    "RPM header index is truncated"
  let tag ← beU32 index 0 "header tag is truncated"
  let valueType ← beU32 index 4 "header value type is truncated"
  let offset ← beU32 index 8 "header value offset is truncated"
  let valueCount ← beU32 index 12 "header value count is truncated"
  let (value, model) ← parseValue store valueType offset valueCount model
  return ({ tag := tag, value := value }, model)

/-- The index loop of `parse_header`. -/
def indexLoop (bytes : List UInt8) (start : Nat) (store : List UInt8) :
    Nat → Nat → ModelAccount → Metered (List RpmHeaderEntry × ModelAccount)
  | _, 0, model => return ([], model)
  | ordinal, remaining + 1, model => do
    let (entry, model) ← parseEntry bytes start store ordinal model
    let (entries, model) ← indexLoop bytes start store (ordinal + 1) remaining model
    return (entry :: entries, model)

/-- What the fixed part of a header announces. -/
structure Extent where
  count : Nat
  storeStart : Nat
  storeSize : Nat
  finish : Nat
  headerSize : Nat
  deriving DecidableEq, Repr

/-- The fixed part of `parse_header`, up to the range of the whole header. -/
def parseExtent (bytes : List UInt8) (start : Nat) (limits : Limits) : Except Error Extent := do
  let fixed ← checkedRange bytes start headerFixedBytes "RPM header fixed range overflows"
    "RPM header fixed record is truncated"
  rejectIf (getRange fixed 0 3 ≠ some headerMagic) (rpmFormat "header magic is invalid")
  rejectIf (fixed[3]? ≠ some 1) (.unsupportedFeature "rpm-header-version")
  let reserved ← okOr (getRange fixed 4 8) (rpmFormat "header reserved bytes are truncated")
  rejectIf (∃ byte ∈ reserved, byte ≠ 0) (rpmFormat "header reserved bytes are nonzero")
  let count ← beU32 fixed 8 "header index count is truncated"
  let storeSize ← beU32 fixed 12 "header store size is truncated"
  checkLimit count limits.maxHeaderProperties .headerProperties
  let indexSize ← okOr (tryFrom 64 (count * indexBytes)) (rpmFormat "header index size overflows")
  let storeStart ← okOr ((checkedAdd start headerFixedBytes).bind fun offset =>
    checkedAdd offset indexSize) (rpmFormat "header store offset overflows")
  let finish ← okOr (checkedAdd storeStart storeSize) (rpmFormat "header range overflows")
  let headerSize ← okOr (checkedSub finish start) (rpmFormat "header size underflows")
  checkLimit headerSize limits.maxHeaderBytes .headerBytes
  return ⟨count, storeStart, storeSize, finish, headerSize⟩

def parseHeader (bytes : List UInt8) (start : Nat) (limits : Limits) (model : ModelAccount) :
    Metered ((RpmHeader × Nat) × ModelAccount) := do
  let extent ← parseExtent bytes start limits
  let complete ← checkedRange bytes start extent.headerSize "RPM header range overflows"
    "RPM header is truncated"
  consumeBytes complete
  let store ← checkedRange bytes extent.storeStart extent.storeSize
    "RPM header store range overflows" "RPM header store is truncated"
  let model ← model.chargeElements headerEntrySize extent.count
  let (entries, model) ← indexLoop bytes start store 0 extent.count model
  return (({ entries := entries, rawSize := extent.headerSize }, extent.finish), model)

def parseLead (lead : List UInt8) (limits : Limits) (model : ModelAccount) :
    Except Error (RpmLead × ModelAccount) := do
  rejectIf (getRange lead 0 4 ≠ some leadMagic) (rpmFormat "lead magic is invalid")
  let major ← okOr lead[4]? (rpmFormat "lead major version is missing")
  let minor ← okOr lead[5]? (rpmFormat "lead minor version is missing")
  rejectIf (¬(major = 3 ∨ major = 4))
    (.unsupportedFeature ("rpm-major-version-" ++ toString major))
  let packageType ← beU16 lead 6 "lead package type is truncated"
  let architecture ← beU16 lead 8 "lead architecture is truncated"
  let rawName ← okOr (getRange lead 10 76) (rpmFormat "lead package name is truncated")
  let nameEnd := (rawName.findIdx? fun byte => byte = 0).getD rawName.length
  let name ← okOr (getRange rawName 0 nameEnd) (rpmFormat "lead package-name range is invalid")
  checkLimit name.length limits.maxNameBytesPerEntry .nameBytesPerEntry
  let model ← model.charge name.length
  let operatingSystem ← beU16 lead 76 "lead operating system is truncated"
  let signatureType ← beU16 lead 78 "lead signature type is truncated"
  let reserved ← okOr (getRange lead 80 96) (rpmFormat "lead reserved bytes are truncated")
  return ({
    major := major
    minor := minor
    packageType := packageType
    architecture := architecture
    name := name
    operatingSystem := operatingSystem
    signatureType := signatureType
    reserved := reserved }, model)

def parse (bytes : List UInt8) (limits : Limits) : Metered ParsedHeaders := do
  let leadRange ← checkedRange bytes 0 leadBytes "RPM lead range overflows" "RPM lead is truncated"
  consumeBytes leadRange
  let (lead, model) ← parseLead leadRange limits (ModelAccount.new limits.maxHeaderBytes)
  let name ← copyBytes lead.name
  let lead := { lead with name := name }
  let ((signature, signatureEnd), model) ← parseHeader bytes leadBytes limits model
  let mainStart ← alignUp signatureEnd 8 "RPM signature alignment overflows"
  let paddingLength ← okOr (checkedSub mainStart signatureEnd)
    (rpmFormat "RPM signature padding underflows")
  let padding ← checkedRange bytes signatureEnd paddingLength
    "RPM signature padding range overflows" "RPM signature padding is truncated"
  rejectIf (∃ byte ∈ padding, byte ≠ 0) (rpmFormat "RPM signature padding is not zero")
  let ((header, payloadStart), _) ← parseHeader bytes mainStart limits model
  return {
    lead := lead
    signature := signature
    header := header
    mainStart := mainStart
    payloadStart := payloadStart }

/-! ## Digests and payloads -/

inductive RpmPayloadCompression where
  | none
  | gzip
  | bzip2
  | xz
  | lzma
  | zstandard
  | unknown
  deriving DecidableEq, Repr

inductive PayloadCompression where
  | none
  | gzip
  | bzip2
  | xz
  | lzma
  | zstandard
  deriving DecidableEq, Repr

/-- What `decode_container_payload` makes of an input, under a maximum. -/
abbrev DecodeContainer : Type :=
  List UInt8 → PayloadCompression → Limits → Nat → Metered (List UInt8)

/-- What a package is hashed and decompressed with. -/
structure Codecs where
  sha1 : List UInt8 → List UInt8
  sha256 : List UInt8 → List UInt8
  decodeContainerPayload : DecodeContainer

def RpmPayloadCompression.container : RpmPayloadCompression → Except Error PayloadCompression
  | .none => .ok .none
  | .gzip => .ok .gzip
  | .bzip2 => .ok .bzip2
  | .xz => .ok .xz
  | .lzma => .ok .lzma
  | .zstandard => .ok .zstandard
  | .unknown => .error (.unsupportedFeature "rpm-payload-compression")

def decodePayload (codecs : Codecs) (input : List UInt8) (compression : RpmPayloadCompression)
    (limits : Limits) : Metered (List UInt8) := do
  let compression ← compression.container
  codecs.decodeContainerPayload input compression limits limits.maxTotalOutputBytes

def hexDigit (value : Nat) : UInt8 :=
  if value < 10 then UInt8.ofNat (0x30 + value) else UInt8.ofNat (0x57 + value)

def hexBytes (bytes : List UInt8) : List UInt8 :=
  bytes.flatMap fun byte => [hexDigit (byte.toNat / 16), hexDigit (byte.toNat % 16)]

def digestLoop : List (List UInt8) → Metered Unit
  | [] => return ()
  | chunk :: chunks => do
    checkpoint chunk.length
    digestLoop chunks

def digestHex (digest : List UInt8 → List UInt8) (bytes : List UInt8) : Metered (List UInt8) := do
  digestLoop (chunks controlChunkSize bytes)
  return hexBytes (digest bytes)

def sha256Hex (codecs : Codecs) : List UInt8 → Metered (List UInt8) := digestHex codecs.sha256

def sha1Hex (codecs : Codecs) : List UInt8 → Metered (List UInt8) := digestHex codecs.sha1

end Rpm
end Unpackio
