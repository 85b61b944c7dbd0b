/-
An ARJ archive, from `arj/mod.rs`, and the choice of a decoder, from `arj/decode.rs`.

The static LZH decoder is a parameter; the output is filled chunk by chunk.
-/
import Unpackio.Arj.Fastest

namespace Unpackio
namespace Arj

structure ArjEntry where
  index : Nat
  rawName : List UInt8
  rawComment : List UInt8
  archiverVersion : UInt8
  minimumVersion : UInt8
  hostOs : UInt8
  flags : UInt8
  method : ArjCompressionMethod
  kind : ArjEntryKind
  modifiedTime : Nat
  compressedSize : Nat
  originalSize : Nat
  crc32 : Option Nat
  fileSpecPosition : Nat
  accessMode : Nat
  encrypted : Bool
  dataStart : Nat
  dataEnd : Nat
  deriving DecidableEq, Repr

structure ArjArchive where
  bytes : List UInt8
  entries : List ArjEntry
  rawName : List UInt8
  rawComment : List UInt8
  sfxOffset : Nat
  archiverVersion : UInt8
  minimumVersion : UInt8
  hostOs : UInt8
  flags : UInt8
  creationTime : Nat
  modificationTime : Nat
  limits : Limits
  deriving DecidableEq, Repr

/-- The entry of a local header, as number `index`. -/
def LocalFields.entry (header : LocalFields) (index dataStart dataEnd : Nat) : ArjEntry :=
  ⟨index, header.rawName, header.rawComment, header.archiverVersion, header.minimumVersion,
    header.hostOs, header.flags, header.method, header.kind, header.modifiedTime,
    header.compressedSize, header.originalSize, header.crc32, header.fileSpecPosition,
    header.accessMode, header.flags &&& 0x01 ≠ 0, dataStart, dataEnd⟩

/-- The entry whose local header is `record`, and the name bytes with its own. -/
def readEntry (bytes : List UInt8) (limits : Limits) (record : HeaderRecord)
    (totals : HeaderTotals) (count totalNameBytes : Nat) :
    Metered (ArjEntry × HeaderTotals × Nat) := do
  let header ← parseLocalHeader record.basic limits
  rejectIf (header.flags &&& 0x0c ≠ 0 ∨ header.firstChapter ≠ 0 ∨ header.lastChapter ≠ 0)
    (.unsupportedFeature "arj-split-member")
  let (dataStart, totals) ← readExtendedHeaders bytes record.nextOffset limits totals
  let dataEnd ← okOr (checkedAdd dataStart header.compressedSize)
    (arjFormat "member data range overflows")
  let _ ← checkedRange bytes dataStart header.compressedSize "ARJ member data range overflows"
    "ARJ member data is truncated"
  let nextCount ← okOr (checkedAdd count 1) (arjFormat "entry count overflows")
  checkLimit nextCount limits.maxFiles .files
  checkLimit header.rawName.length limits.maxNameBytesPerEntry .nameBytesPerEntry
  let totalNameBytes ← okOr (checkedAdd totalNameBytes header.rawName.length)
    (arjFormat "total name bytes overflow")
  checkLimit totalNameBytes limits.maxTotalNameBytes .totalNameBytes
  checkLimit header.originalSize limits.maxEntryOutputBytes .entryOutputBytes
  let index ← okOr (checkedSub nextCount 1) (arjFormat "entry index underflows")
  return (header.entry index dataStart dataEnd, totals, totalNameBytes)

/-- The loop of `open_bytes`: the entries and the offset of the header behind them.  Every
round takes some bytes, so one more than the bytes behind the offset is enough of them. -/
def entryLoop (bytes : List UInt8) (limits : Limits) :
    Nat → Nat → HeaderTotals → Nat → List ArjEntry → Metered (Nat × List ArjEntry)
  | 0, _, _, _, _ => throw (formatError "ARJ header magic is truncated")
  | fuel + 1, offset, totals, totalNameBytes, entries => do
    checkpoint 1
    match ← readHeaderAt bytes offset limits totals with
    | none => return (offset, entries)
    | some (record, totals) => do
      let (entry, totals, totalNameBytes) ←
        readEntry bytes limits record totals entries.length totalNameBytes
      entryLoop bytes limits fuel entry.dataEnd totals totalNameBytes (entries ++ [entry])

/-- What `open_bytes` does behind the main header. -/
def openEntries (bytes : List UInt8) (limits : Limits) (record : HeaderRecord)
    (totals : HeaderTotals) (fields : MainFields) : Metered (List ArjEntry) := do
  let (offset, totals) ← readExtendedHeaders bytes record.nextOffset limits totals
  rejectIf (fields.flags &&& 0x04 ≠ 0 ∨ fields.lastChapter ≠ 0)
    (.unsupportedFeature "arj-multi-volume")
  rejectIf (fields.flags &&& 0x08 ≠ 0 ∨ fields.flags &&& 0x40 ≠ 0)
    (.unsupportedFeature "arj-security-envelope")
  let (offset, entries) ← entryLoop bytes limits (bytes.length + 1 - offset) offset totals
    fields.rawName.length []
  let terminalEnd ← okOr (checkedAdd offset 4) (arjFormat "end-header offset overflows")
  let trailingLength ← okOr (checkedSub bytes.length terminalEnd)
    (arjFormat "terminal header extends beyond the input")
  if 0 < trailingLength then do
    let trailingStart ← okOr (checkedSub bytes.length trailingLength)
      (arjFormat "trailing offset underflows")
    let trailing ← checkedRange bytes trailingStart trailingLength
      "ARJ trailing range overflows" "ARJ trailing range is truncated"
    consumeBytes trailing
    return entries
  else return entries

def openBytes (bytes : List UInt8) (limits : Limits) : Metered ArjArchive := do
  checkLimit bytes.length limits.maxTotalInputBytes .totalInputBytes
  let (sfxOffset, record, totals) ← findMainHeader bytes limits ⟨0, 0⟩
  let fields ← parseMainHeader record.basic limits
  let entries ← openEntries bytes limits record totals fields
  return ⟨bytes, entries, fields.rawName, fields.rawComment, sfxOffset, fields.archiverVersion,
    fields.minimumVersion, fields.hostOs, fields.flags, fields.creationTime,
    fields.modificationTime, limits⟩

def staticLzhDecoderBytes : Nat := 68 * 1024

def storedLoop : List (List UInt8) → List UInt8 → Metered (List UInt8)
  | [], output => return output
  | chunk :: chunks, output => do
    let units ← okOr (tryFrom 64 (chunk.length * 2)) (arjFormat "stored work accounting overflows")
    checkpoint units
    storedLoop chunks (output ++ chunk)

def decodeStored (compressed : List UInt8) (originalSize : Nat) : Metered (List UInt8) := do
  rejectIf (compressed.length ≠ originalSize)
    (arjFormat "stored size does not match original size")
  storedLoop (chunks controlChunkSize compressed) []

/-- The decoder of another crate.  A panic is `none`, and the inner `none` an error of
`fill_buffer`. -/
structure LzhDecoder where
  State : Type
  new : List UInt8 → Option State
  fillBuffer : State → (count : Nat) → Option (Option (Vector UInt8 count × State))

variable (lzh : LzhDecoder)

/-- The loop over the chunks of the output, with the bytes that are filled. -/
def lzhLoop : List (List UInt8) → lzh.State → List UInt8 → Metered (List UInt8)
  | [], _, output => return output
  | chunk :: chunks, decoder, output => do
    checkpoint chunk.length
    let decoded ← okOr (lzh.fillBuffer decoder chunk.length)
      (arjFormat "static LZH decoder panicked on malformed input")
    let (filled, decoder) ← okOr decoded (arjFormat "static LZH stream is invalid or truncated")
    lzhLoop chunks decoder (output ++ filled.toList)

def decodeStaticLzh (compressed : List UInt8) (originalSize : Nat) (limits : Limits) :
    Metered (List UInt8) := do
  checkLimit staticLzhDecoderBytes limits.maxDictionaryBytes .dictionaryBytes
  consumeBytes compressed
  let decoder ← okOr (lzh.new compressed) (arjFormat "static LZH decoder rejected the stream")
  lzhLoop lzh (chunks controlChunkSize (List.replicate originalSize 0)) decoder []

def decode (compressed : List UInt8) (method : ArjCompressionMethod) (originalSize : Nat)
    (limits : Limits) : Metered (List UInt8) := do
  checkLimit originalSize limits.maxEntryOutputBytes .entryOutputBytes
  match method with
  | .stored => decodeStored compressed originalSize
  | .compressedMost | .compressed | .compressedFaster =>
    decodeStaticLzh lzh compressed originalSize limits
  | .compressedFastest => decodeFastest compressed originalSize limits
  | .noDataNoCrc | .noData =>
    if compressed.isEmpty ∧ originalSize = 0 then do
      checkpoint 0
      return []
    else throw (arjFormat "no-data method declares member bytes")
  | .unknown identifier => throw (.unsupportedMethod [identifier])

def ArjArchive.decodeVerified (archive : ArjArchive) (entry : ArjEntry) :
    Metered (List UInt8) := do
  rejectIf entry.encrypted .passwordRequired
  let length ← okOr (checkedSub entry.dataEnd entry.dataStart)
    (arjFormat "member data range underflows")
  let compressed ← checkedRange archive.bytes entry.dataStart length
    "ARJ member data range overflows" "ARJ member data range is invalid"
  let output ← decode lzh compressed entry.method entry.originalSize archive.limits
  match entry.crc32 with
  | none => return output
  | some expected => do
    let actual ← checksumWithControl output
    rejectIf (actual.toNat ≠ expected) (.checksum .member (some entry.index))
    return output

end Arj
end Unpackio
