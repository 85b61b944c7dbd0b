/-
The frame table of LZ4 streams, from `stream/lz4.rs`.

The xxHash of a frame descriptor is a parameter.
-/
import Unpackio.Stream.FrameTable

namespace Unpackio
namespace Lz4

open StreamCursor

def legacyBlockBytes : Nat := 8 * 1024 * 1024

def lz4HistoryBytes : Nat := 64 * 1024

def lz4Error (detail : String) : Error := streamFormatError "lz4" detail

structure Lz4Frame where
  start : Nat
  finish : Nat
  contentSize : Option Nat
  checksum : Bool
  dictionary : Bool
  workingBytes : Nat
  deriving DecidableEq, Repr

structure Lz4StreamInfo where
  frameCount : Nat
  skippableFrameCount : Nat
  legacyFrameCount : Nat
  contentChecksumFrameCount : Nat
  blockChecksumFrameCount : Nat
  dictionaryFrameCount : Nat
  maximumBlockBytes : Nat
  deriving DecidableEq, Repr

structure ParsedFrame where
  contentSize : Option Nat
  contentChecksum : Bool
  blockChecksums : Bool
  dictionary : Bool
  maximumBlockBytes : Nat
  workingBytes : Nat
  deriving DecidableEq, Repr

def workingBytes (maximum : Nat) (overflowDetail : String) : Except Error Nat :=
  okOr ((tryFrom 64 (maximum * 3)).bind fun bytes => checkedAdd bytes lz4HistoryBytes)
    (lz4Error overflowDetail)

/-- The fields between the magic number and the header checksum. -/
structure Descriptor where
  flags : UInt8
  maximumBlockBytes : Nat
  contentSize : Option Nat
  dictionary : Bool

def maximumBlockBytes (blockDescriptor : UInt8) : Except Error Nat :=
  match ((blockDescriptor >>> 4) &&& 0x07).toNat with
  | 4 => .ok (64 * 1024)
  | 5 => .ok (256 * 1024)
  | 6 => .ok (1024 * 1024)
  | 7 => .ok (4 * 1024 * 1024)
  | _ => .error (lz4Error "invalid maximum block size")

def readContentSize (flags : UInt8) : Scanning (Option Nat) :=
  if flags &&& 0x08 ≠ 0 then some <$> readLe 8 "content size is truncated" else return none

/-- A number that is read and dropped when a flag is set. -/
def skipU32 (present : Bool) (truncatedDetail : String) : Scanning Unit :=
  if present then do
    let _ ← StreamCursor.readU32Le truncatedDetail
  else return ()

def readDescriptor : Scanning Descriptor := do
  let flags ← StreamCursor.readU8 "frame flags are truncated"
  let blockDescriptor ← StreamCursor.readU8 "block descriptor is truncated"
  rejectIf (flags &&& 0xc0 ≠ 0x40) (lz4Error "unsupported frame version")
  rejectIf (flags &&& 0x02 ≠ 0 ∨ blockDescriptor &&& 0x8f ≠ 0)
    (lz4Error "reserved descriptor bits are set")
  let maximum ← maximumBlockBytes blockDescriptor
  let contentSize ← readContentSize flags
  let dictionary : Bool := flags &&& 0x01 != 0
  skipU32 dictionary "dictionary ID is truncated"
  return { flags := flags, maximumBlockBytes := maximum, contentSize := contentSize,
           dictionary := dictionary }

section

variable (xxHash32 : List UInt8 → UInt64)

/-- The header checksum is a byte of the hash of the descriptor. -/
def verifyDescriptor (descriptorStart frameIndex : Nat) : Scanning Unit := fun cursor => do
  let (expected, next) ← StreamCursor.readU8 "header checksum is truncated" cursor
  let descriptor ← okOr (getRange cursor.bytes descriptorStart cursor.position)
    (lz4Error "descriptor range is invalid")
  let calculated := ((xxHash32 descriptor >>> 8) &&& 0xff).toUInt8
  rejectIf (calculated ≠ expected) (.streamChecksum "lz4" frameIndex)
  return ((), next)

/-- One round of the block loop of `parse_standard_frame`, and whether it is the
last. -/
def standardBlock (maximum : Nat) (blockChecksums : Bool) : Scanning Bool := do
  let header ← StreamCursor.readU32Le "block header is truncated"
  if header = 0 then return true
  else do
    let blockSize := header &&& 0x7fffffff
    rejectIf (blockSize = 0) (lz4Error "non-end block has a zero payload size")
    rejectIf (maximum < blockSize) (lz4Error "block exceeds the declared maximum size")
    skip blockSize "block payload is truncated"
    skipU32 blockChecksums "block checksum is truncated"
    return false

def standardBlocks (descriptor : Descriptor) : Scanning ParsedFrame := do
  let blockChecksums : Bool := descriptor.flags &&& 0x10 != 0
  rounds (lz4Error "block header is truncated")
    (standardBlock descriptor.maximumBlockBytes blockChecksums)
  let contentChecksum : Bool := descriptor.flags &&& 0x04 != 0
  skipU32 contentChecksum "content checksum is truncated"
  let working ← workingBytes descriptor.maximumBlockBytes "working memory size overflows"
  return { contentSize := descriptor.contentSize, contentChecksum := contentChecksum,
           blockChecksums := blockChecksums, dictionary := descriptor.dictionary,
           maximumBlockBytes := descriptor.maximumBlockBytes, workingBytes := working }

def parseStandardFrame (start frameIndex : Nat) : Scanning ParsedFrame := do
  let descriptorStart ← okOr (checkedAdd start 4) (lz4Error "descriptor offset overflows")
  let descriptor ← readDescriptor
  verifyDescriptor xxHash32 descriptorStart frameIndex
  standardBlocks descriptor

end

abbrev IsFrameMagic (magic : Nat) : Prop :=
  magic = lz4Magic ∨ magic = lz4LegacyMagic ∨ IsSkippable magic

def legacyPayload (blockSize : Nat) : Scanning Bool :=
  if blockSize = 0 then return true
  else do
    rejectIf (legacyBlockBytes < blockSize) (lz4Error "legacy block exceeds eight MiB")
    skip blockSize "legacy block payload is truncated"
    return false

/-- One round of the loop of `parse_legacy_frame`, and whether it is the last.  The
frame ends with the input, or before the magic number of another frame. -/
def legacyBlock (start : Nat) : Scanning Bool := fun cursor => do
  let remaining ← cursor.remaining
  if remaining = [] then return (true, cursor)
  else do
    let nextBytes ← okOr (getRange remaining 0 4) (lz4Error "legacy block header is truncated")
    if cursor.position ≠ start ∧ IsFrameMagic (fromLeBytes nextBytes) then return (true, cursor)
    else do
      let (blockSize, cursor) ← StreamCursor.readU32Le "legacy block header is truncated" cursor
      legacyPayload blockSize cursor

def parseLegacyFrame (start : Nat) : Scanning ParsedFrame := do
  rounds (lz4Error "legacy block header is truncated") (legacyBlock start)
  let working ← workingBytes legacyBlockBytes "legacy working memory size overflows"
  return { contentSize := none, contentChecksum := false, blockChecksums := false,
           dictionary := false, maximumBlockBytes := legacyBlockBytes, workingBytes := working }

structure Totals where
  frames : List Lz4Frame
  totalFrames : Nat
  dataFrames : Nat
  skippableFrames : Nat
  legacyFrames : Nat
  contentChecksumFrames : Nat
  blockChecksumFrames : Nat
  dictionaryFrames : Nat
  maximumBlockBytes : Nat
  aggregateSize : Option Nat
  deriving DecidableEq, Repr

namespace Totals

def empty : Totals where
  frames := []
  totalFrames := 0
  dataFrames := 0
  skippableFrames := 0
  legacyFrames := 0
  contentChecksumFrames := 0
  blockChecksumFrames := 0
  dictionaryFrames := 0
  maximumBlockBytes := 0
  aggregateSize := some 0

def enter (limits : Limits) (totals : Totals) : Except Error Totals := do
  let totalFrames ← okOr (checkedAdd totals.totalFrames 1) (lz4Error "frame count overflows")
  checkFrameCount totalFrames limits
  return { totals with totalFrames := totalFrames }

def skipped (totals : Totals) : Except Error Totals := do
  let skippableFrames ← okOr (checkedAdd totals.skippableFrames 1)
    (lz4Error "skippable frame count overflows")
  return { totals with skippableFrames := skippableFrames }

def addLegacy (legacy : Bool) (totals : Totals) : Except Error Totals := do
  let legacyFrames ← countIf "lz4" legacy totals.legacyFrames "legacy frame count overflows"
  return { totals with legacyFrames := legacyFrames }

def addFrame (start finish : Nat) (parsed : ParsedFrame) (totals : Totals) :
    Except Error Totals := do
  let dataFrames ← okOr (checkedAdd totals.dataFrames 1) (lz4Error "data frame count overflows")
  let contentChecksumFrames ← countIf "lz4" parsed.contentChecksum totals.contentChecksumFrames
    "content-checksum frame count overflows"
  let blockChecksumFrames ← countIf "lz4" parsed.blockChecksums totals.blockChecksumFrames
    "block-checksum frame count overflows"
  let dictionaryFrames ← countIf "lz4" parsed.dictionary totals.dictionaryFrames
    "dictionary frame count overflows"
  let aggregateSize ← addContentSize "lz4" totals.aggregateSize parsed.contentSize
  return { totals with
    dataFrames := dataFrames
    contentChecksumFrames := contentChecksumFrames
    blockChecksumFrames := blockChecksumFrames
    dictionaryFrames := dictionaryFrames
    maximumBlockBytes := max totals.maximumBlockBytes parsed.maximumBlockBytes
    aggregateSize := aggregateSize
    frames := totals.frames ++
      [{ start := start, finish := finish, contentSize := parsed.contentSize,
         checksum := parsed.contentChecksum || parsed.blockChecksums,
         dictionary := parsed.dictionary, workingBytes := parsed.workingBytes }] }

def info (totals : Totals) : Lz4StreamInfo where
  frameCount := totals.dataFrames
  skippableFrameCount := totals.skippableFrames
  legacyFrameCount := totals.legacyFrames
  contentChecksumFrameCount := totals.contentChecksumFrames
  blockChecksumFrameCount := totals.blockChecksumFrames
  dictionaryFrameCount := totals.dictionaryFrames
  maximumBlockBytes := totals.maximumBlockBytes

end Totals

variable (xxHash32 : List UInt8 → UInt64)

def countFrame (start : Nat) (totals : Totals) (parseFrame : Scanning ParsedFrame) :
    Scanning Totals := fun cursor => do
  let (parsed, cursor) ← parseFrame cursor
  let totals ← totals.addFrame start cursor.position parsed
  return (totals, cursor)

def dataFrame (start magic : Nat) (totals : Totals) : Scanning Totals :=
  if magic = lz4Magic then
    countFrame start totals (parseStandardFrame xxHash32 start totals.dataFrames)
  else if magic = lz4LegacyMagic then do
    let totals ← totals.addLegacy true
    countFrame start totals (parseLegacyFrame start)
  else throw (lz4Error "unexpected frame magic")

def frameFormat (limits : Limits) : FrameFormat Totals where
  name := "lz4"
  enter := Totals.enter limits
  skipped := Totals.skipped
  dataFrame := dataFrame xxHash32

def parse (input : List UInt8) (limits : Limits) :
    Except Error (Lz4StreamInfo × Option Nat × List Lz4Frame) := do
  let totals ← (frameFormat xxHash32 limits).scan Totals.empty input
  rejectIf (totals.dataFrames = 0) (lz4Error "stream contains no data frame")
  return (totals.info, totals.aggregateSize, totals.frames)

end Lz4
end Unpackio
