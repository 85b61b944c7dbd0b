/-
The frame table of Zstandard streams, from `stream/zstandard.rs`.
-/
import Unpackio.Stream.FrameTable

namespace Unpackio
namespace Zstandard

open StreamCursor Delimited

def maximumBlockBytes : Nat := 128 * 1024

def zstandardError (detail : String) : Error := streamFormatError "zstandard" detail

structure ZstandardFrame where
  start : Nat
  finish : Nat
  contentSize : Option Nat
  windowBytes : Nat
  checksum : Bool
  dictionary : Bool
  deriving DecidableEq, Repr

structure ZstandardStreamInfo where
  frameCount : Nat
  skippableFrameCount : Nat
  contentChecksumFrameCount : Nat
  dictionaryFrameCount : Nat
  maximumWindowBytes : Nat
  deriving DecidableEq, Repr

structure ParsedFrame where
  contentSize : Option Nat
  windowBytes : Nat
  checksum : Bool
  dictionary : Bool
  deriving DecidableEq, Repr

def dictionaryLength (descriptor : UInt8) : Except Error Nat :=
  match (descriptor &&& 0x03).toNat with
  | 0 => .ok 0
  | 1 => .ok 1
  | 2 => .ok 2
  | 3 => .ok 4
  | _ => .error (zstandardError "invalid dictionary flag")

def contentLength (descriptor : UInt8) (singleSegment : Bool) : Except Error Nat :=
  match (descriptor >>> 6).toNat, singleSegment with
  | 0, false => .ok 0
  | 0, true => .ok 1
  | 1, _ => .ok 2
  | 2, _ => .ok 4
  | 3, _ => .ok 8
  | _, _ => .error (zstandardError "invalid content-size flag")

def readContentSize (length : Nat) : Scanning (Option Nat) :=
  if length = 0 then return none
  else do
    let value ← readLe length "frame content size is truncated"
    if length = 2 then do
      let value ← okOr (checkedAdd value 256) (zstandardError "frame content size overflows")
      return some value
    else return some value

def windowSize (window : UInt8) : Except Error Nat := do
  let exponent ← okOr (tryFrom 32 ((window >>> 3).toNat + 10))
    (zstandardError "window exponent overflows")
  let base ← okOr (checkedShl 64 1 exponent) (zstandardError "window size overflows")
  let mantissa ← okOr (tryFrom 64 (base / 8 * (window &&& 0x07).toNat))
    (zstandardError "window mantissa overflows")
  okOr (checkedAdd base mantissa) (zstandardError "window size overflows")

def windowBytes (singleSegment : Bool) (contentSize : Option Nat)
    (windowDescriptor : Option UInt8) : Except Error Nat :=
  match singleSegment, contentSize, windowDescriptor with
  | true, some size, none => .ok size
  | false, _, some window => windowSize window
  | _, _, _ => .error (zstandardError "frame header is internally inconsistent")

def payloadSize (blockType blockSize : Nat) : Except Error Nat :=
  match blockType with
  | 0 => .ok blockSize
  | 2 => .ok blockSize
  | 1 => .ok 1
  | 3 => .error (zstandardError "reserved block type is used")
  | _ => .error (zstandardError "invalid block type")

/-- One round of the block loop of `parse_frame`, and whether it is the last. -/
def block (maximum : Nat) : Scanning Bool := do
  let header ← readU24Le "block header is truncated"
  let blockSize := header >>> 3
  rejectIf (maximum < blockSize) (zstandardError "block exceeds the frame maximum size")
  let payload ← payloadSize (header >>> 1 &&& 0x03) blockSize
  skip payload "block payload is truncated"
  return header &&& 1 ≠ 0

def blocks (maximum : Nat) : Scanning Unit :=
  rounds (zstandardError "block header is truncated") (block maximum)

/-- The window descriptor is there unless the frame is a single segment. -/
def readWindowDescriptor (singleSegment : Bool) : Scanning (Option UInt8) :=
  if singleSegment then return none
  else some <$> StreamCursor.readU8 "window descriptor is truncated"

def readChecksum (present : Bool) : Scanning Unit :=
  if present then do
    let _ ← StreamCursor.readU32Le "content checksum is truncated"
  else return ()

def parseFrame : Scanning ParsedFrame := do
  let descriptor ← StreamCursor.readU8 "frame descriptor is truncated"
  rejectIf (descriptor &&& 0x08 ≠ 0) (zstandardError "reserved frame descriptor bit is set")
  let singleSegment : Bool := descriptor &&& 0x20 != 0
  let windowDescriptor ← readWindowDescriptor singleSegment
  let length ← dictionaryLength descriptor
  let dictionaryId ← readLe length "dictionary ID is truncated"
  let length ← contentLength descriptor singleSegment
  let contentSize ← readContentSize length
  let windowBytes ← windowBytes singleSegment contentSize windowDescriptor
  blocks (min windowBytes maximumBlockBytes)
  let checksum : Bool := descriptor &&& 0x04 != 0
  readChecksum checksum
  return { contentSize := contentSize, windowBytes := windowBytes, checksum := checksum,
           dictionary := dictionaryId ≠ 0 }

structure Totals where
  frames : List ZstandardFrame
  totalFrames : Nat
  dataFrames : Nat
  skippableFrames : Nat
  checksumFrames : Nat
  dictionaryFrames : Nat
  maximumWindowBytes : Nat
  aggregateSize : Option Nat
  deriving DecidableEq, Repr

namespace Totals

def empty : Totals where
  frames := []
  totalFrames := 0
  dataFrames := 0
  skippableFrames := 0
  checksumFrames := 0
  dictionaryFrames := 0
  maximumWindowBytes := 0
  aggregateSize := some 0

def enter (limits : Limits) (totals : Totals) : Except Error Totals := do
  let totalFrames ← okOr (checkedAdd totals.totalFrames 1) (zstandardError "frame count overflows")
  checkFrameCount totalFrames limits
  return { totals with totalFrames := totalFrames }

def skipped (totals : Totals) : Except Error Totals := do
  let skippableFrames ← okOr (checkedAdd totals.skippableFrames 1)
    (zstandardError "skippable frame count overflows")
  return { totals with skippableFrames := skippableFrames }

def addFrame (limits : Limits) (start finish : Nat) (parsed : ParsedFrame) (totals : Totals) :
    Except Error Totals := do
  checkLimit parsed.windowBytes limits.maxDictionaryBytes .dictionaryBytes
  let dataFrames ← okOr (checkedAdd totals.dataFrames 1)
    (zstandardError "data frame count overflows")
  let checksumFrames ← countIf "zstandard" parsed.checksum totals.checksumFrames
    "checksum frame count overflows"
  let dictionaryFrames ← countIf "zstandard" parsed.dictionary totals.dictionaryFrames
    "dictionary frame count overflows"
  let aggregateSize ← addContentSize "zstandard" totals.aggregateSize parsed.contentSize
  return { totals with
    dataFrames := dataFrames
    checksumFrames := checksumFrames
    dictionaryFrames := dictionaryFrames
    maximumWindowBytes := max totals.maximumWindowBytes parsed.windowBytes
    aggregateSize := aggregateSize
    frames := totals.frames ++
      [{ start := start, finish := finish, contentSize := parsed.contentSize,
         windowBytes := parsed.windowBytes, checksum := parsed.checksum,
         dictionary := parsed.dictionary }] }

def info (totals : Totals) : ZstandardStreamInfo where
  frameCount := totals.dataFrames
  skippableFrameCount := totals.skippableFrames
  contentChecksumFrameCount := totals.checksumFrames
  dictionaryFrameCount := totals.dictionaryFrames
  maximumWindowBytes := totals.maximumWindowBytes

end Totals

def dataFrame (limits : Limits) (start magic : Nat) (totals : Totals) : Scanning Totals :=
  if magic ≠ zstandardMagic then throw (zstandardError "unexpected frame magic")
  else fun cursor => do
    let (parsed, cursor) ← parseFrame cursor
    let totals ← totals.addFrame limits start cursor.position parsed
    return (totals, cursor)

def frameFormat (limits : Limits) : FrameFormat Totals where
  name := "zstandard"
  enter := Totals.enter limits
  skipped := Totals.skipped
  dataFrame := dataFrame limits

def parse (input : List UInt8) (limits : Limits) :
    Except Error (ZstandardStreamInfo × Option Nat × List ZstandardFrame) := do
  let totals ← (frameFormat limits).scan Totals.empty input
  rejectIf (totals.dataFrames = 0) (zstandardError "stream contains no data frame")
  return (totals.info, totals.aggregateSize, totals.frames)

end Zstandard
end Unpackio
