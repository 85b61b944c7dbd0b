/-
The blocks of a WavPack stream in a ZIP entry, from `decode/wavpack.rs`: their
headers and what their metadata says.
-/
import Unpackio.Bounded

namespace Unpackio
namespace WavPack

def headerLen : Nat := 32

def minStreamVersion : Nat := 0x0402

def winzipStreamVersion : Nat := 0x0407

def maxBlockBytes : Nat := 1 <<< 20

def maxBlockSamples : Nat := 131072

def maxWinzipChannels : Nat := 16

def maxDecorrelationTerms : Nat := 16

def flagBytesStored : UInt32 := 0x3

def flagMono : UInt32 := 0x4

def flagHybrid : UInt32 := 0x8

def flagHybridShape : UInt32 := 0x40

def flagFloat : UInt32 := 0x80

def flagHybridBitrate : UInt32 := 0x200

def flagHybridBalance : UInt32 := 0x400

def flagInitial : UInt32 := 0x800

def flagFinal : UInt32 := 0x1000

def flagShiftMask : UInt32 := (0x1f : UInt32) <<< 13

def flagSampleRateMask : UInt32 := (0xf : UInt32) <<< 23

def flagChecksum : UInt32 := 0x10000000

def flagNewShaping : UInt32 := 0x20000000

def flagFalseStereo : UInt32 := 0x40000000

def flagDsd : UInt32 := 0x80000000

def metaIdMask : UInt8 := 0x3f

def metaOddSize : UInt8 := 0x40

def metaLarge : UInt8 := 0x80

/-! ## Headers -/

structure BlockHeader where
  version : Nat
  blockIndex : Nat
  totalSamples : Option Nat
  blockSamples : Nat
  flags : UInt32
  deriving DecidableEq, Repr

namespace BlockHeader

variable (header : BlockHeader)

def bytesPerSample : Nat :=
  if header.flags &&& flagBytesStored = 0 then 1
  else if header.flags &&& flagBytesStored = 1 then 2
  else if header.flags &&& flagBytesStored = 2 then 3
  else 4

def isFloat : Bool := header.flags &&& flagFloat ≠ 0

def isInitial : Bool := header.flags &&& flagInitial ≠ 0

def isFinal : Bool := header.flags &&& flagFinal ≠ 0

def outputChannels : Nat := if header.flags &&& flagMono ≠ 0 then 1 else 2

def formatSignature : UInt32 :=
  header.flags &&&
    (flagBytesStored ||| flagFloat ||| 0x100 ||| flagShiftMask ||| flagSampleRateMask)

end BlockHeader

structure Block where
  header : BlockHeader
  raw : List UInt8
  metadata : List UInt8
  deriving DecidableEq, Repr

structure MetadataSummary where
  riffHeader : Option (List UInt8)
  riffTrailer : Option (List UInt8)
  channelCount : Option Nat
  streamCount : Option Nat
  channelIdOffset : Option Nat
  decorrelationTerms : Nat
  hasAudioMetadata : Bool
  deriving DecidableEq, Repr

def MetadataSummary.default : MetadataSummary where
  riffHeader := none
  riffTrailer := none
  channelCount := none
  streamCount := none
  channelIdOffset := none
  decorrelationTerms := 0
  hasAudioMetadata := false

def unsupported (feature : String) : Error := .unsupportedFeature feature

def leU16 (bytes : List UInt8) (offset : Nat) (detail : String) : Except Error Nat := do
  let raw ← checkedRange bytes offset 2 detail detail
  return fromLeBytes raw

def leU32 (bytes : List UInt8) (offset : Nat) (detail : String) : Except Error Nat := do
  let raw ← checkedRange bytes offset 4 detail detail
  return fromLeBytes raw

/-- The total of a header, unless it is unknown. -/
def totalOf (high low : Nat) : Except Error (Option Nat) :=
  if low = 2 ^ 32 - 1 then return none
  else do
    let total ← okOr ((checkedSub (high <<< 32) high).bind fun value => checkedAdd value low)
      (formatError "ZIP WavPack sample count overflows")
    return some total

/-- The flags of a stream that is lossless, whole and of the legacy format. -/
def checkFlags (flags : UInt32) : Except Error Unit := do
  rejectIf (flags &&& (flagHybrid ||| flagHybridShape ||| flagHybridBitrate |||
      flagHybridBalance ||| flagNewShaping) ≠ 0)
    (unsupported "zip-wavpack-hybrid")
  rejectIf (flags &&& flagDsd ≠ 0) (unsupported "zip-wavpack-dsd")
  rejectIf (flags &&& flagChecksum ≠ 0) (unsupported "zip-wavpack-v5-block-checksum")
  rejectIf (flags &&& flagFalseStereo ≠ 0) (unsupported "zip-wavpack-mono-optimization")
  rejectIf (flags &&& flagFloat ≠ 0 ∧ flags &&& flagBytesStored ≠ 3)
    (formatError "ZIP WavPack floating-point samples must use four bytes")

def parseHeader (bytes : List UInt8) : Except Error (BlockHeader × Nat) := do
  let fixed ← okOr (getRange bytes 0 headerLen)
    (formatError "ZIP WavPack block header is truncated")
  rejectIf (getRange fixed 0 4 ≠ some [0x77, 0x76, 0x70, 0x6b])
    (formatError "ZIP WavPack block signature is invalid")
  let storedSize ← leU32 fixed 4 "ZIP WavPack block size is truncated"
  let blockSize ← okOr (checkedAdd storedSize 8) (formatError "ZIP WavPack block size overflows")
  rejectIf (blockSize < headerLen ∨ maxBlockBytes < blockSize)
    (formatError "ZIP WavPack block size is invalid")
  let version ← leU16 fixed 8 "ZIP WavPack stream version is truncated"
  rejectIf (version < minStreamVersion ∨ winzipStreamVersion < version)
    (unsupported "zip-wavpack-non-winzip-stream-version")
  let blockIndexHigh ← okOr fixed[10]? (formatError "ZIP WavPack block index is truncated")
  let totalSamplesHigh ← okOr fixed[11]? (formatError "ZIP WavPack sample count is truncated")
  let totalSamplesLow ← leU32 fixed 12 "ZIP WavPack sample count is truncated"
  let blockIndexLow ← leU32 fixed 16 "ZIP WavPack block index is truncated"
  let totalSamples ← totalOf totalSamplesHigh.toNat totalSamplesLow
  let blockSamples ← leU32 fixed 20 "ZIP WavPack block sample count is truncated"
  rejectIf (maxBlockSamples < blockSamples)
    (formatError "ZIP WavPack block sample count exceeds the format maximum")
  let flags ← leU32 fixed 24 "ZIP WavPack flags are truncated"
  checkFlags (UInt32.ofNat flags)
  return ({ version := version, blockIndex := blockIndexHigh.toNat <<< 32 ||| blockIndexLow,
            totalSamples := totalSamples, blockSamples := blockSamples,
            flags := UInt32.ofNat flags }, blockSize)

section

variable (input : List UInt8) (limits : Limits)

def parseBlocksLoop : Nat → List Block → Nat → Metered (List Block)
  | 0, blocks, _ => return blocks
  | rounds + 1, blocks, position =>
    if position < input.length then do
      let count ← okOr (checkedAdd blocks.length 1)
        (formatError "ZIP WavPack block count overflows")
      checkLimit count limits.maxStreamFrames .streamFrames
      let remaining ← okOr (getRange input position input.length)
        (formatError "ZIP WavPack block position is invalid")
      let (header, blockSize) ← parseHeader remaining
      let finish ← okOr (checkedAdd position blockSize)
        (formatError "ZIP WavPack block range overflows")
      let raw ← okOr (getRange input position finish)
        (formatError "ZIP WavPack block is truncated")
      let metadata ← okOr (getRange raw headerLen raw.length)
        (formatError "ZIP WavPack metadata range is invalid")
      checkpoint headerLen
      parseBlocksLoop rounds (blocks ++ [{ header := header, raw := raw, metadata := metadata }])
        finish
    else return blocks

def parseBlocks : Metered (List Block) := do
  checkLimit input.length limits.maxTotalInputBytes .totalInputBytes
  rejectIf (input = []) (formatError "ZIP WavPack stream is empty")
  parseBlocksLoop input limits input.length [] 0

end

/-! ## Metadata -/

def markUnique (seen : Vector Bool 15) (id : UInt8) : Except Error (Vector Bool 15) :=
  if h : id.toNat < 15 then do
    rejectIf (seen[id.toNat] = true) (formatError "ZIP WavPack decoding metadata is duplicated")
    return seen.set id.toNat true
  else throw (formatError "ZIP WavPack metadata identifier is invalid")

/-- One piece of metadata, and where the next one starts. -/
structure SubBlock where
  id : UInt8
  headerSize : Nat
  data : List UInt8
  finish : Nat

def wordCount (header : List UInt8) (large : Bool) : Except Error Nat := do
  let low ← okOr header[1]? (formatError "ZIP WavPack metadata size is truncated")
  if large then do
    let middle ← okOr header[2]? (formatError "ZIP WavPack metadata size is truncated")
    let high ← okOr header[3]? (formatError "ZIP WavPack metadata size is truncated")
    return low.toNat ||| middle.toNat <<< 8 ||| high.toNat <<< 16
  else return low.toNat

/-- The payload without the byte that fills its last word. -/
def logicalData (odd : Bool) (stored : List UInt8) (storedSize : Nat) : Except Error (List UInt8) :=
  if odd then do
    let logicalSize ← okOr (checkedSub storedSize 1)
      (formatError "ZIP WavPack odd metadata size is invalid")
    okOr (getRange stored 0 logicalSize) (formatError "ZIP WavPack metadata range is invalid")
  else return stored

def readSubBlock (metadata : List UInt8) (position : Nat) : Except Error SubBlock := do
  let rawId ← okOr metadata[position]?
    (formatError "ZIP WavPack metadata identifier is truncated")
  let large : Bool := rawId &&& metaLarge ≠ 0
  let headerSize := if large then 4 else 2
  let headerEnd ← okOr (checkedAdd position headerSize)
    (formatError "ZIP WavPack metadata header overflows")
  let header ← okOr (getRange metadata position headerEnd)
    (formatError "ZIP WavPack metadata header is truncated")
  let words ← wordCount header large
  let storedSize ← okOr (checkedMul words 2) (formatError "ZIP WavPack metadata size overflows")
  let storedEnd ← okOr (checkedAdd headerEnd storedSize)
    (formatError "ZIP WavPack metadata range overflows")
  let stored ← okOr (getRange metadata headerEnd storedEnd)
    (formatError "ZIP WavPack metadata payload is truncated")
  let data ← logicalData (rawId &&& metaOddSize ≠ 0) stored storedSize
  return { id := rawId &&& metaIdMask, headerSize := headerSize, data := data, finish := storedEnd }

/-- `count_ones`. -/
def countOnes (byte : UInt8) : Nat := (List.range 8).countP byte.toNat.testBit

def channelLayout (data : List UInt8) : Except Error (Nat × Option Nat × List UInt8) := do
  let first ← okOr data.head? (formatError "ZIP WavPack channel metadata is empty")
  if data.length ≤ 5 then do
    let mask ← okOr (getRange data 1 data.length)
      (formatError "ZIP WavPack channel mask is unavailable")
    return (first.toNat, none, mask)
  else if data.length = 6 then do
    let streamLow ← okOr data[1]? (formatError "ZIP WavPack stream count is missing")
    let high ← okOr data[2]? (formatError "ZIP WavPack channel metadata is truncated")
    let channels ← okOr (tryFrom 16 ((first.toNat ||| (high &&& 0x0f).toNat <<< 8) + 1))
      (formatError "ZIP WavPack channel count overflows")
    let streams ← okOr (tryFrom 16 ((streamLow.toNat ||| (high &&& 0xf0).toNat <<< 4) + 1))
      (formatError "ZIP WavPack stream count overflows")
    let twiceStreams ← okOr (tryFrom 16 (streams * 2))
      (formatError "ZIP WavPack stream count overflows")
    rejectIf (channels < streams ∨ twiceStreams < channels)
      (formatError "ZIP WavPack channel and stream counts are inconsistent")
    let mask ← okOr (getRange data 3 data.length)
      (formatError "ZIP WavPack channel mask is unavailable")
    return (channels, some streams, mask)
  else throw (unsupported "zip-wavpack-v5-channel-layout")

def channelInfo (data : List UInt8) : Except Error (Nat × Option Nat) := do
  let (channels, streams, mask) ← channelLayout data
  rejectIf (channels = 0) (formatError "ZIP WavPack channel count is zero")
  rejectIf (maxWinzipChannels < channels) (unsupported "zip-wavpack-more-than-16-channels")
  let maskChannelCount ← okOr (tryFrom 32 (mask.map countOnes).sum)
    (formatError "ZIP WavPack channel mask overflows")
  rejectIf (channels < maskChannelCount)
    (formatError "ZIP WavPack channel mask exceeds the channel count")
  return (channels, streams)

def addSubBlock (summary : MetadataSummary) (position : Nat) (id : UInt8) (data : List UInt8) :
    Except Error MetadataSummary :=
  -- Dummies, the codec's own data, the configuration and the digest.
  if id ∈ [0x00, 0x01, 0x03, 0x04, 0x05, 0x08, 0x09, 0x0a, 0x0c, 0x25, 0x26] then return summary
  else if id = 0x02 then do
    rejectIf (maxDecorrelationTerms < data.length)
      (formatError "ZIP WavPack decorrelation term count exceeds the format maximum")
    return { summary with decorrelationTerms := data.length }
  else if id ∈ [0x06, 0x07, 0x0b] then throw (unsupported "zip-wavpack-hybrid")
  else if id = 0x0d then do
    let (channels, streams) ← channelInfo data
    let offset ← okOr (checkedAdd headerLen position)
      (formatError "ZIP WavPack metadata offset overflows")
    return { summary with
      channelCount := some channels, streamCount := streams, channelIdOffset := some offset }
  else if id = 0x0e then throw (unsupported "zip-wavpack-dsd")
  else if id = 0x21 then do
    rejectIf summary.riffHeader.isSome (formatError "ZIP WavPack RIFF header is duplicated")
    return { summary with riffHeader := some data }
  else if id = 0x22 then do
    rejectIf summary.riffTrailer.isSome (formatError "ZIP WavPack RIFF trailer is duplicated")
    return { summary with riffTrailer := some data }
  else if id ∈ [0x23, 0x24, 0x28, 0x29] then throw (unsupported "zip-wavpack-non-riff-wrapper")
  else if id = 0x27 then do
    rejectIf (data.length ≠ 3) (formatError "ZIP WavPack sample-rate metadata is invalid")
    return summary
  else if id ∈ [0x2a, 0x2c, 0x2b] then throw (unsupported "zip-wavpack-v5-metadata")
  else if id = 0x2f then throw (unsupported "zip-wavpack-v5-block-checksum")
  else if id ≤ 0x1f then throw (unsupported "zip-wavpack-unknown-required-metadata")
  else return summary

/-- Whether a piece of metadata is of the codec. -/
def isCoding (id : UInt8) : Bool := 0x02 ≤ id ∧ id ≤ 0x0e

def markCoding (seen : Vector Bool 15) (id : UInt8) : Except Error (Vector Bool 15) :=
  if isCoding id then markUnique seen id else return seen

/-- What the loop over the metadata of a block changes. -/
structure MetadataState where
  summary : MetadataSummary
  seen : Vector Bool 15
  position : Nat
  propertyCount : Nat

section

variable (metadata : List UInt8) (limits : Limits)

def metadataRound (state : MetadataState) : Metered MetadataState := do
  let propertyCount ← okOr (checkedAdd state.propertyCount 1)
    (formatError "ZIP WavPack metadata count overflows")
  checkLimit propertyCount limits.maxHeaderProperties .headerProperties
  let part ← readSubBlock metadata state.position
  checkLimit part.data.length limits.maxCoderPropertyBytes .coderPropertyBytes
  let work ← okOr (checkedAdd part.headerSize part.data.length)
    (formatError "ZIP WavPack metadata work overflows")
  checkpoint work
  let seen ← markCoding state.seen part.id
  let summary ← addSubBlock
    { state.summary with
      hasAudioMetadata := state.summary.hasAudioMetadata || isCoding part.id }
    state.position part.id part.data
  return { summary := summary, seen := seen, position := part.finish,
           propertyCount := propertyCount }

def metadataLoop : Nat → MetadataState → Metered MetadataState
  | 0, state => return state
  | rounds + 1, state =>
    if state.position < metadata.length then do
      let state ← metadataRound metadata limits state
      metadataLoop rounds state
    else return state

def summarizeMetadata (propertyCount : Nat) : Metered (MetadataSummary × Nat) := do
  let state ← metadataLoop metadata limits metadata.length
    { summary := .default, seen := Vector.replicate 15 false, position := 0,
      propertyCount := propertyCount }
  return (state.summary, state.propertyCount)

end

def summarizeAll (limits : Limits) : List Block → Nat → Metered (List MetadataSummary)
  | [], _ => return []
  | block :: blocks, propertyCount => do
    let (summary, propertyCount) ← summarizeMetadata block.metadata limits propertyCount
    let summaries ← summarizeAll limits blocks propertyCount
    return summary :: summaries

end WavPack
end Unpackio
