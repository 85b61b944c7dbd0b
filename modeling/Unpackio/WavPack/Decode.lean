/-
A WavPack stream in a ZIP entry is decoded block by block and put together again,
from `decode/wavpack.rs`.
-/
import Unpackio.Foundation.Interleave
import Unpackio.WavPack.Blocks

namespace Unpackio
namespace WavPack

open Interleave (splice)

def fixedDecoderWorkingBytes : Nat := 8 * 1024

def appendBounded (output bytes : List UInt8) (expected maximum : Nat) :
    Except Error (List UInt8) := do
  let next ← okOr (checkedAdd output.length bytes.length)
    (formatError "ZIP WavPack output size overflows")
  rejectIf (expected < next) (formatError "ZIP WavPack output exceeds the ZIP size declaration")
  checkLimit next maximum .totalOutputBytes
  return output ++ bytes

def appendZeroed (output : List UInt8) (count expected maximum : Nat) :
    Except Error (List UInt8 × Nat) := do
  let next ← okOr (checkedAdd output.length count)
    (formatError "ZIP WavPack output size overflows")
  rejectIf (expected < next) (formatError "ZIP WavPack samples exceed the ZIP size declaration")
  checkLimit next maximum .totalOutputBytes
  return (output ++ List.replicate count 0, output.length)

def extensibleTag (data : List UInt8) (containerBits : Nat) : Except Error Nat := do
  rejectIf (data.length < 40) (formatError "ZIP WavPack extensible RIFF format is truncated")
  let size ← leU16 data 16 "ZIP WavPack extensible format size is truncated"
  rejectIf (size < 22) (formatError "ZIP WavPack extensible RIFF format is truncated")
  let validBits ← leU16 data 18 "ZIP WavPack valid sample width is truncated"
  rejectIf (validBits = 0 ∨ containerBits < validBits)
    (formatError "ZIP WavPack valid sample width is invalid")
  let guidTail ← okOr (getRange data 28 40) (formatError "ZIP WavPack RIFF subtype is truncated")
  rejectIf (guidTail ≠
      [0x00, 0x00, 0x10, 0x00, 0x80, 0x00, 0x00, 0xaa, 0x00, 0x38, 0x9b, 0x71])
    (unsupported "zip-wavpack-non-pcm-wave-subtype")
  leU32 data 24 "ZIP WavPack RIFF subtype is truncated"

def waveTag (data : List UInt8) (tag containerBits : Nat) : Except Error Nat :=
  if tag = 0xfffe then extensibleTag data containerBits else return tag

section

variable (channels bytesPerSample : Nat) (isFloat : Bool)

def validateWaveFormat (data : List UInt8) : Except Error Unit := do
  rejectIf (data.length < 16) (formatError "ZIP WavPack RIFF format chunk is truncated")
  let tag ← leU16 data 0 "ZIP WavPack RIFF format tag is truncated"
  let waveChannels ← leU16 data 2 "ZIP WavPack RIFF channel count is truncated"
  let blockAlign ← leU16 data 12 "ZIP WavPack RIFF block alignment is truncated"
  let containerBits ← leU16 data 14 "ZIP WavPack RIFF sample width is truncated"
  let align ← okOr (checkedMul channels bytesPerSample)
    (formatError "ZIP WavPack RIFF block alignment overflows")
  let expectedAlign ← okOr (tryFrom 16 align)
    (formatError "ZIP WavPack RIFF block alignment is invalid")
  let bits ← okOr (checkedMul bytesPerSample 8) (formatError "ZIP WavPack sample width overflows")
  let expectedBits ← okOr (tryFrom 16 bits) (formatError "ZIP WavPack sample width is invalid")
  rejectIf (waveChannels ≠ channels ∨ blockAlign ≠ expectedAlign ∨ containerBits ≠ expectedBits)
    (formatError "ZIP WavPack stream disagrees with its RIFF format")
  let actualTag ← waveTag data tag containerBits
  rejectIf (actualTag ≠ if isFloat then 3 else 1) (unsupported "zip-wavpack-non-pcm-wave-subtype")

def chunkFormat (id data : List UInt8) (sawFormat : Bool) : Except Error Bool :=
  if id = [0x66, 0x6d, 0x74, 0x20] then do
    rejectIf sawFormat (formatError "ZIP WavPack RIFF format is duplicated")
    validateWaveFormat channels bytesPerSample isFloat data
    return true
  else return sawFormat

def riffChunks (header : List UInt8) (expectedDataSize : Nat) : Nat → Nat → Bool → Except Error Unit
  | 0, _, _ => throw (formatError "ZIP WavPack RIFF data chunk is missing")
  | rounds + 1, position, sawFormat =>
    if position < header.length then do
      let chunkHeaderEnd ← okOr (checkedAdd position 8)
        (formatError "ZIP WavPack RIFF chunk range overflows")
      let chunkHeader ← okOr (getRange header position chunkHeaderEnd)
        (formatError "ZIP WavPack RIFF chunk header is truncated")
      let id ← okOr (getRange chunkHeader 0 4)
        (formatError "ZIP WavPack RIFF chunk identifier is truncated")
      let size ← leU32 chunkHeader 4 "ZIP WavPack RIFF chunk size is truncated"
      if id = [0x64, 0x61, 0x74, 0x61] then do
        rejectIf (sawFormat = false ∨ chunkHeaderEnd ≠ header.length)
          (formatError "ZIP WavPack RIFF data chunk is not the wrapper boundary")
        rejectIf (size ≠ expectedDataSize)
          (formatError "ZIP WavPack RIFF data size disagrees with the stream")
      else do
        let dataEnd ← okOr (checkedAdd chunkHeaderEnd size)
          (formatError "ZIP WavPack RIFF chunk range overflows")
        let paddedEnd ← okOr (checkedAdd dataEnd (size % 2))
          (formatError "ZIP WavPack RIFF chunk padding overflows")
        let data ← okOr (getRange header chunkHeaderEnd dataEnd)
          (formatError "ZIP WavPack RIFF chunk is truncated")
        let _padding ← okOr (getRange header dataEnd paddedEnd)
          (formatError "ZIP WavPack RIFF chunk padding is truncated")
        let sawFormat ← chunkFormat channels bytesPerSample isFloat id data sawFormat
        riffChunks header expectedDataSize rounds paddedEnd sawFormat
    else throw (formatError "ZIP WavPack RIFF data chunk is missing")

def validateRiffHeader (header : List UInt8) (sampleBytes : Nat) : Except Error Unit := do
  rejectIf (header.length < 12 ∨ getRange header 0 4 ≠ some [0x52, 0x49, 0x46, 0x46] ∨
      getRange header 8 12 ≠ some [0x57, 0x41, 0x56, 0x45])
    (unsupported "zip-wavpack-non-riff-wrapper")
  let expectedDataSize ← okOr (tryFrom 32 sampleBytes) (unsupported "zip-wavpack-rf64-wrapper")
  riffChunks channels bytesPerSample isFloat header expectedDataSize header.length 12 false

end

/-! ## One block -/

inductive WavicleScope where
  | dsd
  | hybrid
  | correctionFile
  | moreThanTwoChannels
  | multichannelSpanning
  deriving DecidableEq, Repr

/-- The errors of the decoder that are told apart. -/
inductive WavicleError where
  | crcMismatch
  | outOfScope (scope : WavicleScope)
  | unsupportedVersion
  | notYetImplemented
  | allocationFailed
  | other
  deriving DecidableEq, Repr

def mapWavicleError : WavicleError → Error
  | .crcMismatch => .checksum .packedStream none
  | .outOfScope .dsd => unsupported "zip-wavpack-dsd"
  | .outOfScope .hybrid | .outOfScope .correctionFile => unsupported "zip-wavpack-hybrid"
  | .outOfScope .moreThanTwoChannels | .outOfScope .multichannelSpanning =>
    unsupported "zip-wavpack-unhandled-channel-layout"
  | .unsupportedVersion => unsupported "zip-wavpack-non-winzip-stream-version"
  | .notYetImplemented => unsupported "zip-wavpack-codec-feature"
  | .allocationFailed => .io "ZIP WavPack decoder allocation failed"
  | .other => formatError "ZIP WavPack decoder rejected the block"

/-- What the decoder makes of a block. -/
structure DecodedStream where
  samples : List Int32
  channels : Nat

abbrev BlockDecoder := List UInt8 → Option (Except WavicleError DecodedStream)

def patchedFlags (header : BlockHeader) : UInt32 :=
  let flags :=
    if header.bytesPerSample = 1 then header.flags &&& ~~~flagBytesStored ||| 1 else header.flags
  if (header.flags &&& flagSampleRateMask) >>> 23 = 0xf then
    flags &&& ~~~flagSampleRateMask ||| (9 : UInt32) <<< 23
  else flags

def patchChannel (summary : MetadataSummary) (patched : List UInt8) :
    Except Error (List UInt8) := do
  let offset ← okOr summary.channelIdOffset
    (formatError "ZIP WavPack channel metadata offset is missing")
  let rawId ← okOr patched[offset]? (formatError "ZIP WavPack channel metadata is unavailable")
  return patched.set offset (rawId &&& (metaOddSize ||| metaLarge) ||| 0x30)

def decoderInput (block : Block) (summary : MetadataSummary) : Except Error (List UInt8) :=
  let patchesChannel := (summary.channelCount.any fun channels => decide (2 < channels)) = true
  if block.header.bytesPerSample = 1 ∨
      (block.header.flags &&& flagSampleRateMask) >>> 23 = 0xf ∨ patchesChannel then do
    let _flags ← okOr (getRange block.raw 24 28)
      (formatError "ZIP WavPack patched flags are unavailable")
    let patched := splice block.raw 24 (toLeBytes 4 (patchedFlags block.header).toNat)
    if patchesChannel then patchChannel summary patched else return patched
  else return block.raw

def blockWork (limits : Limits) (block : Block) (summary : MetadataSummary) (sampleValues : Nat) :
    Except Error Nat := do
  let sampleStorage ← okOr ((checkedMul block.header.blockSamples 16).bind fun value =>
      (checkedAdd value block.raw.length).bind fun value =>
        checkedAdd value fixedDecoderWorkingBytes)
    (formatError "ZIP WavPack decoder memory accounting overflows")
  checkLimit sampleStorage limits.maxDictionaryBytes .dictionaryBytes
  let passWork ← okOr (checkedAdd summary.decorrelationTerms 64)
    (formatError "ZIP WavPack decoder work accounting overflows")
  okOr ((checkedMul sampleValues passWork).bind fun value => checkedAdd value block.raw.length)
    (formatError "ZIP WavPack decoder work accounting overflows")

def decodeBlock (decodeStream : BlockDecoder) (limits : Limits) (block : Block)
    (summary : MetadataSummary) : Metered DecodedStream := do
  let sampleValues ← okOr (checkedMul block.header.blockSamples block.header.outputChannels)
    (formatError "ZIP WavPack sample count overflows")
  let work ← blockWork limits block summary sampleValues
  checkpoint work
  let input ← decoderInput block summary
  let result ← okOr (decodeStream input) (formatError "ZIP WavPack decoder panicked")
  let decoded ← result.mapError mapWavicleError
  checkpoint 0
  rejectIf (decoded.channels ≠ block.header.outputChannels)
    (formatError "ZIP WavPack decoder returned an invalid channel count")
  rejectIf (decoded.samples.length ≠ sampleValues)
    (formatError "ZIP WavPack decoder returned an invalid sample count")
  return decoded

/-- The byte of a sample of 8 bits, which has no sign in a RIFF file. -/
def toUnsigned (sample : Int32) : Option UInt8 :=
  -- What overflows an `i32` is no byte either.
  if 0 ≤ sample.toInt + 0x80 ∧ sample.toInt + 0x80 < 256 then
    some (UInt8.ofNat (sample.toInt + 0x80).toNat)
  else none

def sampleBytes (sample : Int32) (bytesPerSample : Nat) : Except Error (List UInt8) :=
  if bytesPerSample = 1 then do
    let byte ← okOr (toUnsigned sample)
      (formatError "ZIP WavPack 8-bit sample is out of range")
    return [byte]
  else
    okOr (getRange (toLeBytes 4 sample.toUInt32.toNat) 0 bytesPerSample)
      (formatError "ZIP WavPack sample width is invalid")

section

variable (samples : List Int32) (streamChannels totalChannels channelOffset bytesPerSample : Nat)

def writeSample (frame : Nat) (output : List UInt8) (channel : Nat) :
    Except Error (List UInt8) := do
  let sourceIndex ← okOr ((checkedMul frame streamChannels).bind (checkedAdd · channel))
    (formatError "ZIP WavPack source sample index overflows")
  let destinationSample ← okOr ((checkedMul frame totalChannels).bind fun value =>
      (checkedAdd value channelOffset).bind (checkedAdd · channel))
    (formatError "ZIP WavPack output sample index overflows")
  let destination ← okOr (checkedMul destinationSample bytesPerSample)
    (formatError "ZIP WavPack output byte index overflows")
  let destinationEnd ← okOr (checkedAdd destination bytesPerSample)
    (formatError "ZIP WavPack output sample range overflows")
  let sample ← okOr samples[sourceIndex]?
    (formatError "ZIP WavPack source sample is unavailable")
  let _bytes ← okOr (getRange output destination destinationEnd)
    (formatError "ZIP WavPack output sample is unavailable")
  let bytes ← sampleBytes sample bytesPerSample
  return splice output destination bytes

def writeStreamSamples (output : List UInt8) (frames : Nat) : Except Error (List UInt8) := do
  let expectedValues ← okOr (checkedMul frames streamChannels)
    (formatError "ZIP WavPack sample count overflows")
  rejectIf (samples.length ≠ expectedValues) (formatError "ZIP WavPack sample count is invalid")
  (List.range frames).foldlM (fun output frame =>
    (List.range streamChannels).foldlM
      (writeSample samples streamChannels totalChannels channelOffset bytesPerSample frame) output)
    output

end

/-! ## Groups -/

/-- What the loop over the groups changes. -/
structure Reassembly where
  output : List UInt8
  position : Nat
  sawAudio : Bool
  decodedFrames : Nat
  totalSamples : Option Nat
  channelCount : Option Nat
  channelStreamCount : Option Nat
  formatSignature : Option UInt32
  bytesPerSample : Option Nat
  floatingPoint : Option Bool
  streamVersion : Option Nat
  audioStreamCount : Nat

def Reassembly.start : Reassembly where
  output := []
  position := 0
  sawAudio := false
  decodedFrames := 0
  totalSamples := none
  channelCount := none
  channelStreamCount := none
  formatSignature := none
  bytesPerSample := none
  floatingPoint := none
  streamVersion := none
  audioStreamCount := 0

/-- What the loop over the blocks of a group changes. -/
structure ChannelGroup where
  finish : Nat
  channels : Nat
  streams : Nat
  channelDeclaration : Option Nat
  streamDeclaration : Option Nat
  audioStreamCount : Nat
  first : Bool

def differs {α : Type} [DecidableEq α] (seen : Option α) (value : α) : Prop :=
  ∃ previous ∈ seen, previous ≠ value

instance {α : Type} [DecidableEq α] (seen : Option α) (value : α) :
    Decidable (differs seen value) :=
  match seen with
  | none => isFalse fun h => h.elim fun _ hand => nomatch hand.1
  | some previous =>
    if h : previous ≠ value then isTrue ⟨previous, rfl, h⟩
    else isFalse fun hdiffers => hdiffers.elim fun _ hand =>
      h (Option.mem_some_iff.mp hand.1 ▸ hand.2)

section

variable (decodeStream : BlockDecoder) (limits : Limits) (expected maximum : Nat)
  (blocks : List Block) (summaries : List MetadataSummary)

/-- `summaries.get(index)`. -/
def summaryAt (index : Nat) : Except Error MetadataSummary :=
  okOr summaries[index]? (formatError "ZIP WavPack metadata summary is unavailable")

def blockAt (index : Nat) : Except Error Block :=
  okOr blocks[index]? (formatError "ZIP WavPack channel block is unavailable")

def appendRiffHeader (sawAudio : Bool) (output : List UInt8) :
    Option (List UInt8) → Except Error (List UInt8)
  | none => return output
  | some header => do
    rejectIf sawAudio (formatError "ZIP WavPack RIFF header follows audio")
    appendBounded output header expected maximum

def metadataBlock (state : Reassembly) (summary : MetadataSummary) : Except Error Reassembly := do
  rejectIf summary.hasAudioMetadata
    (formatError "ZIP WavPack metadata-only block contains audio coding data")
  let output ← appendRiffHeader expected maximum state.sawAudio state.output summary.riffHeader
  let output ← match summary.riffTrailer with
    | none => pure output
    | some trailer => do
      rejectIf (state.sawAudio = false ∨ some state.decodedFrames ≠ state.totalSamples)
        (formatError "ZIP WavPack RIFF trailer precedes audio end")
      appendBounded output trailer expected maximum
  let position ← okOr (checkedAdd state.position 1)
    (formatError "ZIP WavPack block position overflows")
  return { state with output := output, position := position }

def declareChannels (group : ChannelGroup) (summary : MetadataSummary) :
    Except Error ChannelGroup :=
  match summary.channelCount with
  | none => return group
  | some declared => do
    rejectIf (group.first = false ∨ group.channelDeclaration.isSome)
      (formatError "ZIP WavPack channel declaration is misplaced")
    return { group with
      channelDeclaration := some declared, streamDeclaration := summary.streamCount }

def joinGroup (block : Block) (group : ChannelGroup) (channelBlock : Block)
    (channelSummary : MetadataSummary) : Except Error ChannelGroup := do
  rejectIf (channelBlock.header.blockSamples = 0 ∨
      channelBlock.header.blockIndex ≠ block.header.blockIndex ∨
      channelBlock.header.blockSamples ≠ block.header.blockSamples)
    (formatError "ZIP WavPack channel group is inconsistent")
  rejectIf (channelBlock.header.isInitial ≠ group.first)
    (formatError "ZIP WavPack channel group has invalid boundary flags")
  rejectIf (channelBlock.header.version ≠ block.header.version ∨
      channelBlock.header.formatSignature ≠ block.header.formatSignature)
    (formatError "ZIP WavPack channel group changes the audio format")
  let group ← declareChannels group channelSummary
  let channels ← okOr (tryFrom 16 (group.channels + channelBlock.header.outputChannels))
    (formatError "ZIP WavPack channel count overflows")
  let streams ← okOr (tryFrom 16 (group.streams + 1))
    (formatError "ZIP WavPack stream count overflows")
  let audioStreamCount ← okOr (checkedAdd group.audioStreamCount 1)
    (formatError "ZIP WavPack stream count overflows")
  checkLimit audioStreamCount limits.maxTotalStreams .totalStreams
  return { group with
    channels := channels, streams := streams, audioStreamCount := audioStreamCount }

def groupLoop (block : Block) : Nat → ChannelGroup → Except Error ChannelGroup
  | 0, _ => throw (formatError "ZIP WavPack channel group is truncated")
  | rounds + 1, group => do
    let channelBlock ← okOr blocks[group.finish]?
      (formatError "ZIP WavPack channel group is truncated")
    let channelSummary ← summaryAt summaries group.finish
    let group ← joinGroup limits block group channelBlock channelSummary
    let finish ← okOr (checkedAdd group.finish 1) (formatError "ZIP WavPack group range overflows")
    if channelBlock.header.isFinal then return { group with finish := finish }
    else groupLoop block rounds { group with finish := finish, first := false }

def findGroup (state : Reassembly) (block : Block) : Except Error ChannelGroup := do
  let group ← groupLoop limits blocks summaries block (blocks.length + 1)
    { finish := state.position, channels := 0, streams := 0, channelDeclaration := none,
      streamDeclaration := none, audioStreamCount := state.audioStreamCount, first := true }
  checkLimit group.channels limits.maxStreamsPerFolder .streamsPerFolder
  rejectIf (differs group.streamDeclaration group.streams)
    (formatError "ZIP WavPack channel blocks disagree with their stream declaration")
  rejectIf (differs state.channelStreamCount group.streams)
    (formatError "ZIP WavPack channel stream count changes")
  return group

def groupFrames (state : Reassembly) (block : Block) : Except Error (Nat × Nat) := do
  let declaredTotal ← okOr block.header.totalSamples
    (unsupported "zip-wavpack-unknown-sample-count")
  rejectIf (declaredTotal = 0) (formatError "ZIP WavPack total sample count is zero")
  rejectIf (differs state.totalSamples declaredTotal)
    (formatError "ZIP WavPack total sample count changes")
  let afterGroup ← okOr (checkedAdd state.decodedFrames block.header.blockSamples)
    (formatError "ZIP WavPack decoded sample count overflows")
  rejectIf (declaredTotal < afterGroup)
    (formatError "ZIP WavPack blocks exceed the total sample count")
  return (declaredTotal, afterGroup)

def groupHeader (sawAudio : Bool) (declaredTotal afterGroup : Nat) (output : List UInt8)
    (index : Nat) : Except Error (List UInt8) := do
  let channelBlock ← blockAt blocks index
  rejectIf (differs channelBlock.header.totalSamples declaredTotal)
    (formatError "ZIP WavPack total sample count changes")
  let channelSummary ← summaryAt summaries index
  let output ← appendRiffHeader expected maximum sawAudio output channelSummary.riffHeader
  rejectIf (channelSummary.riffTrailer.isSome ∧ afterGroup ≠ declaredTotal)
    (formatError "ZIP WavPack RIFF trailer precedes audio end")
  return output

def groupChannels (state : Reassembly) (group : ChannelGroup) : Except Error Nat := do
  let effectiveChannels :=
    (group.channelDeclaration.or state.channelCount).getD group.channels
  rejectIf (effectiveChannels ≠ group.channels)
    (formatError "ZIP WavPack channel blocks disagree with their declaration")
  rejectIf (differs state.channelCount effectiveChannels)
    (formatError "ZIP WavPack channel count changes")
  rejectIf (2 < group.channels ∧ group.channelDeclaration = none ∧ state.sawAudio = false)
    (formatError "ZIP WavPack multichannel stream lacks channel metadata")
  return effectiveChannels

def groupFormat (state : Reassembly) (block : Block) : Except Error Unit :=
  rejectIf (differs state.formatSignature block.header.formatSignature ∨
      differs state.bytesPerSample block.header.bytesPerSample ∨
      differs state.floatingPoint block.header.isFloat ∨
      differs state.streamVersion block.header.version)
    (formatError "ZIP WavPack audio format changes")

def framesSize (frames channels bytesPerSample : Nat) (e : Error) : Except Error Nat :=
  okOr ((checkedMul frames channels).bind (checkedMul · bytesPerSample)) e

def startAudio (sawAudio : Bool) (output : List UInt8) (declaredTotal channels bytesPerSample : Nat)
    (isFloat : Bool) : Except Error Unit :=
  if sawAudio then return ()
  else do
    let sampleBytes ← framesSize declaredTotal channels bytesPerSample
      (formatError "ZIP WavPack output sample size overflows")
    rejectIf (expected < sampleBytes)
      (formatError "ZIP WavPack samples exceed the ZIP size declaration")
    validateRiffHeader channels bytesPerSample isFloat output sampleBytes

def writeBlock (frames channels bytesPerSample : Nat) (group : List UInt8 × Nat) (index : Nat) :
    Metered (List UInt8 × Nat) := do
  let channelBlock ← blockAt blocks index
  let channelSummary ← summaryAt summaries index
  let decoded ← decodeBlock decodeStream limits channelBlock channelSummary
  let output ← writeStreamSamples decoded.samples decoded.channels channels group.2 bytesPerSample
    group.1 frames
  let channelOffset ← okOr (checkedAdd group.2 decoded.channels)
    (formatError "ZIP WavPack channel offset overflows")
  return (output, channelOffset)

def writeGroup (output : List UInt8) (indices : List Nat) (frames channels bytesPerSample : Nat) :
    Metered (List UInt8) := do
  let groupByteCount ← framesSize frames channels bytesPerSample
    (formatError "ZIP WavPack group size overflows")
  let (output, groupStart) ← appendZeroed output groupByteCount expected maximum
  let groupEndOffset ← okOr (checkedAdd groupStart groupByteCount)
    (formatError "ZIP WavPack group output range overflows")
  let groupOutput ← okOr (getRange output groupStart groupEndOffset)
    (formatError "ZIP WavPack group output is unavailable")
  let (groupOutput, channelOffset) ← indices.foldlM
    (writeBlock decodeStream limits blocks summaries frames channels bytesPerSample)
    (groupOutput, 0)
  rejectIf (channelOffset ≠ channels) (formatError "ZIP WavPack channel group is incomplete")
  return splice output groupStart groupOutput

def groupTrailer (output : List UInt8) (index : Nat) : Except Error (List UInt8) := do
  let channelSummary ← summaryAt summaries index
  match channelSummary.riffTrailer with
  | none => return output
  | some trailer => appendBounded output trailer expected maximum

def audioGroup (state : Reassembly) (block : Block) : Metered Reassembly := do
  rejectIf (block.header.isInitial = false)
    (formatError "ZIP WavPack channel group lacks an initial block")
  rejectIf (block.header.blockIndex ≠ state.decodedFrames)
    (formatError "ZIP WavPack audio blocks are not contiguous")
  let group ← findGroup limits blocks summaries state block
  let indices := List.range' state.position (group.finish - state.position)
  let (declaredTotal, afterGroup) ← groupFrames state block
  let output ← (indices.foldlM
    (groupHeader expected maximum blocks summaries state.sawAudio declaredTotal afterGroup)
    state.output : Except Error (List UInt8))
  let channels ← groupChannels state group
  groupFormat state block
  startAudio expected state.sawAudio output declaredTotal channels block.header.bytesPerSample
    block.header.isFloat
  let output ← writeGroup decodeStream limits expected maximum blocks summaries output indices
    block.header.blockSamples channels block.header.bytesPerSample
  let output ← (indices.foldlM (groupTrailer expected maximum summaries) output :
    Except Error (List UInt8))
  return {
    output := output
    position := group.finish
    sawAudio := true
    decodedFrames := afterGroup
    totalSamples := some declaredTotal
    channelCount := some channels
    channelStreamCount := some group.streams
    formatSignature := some block.header.formatSignature
    bytesPerSample := some block.header.bytesPerSample
    floatingPoint := some block.header.isFloat
    streamVersion := some block.header.version
    audioStreamCount := group.audioStreamCount }

def reassemblyRound (state : Reassembly) : Metered Reassembly := do
  let block ← okOr blocks[state.position]? (formatError "ZIP WavPack block is unavailable")
  let summary ← summaryAt summaries state.position
  if block.header.blockSamples = 0 then metadataBlock expected maximum state summary
  else audioGroup decodeStream limits expected maximum blocks summaries state block

def reassemblyLoop : Nat → Reassembly → Metered Reassembly
  | 0, state => return state
  | rounds + 1, state =>
    if state.position < blocks.length then do
      let state ← reassemblyRound decodeStream limits expected maximum blocks summaries state
      reassemblyLoop rounds state
    else return state

end

/-- The whole output, whose size its header tells. -/
def checkOutput (state : Reassembly) (expected : Nat) : Except Error (List UInt8) := do
  rejectIf (state.sawAudio = false) (formatError "ZIP WavPack stream contains no audio")
  rejectIf (some state.decodedFrames ≠ state.totalSamples)
    (formatError "ZIP WavPack stream ends before its sample count")
  rejectIf (state.output.length ≠ expected)
    (formatError "ZIP WavPack output size differs from the ZIP declaration")
  let riffSize ← leU32 state.output 4 "ZIP WavPack RIFF size is truncated"
  let expectedRiffSize ← okOr ((checkedSub state.output.length 8).bind (tryFrom 32))
    (unsupported "zip-wavpack-rf64-wrapper")
  rejectIf (riffSize ≠ expectedRiffSize)
    (formatError "ZIP WavPack RIFF size disagrees with the reconstructed output")
  return state.output

def decodeZipWavpack (decodeStream : BlockDecoder) (input : List UInt8) (expected maximum : Nat)
    (limits : Limits) : Metered (List UInt8) := do
  checkLimit expected maximum .totalOutputBytes
  let blocks ← parseBlocks input limits
  let first ← okOr blocks.head? (formatError "ZIP WavPack stream contains no blocks")
  rejectIf (∃ block ∈ blocks, block.header.version ≠ first.header.version)
    (formatError "ZIP WavPack stream version changes")
  let summaries ← summarizeAll limits blocks 0
  let state ← reassemblyLoop decodeStream limits expected maximum blocks summaries blocks.length
    .start
  checkOutput state expected

end WavPack
end Unpackio
