/-
Execution of validated folder graphs, from `execute.rs`.

The graph execution takes `decode_coder` as a parameter, and `decode_coder`
takes the codecs: both stand for these functions under the limits and the
password of the operation.
-/
import Unpackio.Checksum
import Unpackio.CoderProperties
import Unpackio.Model

namespace Unpackio

def methodCopy : List UInt8 := [0x00]
def methodDelta : List UInt8 := [0x03]
def methodBcj : List UInt8 := [0x03, 0x03, 0x01, 0x03]
def methodBcj2 : List UInt8 := [0x03, 0x03, 0x01, 0x1b]
def methodPpc : List UInt8 := [0x03, 0x03, 0x02, 0x05]
def methodArm : List UInt8 := [0x03, 0x03, 0x05, 0x01]
def methodSparc : List UInt8 := [0x03, 0x03, 0x08, 0x05]
def methodArm64 : List UInt8 := [0x0a]
def methodDeflate : List UInt8 := [0x04, 0x01, 0x08]
def methodBzip2 : List UInt8 := [0x04, 0x02, 0x02]
def methodZstd : List UInt8 := [0x04, 0xf7, 0x11, 0x01]
def methodBrotli : List UInt8 := [0x04, 0xf7, 0x11, 0x02]
def methodLz4 : List UInt8 := [0x04, 0xf7, 0x11, 0x04]
def methodIa64 : List UInt8 := [0x03, 0x03, 0x04, 0x01]
def methodArmThumb : List UInt8 := [0x03, 0x03, 0x07, 0x01]
def methodRiscv : List UInt8 := [0x0b]
def methodSwap2 : List UInt8 := [0x02, 0x03, 0x02]
def methodSwap4 : List UInt8 := [0x02, 0x03, 0x04]

structure DecodedFolder where
  bytes : List UInt8
  crcMismatch : Bool
  encrypted : Bool
  deriving DecidableEq, Repr

/-- `decode_coder` on a coder, its inputs, the declared output size and the
maximum. -/
abbrev CoderDecoder : Type := Coder → List (List UInt8) → Option Nat → Nat → Metered (List UInt8)

def validateArity (coder : Coder) (inputs outputs : Nat) : Except Error Unit :=
  rejectIf (¬(coder.inputCount = inputs ∧ coder.outputCount = outputs))
    (formatError "coder stream arity does not match its method")

/-- A method with one input whose property record has one of the lengths. -/
def registerSimple (coder : Coder) (lengths : List Nat) (detail : String) : Except Error Unit := do
  validateArity coder 1 1
  rejectIf (coder.properties.length ∉ lengths) (formatError detail)

/-- The method table of `validate_coder_registration`. -/
def registerMethod (coder : Coder) : Except Error Unit :=
  if coder.methodId = methodCopy then
    registerSimple coder [0] "Copy coder properties must be empty"
  else if coder.methodId = methodLzma then
    registerSimple coder [5] "LZMA properties must contain exactly five bytes"
  else if coder.methodId = methodLzma2 then
    registerSimple coder [1] "LZMA2 properties must contain exactly one byte"
  else if coder.methodId = methodPpmd then do
    validateArity coder 1 1
    let _ ← parsePpmdProperties coder.properties
    return ()
  else if coder.methodId = methodDelta then
    registerSimple coder [1] "Delta properties must contain exactly one byte"
  else if coder.methodId ∈ [methodBcj, methodPpc, methodArm, methodArm64, methodSparc, methodIa64,
      methodArmThumb, methodRiscv] then
    registerSimple coder [0, 4] "branch filter properties must be empty or four bytes"
  else if coder.methodId = methodBcj2 then do
    validateArity coder 4 1
    rejectIf (coder.properties ≠ []) (formatError "BCJ2 properties must be empty")
  else if coder.methodId ∈ [methodSwap2, methodSwap4] then
    registerSimple coder [0] "Swap filter properties must be empty"
  else if coder.methodId ∈ [methodDeflate, methodDeflate64, methodBzip2] then
    registerSimple coder [0] "framed compression coder properties must be empty"
  else if coder.methodId ∈ [methodBrotli, methodLz4, methodZstd] then validateArity coder 1 1
  else if coder.methodId = methodAes then validateArity coder 1 1
  else .error (.unsupportedMethod coder.methodId)

def validateCoderRegistration (coder : Coder) : Except Error Unit := do
  rejectIf (coder.outputCount ≠ 1) (.unsupportedFeature "multi-output-coder")
  registerMethod coder

def registerCoders : List Coder → Metered Unit
  | [] => return ()
  | coder :: coders => do
    validateCoderRegistration coder
    checkpoint 1
    registerCoders coders

/-! ## Codecs -/

/-- The decoders behind the method identifiers.  Their arguments are the input,
the properties where the method has any, the declared size and the maximum. -/
structure Codecs where
  lzma : List UInt8 → List UInt8 → Option Nat → Nat → Metered (List UInt8)
  lzma2 : List UInt8 → List UInt8 → Option Nat → Nat → Metered (List UInt8)
  ppmd : List UInt8 → List UInt8 → Option Nat → Nat → Metered (List UInt8)
  filter : List UInt8 → List UInt8 → List UInt8 → Metered (List UInt8)
  bcj2 : List (List UInt8) → List UInt8 → Option Nat → Nat → Metered (List UInt8)
  deflate : List UInt8 → Option Nat → Nat → Metered (List UInt8)
  deflate64 : List UInt8 → Option Nat → Nat → Metered (List UInt8)
  bzip2 : List UInt8 → Option Nat → Nat → Metered (List UInt8)
  brotli : List UInt8 → Option Nat → Nat → Metered (List UInt8)
  lz4 : List UInt8 → Option Nat → Nat → Metered (List UInt8)
  zstd : List UInt8 → Option Nat → Nat → Metered (List UInt8)
  aes : List UInt8 → List UInt8 → Option Nat → Nat → Metered (List UInt8)

def Codecs.copyOnly : Codecs where
  lzma _ _ _ _ := throw (.unsupportedMethod methodLzma)
  lzma2 _ _ _ _ := throw (.unsupportedMethod methodLzma2)
  ppmd _ _ _ _ := throw (.unsupportedMethod methodPpmd)
  filter method _ _ := throw (.unsupportedMethod method)
  bcj2 _ _ _ _ := throw (.unsupportedMethod methodBcj2)
  deflate _ _ _ := throw (.unsupportedMethod methodDeflate)
  deflate64 _ _ _ := throw (.unsupportedMethod methodDeflate64)
  bzip2 _ _ _ := throw (.unsupportedMethod methodBzip2)
  brotli _ _ _ := throw (.unsupportedMethod methodBrotli)
  lz4 _ _ _ := throw (.unsupportedMethod methodLz4)
  zstd _ _ _ := throw (.unsupportedMethod methodZstd)
  aes _ _ _ _ := throw (.unsupportedMethod methodAes)

def permitsUnknownOutput (method : List UInt8) : Bool :=
  method ∈ [methodCopy, methodDelta, methodLzma, methodLzma2, methodBcj, methodBcj2, methodPpc,
    methodArm, methodArm64, methodSparc, methodIa64, methodArmThumb, methodRiscv, methodSwap2,
    methodSwap4, methodDeflate, methodDeflate64]

def takeSingleInput : List (List UInt8) → Except Error (List UInt8)
  | [input] => .ok input
  | _ => .error (formatError "single-input coder received the wrong stream count")

def runSingle (coder : Coder) (inputs : List (List UInt8))
    (codec : List UInt8 → Metered (List UInt8)) : Metered (List UInt8) := do
  validateArity coder 1 1
  let input ← takeSingleInput inputs
  codec input

def filterMethods : List (List UInt8) :=
  [methodDelta, methodBcj, methodPpc, methodArm, methodArm64, methodSparc, methodIa64,
    methodArmThumb, methodRiscv, methodSwap2, methodSwap4]

/-- The method dispatch of `decode_coder`. -/
def runMethod (codecs : Codecs) (coder : Coder) (inputs : List (List UInt8))
    (expected : Option Nat) (maximum : Nat) : Metered (List UInt8) :=
  if coder.methodId = methodCopy then do
    validateArity coder 1 1
    rejectIf (coder.properties ≠ []) (formatError "Copy coder properties must be empty")
    let input ← takeSingleInput inputs
    checkLimit input.length maximum .totalOutputBytes
    return input
  else if coder.methodId = methodLzma then
    runSingle coder inputs fun input => codecs.lzma input coder.properties expected maximum
  else if coder.methodId = methodLzma2 then
    runSingle coder inputs fun input => codecs.lzma2 input coder.properties expected maximum
  else if coder.methodId = methodPpmd then
    runSingle coder inputs fun input => codecs.ppmd input coder.properties expected maximum
  else if coder.methodId ∈ filterMethods then
    runSingle coder inputs fun input => do
      checkLimit input.length maximum .totalOutputBytes
      codecs.filter coder.methodId coder.properties input
  else if coder.methodId = methodBcj2 then do
    validateArity coder 4 1
    codecs.bcj2 inputs coder.properties expected maximum
  else if coder.methodId = methodDeflate then
    runSingle coder inputs fun input => codecs.deflate input expected maximum
  else if coder.methodId = methodDeflate64 then
    runSingle coder inputs fun input => codecs.deflate64 input expected maximum
  else if coder.methodId = methodBzip2 then
    runSingle coder inputs fun input => codecs.bzip2 input expected maximum
  else if coder.methodId = methodBrotli then
    runSingle coder inputs fun input => codecs.brotli input expected maximum
  else if coder.methodId = methodLz4 then
    runSingle coder inputs fun input => codecs.lz4 input expected maximum
  else if coder.methodId = methodZstd then
    runSingle coder inputs fun input => codecs.zstd input expected maximum
  else if coder.methodId = methodAes then
    runSingle coder inputs fun input => codecs.aes input coder.properties expected maximum
  else throw (.unsupportedMethod coder.methodId)

def decodeCoder (codecs : Codecs) : CoderDecoder := fun coder inputs expected maximum => do
  rejectIf (expected = none ∧ ¬permitsUnknownOutput coder.methodId)
    (.unsupportedFeature "coder-unknown-unpacked-size")
  let output ← runMethod codecs coder inputs expected maximum
  checkLimit output.length maximum .totalOutputBytes
  rejectIf (∃ size ∈ expected, size ≠ output.length)
    (formatError "decoded coder output size does not match its declaration")
  return output

/-- `total_port_count` over the input or the output counts of the coders. -/
def totalPortCount : List Nat → Nat → Except Error Nat
  | [], total => .ok total
  | count :: counts, total => do
    let total ← okOr (checkedAdd total count)
      (formatError "folder port count overflows during execution")
    totalPortCount counts total

/-- The binding loop of `output_destinations`. -/
def bindOutputs : List BindPair → List (Option Nat) → Metered (List (Option Nat))
  | [], destinations => return destinations
  | pair :: pairs, destinations => do
    checkpoint 1
    let destination ← okOr destinations[pair.outputIndex]?
      (formatError "bound output index is out of range")
    rejectIf destination.isSome (formatError "validated output binding is duplicated")
    bindOutputs pairs (destinations.set pair.outputIndex (some pair.inputIndex))

def outputDestinations (folder : Folder) (outputCount : Nat) : Metered (List (Option Nat)) :=
  bindOutputs folder.bindPairs (List.replicate outputCount none)

def packedBytes (archiveBytes : List UInt8) (streams : StreamsInfo)
    (firstPackStream ordinal : Nat) : Metered (List UInt8) := do
  let streamIndex ← okOr (checkedAdd firstPackStream ordinal)
    (formatError "packed-stream index overflows during execution")
  let stream ← okOr streams.packStreams[streamIndex]?
    (formatError "packed-stream index is out of range during execution")
  let size ← okOr stream.size (.unsupportedFeature "unknown-packed-stream-size")
  let bytes ← checkedRange archiveBytes stream.offset size
    "packed-stream range overflows during execution"
    "packed-stream range is truncated during execution"
  match stream.crc with
  | some expected => do
    let actual ← checksumWithControl bytes
    rejectIf (actual ≠ expected) (.checksum .packedStream none)
    return bytes
  | none => return bytes

/-- The loop of `load_packed_inputs` over the packed ports and their ordinals. -/
def loadPackedInputs (archiveBytes : List UInt8) (streams : StreamsInfo) (firstPackStream : Nat) :
    List (Nat × Nat) → List (Option (List UInt8)) → Metered (List (Option (List UInt8)))
  | [], ports => return ports
  | (inputIndex, ordinal) :: rest, ports => do
    checkpoint 1
    let bytes ← packedBytes archiveBytes streams firstPackStream ordinal
    let port ← okOr ports[inputIndex]?
      (formatError "packed-input port is out of range during execution")
    rejectIf port.isSome (formatError "packed-input port was populated more than once")
    let copied ← copyBytes bytes
    loadPackedInputs archiveBytes streams firstPackStream rest (ports.set inputIndex (some copied))

structure Ports where
  inputs : List (Option (List UInt8))
  outputs : List (Option (List UInt8))
  destinations : List (Option Nat)

def takeInputs (start : Nat) :
    Nat → Nat → List (Option (List UInt8)) →
      Except Error (List (List UInt8) × List (Option (List UInt8)))
  | 0, _, ports => .ok ([], ports)
  | count + 1, relative, ports => do
    let inputIndex ← okOr (checkedAdd start relative)
      (formatError "coder input index overflows during execution")
    let port ← okOr ports[inputIndex]?
      (formatError "coder input index is out of range during execution")
    let input ← okOr port (formatError "coder input stream is unavailable during execution")
    let (inputs, ports) ← takeInputs start count (relative + 1) (ports.set inputIndex none)
    return (input :: inputs, ports)

def storeOutput (slot : Nat) (output : List UInt8) (ports : Ports) : Except Error Ports := do
  let destination ← okOr ports.destinations[slot]?
    (formatError "coder output index is out of range during execution")
  let destinations := ports.destinations.set slot none
  match destination with
  | some destination => do
    let port ← okOr ports.inputs[destination]?
      (formatError "bound input index is out of range during execution")
    rejectIf port.isSome (formatError "bound input stream was populated more than once")
    return { ports with inputs := ports.inputs.set destination (some output),
                        destinations := destinations }
  | none => do
    let port ← okOr ports.outputs[slot]?
      (formatError "root output index is out of range during execution")
    rejectIf port.isSome (formatError "root output stream was populated more than once")
    return { ports with outputs := ports.outputs.set slot (some output),
                        destinations := destinations }

def coderMaximum (folder : Folder) (limits : Limits) (maximumOutput outputIndex : Nat) : Nat :=
  if outputIndex = folder.rootOutputIndex then maximumOutput else limits.maxTotalOutputBytes

def runCoder (decodeCoder : CoderDecoder) (folder : Folder) (limits : Limits)
    (maximumOutput coderIndex : Nat) (ports : Ports) : Metered Ports := do
  checkpoint 1
  let coder ← okOr folder.coders[coderIndex]?
    (formatError "coder index is out of range during execution")
  rejectIf (coder.outputCount ≠ 1) (.unsupportedFeature "multi-output-coder")
  let (inputs, inputPorts) ← takeInputs coder.inputStart coder.inputCount 0 ports.inputs
  let expected ← okOr folder.unpackSizes[coder.outputStart]?
    (formatError "coder output size is missing during execution")
  let output ← decodeCoder coder inputs expected
    (coderMaximum folder limits maximumOutput coder.outputStart)
  storeOutput coder.outputStart output { ports with inputs := inputPorts }

def runCoders (decodeCoder : CoderDecoder) (folder : Folder) (limits : Limits)
    (maximumOutput : Nat) : List Nat → Ports → Metered Ports
  | [], ports => return ports
  | coderIndex :: order, ports => do
    let ports ← runCoder decodeCoder folder limits maximumOutput coderIndex ports
    runCoders decodeCoder folder limits maximumOutput order ports

/-- The checks of `decode_folder` before any byte is read. -/
def checkFolder (folder : Folder) (limits : Limits) (maximumOutput : Nat) : Metered Unit := do
  checkLimit folder.dictionaryBytes limits.maxDictionaryBytes .dictionaryBytes
  let rootSize ← okOr folder.unpackSizes[folder.rootOutputIndex]?
    (formatError "root output size is missing during execution")
  rejectIf (∃ size ∈ rootSize, maximumOutput < size)
    (.limitExceeded .totalOutputBytes (rootSize.getD 0) maximumOutput)
  registerCoders folder.coders

/-- What `decode_folder` takes from the ports once every coder has run. -/
def takeRoot (folder : Folder) (ports : Ports) : Except Error (List UInt8) := do
  rejectIf (ports.inputs.any Option.isSome)
    (formatError "folder execution left an input stream unconsumed")
  let port ← okOr ports.outputs[folder.rootOutputIndex]?
    (formatError "root output index is out of range during execution")
  let bytes ← okOr port (formatError "root output stream is unavailable after execution")
  rejectIf ((ports.outputs.set folder.rootOutputIndex none).any Option.isSome)
    (formatError "folder execution produced multiple root streams")
  return bytes

def folderCrcMismatch (crc : Option UInt32) (bytes : List UInt8) : Metered Bool :=
  match crc with
  | some expected => do
    let actual ← checksumWithControl bytes
    return actual != expected
  | none => return false

def decodeFolder (decodeCoder : CoderDecoder) (archiveBytes : List UInt8) (streams : StreamsInfo)
    (folderIndex : Nat) (limits : Limits) (maximumOutput : Nat) : Metered DecodedFolder := do
  let folder ← okOr streams.folders[folderIndex]?
    (formatError "folder index is out of range during execution")
  checkFolder folder limits maximumOutput
  let inputCount ← totalPortCount (folder.coders.map Coder.inputCount) 0
  let outputCount ← totalPortCount (folder.coders.map Coder.outputCount) 0
  let destinations ← outputDestinations folder outputCount
  let inputs ← loadPackedInputs archiveBytes streams folder.firstPackStream
    folder.packedInputIndices.zipIdx (List.replicate inputCount none)
  let ports ← runCoders decodeCoder folder limits maximumOutput folder.topologicalCoderOrder
    { inputs := inputs, outputs := List.replicate outputCount none, destinations := destinations }
  let bytes ← takeRoot folder ports
  let crcMismatch ← folderCrcMismatch folder.crc bytes
  return { bytes := bytes, crcMismatch := crcMismatch,
           encrypted := folder.coders.any fun coder => coder.methodId = methodAes }

end Unpackio
