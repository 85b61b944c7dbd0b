/-
Unix `compress` decompression, from `stream/unix_compress.rs`, and the code
writer of its tests.

A code, a width and a table index are natural numbers; a conversion or a shift of
the source that can fail in its own type is checked here.  The output buffer is
the part of the array that is in use.
-/
import Unpackio.Bounded
import Unpackio.Foundation.BitPack
import Unpackio.Stream.Control

namespace Unpackio
namespace UnixCompress

def initialCodeBits : Nat := 9

def clearCode : Nat := 256

def firstBlockCode : Nat := 257

def firstPlainCode : Nat := 256

def firstCode (blockMode : Bool) : Nat := if blockMode then firstBlockCode else firstPlainCode

def compressError (detail : String) : Error := streamFormatError "unix-compress" detail

def maximumCodeForWidth (width maximumWidth : Nat) : Except Error Nat := do
  let codes ← okOr (checkedShl 32 1 width) (compressError "code-width shift overflows")
  if width = maximumWidth then return codes
  else okOr (checkedSub codes 1) (compressError "maximum code underflows")

structure CodeReader where
  input : List UInt8
  position : Nat
  groupStart : Nat
  groupLength : Nat
  bitOffset : Nat
  validBits : Nat
  deriving DecidableEq, Repr

namespace CodeReader

def new (input : List UInt8) : CodeReader where
  input := input
  position := 0
  groupStart := 0
  groupLength := 0
  bitOffset := 0
  validBits := 0

def refill (reader : CodeReader) (width : Nat) : Except Error (Bool × CodeReader) := do
  let remaining ← okOr (getRange reader.input reader.position reader.input.length)
    (compressError "code-reader position is out of range")
  if remaining = [] then return (false, reader)
  else do
    let groupLength := min remaining.length width
    let position ← okOr (checkedAdd reader.position groupLength)
      (compressError "code-reader position overflows")
    let groupBits ← okOr (tryFrom 64 (groupLength * 8))
      (compressError "code group bit count overflows")
    rejectIf (width = 0) (compressError "code width is zero")
    let completeCodes := groupBits / width
    let validBits ← okOr (tryFrom 64 (completeCodes * width))
      (compressError "valid code bit count overflows")
    return (completeCodes ≠ 0,
      { reader with
        groupStart := reader.position
        groupLength := groupLength
        position := position
        validBits := validBits
        bitOffset := 0 })

def codeWindow : List UInt8 → Nat → Nat → Except Error Nat
  | [], _, window => return window
  | byte :: bytes, index, window => do
    let shift ← okOr (tryFrom 32 (index * 8)) (compressError "encoded byte shift overflows")
    let shifted ← okOr (checkedShl 32 byte.toNat shift)
      (compressError "encoded code window overflows")
    codeWindow bytes (index + 1) (window ||| shifted)

def readCode (reader : CodeReader) (width : Nat) : Except Error (Nat × CodeReader) := do
  let groupEnd ← okOr (checkedAdd reader.groupStart reader.groupLength)
    (compressError "code group range overflows")
  let group ← okOr (getRange reader.input reader.groupStart groupEnd)
    (compressError "code group is unavailable")
  let finalBit ← okOr ((checkedAdd reader.bitOffset width).bind fun finish => checkedSub finish 1)
    (compressError "code bit range overflows")
  let firstByte := reader.bitOffset / 8
  let finalByte := finalBit / 8
  let encodedEnd ← okOr (checkedAdd finalByte 1) (compressError "encoded byte range overflows")
  let encoded ← okOr (getRange group firstByte encodedEnd)
    (compressError "encoded code is truncated")
  let window ← codeWindow encoded 0 0
  let bitInByte := reader.bitOffset % 8
  let mask ← okOr ((checkedShl 32 1 width).bind fun value => checkedSub value 1)
    (compressError "code mask overflows")
  let value := window >>> bitInByte &&& mask
  let bitOffset ← okOr (checkedAdd reader.bitOffset width)
    (compressError "code bit offset overflows")
  let value ← okOr (tryFrom 16 value) (compressError "decoded code is not representable")
  return (value, { reader with bitOffset := bitOffset })

def nextCode (reader : CodeReader) (width : Nat) (forceRefill : Bool) :
    Except Error (Option Nat × CodeReader) := do
  let (available, reader) ←
    if forceRefill = true ∨ reader.validBits ≤ reader.bitOffset then reader.refill width
    else pure (true, reader)
  if available then do
    let (code, reader) ← reader.readCode width
    return (some code, reader)
  else return (none, reader)

end CodeReader

structure Output where
  control : ExtractionControl
  buffered : List UInt8
  deriving DecidableEq, Repr

namespace Output

def flushOutput (output : Output) : Streamed Output :=
  if output.buffered = [] then return output
  else do
    let control ← output.control.writeOutput output.buffered
    return { control := control, buffered := [] }

/-- The loop of `buffer_output`.  Each byte takes two turns at most, so `fuel`
does not run out. -/
def bufferLoop : Nat → List UInt8 → Output → Streamed Output
  | fuel, bytes, output =>
    if bytes = [] then return output
    else
      match fuel with
      | 0 => throw (compressError "output position exceeds its source")
      | fuel + 1 => do
        let available ← okOr (checkedSub ioChunkSize output.buffered.length)
          (compressError "output buffer length is invalid")
        let count := min (min bytes.length available) controlChunkSize
        if count = 0 then do
          let output ← output.flushOutput
          bufferLoop fuel bytes output
        else do
          let destinationEnd := output.buffered.length + count
          let _ ← output.control.checkedOutputTotal destinationEnd
          ExtractionControl.checkpoint count
          let output := { output with buffered := output.buffered ++ bytes.take count }
          let output ←
            if output.buffered.length = ioChunkSize then output.flushOutput else pure output
          bufferLoop fuel (bytes.drop count) output

def bufferOutput (output : Output) (bytes : List UInt8) : Streamed Output :=
  bufferLoop (2 * bytes.length) bytes output

end Output

/-! ## The decoder -/

structure Decoder where
  prefixes : List Nat
  suffixes : List UInt8
  codeBits : Nat
  maximumCurrentCode : Nat
  nextCode : Nat
  previousCode : Option Nat
  firstCharacter : UInt8
  reader : CodeReader
  forceRefill : Bool
  output : Output
  deriving DecidableEq, Repr

namespace Decoder

section

/- The parameters of the stream header. -/
variable (maximumCodeBits : Nat) (blockMode : Bool) (dictionaryEntries : Nat)

def new (input : List UInt8) (control : ExtractionControl) : Except Error Decoder := do
  let maximumCurrentCode ← maximumCodeForWidth initialCodeBits maximumCodeBits
  return {
    prefixes := List.replicate dictionaryEntries 0
    suffixes := (List.range dictionaryEntries).map fun index =>
      if index < 256 then UInt8.ofNat index else 0
    codeBits := initialCodeBits
    maximumCurrentCode := maximumCurrentCode
    nextCode := firstCode blockMode
    previousCode := none
    firstCharacter := 0
    reader := .new input
    forceRefill := false
    output := { control := control, buffered := [] } }

def growWidth (decoder : Decoder) : Except Error Decoder :=
  if decoder.maximumCurrentCode < decoder.nextCode ∧ decoder.codeBits < maximumCodeBits then do
    let codeBits ← okOr (tryFrom 8 (decoder.codeBits + 1)) (compressError "code width overflows")
    let maximumCurrentCode ← maximumCodeForWidth codeBits maximumCodeBits
    return { decoder with
      codeBits := codeBits, maximumCurrentCode := maximumCurrentCode, forceRefill := true }
  else return decoder

def clear (decoder : Decoder) : Except Error Decoder := do
  let maximumCurrentCode ← maximumCodeForWidth initialCodeBits maximumCodeBits
  return { decoder with
    codeBits := initialCodeBits
    maximumCurrentCode := maximumCurrentCode
    nextCode := firstBlockCode
    previousCode := none
    forceRefill := true }

def putFirst (decoder : Decoder) (encodedCode : Nat) : Streamed Decoder := do
  rejectIf (255 < encodedCode) (compressError "first code after reset is not a literal")
  let literal := UInt8.ofNat encodedCode
  let output ← decoder.output.bufferOutput [literal]
  return { decoder with
    output := output, firstCharacter := literal, previousCode := some encodedCode }

/-- The loop along the chain of prefixes.  `left` is how often it may still turn
before the chain must be a cycle. -/
def traverse (decoder : Decoder) : Nat → Nat → List UInt8 → Streamed (Nat × List UInt8)
  | left, code, expansion =>
    if 255 < code then do
      ExtractionControl.checkpoint 1
      match left with
      | 0 => throw (compressError "dictionary prefix chain contains a cycle")
      | left + 1 => do
        rejectIf (decoder.nextCode ≤ code)
          (compressError "dictionary prefix references an unavailable code")
        let suffix ← okOr decoder.suffixes[code]?
          (compressError "dictionary suffix is unavailable")
        let code ← okOr decoder.prefixes[code]? (compressError "dictionary prefix is unavailable")
        traverse decoder left code (expansion ++ [suffix])
    else return (code, expansion)

def learn (decoder : Decoder) (maximumCodes previousCode : Nat) : Except Error Decoder :=
  if decoder.nextCode < maximumCodes then do
    rejectIf (decoder.prefixes.length ≤ decoder.nextCode)
      (compressError "next dictionary prefix is unavailable")
    rejectIf (decoder.suffixes.length ≤ decoder.nextCode)
      (compressError "next dictionary suffix is unavailable")
    let nextCode ← okOr (tryFrom 32 (decoder.nextCode + 1))
      (compressError "next dictionary code overflows")
    return { decoder with
      prefixes := decoder.prefixes.set decoder.nextCode previousCode
      suffixes := decoder.suffixes.set decoder.nextCode decoder.firstCharacter
      nextCode := nextCode }
  else return decoder

def putNext (decoder : Decoder) (maximumCodes previousCode encodedCode : Nat) :
    Streamed Decoder := do
  rejectIf (decoder.nextCode < encodedCode)
    (compressError "code references an uninitialized dictionary entry")
  let (code, expansion) ←
    if encodedCode = decoder.nextCode then
      decoder.traverse dictionaryEntries previousCode [decoder.firstCharacter]
    else decoder.traverse dictionaryEntries encodedCode []
  let firstCharacter := UInt8.ofNat code
  let output ← decoder.output.bufferOutput (expansion ++ [firstCharacter]).reverse
  let decoder ← learn { decoder with output := output, firstCharacter := firstCharacter }
    maximumCodes previousCode
  return { decoder with previousCode := some encodedCode }

def putCode (decoder : Decoder) (maximumCodes encodedCode : Nat) : Streamed Decoder :=
  if blockMode = true ∧ encodedCode = clearCode then decoder.clear maximumCodeBits
  else
    match decoder.previousCode with
    | none => decoder.putFirst encodedCode
    | some previousCode => decoder.putNext dictionaryEntries maximumCodes previousCode encodedCode

/-- The main loop.  Each turn reads a code, so `fuel` does not run out. -/
def loop (maximumCodes : Nat) : Nat → Decoder → Streamed Decoder
  | 0, _ => throw (compressError "code-reader position is out of range")
  | fuel + 1, decoder => do
    ExtractionControl.checkpoint 1
    let decoder ← decoder.growWidth maximumCodeBits
    let (encodedCode, reader) ← decoder.reader.nextCode decoder.codeBits decoder.forceRefill
    match encodedCode with
    | none => return { decoder with reader := reader }
    | some encodedCode => do
      let decoder ← putCode maximumCodeBits blockMode dictionaryEntries
        { decoder with reader := reader, forceRefill := false } maximumCodes encodedCode
      loop maximumCodes fuel decoder

end

end Decoder

def decodeLzw (input : List UInt8) (maximumCodeBits : Nat) (blockMode : Bool)
    (dictionaryEntries : Nat) (control : ExtractionControl) : Streamed ExtractionControl := do
  let decoder ← Decoder.new maximumCodeBits blockMode dictionaryEntries input control
  let maximumCodes ← okOr (checkedShl 32 1 maximumCodeBits)
    (compressError "maximum code count overflows")
  let decoder ← decoder.loop maximumCodeBits blockMode dictionaryEntries maximumCodes
    (input.length + 1)
  let output ← decoder.output.flushOutput
  return output.control

/-- `maximum_code_for_width` where its shift fits. -/
def maximumCode (width maximumWidth : Nat) : Nat :=
  if width = maximumWidth then 2 ^ width else 2 ^ width - 1

def flushCodes (group : List Nat) (width : Nat) (padded : Bool) : List UInt8 :=
  if group = [] then []
  else
    let bits := group.flatMap fun code => BitPack.bitsOf width code
    if padded then BitPack.packBits (bits ++ List.replicate (8 * width - bits.length) false)
    else BitPack.packBits bits

structure Encoder where
  group : List Nat
  width : Nat
  maximumCurrent : Nat
  nextCode : Nat
  hasPrevious : Bool
  deriving DecidableEq, Repr

namespace Encoder

section

variable (maximumCodeBits : Nat) (blockMode : Bool)

def new : Encoder where
  group := []
  width := initialCodeBits
  maximumCurrent := maximumCode initialCodeBits maximumCodeBits
  nextCode := firstCode blockMode
  hasPrevious := false

def Grows (encoder : Encoder) : Prop :=
  encoder.maximumCurrent < encoder.nextCode ∧ encoder.width < maximumCodeBits

instance (encoder : Encoder) : Decidable (encoder.Grows maximumCodeBits) :=
  inferInstanceAs (Decidable (_ ∧ _))

/-- The bytes that a wider code puts out first, and the wider encoder. -/
def growWidth (encoder : Encoder) : List UInt8 × Encoder :=
  if encoder.Grows maximumCodeBits then
    (flushCodes encoder.group encoder.width true,
      { encoder with
        group := []
        width := encoder.width + 1
        maximumCurrent := maximumCode (encoder.width + 1) maximumCodeBits })
  else ([], encoder)

def pushCode (encoder : Encoder) (code : Nat) : List UInt8 × Encoder :=
  let group := encoder.group ++ [code]
  if group.length = 8 then
    (flushCodes group encoder.width true, { encoder with group := [] })
  else ([], { encoder with group := group })

def countCode (encoder : Encoder) (code : Nat) : List UInt8 × Encoder :=
  if blockMode = true ∧ code = clearCode then
    (flushCodes encoder.group encoder.width true,
      { group := []
        width := initialCodeBits
        maximumCurrent := maximumCode initialCodeBits maximumCodeBits
        nextCode := firstBlockCode
        hasPrevious := false })
  else if encoder.hasPrevious then
    ([], if encoder.nextCode < 2 ^ maximumCodeBits then
        { encoder with nextCode := encoder.nextCode + 1 } else encoder)
  else ([], { encoder with hasPrevious := true })

def encodeCodes (encoder : Encoder) : List Nat → List UInt8
  | [] => flushCodes encoder.group encoder.width false
  | code :: codes =>
    let (grown, encoder) := encoder.growWidth maximumCodeBits
    let (full, encoder) := encoder.pushCode code
    let (cleared, encoder) := encoder.countCode maximumCodeBits blockMode code
    grown ++ (full ++ (cleared ++ encodeCodes encoder codes))

end

end Encoder

/-- `literal_code_stream`. -/
def literalCodeStream (codes : List Nat) (maximumCodeBits : Nat) (blockMode : Bool) :
    List UInt8 :=
  [0x1f, 0x9d, UInt8.ofNat (if blockMode then 0x80 ||| maximumCodeBits else maximumCodeBits)] ++
    (Encoder.new maximumCodeBits blockMode).encodeCodes maximumCodeBits blockMode codes

end UnixCompress
end Unpackio
