/-
The read paths of an open archive, from `archive.rs`.

Writers and sinks are environments: a call to one is a request that it may
refuse.
-/
import Unpackio.Archive

namespace Unpackio

def substreamContribution (limits : Limits) (isFinal unknownFinal : Bool) :
    Option Nat → Except Error (Nat × Bool)
  | some size => do
    checkLimit size limits.maxEntryOutputBytes .entryOutputBytes
    return (size, unknownFinal)
  | none =>
    if isFinal then .ok (limits.maxEntryOutputBytes, true)
    else .error (.unsupportedFeature "unknown-nonfinal-substream-size")

/-- The substream loop of `folder_decode_maximum`. -/
def permittedOutput (limits : Limits) (count : Nat) :
    List Substream → Nat → Nat → Bool → Metered (Nat × Bool)
  | [], _, permitted, unknownFinal => return (permitted, unknownFinal)
  | substream :: substreams, index, permitted, unknownFinal => do
    let (contribution, unknownFinal) ←
      substreamContribution limits (index + 1 = count) unknownFinal substream.size
    let permitted ← okOr (checkedAdd permitted contribution)
      (formatError "folder entry output allowance overflows")
    checkpoint 1
    permittedOutput limits count substreams (index + 1) permitted unknownFinal

def folderDecodeMaximum (folder : Folder) (limits : Limits) (remainingTotal : Nat) :
    Metered Nat := do
  let declaredRoot ← okOr folder.unpackSizes[folder.rootOutputIndex]?
    (formatError "folder root output size is missing")
  rejectIf (∃ size ∈ declaredRoot, remainingTotal < size)
    (.limitExceeded .totalOutputBytes (declaredRoot.getD 0) remainingTotal)
  if folder.substreams = [] then return remainingTotal
  else do
    let (permitted, unknownFinal) ←
      permittedOutput limits folder.substreams.length folder.substreams 0 0 false
    rejectIf (unknownFinal = false ∧ declaredRoot ≠ some permitted)
      (formatError "folder substream sizes do not equal its root output size")
    return min permitted remainingTotal

/-- The loop of `member_bounds` up to the substream with the target index. -/
def memberBoundsLoop (target count folderSize : Nat) :
    List Substream → Nat → Nat → Metered (Nat × Nat)
  | [], _, _ => throw (formatError "substream index is out of range")
  | substream :: substreams, index, start => do
    checkpoint 1
    if index = target then do
      let finish ← substreamEnd count index start folderSize substream.size
        "member byte range overflows" "unknown-nonfinal-substream-size"
      rejectIf (folderSize < finish) (formatError "member byte range exceeds folder output")
      return (start, finish)
    else do
      let size ← okOr substream.size (.unsupportedFeature "unknown-preceding-substream-size")
      let start ← okOr (checkedAdd start size) (formatError "member start offset overflows")
      memberBoundsLoop target count folderSize substreams (index + 1) start

def memberBounds (folder : Folder) (substreamIndex folderSize : Nat) : Metered (Nat × Nat) := do
  rejectIf (folder.substreams.length ≤ substreamIndex)
    (formatError "substream index is out of range")
  memberBoundsLoop substreamIndex folder.substreams.length folderSize folder.substreams 0 0

/-! ## The member reader -/

structure MemberReader where
  data : List UInt8
  start : Nat
  finish : Nat
  position : Nat
  expectedCrc : Option UInt32
  checksum : Crc32
  folderCrcMismatch : Bool
  encrypted : Bool
  memberIndex : Nat

namespace MemberReader

def new (data : List UInt8) (start finish : Nat) (expectedCrc : Option UInt32)
    (folderCrcMismatch encrypted : Bool) (memberIndex : Nat) : MemberReader where
  data := data
  start := start
  finish := finish
  position := 0
  expectedCrc := expectedCrc
  checksum := .new
  folderCrcMismatch := folderCrcMismatch
  encrypted := encrypted
  memberIndex := memberIndex

def memberLength (reader : MemberReader) : Except Error Nat :=
  okOr (checkedSub reader.finish reader.start) (formatError "member length underflows")

/-- The next `count` bytes of the member. -/
def source (reader : MemberReader) (count : Nat) : Except Error (List UInt8) := do
  let absolute ← okOr (checkedAdd reader.start reader.position)
    (formatError "member read position overflows")
  let absoluteEnd ← okOr (checkedAdd absolute count)
    (formatError "member read range overflows")
  okOr (getRange reader.data absolute absoluteEnd)
    (formatError "member read range is outside folder output")

def consume : List (List UInt8) → Crc32 → Metered Crc32
  | [], checksum => return checksum
  | chunk :: chunks, checksum => do
    checkpoint chunk.length
    consume chunks (checksum.update chunk)

/-- Pass over the next `count` bytes and return them. -/
def advance (reader : MemberReader) (count : Nat) : Metered (List UInt8 × MemberReader) := do
  let source ← reader.source count
  let checksum ← consume (chunks controlChunkSize source) reader.checksum
  let position ← okOr (checkedAdd reader.position count)
    (formatError "member read position overflows")
  return (source, { reader with position := position, checksum := checksum })

/-- `read_chunk` into a buffer of the given length. -/
def readChunk (reader : MemberReader) (outputLength : Nat) :
    Metered (List UInt8 × MemberReader) := do
  let memberLength ← reader.memberLength
  if outputLength = 0 ∨ memberLength ≤ reader.position then do
    checkpoint 0
    return ([], reader)
  else do
    let remaining ← okOr (checkedSub memberLength reader.position)
      (formatError "member read position exceeds its range")
    reader.advance (min remaining outputLength)

/-- The loop of `consume_remaining`.  Every round passes a byte, so `fuel` is
the length of the member. -/
def consumeRemainingLoop (memberLength : Nat) : Nat → MemberReader → Metered MemberReader
  | 0, reader => return reader
  | fuel + 1, reader =>
    if reader.position < memberLength then do
      let remaining ← okOr (checkedSub memberLength reader.position)
        (formatError "member read position exceeds its range")
      let (_, reader) ← reader.advance (min remaining ioChunkSize)
      consumeRemainingLoop memberLength fuel reader
    else return reader

def consumeRemaining (reader : MemberReader) : Metered MemberReader := do
  let memberLength ← reader.memberLength
  consumeRemainingLoop memberLength memberLength reader

def verifyIntegrity (reader : MemberReader) : Except Error Unit := do
  rejectIf (∃ expected ∈ reader.expectedCrc, reader.checksum.finalize ≠ expected)
    (digestError reader.encrypted .member (some reader.memberIndex))
  rejectIf (reader.folderCrcMismatch = true) (digestError reader.encrypted .folder none)

def intoBytes (reader : MemberReader) : Metered (List UInt8) := do
  let reader ← reader.consumeRemaining
  reader.verifyIntegrity
  if reader.start = 0 ∧ reader.finish = reader.data.length then return reader.data
  else do
    let _ ← reader.memberLength
    okOr (getRange reader.data reader.start reader.finish)
      (formatError "member byte range is outside folder output")

def finishReading (reader : MemberReader) : Metered Unit := do
  let reader ← reader.consumeRemaining
  reader.verifyIntegrity

end MemberReader

namespace Archive

variable (codecs : Codecs) (archive : Archive)

def member (memberIndex : Nat) : Except Error FileEntry :=
  okOr archive.entries[memberIndex]? (formatError "member index is out of range")

def decodeMemberFolder (streams : StreamsInfo) (folderIndex : Nat) (folder : Folder)
    (remaining : Nat) : Metered DecodedFolder := do
  let maximumOutput ← folderDecodeMaximum folder archive.limits remaining
  (decodeFolder (decodeCoder codecs) archive.bytes streams folderIndex archive.limits
    maximumOutput).mapError (mapEncryptedError (folderIsEncrypted folder))

def openStream (memberIndex : Nat) (stream : FileStream) : Metered MemberReader := do
  rejectIf (∃ size ∈ stream.size, archive.limits.maxEntryOutputBytes < size)
    (.limitExceeded .entryOutputBytes (stream.size.getD 0) archive.limits.maxEntryOutputBytes)
  let streams ← okOr archive.header.mainStreams
    (formatError "streamed member has no MainStreamsInfo")
  let folder ← okOr streams.folders[stream.folderIndex]?
    (formatError "member folder index is out of range")
  let decoded ← archive.decodeMemberFolder codecs streams stream.folderIndex folder
    archive.limits.maxTotalOutputBytes
  let (start, finish) ← memberBounds folder stream.substreamIndex decoded.bytes.length
  let length ← okOr (checkedSub finish start) (formatError "member byte range underflows")
  checkLimit length archive.limits.maxEntryOutputBytes .entryOutputBytes
  return .new decoded.bytes start finish stream.crc decoded.crcMismatch decoded.encrypted
    memberIndex

def openMember (memberIndex : Nat) : Metered MemberReader := do
  let member ← archive.member memberIndex
  rejectIf (member.antiItem = true) (.unsupportedFeature "anti-item-extraction")
  match member.stream with
  | some stream => archive.openStream codecs memberIndex stream
  | none =>
    if member.emptyFile then return .new [] 0 0 none false false memberIndex
    else throw (.unsupportedFeature "streamless-directory-extraction")

def extractEntry (memberIndex : Nat) : Metered (List UInt8) := do
  let reader ← archive.openMember codecs memberIndex
  reader.intoBytes

/-- What `extract_entry_to` asks for: work, and writes to its writer. -/
inductive WriterRequest where
  | work (units : Nat)
  | write (bytes : List UInt8)
  deriving DecidableEq, Repr

/-- The read loop of `extract_entry_to`.  Every round but the last passes a
byte, so `fuel` is more than the length of the member. -/
def writeMember : Nat → MemberReader → Nat → Prog WriterRequest Error (MemberReader × Nat)
  | 0, reader, written => return (reader, written)
  | fuel + 1, reader, written => do
    let (bytes, reader) ← (reader.readChunk ioChunkSize).mapRequest .work
    if bytes = [] then return (reader, written)
    else do
      Prog.request (.write bytes)
      let written ← okOr (checkedAdd written bytes.length)
        (formatError "member write count overflows")
      writeMember fuel reader written

def extractEntryTo (memberIndex : Nat) : Prog WriterRequest Error Nat := do
  let reader ← (archive.openMember codecs memberIndex).mapRequest .work
  let (reader, written) ← writeMember (reader.finish - reader.start + 1) reader 0
  reader.finishReading.mapRequest .work
  return written

/-- The substream loop of `verify_folder_members`, with the streamed entries that
are left. -/
def verifyMembers (folderIndex : Nat) (decoded : DecodedFolder) (count : Nat) :
    List Substream → Nat → Nat → List (FileEntry × Nat) → Metered (List (FileEntry × Nat))
  | [], _, _, entries => return entries
  | _ :: _, _, _, [] => do
    checkpoint 1
    throw (formatError "folder substream has no mapped member")
  | substream :: substreams, index, start, (member, memberIndex) :: entries => do
    checkpoint 1
    let mapping ← okOr member.stream (formatError "streamed member has no validated mapping")
    rejectIf (mapping.folderIndex ≠ folderIndex ∨ mapping.substreamIndex ≠ index)
      (formatError "member-to-substream mapping is out of order")
    let finish ← substreamEnd count index start decoded.bytes.length substream.size
      "member byte range overflows" "unknown-nonfinal-substream-size"
    rejectIf (decoded.bytes.length < finish)
      (formatError "member byte range exceeds folder output")
    let range ← okOr (getRange decoded.bytes start finish)
      (formatError "member byte range is outside folder output")
    checkSubstream range substream.crc (digestError decoded.encrypted .member (some memberIndex))
    verifyMembers folderIndex decoded count substreams (index + 1) finish entries

def verifyFolderMembers (folder : Folder) (folderIndex : Nat) (decoded : DecodedFolder)
    (entries : List (FileEntry × Nat)) : Metered (List (FileEntry × Nat)) := do
  let entries ← verifyMembers folderIndex decoded folder.substreams.length folder.substreams 0 0
    entries
  rejectIf (decoded.crcMismatch = true) (digestError decoded.encrypted .folder none)
  return entries

def decodeWithinTotal (streams : StreamsInfo) (folderIndex : Nat) (folder : Folder)
    (totalOutput : Nat) : Metered (DecodedFolder × Nat) := do
  let remaining ← okOr (checkedSub archive.limits.maxTotalOutputBytes totalOutput)
    (formatError "total decoded output accounting underflows")
  let decoded ← archive.decodeMemberFolder codecs streams folderIndex folder remaining
  let totalOutput ← okOr (checkedAdd totalOutput decoded.bytes.length)
    (formatError "total decoded output accounting overflows")
  checkLimit totalOutput archive.limits.maxTotalOutputBytes .totalOutputBytes
  return (decoded, totalOutput)

def verifyFolders (streams : StreamsInfo) :
    List Folder → Nat → Nat → List (FileEntry × Nat) → Metered Unit
  | [], _, _, entries =>
    rejectIf (entries ≠ []) (formatError "member stream mapping exceeds the folder set")
  | folder :: folders, folderIndex, totalOutput, entries => do
    checkpoint 0
    let (decoded, totalOutput) ←
      archive.decodeWithinTotal codecs streams folderIndex folder totalOutput
    let entries ← verifyFolderMembers folder folderIndex decoded entries
    verifyFolders streams folders (folderIndex + 1) totalOutput entries

def verifyAdditional : Metered Nat :=
  match archive.header.additionalStreams with
  | some streams => verifyAdditionalStreams (decodeCoder codecs) archive.bytes streams
      archive.limits archive.limits.maxTotalOutputBytes
  | none => return 0

def verify : Metered Unit := do
  let totalOutput ← archive.verifyAdditional codecs
  match archive.header.mainStreams with
  | none => return ()
  | some streams =>
    archive.verifyFolders codecs streams streams.folders 0 totalOutput
      (archive.entries.zipIdx.filter fun entry => entry.1.hasStream)

/-! ## Natural-order extraction -/

/-- What `extract_entries_to` asks for: work, and the calls to its sink. -/
inductive SinkRequest where
  | work (units : Nat)
  | beginEntry (memberIndex : Nat) (entry : FileEntry) (size : Nat)
  | writeEntry (memberIndex : Nat) (bytes : List UInt8)
  | finishEntry (memberIndex : Nat)
  deriving DecidableEq, Repr

abbrev Extracting (α : Type) : Type := Prog SinkRequest Error α

def working {α : Type} (p : Metered α) : Extracting α := p.mapRequest .work

/-- The folder that is open during extraction, with its next substream and where
that starts. -/
structure OpenFolder where
  index : Nat
  decoded : DecodedFolder
  nextSubstream : Nat
  offset : Nat

structure ExtractState where
  current : Option OpenFolder
  totalOutput : Nat
  delivered : Nat

def checkLeftFolder (streams : StreamsInfo) (current : Option OpenFolder)
    (rangeDetail unmappedDetail : String) : Except Error Unit :=
  match current with
  | none => .ok ()
  | some previous => do
    let folder ← okOr streams.folders[previous.index]? (formatError rangeDetail)
    rejectIf (previous.nextSubstream ≠ folder.substreams.length) (formatError unmappedDetail)

def enterFolder (streams : StreamsInfo) (folderIndex : Nat) (state : ExtractState) :
    Metered (OpenFolder × Nat) := do
  checkLeftFolder streams state.current "previous folder index is out of range"
    "natural extraction left folder substreams unmapped"
  let folder ← okOr streams.folders[folderIndex]? (formatError "folder index is out of range")
  let (decoded, totalOutput) ←
    archive.decodeWithinTotal codecs streams folderIndex folder state.totalOutput
  rejectIf (decoded.crcMismatch = true) (digestError decoded.encrypted .folder none)
  return ({ index := folderIndex, decoded := decoded, nextSubstream := 0, offset := 0 },
    totalOutput)

/-- The folder of a member, entered unless it is open already. -/
def folderFor (streams : StreamsInfo) (folderIndex : Nat) (state : ExtractState) :
    Metered (OpenFolder × Nat) :=
  match state.current with
  | some current =>
    if current.index = folderIndex then return (current, state.totalOutput)
    else archive.enterFolder codecs streams folderIndex state
  | none => archive.enterFolder codecs streams folderIndex state

def nextRange (streams : StreamsInfo) (current : OpenFolder) (mapping : FileStream) :
    Except Error (List UInt8 × Nat × Nat) := do
  rejectIf (mapping.substreamIndex ≠ current.nextSubstream)
    (formatError "natural extraction member mapping is out of order")
  let folder ← okOr streams.folders[mapping.folderIndex]?
    (formatError "folder index is out of range")
  let substream ← okOr folder.substreams[current.nextSubstream]?
    (formatError "substream index is out of range")
  let finish ← substreamEnd folder.substreams.length current.nextSubstream current.offset
    current.decoded.bytes.length substream.size "member byte range overflows"
    "unknown-nonfinal-substream-size"
  rejectIf (current.decoded.bytes.length < finish)
    (formatError "member byte range exceeds folder output")
  let memberSize ← okOr (checkedSub finish current.offset)
    (formatError "member byte range underflows")
  checkLimit memberSize archive.limits.maxEntryOutputBytes .entryOutputBytes
  let bytes ← okOr (getRange current.decoded.bytes current.offset finish)
    (formatError "member byte range is outside folder output")
  return (bytes, memberSize, finish)

def writeChunks (memberIndex : Nat) : List (List UInt8) → Crc32 → Extracting Crc32
  | [], crc => return crc
  | chunk :: chunks, crc => do
    working (consumeBytes chunk)
    Prog.request (.writeEntry memberIndex chunk)
    writeChunks memberIndex chunks (crc.update chunk)

def deliver (memberIndex : Nat) (member : FileEntry) (mapping : FileStream) (encrypted : Bool)
    (bytes : List UInt8) (memberSize : Nat) : Extracting Unit := do
  Prog.request (.beginEntry memberIndex member memberSize)
  let crc ← writeChunks memberIndex (chunks ioChunkSize bytes) .new
  rejectIf (∃ expected ∈ mapping.crc, crc.finalize ≠ expected)
    (digestError encrypted .member (some memberIndex))
  Prog.request (.finishEntry memberIndex)

def extractStream (memberIndex : Nat) (member : FileEntry) (mapping : FileStream)
    (state : ExtractState) : Extracting ExtractState := do
  let streams ← okOr archive.header.mainStreams
    (formatError "streamed member has no MainStreamsInfo during extraction")
  let (current, totalOutput) ←
    working (archive.folderFor codecs streams mapping.folderIndex state)
  let (bytes, memberSize, finish) ← archive.nextRange streams current mapping
  deliver memberIndex member mapping current.decoded.encrypted bytes memberSize
  let delivered ← okOr (checkedAdd state.delivered memberSize)
    (formatError "delivered member byte count overflows")
  let nextSubstream ← okOr (checkedAdd current.nextSubstream 1)
    (formatError "substream index overflows")
  return { current := some { current with nextSubstream := nextSubstream, offset := finish },
           totalOutput := totalOutput, delivered := delivered }

def extractMember (memberIndex : Nat) (member : FileEntry) (state : ExtractState) :
    Extracting ExtractState := do
  working (checkpoint 1)
  match member.stream with
  | some mapping => archive.extractStream codecs memberIndex member mapping state
  | none =>
    if member.emptyFile ∧ ¬member.antiItem then do
      Prog.request (.beginEntry memberIndex member 0)
      Prog.request (.finishEntry memberIndex)
      return state
    else return state

def extractMembers : List (FileEntry × Nat) → ExtractState → Extracting ExtractState
  | [], state => return state
  | (member, memberIndex) :: members, state => do
    let state ← archive.extractMember codecs memberIndex member state
    extractMembers members state

def checkFinalFolder (state : ExtractState) : Except Error Unit :=
  match archive.header.mainStreams with
  | none => .ok ()
  | some streams =>
    checkLeftFolder streams state.current "final folder index is out of range"
      "natural extraction left final folder substreams unmapped"

def extractEntriesTo : Extracting Nat := do
  let state ← archive.extractMembers codecs archive.entries.zipIdx
    { current := none, totalOutput := 0, delivered := 0 }
  archive.checkFinalFolder state
  return state.delivered

end Archive

end Unpackio
