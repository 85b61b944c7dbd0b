/-
A refused request ends decoding and extraction at once.

The codecs are taken to be strict themselves, as each of them passes on the
errors of its checkpoints.
-/
import Unpackio.Archive.Members
import Unpackio.Checkpoints

namespace Unpackio

open Prog (Strict)

/-- No codec goes on after a refused checkpoint. -/
structure Codecs.Strict (codecs : Codecs) : Prop where
  lzma : ∀ input properties expected maximum,
    (codecs.lzma input properties expected maximum).Strict
  lzma2 : ∀ input properties expected maximum,
    (codecs.lzma2 input properties expected maximum).Strict
  ppmd : ∀ input properties expected maximum,
    (codecs.ppmd input properties expected maximum).Strict
  filter : ∀ method properties input, (codecs.filter method properties input).Strict
  bcj2 : ∀ inputs properties expected maximum,
    (codecs.bcj2 inputs properties expected maximum).Strict
  deflate : ∀ input expected maximum, (codecs.deflate input expected maximum).Strict
  deflate64 : ∀ input expected maximum, (codecs.deflate64 input expected maximum).Strict
  bzip2 : ∀ input expected maximum, (codecs.bzip2 input expected maximum).Strict
  brotli : ∀ input expected maximum, (codecs.brotli input expected maximum).Strict
  lz4 : ∀ input expected maximum, (codecs.lz4 input expected maximum).Strict
  zstd : ∀ input expected maximum, (codecs.zstd input expected maximum).Strict
  aes : ∀ input properties expected maximum,
    (codecs.aes input properties expected maximum).Strict

theorem strict_checkpoint (units : Nat) : (checkpoint units).Strict := Strict.request units

/-! ## Folder execution -/

theorem strict_registerCoders (coders : List Coder) : (registerCoders coders).Strict := by
  induction coders with
  | nil => exact .pure ()
  | cons coder coders ih =>
    exact .step fun _ => .bind (strict_checkpoint 1) fun _ => ih

theorem strict_runSingle {coder : Coder} {inputs : List (List UInt8)}
    {codec : List UInt8 → Metered (List UInt8)} (h : ∀ input, (codec input).Strict) :
    (runSingle coder inputs codec).Strict :=
  .step fun _ => .step fun input => h input

section

variable {codecs : Codecs} (h : codecs.Strict) (coder : Coder) (inputs : List (List UInt8))
  (expected : Option Nat) (maximum : Nat)
include h

theorem strict_runMethod : (runMethod codecs coder inputs expected maximum).Strict := by
  unfold runMethod
  refine .ite ?copy (.ite ?lzma (.ite ?lzma2 (.ite ?ppmd (.ite ?filter (.ite ?bcj2 (.ite ?deflate
    (.ite ?deflate64 (.ite ?bzip2 (.ite ?brotli (.ite ?lz4 (.ite ?zstd
    (.ite ?aes ?unsupported))))))))))))
  case copy =>
    exact .step fun _ => .step fun _ => .step fun _ => .step fun _ => .pure _
  case lzma => exact strict_runSingle fun input => h.lzma input _ expected maximum
  case lzma2 => exact strict_runSingle fun input => h.lzma2 input _ expected maximum
  case ppmd => exact strict_runSingle fun input => h.ppmd input _ expected maximum
  case filter =>
    exact strict_runSingle fun input => .step fun _ => h.filter _ _ input
  case bcj2 => exact .step fun _ => h.bcj2 inputs _ expected maximum
  case deflate => exact strict_runSingle fun input => h.deflate input expected maximum
  case deflate64 => exact strict_runSingle fun input => h.deflate64 input expected maximum
  case bzip2 => exact strict_runSingle fun input => h.bzip2 input expected maximum
  case brotli => exact strict_runSingle fun input => h.brotli input expected maximum
  case lz4 => exact strict_runSingle fun input => h.lz4 input expected maximum
  case zstd => exact strict_runSingle fun input => h.zstd input expected maximum
  case aes => exact strict_runSingle fun input => h.aes input _ expected maximum
  case unsupported => exact .throw _

theorem strict_decodeCoder : (decodeCoder codecs coder inputs expected maximum).Strict :=
  .step fun _ => .bind (strict_runMethod h coder inputs expected maximum) fun _ => .step fun _ =>
      .step fun _ => .pure _

end

theorem strict_bindOutputs (pairs : List BindPair) (destinations : List (Option Nat)) :
    (bindOutputs pairs destinations).Strict := by
  induction pairs generalizing destinations with
  | nil => exact .pure _
  | cons pair pairs ih =>
    exact .bind (strict_checkpoint 1) fun _ => .step fun _ => .step fun _ => ih _

section

variable (archiveBytes : List UInt8) (streams : StreamsInfo)

theorem strict_packedBytes (firstPackStream ordinal : Nat) :
    (packedBytes archiveBytes streams firstPackStream ordinal).Strict := by
  refine .step fun _ => .step fun stream => .step fun _ => .step fun bytes => ?_
  cases stream.crc with
  | none => exact .pure _
  | some expected =>
    exact .bind (passes_checksumWithControl _ bytes).strict fun _ => .step fun _ => .pure _

theorem strict_loadPackedInputs (firstPackStream : Nat) (packed : List (Nat × Nat))
    (ports : List (Option (List UInt8))) :
    (loadPackedInputs archiveBytes streams firstPackStream packed ports).Strict := by
  induction packed generalizing ports with
  | nil => exact .pure _
  | cons port packed ih =>
    exact .bind (strict_checkpoint 1) fun _ =>
      .bind (strict_packedBytes archiveBytes streams firstPackStream port.2) fun _ => .step fun _ =>
        .step fun _ => .bind (passes_copyBytes _ _).strict fun _ => ih _

end

theorem strict_runCoders {decodeCoder : CoderDecoder}
    (h : ∀ coder inputs expected maximum, (decodeCoder coder inputs expected maximum).Strict)
    (folder : Folder) (limits : Limits) (maximumOutput : Nat) (order : List Nat) (ports : Ports) :
    (runCoders decodeCoder folder limits maximumOutput order ports).Strict := by
  induction order generalizing ports with
  | nil => exact .pure _
  | cons coderIndex order ih =>
    refine .bind (.bind (strict_checkpoint 1) fun _ => ?_) fun _ => ih _
    exact .step fun _ => .step fun _ => .step fun _ => .step fun _ => .bind (h _ _ _ _) fun _ =>
      .lift _

theorem strict_folderCrcMismatch (crc : Option UInt32) (bytes : List UInt8) :
    (folderCrcMismatch crc bytes).Strict := by
  cases crc with
  | none => exact .pure _
  | some expected => exact .bind (passes_checksumWithControl _ bytes).strict fun _ => .pure _

theorem strict_decodeFolder {decodeCoder : CoderDecoder}
    (h : ∀ coder inputs expected maximum, (decodeCoder coder inputs expected maximum).Strict)
    (archiveBytes : List UInt8) (streams : StreamsInfo) (folderIndex : Nat) (limits : Limits)
    (maximumOutput : Nat) :
    (decodeFolder decodeCoder archiveBytes streams folderIndex limits maximumOutput).Strict := by
  have hcheck : ∀ folder, (checkFolder folder limits maximumOutput).Strict := fun folder =>
    .step fun _ => .step fun _ => .step fun _ =>
      strict_registerCoders folder.coders
  exact .step fun folder => .bind (hcheck folder) fun _ => .step fun _ => .step fun _ =>
    .bind (strict_bindOutputs _ _) fun _ =>
      .bind (strict_loadPackedInputs _ _ _ _ _) fun _ =>
        .bind (strict_runCoders h folder limits maximumOutput _ _) fun _ => .step fun bytes =>
          .bind (strict_folderCrcMismatch folder.crc bytes) fun _ => .pure _

namespace Archive

theorem strict_permittedOutput (limits : Limits) (count : Nat) (substreams : List Substream)
    (index permitted : Nat) (unknownFinal : Bool) :
    (permittedOutput limits count substreams index permitted unknownFinal).Strict := by
  induction substreams generalizing index permitted unknownFinal with
  | nil => exact .pure _
  | cons substream substreams ih =>
    exact .step fun _ => .step fun _ => .bind (strict_checkpoint 1) fun _ => ih _ _ _

theorem strict_folderDecodeMaximum (folder : Folder) (limits : Limits) (remaining : Nat) :
    (folderDecodeMaximum folder limits remaining).Strict :=
  .step fun _ => .step fun _ => .ite (.pure _) (.bind (strict_permittedOutput _ _ _ _ _ _) fun _ =>
      .step fun _ => .pure _)

variable {codecs : Codecs} (h : codecs.Strict) (archive : Archive)

include h

section

variable (streams : StreamsInfo) (folderIndex : Nat) (state : ExtractState)

theorem strict_enterFolder : (archive.enterFolder codecs streams folderIndex state).Strict := by
  have hdecode : ∀ folder remaining,
      (archive.decodeMemberFolder codecs streams folderIndex folder remaining).Strict :=
    fun folder remaining => .bind (strict_folderDecodeMaximum folder archive.limits remaining)
      fun _ => .mapError _ (strict_decodeFolder (strict_decodeCoder h) _ _ _ _ _)
  exact .step fun _ => .step fun folder =>
    .bind (.step fun _ => .bind (hdecode folder _) fun _ => .step fun _ => .step fun _ =>
      .pure _) fun _ => .step fun _ => .pure _

theorem strict_folderFor : (archive.folderFor codecs streams folderIndex state).Strict := by
  unfold folderFor
  cases state.current with
  | none => exact strict_enterFolder h archive streams folderIndex state
  | some current => exact .ite (.pure _) (strict_enterFolder h archive streams folderIndex state)

end

omit h in
theorem strict_deliver (memberIndex : Nat) (entry : FileEntry) (mapping : FileStream)
    (encrypted : Bool) (bytes : List UInt8) (size : Nat) :
    (deliver memberIndex entry mapping encrypted bytes size).Strict := by
  have hwrites : ∀ (pieces : List (List UInt8)) (crc : Crc32),
      (writeChunks memberIndex pieces crc).Strict := by
    intro pieces
    induction pieces with
    | nil => exact fun crc => .pure _
    | cons piece pieces ih =>
      exact fun crc => .bind (.mapRequest _ (passes_consumeBytes _ piece).strict) fun _ =>
        .bind (.request _) fun _ => ih _
  exact .bind (.request _) fun _ => .bind (hwrites _ _) fun _ => .step fun _ => .request _

theorem strict_extractMember (memberIndex : Nat) (entry : FileEntry) (state : ExtractState) :
    (archive.extractMember codecs memberIndex entry state).Strict := by
  refine .bind (.mapRequest _ (strict_checkpoint 1)) fun _ => ?_
  cases entry.stream with
  | none => exact .ite (.bind (.request _) fun _ => .bind (.request _) fun _ => .pure _) (.pure _)
  | some mapping =>
    exact .step fun streams =>
      .bind (.mapRequest _ (strict_folderFor h archive streams mapping.folderIndex state)) fun _ =>
        .step fun _ => .bind (strict_deliver _ _ _ _ _ _) fun _ => .step fun _ =>
          .step fun _ => .pure _

theorem strict_extractEntriesTo : (archive.extractEntriesTo codecs).Strict := by
  have hmembers : ∀ (members : List (FileEntry × Nat)) (state : ExtractState),
      (archive.extractMembers codecs members state).Strict := by
    intro members
    induction members with
    | nil => exact fun state => .pure _
    | cons member members ih =>
      exact fun state => .bind (strict_extractMember h archive member.2 member.1 state) fun _ =>
        ih _
  exact .bind (hmembers _ _) fun _ => .step fun _ => .pure _

end Archive

end Unpackio
