/-
The read paths of an archive agree: what natural-order extraction delivers, the
single-member paths give as well.
-/
import Unpackio.Archive.Reader
import Unpackio.Archive.Verified
import Unpackio.Archive.SinkProtocol

namespace Unpackio
namespace Archive

open Prog (asked_bind granted_bind granted_bind_eq_ok granted_lift granted_lift_bind
  granted_mapRequest granted_rest)
open Except (ok_bind)

def copied (requests : List WriterRequest) : List UInt8 :=
  requests.flatMap fun
    | .work _ => []
    | .write bytes => bytes

theorem copied_append (front rest : List WriterRequest) :
    copied (front ++ rest) = copied front ++ copied rest := List.flatMap_append

theorem copied_work (units : List Nat) : copied (units.map .work) = [] := by
  induction units with
  | nil => rfl
  | cons _ units ih => exact ih

section Reader

variable {reader : MemberReader} (h : reader.InRange)

include h

theorem readChunk_granted {position count : Nat} (hposition : position ≤ reader.range.length)
    (hcount : 0 < count) :
    ((reader.passed position).readChunk count).granted =
      .ok ((reader.range.drop position).take count,
        reader.passed (min (position + count) reader.range.length)) := by
  have hpassed : (reader.passed position).InRange := ⟨h.ordered, h.within, h.representable⟩
  have hlength : (reader.passed position).memberLength = .ok reader.range.length :=
    hpassed.memberLength_eq
  have hpos : (reader.passed position).position = position := rfl
  rw [MemberReader.readChunk, granted_lift_bind, hlength, ok_bind, hpos]
  by_cases hend : position = reader.range.length
  · rw [if_pos (.inr hend.ge), checkpoint_bind, List.drop_of_length_le hend.ge, List.take_nil,
      Nat.min_eq_right (by omega), hend]
    rfl
  · have hlt : position < reader.range.length := by omega
    rw [if_neg (not_or.mpr ⟨Nat.ne_of_gt hcount, Nat.not_le_of_lt hlt⟩), granted_lift_bind,
      checkedSub_of_le hposition, okOr_bind, MemberReader.advance_granted h (by omega)]
    by_cases hle : count ≤ reader.range.length - position
    · rw [Nat.min_eq_right hle, Nat.min_eq_left (by omega)]
    · rw [Nat.min_eq_left (by omega), Nat.min_eq_right (by omega),
        List.take_of_length_le (by rw [List.length_drop]),
        List.take_of_length_le (by rw [List.length_drop]; omega)]
      rw [Nat.add_sub_cancel' hposition]

theorem writeMember_granted {fuel position : Nat} (hposition : position ≤ reader.range.length)
    (hfuel : reader.range.length < position + fuel) :
    (writeMember fuel (reader.passed position) position).granted =
        .ok (reader.passed reader.range.length, reader.range.length) ∧
      copied (writeMember fuel (reader.passed position) position).asked =
        reader.range.drop position := by
  induction fuel generalizing position with
  | zero => omega
  | succ fuel ih =>
    have hchunk : 0 < ioChunkSize := by decide
    have hread := readChunk_granted h hposition hchunk
    have hlength := h.length_range
    have hwithin := h.within
    have hrepresentable := h.representable
    have hcopied : ∀ {α : Type} (p : Metered α), copied (p.mapRequest .work).asked = [] :=
      fun p => by rw [Prog.asked_mapRequest, copied_work]
    rw [writeMember, granted_bind, granted_mapRequest, hread, ok_bind,
      asked_bind ((granted_mapRequest _ _).trans hread), copied_append, hcopied,
      List.nil_append]
    dsimp only
    by_cases hend : position = reader.range.length
    · have hnil : (reader.range.drop position).take ioChunkSize = [] := by
        rw [List.drop_of_length_le hend.ge, List.take_nil]
      rw [if_pos hnil, Nat.min_eq_right (by omega), List.drop_of_length_le hend.ge, hend]
      exact ⟨rfl, rfl⟩
    · have hne : (reader.range.drop position).take ioChunkSize ≠ [] := by
        intro hnil
        have := congrArg List.length hnil
        rw [List.length_take, List.length_drop, List.length_nil] at this
        omega
      have hsum : position + ((reader.range.drop position).take ioChunkSize).length =
          min (position + ioChunkSize) reader.range.length := by
        rw [List.length_take, List.length_drop]
        omega
      obtain ⟨hloop, hrest⟩ := ih (Nat.min_le_right (position + ioChunkSize) reader.range.length)
        (by omega)
      have hlt : position + ((reader.range.drop position).take ioChunkSize).length < 2 ^ 64 := by
        omega
      rw [if_neg hne, checkedAdd_of_lt hlt, hsum, okOr_some]
      refine ⟨hloop, ?_⟩
      show (reader.range.drop position).take ioChunkSize ++ copied (writeMember fuel
        (reader.passed (min (position + ioChunkSize) reader.range.length))
        (min (position + ioChunkSize) reader.range.length)).asked = _
      have hdrop : reader.range.drop (min (position + ioChunkSize) reader.range.length) =
          (reader.range.drop position).drop ioChunkSize := by
        rw [List.drop_drop]
        by_cases hle : position + ioChunkSize ≤ reader.range.length
        · rw [Nat.min_eq_left hle]
        · rw [Nat.min_eq_right (by omega), List.drop_of_length_le (Nat.le_refl _),
            List.drop_of_length_le (by omega)]
      rw [hrest, hdrop, List.take_append_drop]

end Reader

variable {codecs : Codecs} {archive : Archive} {streams : StreamsInfo}

/-- Both single-member paths give the bytes of a block. -/
structure Block.Agrees (codecs : Codecs) (archive : Archive) (block : Block) : Prop where
  extractEntry : (archive.extractEntry codecs block.memberIndex).granted = .ok block.bytes
  extractEntryTo : (archive.extractEntryTo codecs block.memberIndex).granted =
    .ok block.bytes.length
  copied_eq : copied (archive.extractEntryTo codecs block.memberIndex).asked = block.bytes

theorem Block.agrees_of_reader {block : Block} {reader : MemberReader}
    (hopen : (archive.openMember codecs block.memberIndex).granted = .ok (reader.passed 0))
    (hrange : reader.InRange) (hintact : reader.Intact) (hbytes : block.bytes = reader.range) :
    block.Agrees codecs archive := by
  have hcopied : ∀ {α : Type} (p : Metered α), copied (p.mapRequest .work).asked = [] :=
    fun p => by rw [Prog.asked_mapRequest, copied_work]
  have hopen' := (granted_mapRequest WriterRequest.work _).trans hopen
  have hlength := hrange.length_range
  obtain ⟨hloop, hwritten⟩ := writeMember_granted hrange (Nat.zero_le _)
    (show reader.range.length < 0 + (reader.finish - reader.start + 1) by omega)
  have hfinish := (MemberReader.finishReading_granted hrange (Nat.le_refl _)).mpr hintact
  have hfinish' := (granted_mapRequest WriterRequest.work _).trans hfinish
  rw [← hbytes] at hloop hwritten hfinish'
  refine ⟨?_, ?_, ?_⟩
  · rw [Archive.extractEntry, granted_bind, hopen, ok_bind]
    exact (MemberReader.intoBytes_granted hrange (Nat.zero_le _)).mpr ⟨hintact, hbytes⟩
  · rw [Archive.extractEntryTo, granted_bind, hopen', ok_bind, granted_bind]
    show (writeMember (reader.finish - reader.start + 1) (reader.passed 0) 0).granted >>= _ = _
    rw [hloop, ok_bind, granted_bind, hfinish', ok_bind]
    rfl
  · rw [Archive.extractEntryTo, asked_bind hopen', copied_append, hcopied, List.nil_append]
    show copied (writeMember (reader.finish - reader.start + 1) (reader.passed 0) 0 >>= _).asked = _
    rw [asked_bind hloop, copied_append, hwritten]
    dsimp only
    rw [asked_bind hfinish', copied_append, hcopied]
    exact List.append_nil _

/-! ## The open folder and `member_bounds` -/

/-- The open folder is the one that single-member reads decode, and they find
its next members where extraction finds them. -/
structure OpenFolder.Tracks (codecs : Codecs) (archive : Archive) (streams : StreamsInfo)
    (folder : Folder) (current : OpenFolder) : Prop where
  folder_eq : streams.folders[current.index]? = some folder
  decoded : (archive.decodeMemberFolder codecs streams current.index folder
    archive.limits.maxTotalOutputBytes).granted = .ok current.decoded
  matched : current.decoded.crcMismatch = false
  representable : current.decoded.bytes.length < 2 ^ 64
  bounds : ∀ target, current.nextSubstream ≤ target → target < folder.substreams.length →
    (memberBoundsLoop target folder.substreams.length current.decoded.bytes.length
      folder.substreams 0 0).granted =
    (memberBoundsLoop target folder.substreams.length current.decoded.bytes.length
      (folder.substreams.drop current.nextSubstream) current.nextSubstream
      current.offset).granted

def Tracked (codecs : Codecs) (archive : Archive) (streams : StreamsInfo)
    (state : ExtractState) : Prop :=
  ∀ current, state.current = some current → ∃ folder, current.Tracks codecs archive streams folder

variable {state : ExtractState} {mapping : FileStream} {memberIndex : Nat}

section

variable {folderIndex total : Nat} {current : OpenFolder} (hsteady : archive.Steady codecs)
include hsteady

theorem enterFolder_tracks
    (h : (archive.enterFolder codecs streams folderIndex state).granted = .ok (current, total)) :
    current.index = folderIndex ∧ ∃ folder, current.Tracks codecs archive streams folder := by
  obtain ⟨_, h⟩ := granted_rest h
  obtain ⟨folder, hfolder, h⟩ := granted_bind_eq_ok.mp h
  obtain ⟨⟨decoded, next⟩, hdecode, h⟩ := granted_bind_eq_ok.mp h
  obtain ⟨_, hmatch, h⟩ := granted_bind_eq_ok.mp h
  cases Prog.granted_pure_eq_ok.mp h
  obtain ⟨-, hdecode, hnext, hlt, -⟩ := decodeWithinTotal_eq_ok.mp hdecode
  have hmatch := rejectIf_eq_ok.mp (Prog.granted_lift_eq_ok.mp hmatch)
  refine ⟨rfl, folder, okOr_eq_ok.mp (Prog.granted_lift_eq_ok.mp hfolder),
    hsteady.decodeMemberFolder (Nat.sub_le _ _) hdecode, Bool.not_eq_true _ ▸ hmatch, ?_,
    fun _ _ _ => rfl⟩
  show decoded.bytes.length < 2 ^ 64
  omega

theorem folderFor_tracks (hstate : Tracked codecs archive streams state)
    (h : (archive.folderFor codecs streams folderIndex state).granted = .ok (current, total)) :
    current.index = folderIndex ∧ ∃ folder, current.Tracks codecs archive streams folder := by
  by_cases hopen : ∃ open', state.current = some open' ∧ open'.index = folderIndex
  · obtain ⟨open', hcurrent, hindex⟩ := hopen
    rw [folderFor_of_index hcurrent hindex] at h
    cases Prog.granted_pure_eq_ok.mp h
    exact ⟨hindex, hstate current hcurrent⟩
  · rw [folderFor_of_ne fun other hcurrent hindex => hopen ⟨other, hcurrent, hindex⟩] at h
    exact enterFolder_tracks hsteady h

end

theorem nextRange_spans {current : OpenFolder} {folder : Folder} {bytes : List UInt8}
    {size finish : Nat} (hfolder : streams.folders[mapping.folderIndex]? = some folder)
    (hmapping : mapping ∈ folderMappings mapping.folderIndex folder)
    (hdigest : ∀ expected, mapping.crc = some expected → Crc32.checksum bytes = expected)
    (h : archive.nextRange streams current mapping = .ok (bytes, size, finish)) :
    ∃ substream, Spans archive.limits current.decoded.bytes folder.substreams.length
        current.nextSubstream current.offset finish substream ∧
      folder.substreams[current.nextSubstream]? = some substream ∧
      mapping = ⟨mapping.folderIndex, current.nextSubstream, substream.size, substream.crc⟩ ∧
      bytes = span current.decoded.bytes current.offset finish ∧ size =
        finish - current.offset := by
  simp only [nextRange, Except.bind_eq_ok, rejectIf_eq_ok, okOr_eq_ok, checkedSub_eq_some,
    getRange_eq_some, checkLimit_eq_ok] at h
  obtain ⟨_, hindex, found, hfound, substream, hsubstream, finish', hend, _, hwithin, _,
    ⟨hordered, rfl⟩, _, hlimit, _, ⟨-, -, rfl⟩, h⟩ := h
  cases h
  cases hfolder.symm.trans hfound
  obtain ⟨-, own, hown, hsize, hcrc⟩ := mem_folderMappings.mp hmapping
  have hindex := not_not.mp hindex
  rw [hindex, hsubstream] at hown
  cases hown
  refine ⟨substream, ⟨hend, hordered, Nat.le_of_not_lt hwithin, hlimit, ?_⟩, hsubstream, ?_, rfl,
    rfl⟩
  · intro expected hexpected
    exact hdigest expected (hcrc.trans hexpected)
  · rw [← hindex, ← hsize, ← hcrc]

namespace OpenFolder.Tracks

variable {folder : Folder} {current : OpenFolder} {substream : Substream} {finish : Nat}

variable (h : current.Tracks codecs archive streams folder)
  (hspans : Spans archive.limits current.decoded.bytes folder.substreams.length
    current.nextSubstream current.offset finish substream)
include h hspans

section

variable (hsubstream : folder.substreams[current.nextSubstream]? = some substream)
include hsubstream

theorem memberBounds :
    (Unpackio.memberBounds folder current.nextSubstream current.decoded.bytes.length).granted =
      .ok (current.offset, finish) := by
  obtain ⟨hlt, rfl⟩ := List.getElem?_eq_some_iff.mp hsubstream
  rw [Unpackio.memberBounds, rejectIf_of_not (Nat.not_le_of_lt hlt), granted_lift_bind, ok_bind,
    h.bounds _ (Nat.le_refl _) hlt, List.drop_eq_getElem_cons hlt, memberBoundsLoop,
    checkpoint_bind, if_pos rfl, granted_lift_bind]
  have hend : substreamEnd _ _ _ _ _ _ _ = .ok finish := hspans.ends
  rw [hend, ok_bind, rejectIf_of_not (Nat.not_lt_of_le hspans.within)]
  rfl

theorem advance :
    OpenFolder.Tracks codecs archive streams folder
      { current with nextSubstream := current.nextSubstream + 1, offset := finish } := by
  refine ⟨h.folder_eq, h.decoded, h.matched, h.representable, fun target hle htarget => ?_⟩
  have hle : current.nextSubstream + 1 ≤ target := hle
  obtain ⟨hlt, rfl⟩ := List.getElem?_eq_some_iff.mp hsubstream
  rw [h.bounds target (Nat.le_of_succ_le hle) htarget, List.drop_eq_getElem_cons hlt,
    memberBoundsLoop, checkpoint_bind, if_neg (Nat.ne_of_lt hle)]
  have hend := hspans.ends
  cases hsize : folder.substreams[current.nextSubstream].size with
  | none =>
    rw [hsize] at hend
    have hlast := (memberEnd_none hend).1
    omega
  | some size =>
    rw [hsize] at hend
    obtain ⟨hfinish, hlimit⟩ := memberEnd_some hend
    rw [okOr_some, granted_lift_bind, ok_bind, granted_lift_bind,
      checkedAdd_bind (hfinish ▸ hlimit), ← hfinish]

end

theorem openStream (hstreams : archive.header.mainStreams = some streams)
    (hsubstream : folder.substreams[current.nextSubstream]? = some substream) (memberIndex : Nat) :
    (archive.openStream codecs memberIndex
      ⟨current.index, current.nextSubstream, substream.size, substream.crc⟩).granted =
      .ok (.new current.decoded.bytes current.offset finish substream.crc
        current.decoded.crcMismatch current.decoded.encrypted memberIndex) := by
  have hlimited := hspans.limited
  have hsize : ¬∃ size ∈ substream.size, archive.limits.maxEntryOutputBytes < size := by
    rintro ⟨size, hsize, hlt⟩
    have hend := hspans.ends
    rw [Option.mem_def.mp hsize] at hend
    have hfinish := (memberEnd_some hend).1
    omega
  rw [Archive.openStream, rejectIf_of_not hsize, hstreams, okOr_some]
  simp only [granted_bind, granted_lift, ok_bind, h.folder_eq, h.decoded,
    h.memberBounds hspans hsubstream, checkedSub_of_le hspans.ordered, okOr_some,
    checkLimit_of_le hlimited]
  rfl

end OpenFolder.Tracks

def streamBlock (memberIndex : Nat) (member : FileEntry) (data : List UInt8)
    (start finish : Nat) : Block :=
  ⟨memberIndex, member, finish - start, chunks ioChunkSize (span data start finish)⟩

theorem streamBlock_bytes (memberIndex : Nat) (member : FileEntry) (data : List UInt8)
    (start finish : Nat) :
    (streamBlock memberIndex member data start finish).bytes = span data start finish :=
  flatten_chunks (by decide) _

def callsOf (requests : List SinkRequest) : List SinkRequest := requests.filter SinkRequest.isCall

theorem callsOf_append (front rest : List SinkRequest) :
    callsOf (front ++ rest) = callsOf front ++ callsOf rest := List.filter_append front rest

theorem callsOf_working {α : Type} (p : Metered α) : callsOf (working p).asked = [] := by
  rw [working, Prog.asked_mapRequest, callsOf]
  refine List.filter_eq_nil_iff.mpr fun request hrequest => ?_
  obtain ⟨_, -, rfl⟩ := List.mem_map.mp hrequest
  exact Bool.false_ne_true

theorem callsOf_writeChunks (memberIndex : Nat) (pieces : List (List UInt8)) (crc : Crc32) :
    callsOf (writeChunks memberIndex pieces crc).asked =
      pieces.map (.writeEntry memberIndex) := by
  induction pieces generalizing crc with
  | nil => rfl
  | cons piece pieces ih =>
    have hwork : (working (consumeBytes piece)).granted = .ok () :=
      (granted_mapRequest _ _).trans (consumeBytes_granted piece)
    rw [writeChunks, asked_bind hwork, callsOf_append, callsOf_working, List.nil_append]
    show callsOf (.writeEntry memberIndex piece ::
      (writeChunks memberIndex pieces (crc.update piece)).asked) = _
    rw [callsOf, List.filter_cons_of_pos rfl, List.map_cons]
    exact congrArg _ (ih _)

theorem callsOf_deliver {member : FileEntry} {encrypted : Bool} {bytes : List UInt8} {size : Nat}
    (h : (deliver memberIndex member mapping encrypted bytes size).granted = .ok ()) :
    callsOf (deliver memberIndex member mapping encrypted bytes size).asked =
      Block.calls ⟨memberIndex, member, size, chunks ioChunkSize bytes⟩ := by
  have hbegin : (Prog.request (.beginEntry memberIndex member size) : Extracting Unit).granted =
      .ok () := rfl
  rw [deliver, granted_bind, hbegin, ok_bind, granted_bind, writeChunks_granted,
    ok_bind] at h
  obtain ⟨_, hcheck, -⟩ := granted_bind_eq_ok.mp h
  rw [deliver, asked_bind hbegin, callsOf_append, asked_bind (writeChunks_granted _ _ _),
    callsOf_append, callsOf_writeChunks, asked_bind hcheck]
  rfl

/-! ## The member loop -/

/-- The calls for some members are blocks that the single-member paths give as
well. -/
structure Delivers (codecs : Codecs) (archive : Archive) (members : List (FileEntry × Nat))
    (calls : List SinkRequest) (blocks : List Block) : Prop where
  calls_eq : calls = blocks.flatMap Block.calls
  members_eq : blocks.map Block.member = members.filter isDelivered
  agrees : ∀ block ∈ blocks, block.Agrees codecs archive

theorem Delivers.append {members members' : List (FileEntry × Nat)}
    {calls calls' : List SinkRequest} {blocks blocks' : List Block}
    (h : Delivers codecs archive members calls blocks)
    (h' : Delivers codecs archive members' calls' blocks') :
    Delivers codecs archive (members ++ members') (calls ++ calls') (blocks ++ blocks') where
  calls_eq := by rw [h.calls_eq, h'.calls_eq, List.flatMap_append]
  members_eq := by rw [List.map_append, h.members_eq, h'.members_eq, List.filter_append]
  agrees := fun block hblock => (List.mem_append.mp hblock).elim (h.agrees block) (h'.agrees block)

theorem Delivers.single {member : FileEntry × Nat} {calls : List SinkRequest} {block : Block}
    (hcalls : calls = block.calls) (hmember : block.member = member)
    (hdelivered : isDelivered member = true) (hagrees : block.Agrees codecs archive) :
    Delivers codecs archive [member] calls [block] where
  calls_eq := by rw [hcalls, List.flatMap_singleton]
  members_eq := by rw [List.map_singleton, hmember, List.filter_cons_of_pos hdelivered]; rfl
  agrees := fun other hother => List.mem_singleton.mp hother ▸ hagrees

/-- A member as the archive has it: with a stream it is no anti-item, and its
stream is one of the substreams. -/
structure Listed (archive : Archive) (member : FileEntry × Nat) : Prop where
  entry : archive.entries[member.2]? = some member.1
  plain : member.1.stream.isSome → member.1.antiItem = false
  mapped : ∀ mapping streams, member.1.stream = some mapping →
    archive.header.mainStreams = some streams → mapping ∈ streamMappings streams.folders

section

variable {member : FileEntry} {next : ExtractState} (hsteady : archive.Steady codecs)
  (hlisted : archive.Listed (member, memberIndex))
include hsteady hlisted

theorem extractStream_delivers (hstream : member.stream = some mapping)
    (hstreams : archive.header.mainStreams = some streams)
    (hstate : Tracked codecs archive streams state)
    (h : (archive.extractStream codecs memberIndex member mapping state).granted = .ok next) :
    Tracked codecs archive streams next ∧ ∃ blocks,
      Delivers codecs archive [(member, memberIndex)]
        (callsOf (archive.extractStream codecs memberIndex member mapping state).asked) blocks := by
  rw [extractStream, hstreams, okOr_some] at h ⊢
  have hlift : (liftM (Except.ok streams : Except Error StreamsInfo) :
      Extracting StreamsInfo).granted = .ok streams := rfl
  rw [granted_bind, hlift, ok_bind] at h
  obtain ⟨⟨current, total⟩, hopen, h⟩ := granted_bind_eq_ok.mp h
  obtain ⟨⟨bytes, size, finish⟩, hrange, h⟩ := granted_bind_eq_ok.mp h
  obtain ⟨_, hdeliver, h⟩ := granted_bind_eq_ok.mp h
  obtain ⟨delivered, hdelivered, h⟩ := granted_bind_eq_ok.mp h
  obtain ⟨nextSubstream, hnext, h⟩ := granted_bind_eq_ok.mp h
  cases Prog.granted_pure_eq_ok.mp h
  obtain ⟨-, rfl⟩ := checkedAdd_eq_ok.mp (Prog.granted_lift_eq_ok.mp hnext)
  obtain ⟨hindex, folder, htracks⟩ := folderFor_tracks hsteady hstate
    ((granted_mapRequest _ _).symm.trans hopen)
  have hmem := hlisted.mapped mapping streams hstream hstreams
  have hfolder : streams.folders[mapping.folderIndex]? = some folder := hindex ▸ htracks.folder_eq
  have hmapping : mapping ∈ folderMappings mapping.folderIndex folder := by
    obtain ⟨found, substream, hfound, hrest⟩ :=
      ((folderMajor_streamMappings streams.folders).mem_iff mapping).mp hmem
    cases hfolder.symm.trans hfound
    exact mem_folderMappings.mpr ⟨rfl, substream, hrest⟩
  obtain ⟨substream, hspans, hsubstream, heq, rfl, rfl⟩ := nextRange_spans hfolder hmapping
    (deliver_granted.mp hdeliver) (Prog.granted_lift_eq_ok.mp hrange)
  refine ⟨?_, [streamBlock memberIndex member current.decoded.bytes current.offset finish],
    .single ?_ rfl ?_ ?_⟩
  · intro other hother
    cases hother
    exact ⟨folder, htracks.advance hspans hsubstream⟩
  · rw [asked_bind hlift, callsOf_append, asked_bind hopen, callsOf_append,
      callsOf_working, asked_bind hrange, callsOf_append, asked_bind hdeliver,
      callsOf_append, callsOf_deliver hdeliver, asked_bind hdelivered, asked_bind hnext]
    exact List.append_nil _
  · rw [isDelivered, hstream]
    rfl
  · -- The reader opens on the span, and its digests are those that extraction checked.
    have hmember : archive.member memberIndex = .ok member := by
      rw [Archive.member, hlisted.entry, okOr_some]
    have hplain : ¬member.antiItem = true := by
      rw [hlisted.plain (by rw [hstream]; rfl)]
      exact Bool.false_ne_true
    have hopened := htracks.openStream hspans hstreams hsubstream memberIndex
    rw [hindex, ← heq] at hopened
    have hreader : (archive.openMember codecs memberIndex).granted =
        .ok ((MemberReader.new current.decoded.bytes current.offset finish substream.crc
          current.decoded.crcMismatch current.decoded.encrypted memberIndex).passed 0) := by
      rw [openMember, hmember, granted_lift_bind, ok_bind, rejectIf_of_not hplain, hstream]
      exact hopened
    exact Block.agrees_of_reader hreader
      ⟨hspans.ordered, hspans.within, htracks.representable⟩ ⟨hspans.digest, htracks.matched⟩
      (streamBlock_bytes _ _ _ _ _)

theorem extractMember_delivers (hstate : ∀ streams, archive.header.mainStreams = some streams →
      Tracked codecs archive streams state)
    (h : (archive.extractMember codecs memberIndex member state).granted = .ok next) :
    (∀ streams, archive.header.mainStreams = some streams →
      Tracked codecs archive streams next) ∧
    ∃ blocks, Delivers codecs archive [(member, memberIndex)]
      (callsOf (archive.extractMember codecs memberIndex member state).asked) blocks := by
  have hwork : (working (checkpoint 1)).granted = .ok () :=
    (granted_mapRequest _ _).trans (checkpoint_granted 1)
  rw [extractMember, asked_bind hwork, callsOf_append, callsOf_working, List.nil_append]
  cases hstream : member.stream with
  | some mapping =>
    rw [extractMember_some hstream] at h
    cases hstreams : archive.header.mainStreams with
    | none =>
      rw [extractStream, hstreams] at h
      cases h
    | some streams =>
      obtain ⟨htracked, hdelivers⟩ :=
        extractStream_delivers hsteady hlisted hstream hstreams (hstate streams hstreams) h
      refine ⟨fun other hother => ?_, hdelivers⟩
      cases hother
      exact htracked
  | none =>
    rw [extractMember_none hstream] at h
    cases h
    refine ⟨hstate, ?_⟩
    by_cases hempty : member.emptyFile = true ∧ ¬member.antiItem = true
    · refine ⟨[⟨memberIndex, member, 0, []⟩], .single ?_ rfl ?_ ?_⟩
      · simp only [if_pos hempty]
        rfl
      · simp [isDelivered, hempty.1, hempty.2]
      · have hmember : archive.member memberIndex = .ok member := by
          rw [Archive.member, hlisted.entry, okOr_some]
        have hreader : (archive.openMember codecs memberIndex).granted =
            .ok ((MemberReader.new [] 0 0 none false false memberIndex).passed 0) := by
          rw [openMember, hmember, granted_lift_bind, ok_bind, rejectIf_of_not hempty.2, hstream]
          exact congrArg Prog.granted (if_pos hempty.1)
        exact Block.agrees_of_reader hreader
          ⟨Nat.le_refl _, Nat.le_refl _, Nat.two_pow_pos 64⟩ ⟨fun _ h => (by cases h), rfl⟩ rfl
    · refine ⟨[], ⟨?_, ?_, fun _ hblock => absurd hblock List.not_mem_nil⟩⟩
      · simp only [if_neg hempty]
        rfl
      · rw [List.filter_cons_of_neg]
        · rfl
        · simpa [isDelivered, hstream] using hempty

end

theorem extractMembers_delivers (hsteady : archive.Steady codecs) (members : List (FileEntry × Nat))
    {next : ExtractState} (hlisted : ∀ member ∈ members, archive.Listed member)
    (hstate : ∀ streams, archive.header.mainStreams = some streams →
      Tracked codecs archive streams state)
    (h : (archive.extractMembers codecs members state).granted = .ok next) :
    ∃ blocks, Delivers codecs archive members
      (callsOf (archive.extractMembers codecs members state).asked) blocks := by
  induction members generalizing state with
  | nil => exact ⟨[], rfl, rfl, fun _ hblock => absurd hblock List.not_mem_nil⟩
  | cons entry members ih =>
    obtain ⟨member, memberIndex⟩ := entry
    obtain ⟨after, hmember, h⟩ := granted_bind_eq_ok.mp h
    obtain ⟨hafter, blocks, hblocks⟩ :=
      extractMember_delivers hsteady (hlisted _ List.mem_cons_self) hstate hmember
    obtain ⟨blocks', hblocks'⟩ :=
      ih (fun other hother => hlisted other (List.mem_cons_of_mem _ hother)) hafter h
    refine ⟨blocks ++ blocks', ?_⟩
    rw [extractMembers, asked_bind hmember, callsOf_append]
    exact hblocks.append hblocks'

theorem openBytes_listed {bytes : List UInt8} {limits : Limits}
    (h : (openBytes codecs bytes limits).granted = .ok archive) :
    ∀ member ∈ archive.entries.zipIdx, archive.Listed member := by
  intro member hmember
  have hentry := mem_zipIdx member hmember
  have hmem : member.1 ∈ archive.entries := List.mem_of_getElem? hentry
  rcases openBytes_placed h with hnil | hplaced
  · rw [hnil] at hmem
    exact absurd hmem List.not_mem_nil
  · refine ⟨hentry, hplaced.plain member.1 hmem, fun mapping streams hstream hstreams => ?_⟩
    rw [hstreams] at hplaced
    exact hplaced.streams_eq ▸ List.mem_filterMap.mpr ⟨member.1, hmem, hstream⟩

/-- Over an opened archive, verification that succeeds means that natural-order
extraction does, and what that delivers for a member the two single-member paths
give as well. -/
theorem extractions_agree {codecs : Codecs} {bytes : List UInt8} {limits : Limits}
    {archive : Archive} (hopen : (openBytes codecs bytes limits).granted = .ok archive)
    (hsteady : archive.Steady codecs) :
    ((archive.verify codecs).granted = .ok () →
      ∃ count, (archive.extractEntriesTo codecs).granted = .ok count) ∧
    ∀ count, (archive.extractEntriesTo codecs).granted = .ok count →
      ∃ blocks : List Block,
        callsOf (archive.extractEntriesTo codecs).asked = blocks.flatMap Block.calls ∧
        blocks.map Block.member = archive.entries.zipIdx.filter isDelivered ∧
        ∀ block ∈ blocks,
          (archive.extractEntry codecs block.memberIndex).granted = .ok block.bytes ∧
          (archive.extractEntryTo codecs block.memberIndex).granted = .ok block.bytes.length ∧
          copied (archive.extractEntryTo codecs block.memberIndex).asked = block.bytes := by
  refine ⟨extractEntriesTo_of_verify hopen hsteady, fun count h => ?_⟩
  obtain ⟨state, hloop, hcheck, -⟩ := extractEntriesTo_eq_ok.mp h
  have hstart : ∀ streams, archive.header.mainStreams = some streams →
      Tracked codecs archive streams ⟨none, 0, 0⟩ := by
    intro streams _ current hcurrent
    cases hcurrent
  obtain ⟨blocks, hblocks⟩ := extractMembers_delivers hsteady archive.entries.zipIdx
    (openBytes_listed hopen) hstart hloop
  refine ⟨blocks, ?_, hblocks.members_eq, fun block hblock => ?_⟩
  · rw [extractEntriesTo, asked_bind hloop, callsOf_append, hblocks.calls_eq,
      asked_bind ((granted_lift _).trans hcheck)]
    exact List.append_nil _
  · have hagrees := hblocks.agrees block hblock
    exact ⟨hagrees.extractEntry, hagrees.extractEntryTo, hagrees.copied_eq⟩

theorem steady_copyOnly (archive : Archive) : archive.Steady .copyOnly :=
  fun _ _ _ _ _ hle h => decodeFolder_mono decodeCoder_copyOnly_monotone hle h

theorem extractions_agree_copyArchive :
    ∃ blocks : List Block,
      blocks.map Block.member = openedCopyArchive.entries.zipIdx.filter isDelivered ∧
      ∀ block ∈ blocks,
        (openedCopyArchive.extractEntry .copyOnly block.memberIndex).granted = .ok block.bytes := by
  obtain ⟨hverify, hblocks⟩ :=
    extractions_agree openBytes_copyArchive (steady_copyOnly openedCopyArchive)
  obtain ⟨count, hcount⟩ := hverify (by decide)
  obtain ⟨blocks, -, hmembers, hagree⟩ := hblocks count hcount
  exact ⟨blocks, hmembers, fun block hblock => (hagree block hblock).1⟩

end Archive
end Unpackio
