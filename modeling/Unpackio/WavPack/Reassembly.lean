/-
What the reassembly of a WavPack stream makes of its blocks: the header of the wrapper,
the samples of all frames in their order, and the trailer.
-/
import Unpackio.Foundation.Passes
import Unpackio.WavPack.Decode

namespace Unpackio
namespace WavPack

open List (append_assoc append_nil flatMap_append flatMap_singleton length_replicate map_cons
  mem_append mem_singleton nil_append sum_cons)
open Interleave Except Except.Ensures
open Prog (Passes granted_bind_eq_ok granted_lift_eq_ok)

/-! ## Samples -/

def sampleCell (width : Nat) (sample : Int32) : List UInt8 :=
  if width = 1 then [UInt8.ofNat (sample.toInt + 0x80).toNat]
  else (toLeBytes 4 sample.toUInt32.toNat).take width

def DecodedStream.part (width : Nat) (decoded : DecodedStream) : Interleave.Part (List UInt8) :=
  ⟨decoded.channels, decoded.samples.map (sampleCell width)⟩

theorem sampleBytes_ensures (sample : Int32) (width : Nat) :
    (sampleBytes sample width).Ensures fun bytes =>
      bytes = sampleCell width sample ∧ bytes.length = width := by
  refine .ite (fun hone => ?_) fun hmore => ?_
  · refine .bind (.self _) fun byte hbyte => .pure ⟨?_, hone.symm⟩
    obtain ⟨-, hsome⟩ := Option.ite_none_right_eq_some.mp (okOr_eq_ok.mp hbyte)
    rw [sampleCell, if_pos hone, Option.some.inj hsome]
  · intro bytes hbytes
    obtain ⟨-, hle, rfl⟩ := getRange_eq_some.mp (okOr_eq_ok.mp hbytes)
    refine ⟨?_, ?_⟩
    · rw [sampleCell, if_neg hmore, List.drop_zero]
    · rw [List.drop_zero, List.length_take, Nat.min_eq_left hle]

/-- Bytes that are cells of one width. -/
structure Cells (width : Nat) (cells : List (List UInt8)) : Prop where
  pos : 0 < width
  length_eq : ∀ cell ∈ cells, cell.length = width

variable {cells : List (List UInt8)} {index position : Nat} {entry : Entry} {output : List UInt8}

theorem Cells.scatter {width : Nat} (h : Cells width cells) {writes : List (Nat × List UInt8)}
    (hwrites : ∀ write ∈ writes, write.2.length = width) : Cells width (scatter writes cells) := by
  refine ⟨h.pos, ?_⟩
  induction writes generalizing cells with
  | nil => exact h.length_eq
  | cons write writes ih =>
    refine ih ⟨h.pos, fun cell hcell => ?_⟩ fun other hother =>
      hwrites other (List.mem_cons_of_mem _ hother)
    obtain hcell | rfl := List.mem_or_eq_of_mem_set hcell
    · exact h.length_eq cell hcell
    · exact hwrites write List.mem_cons_self

theorem Cells.lt_length {width : Nat} (h : Cells width cells)
    (hindex : index * width + width ≤ cells.flatten.length) : index < cells.length := by
  have hpos := h.pos
  rw [length_flatten_cells h.length_eq, ← Nat.succ_mul] at hindex
  exact Nat.lt_of_succ_le (Nat.le_of_mul_le_mul_right hindex hpos)

section

variable {samples : List Int32} {streamChannels totalChannels channelOffset width : Nat}

theorem writeSample_ensures (hcells : Cells width cells) (frame channel : Nat) :
    (writeSample samples streamChannels totalChannels channelOffset width frame cells.flatten
      channel).Ensures fun output => ∃ sample,
        samples[frame * streamChannels + channel]? = some sample ∧
          (sampleCell width sample).length = width ∧
          output = (cells.set (frame * totalChannels + channelOffset + channel)
            (sampleCell width sample)).flatten := by
  intro output hrun
  simp only [writeSample, bind_eq_ok, okOr_eq_ok, Option.bind_eq_some_iff, checkedMul_eq_some,
    checkedAdd_eq_some] at hrun
  obtain ⟨_, ⟨_, ⟨-, rfl⟩, -, rfl⟩, _, ⟨_, ⟨-, rfl⟩, _, ⟨-, rfl⟩, -, rfl⟩, _, ⟨-, rfl⟩, _, ⟨-, rfl⟩,
    sample, hsample, _, hrange, bytes, hbytes, hrun⟩ := hrun
  obtain ⟨hbytes, hlength⟩ := sampleBytes_ensures sample width bytes hbytes
  have hinside := (getRange_eq_some.mp hrange).2.1
  cases hrun
  refine ⟨sample, hsample, hbytes ▸ hlength, ?_⟩
  rw [splice_flatten hcells.length_eq (hcells.lt_length hinside) hlength, hbytes]

theorem length_of_mem_placed (start : Nat) {values : List (List UInt8)}
    (h : ∀ cell ∈ values, cell.length = width) {write : Nat × List UInt8}
    (hwrite : write ∈ placed start values) : write.2.length = width := by
  refine h write.2 ?_
  rw [← map_snd_placed start values]
  exact List.mem_map_of_mem hwrite

variable {part : Interleave.Part (List UInt8)} (hcells : Cells width cells)
include hcells

theorem writeFrame_ensures (frame : Nat)
    (hpart : part = ⟨streamChannels, samples.map (sampleCell width)⟩) :
    ((List.range streamChannels).foldlM
      (writeSample samples streamChannels totalChannels channelOffset width frame)
      cells.flatten).Ensures fun output =>
        (∀ cell ∈ part.frame frame, cell.length = width) ∧
          output = (scatter (placed (frame * totalChannels + channelOffset) (part.frame frame))
            cells).flatten := by
  have hframe : part.frame frame =
      ((samples.map (sampleCell width)).drop (frame * streamChannels)).take streamChannels := by
    rw [hpart, Interleave.Part.frame]
  have hall : (part.frame frame).take streamChannels = part.frame frame := by
    rw [hframe, List.take_take, Nat.min_self]
  have hrun := @foldlM_range Error (List UInt8)
    (writeSample samples streamChannels totalChannels channelOffset width frame)
    (fun count output =>
      (∀ cell ∈ (part.frame frame).take count, cell.length = width) ∧
        ((part.frame frame).take count).length = count ∧
        output = (scatter (placed (frame * totalChannels + channelOffset)
          ((part.frame frame).take count)) cells).flatten)
    streamChannels cells.flatten ⟨(fun cell hcell => by cases hcell), rfl, rfl⟩ ?_
  · refine hrun.mono fun output hdone => ?_
    rw [hall] at hdone
    exact ⟨hdone.1, hdone.2.2⟩
  · rintro channel hchannel output ⟨hlengths, hcount, rfl⟩
    have hnow := hcells.scatter fun write hwrite =>
      length_of_mem_placed (frame * totalChannels + channelOffset) hlengths hwrite
    refine (writeSample_ensures hnow frame channel).mono ?_
    rintro _ ⟨sample, hsample, hlength, rfl⟩
    have hget : (part.frame frame)[channel]? = some (sampleCell width sample) := by
      rw [hframe, List.getElem?_take_of_lt hchannel, List.getElem?_drop, List.getElem?_map, hsample]
      rfl
    have hnext : (part.frame frame).take (channel + 1) =
        (part.frame frame).take channel ++ [sampleCell width sample] := by
      rw [List.take_add_one, hget]
      rfl
    rw [hnext]
    refine ⟨fun cell hcell => ?_, ?_, ?_⟩
    · obtain hcell | hcell := mem_append.mp hcell
      · exact hlengths cell hcell
      · rw [mem_singleton.mp hcell, hlength]
    · rw [List.length_append, hcount, List.length_singleton]
    · rw [placed_append, hcount, scatter_append]
      rfl

theorem writeStreamSamples_ensures (frames : Nat)
    (hpart : part = ⟨streamChannels, samples.map (sampleCell width)⟩) :
    (writeStreamSamples samples streamChannels totalChannels channelOffset width cells.flatten
      frames).Ensures fun output =>
        part.Fills frames ∧
          (∀ write ∈ part.writes frames totalChannels channelOffset, write.2.length = width) ∧
          output = (scatter (part.writes frames totalChannels channelOffset) cells).flatten := by
  refine .bind (.self _) fun expected hexpected => ?_
  refine .bind (.self _) fun _ hcount => ?_
  obtain ⟨-, rfl⟩ := checkedMul_eq_some.mp (okOr_eq_ok.mp hexpected)
  have hfills : part.Fills frames := by
    rw [hpart, Interleave.Part.Fills, List.length_map]
    exact not_not.mp (rejectIf_eq_ok.mp hcount)
  have hrun := @foldlM_range Error (List UInt8)
    (fun output frame => (List.range streamChannels).foldlM
      (writeSample samples streamChannels totalChannels channelOffset width frame) output)
    (fun count output =>
      (∀ write ∈ part.writes count totalChannels channelOffset, write.2.length = width) ∧
        output = (scatter (part.writes count totalChannels channelOffset) cells).flatten)
    frames cells.flatten ⟨(fun write hwrite => nomatch hwrite), rfl⟩ ?_
  · exact hrun.mono fun output hdone => ⟨hfills, hdone⟩
  · rintro frame - output ⟨hlengths, rfl⟩
    refine (writeFrame_ensures (hcells.scatter hlengths) frame hpart).mono ?_
    rintro _ ⟨hframe, rfl⟩
    have hnext : part.writes (frame + 1) totalChannels channelOffset =
        part.writes frame totalChannels channelOffset ++
          placed (frame * totalChannels + channelOffset) (part.frame frame) := by
      rw [Interleave.Part.writes, List.range_succ, flatMap_append, flatMap_singleton]
      rfl
    rw [hnext, scatter_append]
    refine ⟨fun write hwrite => ?_, rfl⟩
    obtain hwrite | hwrite := mem_append.mp hwrite
    · exact hlengths write hwrite
    · exact length_of_mem_placed _ hframe hwrite

end

/-! ## The blocks of a group -/

/-- A block, and what its metadata says. -/
abbrev Entry := Block × MetadataSummary

theorem drop_of_getElem? {entries : List Entry} (h : entries[index]? = some entry) :
    entries.drop index = entry :: entries.drop (index + 1) := by
  rw [List.drop_eq_getElem?_toList_append, h]
  rfl

theorem entries_getElem? {blocks : List Block} {summaries : List MetadataSummary} {block : Block}
    {summary : MetadataSummary} (hblock : blocks[index]? = some block)
    (hsummary : summaries[index]? = some summary) :
    (blocks.zip summaries)[index]? = some (block, summary) :=
  List.getElem?_zip_eq_some.mpr ⟨hblock, hsummary⟩

theorem entry_at {blocks : List Block} {summaries : List MetadataSummary}
    (h : (blocks.zip summaries)[index]? = some entry) :
    blockAt blocks index = .ok entry.1 ∧ summaryAt summaries index = .ok entry.2 := by
  obtain ⟨hblock, hsummary⟩ := List.getElem?_zip_eq_some.mp h
  rw [blockAt, summaryAt, hblock, hsummary]
  exact ⟨rfl, rfl⟩

def Decodes (decodeStream : BlockDecoder) (width : Nat) (entry : Entry)
    (part : Interleave.Part (List UInt8)) : Prop :=
  ∃ input decoded, decoderInput entry.1 entry.2 = .ok input ∧
    decodeStream input = some (.ok decoded) ∧ decoded.channels = entry.1.header.outputChannels ∧
    part = decoded.part width

/-- The samples of the blocks of a group, each for all frames of the group. -/
structure Group where
  frames : Nat
  parts : List (Interleave.Part (List UInt8))

namespace Group

def writes (channels : Nat) (group : Group) : List (Nat × List UInt8) :=
  writesFrom group.frames channels 0 group.parts

def zeros (channels width : Nat) (group : Group) : List (List UInt8) :=
  List.replicate (group.frames * channels) (List.replicate width 0)

def written (channels width : Nat) (group : Group) : List UInt8 :=
  (scatter (group.writes channels) (group.zeros channels width)).flatten

def interleaved (group : Group) : List UInt8 := (interleave group.frames group.parts).flatten

end Group

section

variable {decodeStream : BlockDecoder} {limits : Limits} {expected maximum : Nat}
  {blocks : List Block} {summaries : List MetadataSummary}

theorem decodeBlock_ensures (width : Nat) (entry : Entry) :
    (decodeBlock decodeStream limits entry.1 entry.2).granted.Ensures fun decoded =>
      Decodes decodeStream width entry (decoded.part width) := by
  intro decoded hrun
  simp only [decodeBlock, granted_bind_eq_ok, granted_lift_eq_ok, checkpoint_granted,
    okOr_eq_ok, rejectIf_eq_ok, not_not] at hrun
  obtain ⟨_, -, _, -, _, -, input, hinput, result, hresult, value, hvalue, _, -, _, hchannels, _, -,
    hrun⟩ := hrun
  cases hrun
  cases result with
  | error e => exact (nomatch hvalue)
  | ok stream =>
    cases hvalue
    exact ⟨input, decoded, hinput, hresult, hchannels, rfl⟩

/-- What is there when some blocks of a group are written. -/
structure Written (decodeStream : BlockDecoder) (frames channels width : Nat)
    (cells : List (List UInt8)) (done : List Entry) (group : List UInt8 × Nat)
    (parts : List (Interleave.Part (List UInt8))) : Prop where
  decodes : List.Forall₂ (Decodes decodeStream width) done parts
  fills : ∀ part ∈ parts, part.Fills frames
  offset : group.2 = totalWidth parts
  lengths : ∀ write ∈ writesFrom frames channels 0 parts, write.2.length = width
  bytes : group.1 = (scatter (writesFrom frames channels 0 parts) cells).flatten

theorem writeBlock_ensures {frames channels width : Nat} (hcells : Cells width cells)
    {done : List Entry} {group : List UInt8 × Nat}
    (hentry : (blocks.zip summaries)[index]? = some entry)
    {parts : List (Interleave.Part (List UInt8))}
    (h : Written decodeStream frames channels width cells done group parts) :
    (writeBlock decodeStream limits blocks summaries frames channels width group
      index).granted.Ensures fun next => ∃ part,
        Written decodeStream frames channels width cells (done ++ [entry]) next
          (parts ++ [part]) := by
  obtain ⟨bytes, offset⟩ := group
  obtain ⟨hdecodes, hfills, rfl, hlengths, rfl⟩ := h
  obtain ⟨hblock, hsummary⟩ := entry_at hentry
  intro next hrun
  simp only [writeBlock, granted_bind_eq_ok, granted_lift_eq_ok, hblock, hsummary,
    ok.injEq, exists_eq_left', okOr_eq_ok, checkedAdd_eq_some] at hrun
  obtain ⟨decoded, hdecoded, output, houtput, _, ⟨-, rfl⟩, hrun⟩ := hrun
  cases hrun
  obtain ⟨hfill, hwrites, rfl⟩ := writeStreamSamples_ensures (hcells.scatter hlengths) frames rfl
    output houtput
  have hconcat : writesFrom frames channels 0 (parts ++ [decoded.part width]) =
      writesFrom frames channels 0 parts ++
        (decoded.part width).writes frames channels (totalWidth parts) := by
    rw [writesFrom_concat, Nat.zero_add]
  refine ⟨decoded.part width, ?_, ?_, ?_, ?_, ?_⟩
  · exact List.rel_append hdecodes (.cons (decodeBlock_ensures width entry decoded hdecoded) .nil)
  · intro part hpart
    obtain hpart | hpart := mem_append.mp hpart
    · exact hfills part hpart
    · exact mem_singleton.mp hpart ▸ hfill
  · show totalWidth parts + decoded.channels = totalWidth (parts ++ [decoded.part width])
    rw [totalWidth, totalWidth, List.map_append, List.sum_append]
    rfl
  · intro write hwrite
    rw [hconcat] at hwrite
    exact (mem_append.mp hwrite).elim (hlengths write) (hwrites write)
  · rw [hconcat, scatter_append]
    rfl

theorem writeGroup_ensures {frames channels width : Nat} {entries : List Entry}
    (hentries : entries <+: (blocks.zip summaries).drop position) (hwidth : 0 < width) :
    (writeGroup decodeStream limits expected maximum blocks summaries output
      (List.range' position entries.length) frames channels width).granted.Ensures fun next =>
        ∃ parts, List.Forall₂ (Decodes decodeStream width) entries parts ∧
          (∀ part ∈ parts, part.Fills frames) ∧ totalWidth parts = channels ∧
          (∀ write ∈ writesFrom frames channels 0 parts, write.2.length = width) ∧
          next = output ++ (Group.mk frames parts).written channels width := by
  have hzeros : Cells width (List.replicate (frames * channels) (List.replicate width 0)) :=
    ⟨hwidth, fun cell hcell => by rw [List.eq_of_mem_replicate hcell, length_replicate]⟩
  have hflatten : (List.replicate (frames * channels) (List.replicate width (0 : UInt8))).flatten =
      List.replicate (frames * channels * width) 0 := List.flatten_replicate_replicate
  intro next hrun
  simp only [writeGroup, framesSize, appendZeroed, granted_bind_eq_ok,
    granted_lift_eq_ok, Prog.granted_foldlM, bind_eq_ok, okOr_eq_ok, Option.bind_eq_some_iff,
    checkedMul_eq_some, checkedAdd_eq_some, rejectIf_eq_ok, not_not, Prod.exists] at hrun
  obtain ⟨_, ⟨_, ⟨-, rfl⟩, -, rfl⟩, zeroed, start, ⟨_, ⟨-, rfl⟩, _, -, _, -, hzeroed⟩, _, ⟨-, rfl⟩,
    group, hgroup, written, offset, hfold, _, hoffset, hrun⟩ := hrun
  cases hzeroed
  cases hrun
  have hdrop : (output ++ List.replicate (frames * channels * width) 0).drop output.length =
      List.replicate (frames * channels * width) (0 : UInt8) ++ [] := by
    rw [List.drop_left, append_nil]
  rw [getRange_of_drop (by rw [List.length_append]; omega) hdrop (by rw [length_replicate]),
    Option.some.injEq] at hgroup
  rw [← hgroup, ← hflatten] at hfold
  obtain ⟨parts, hwritten⟩ := foldlM_slice hentries
    (fun done group => ∃ parts, Written decodeStream frames channels width
      (List.replicate (frames * channels) (List.replicate width 0)) done group parts)
    (fun done entry group ⟨parts, hdone⟩ hentry next hnext =>
      (writeBlock_ensures hzeros hentry hdone next hnext).elim fun part hpart =>
        ⟨parts ++ [part], hpart⟩)
    ⟨[], .nil, fun part hpart => (nomatch hpart), rfl, fun write hwrite => (nomatch hwrite), rfl⟩
    _ hfold
  have hbytes := hwritten.bytes
  dsimp only at hbytes
  have hlength : written.length =
      (List.replicate (frames * channels * width) (0 : UInt8)).length := by
    rw [hbytes, length_flatten_cells (hzeros.scatter hwritten.lengths).length_eq, length_scatter,
      length_replicate, length_replicate]
  refine ⟨parts, hwritten.decodes, hwritten.fills, hwritten.offset.symm.trans hoffset,
    hwritten.lengths, ?_⟩
  rw [splice_append hlength, hbytes]
  rfl

end

/-- The first block of a group is marked as such, and so is the last. -/
def Flagged : Bool → List Entry → Prop
  | _, [] => False
  | first, entry :: entries =>
    entry.1.header.isInitial = first ∧
      (if entry.1.header.isFinal then entries = [] else Flagged false entries)

theorem head_of_flagged {first : Bool} {entries all : List Entry} (hflagged : Flagged first entries)
    (hentries : entries <+: all.drop position) (hentry : all[position]? = some entry) :
    entry ∈ entries.head? := by
  cases entries with
  | nil => exact hflagged.elim
  | cons head entries =>
    rw [drop_of_getElem? hentry] at hentries
    exact congrArg some (List.cons_prefix_cons.mp hentries).1

/-- A block is for the frames of another one, and of the same format. -/
structure Beside (block other : Block) : Prop where
  blockIndex : other.header.blockIndex = block.header.blockIndex
  blockSamples : other.header.blockSamples = block.header.blockSamples
  version : other.header.version = block.header.version
  formatSignature : other.header.formatSignature = block.header.formatSignature

section

variable {limits : Limits} {blocks : List Block} {summaries : List MetadataSummary} {block : Block}

theorem declareChannels_ensures (group : ChannelGroup) (summary : MetadataSummary) :
    (declareChannels group summary).Ensures fun next =>
      next.finish = group.finish ∧ next.channels = group.channels := by
  rw [declareChannels]
  cases summary.channelCount with
  | none => exact .pure ⟨rfl, rfl⟩
  | some declared => exact .skip fun _ => .pure ⟨rfl, rfl⟩

theorem joinGroup_ensures (group : ChannelGroup) (entry : Entry) :
    (joinGroup limits block group entry.1 entry.2).Ensures fun next =>
      Beside block entry.1 ∧ entry.1.header.isInitial = group.first ∧
        next.finish = group.finish ∧
        next.channels = group.channels + entry.1.header.outputChannels := by
  intro next hrun
  simp only [joinGroup, bind_eq_ok, rejectIf_eq_ok, okOr_eq_ok, tryFrom_eq_some, not_or, not_not]
    at hrun
  obtain ⟨_, ⟨-, hindex, hsamples⟩, _, hinitial, _, ⟨hversion, hformat⟩, declared, hdeclared, _,
    ⟨-, rfl⟩, _, -, _, -, _, -, hrun⟩ := hrun
  obtain ⟨hfinish, hchannels⟩ := declareChannels_ensures group entry.2 declared hdeclared
  cases hrun
  exact ⟨⟨hindex, hsamples, hversion, hformat⟩, hinitial, hfinish, by rw [← hchannels]⟩

theorem groupLoop_ensures (rounds : Nat) (group : ChannelGroup) :
    (groupLoop limits blocks summaries block rounds group).Ensures fun result =>
      ∃ entries, entries <+: (blocks.zip summaries).drop group.finish ∧
        result.finish = group.finish + entries.length ∧ Flagged group.first entries ∧
        (∀ entry ∈ entries, Beside block entry.1) ∧
        result.channels =
          group.channels + (entries.map fun entry => entry.1.header.outputChannels).sum := by
  induction rounds generalizing group with
  | zero => exact .throw _
  | succ rounds ih =>
    refine .bind (.self _) fun channelBlock hblock => ?_
    refine .bind (.self _) fun summary hsummary => ?_
    refine .bind (joinGroup_ensures group (channelBlock, summary)) ?_
    rintro next ⟨hbeside, hinitial, hfinish, hchannels⟩
    refine .bind (.self _) fun finish hnext => ?_
    have hentry := drop_of_getElem?
      (entries_getElem? (okOr_eq_ok.mp hblock) (okOr_eq_ok.mp hsummary))
    obtain ⟨-, rfl⟩ := checkedAdd_eq_ok.mp hnext
    refine .ite (fun hfinal => .pure ?_) fun hmore => ?_
    · refine ⟨[(channelBlock, summary)], ?_, ?_, ?_, ?_, ?_⟩
      · rw [hentry]
        exact ⟨_, rfl⟩
      · show next.finish + 1 = _
        rw [hfinish]
        rfl
      · exact ⟨hinitial, by rw [if_pos hfinal]⟩
      · intro entry hmem
        rwa [mem_singleton.mp hmem]
      · exact hchannels
    · refine (ih _).mono ?_
      rintro result ⟨entries, hprefix, hend, hflags, hall, hsum⟩
      dsimp only at hprefix hend hflags hsum
      rw [hfinish] at hprefix hend
      refine ⟨(channelBlock, summary) :: entries, ?_, ?_, ⟨hinitial, ?_⟩, ?_, ?_⟩
      · rw [hentry]
        exact (List.prefix_cons_inj _).mpr hprefix
      · rw [hend, List.length_cons]
        omega
      · rwa [if_neg hmore]
      · exact List.forall_mem_cons.mpr ⟨hbeside, hall⟩
      · rw [hsum, hchannels, map_cons, sum_cons, Nat.add_assoc]

end

def headers (entries : List Entry) : List UInt8 :=
  entries.flatMap fun entry => entry.2.riffHeader.getD []

def trailers (entries : List Entry) : List UInt8 :=
  entries.flatMap fun entry => entry.2.riffTrailer.getD []

theorem headers_append (first second : List Entry) :
    headers (first ++ second) = headers first ++ headers second := flatMap_append

theorem trailers_append (first second : List Entry) :
    trailers (first ++ second) = trailers first ++ trailers second := flatMap_append

theorem headers_singleton (entry : Entry) : headers [entry] = entry.2.riffHeader.getD [] :=
  flatMap_singleton _ _

theorem trailers_singleton (entry : Entry) : trailers [entry] = entry.2.riffTrailer.getD [] :=
  flatMap_singleton _ _

theorem not_differs {α : Type} [DecidableEq α] {seen : Option α} {value : α} :
    ¬differs seen value ↔ ∀ previous ∈ seen, previous = value := by
  rw [differs, not_exists]
  exact forall_congr' fun previous => ⟨fun h hmem => not_not.mp fun hne => h ⟨hmem, hne⟩,
    fun h hand => hand.2 (h hand.1)⟩

section

variable {expected maximum : Nat} {blocks : List Block} {summaries : List MetadataSummary}

theorem appendBounded_ensures (output bytes : List UInt8) :
    (appendBounded output bytes expected maximum).Ensures (· = output ++ bytes) :=
  .skip fun _ => .skip fun _ => .skip fun _ => .pure rfl

theorem appendRiffHeader_ensures (sawAudio : Bool) (output : List UInt8)
    (header : Option (List UInt8)) :
    (appendRiffHeader expected maximum sawAudio output header).Ensures fun next =>
      next = output ++ header.getD [] ∧ (sawAudio = true → header.getD [] = []) := by
  cases header with
  | none => exact .pure ⟨(append_nil _).symm, fun _ => rfl⟩
  | some header =>
    refine .bind (.self _) fun _ hsilent => ?_
    exact (appendBounded_ensures output header).mono fun _ hnext =>
      ⟨hnext, fun hsaw => absurd hsaw (rejectIf_eq_ok.mp hsilent)⟩

/-- What the loop over the headers of a group makes sure of. -/
structure HeadersDone (sawAudio : Bool) (total after : Nat) (output : List UInt8)
    (done : List Entry) (next : List UInt8) : Prop where
  output : next = output ++ headers done
  silent : sawAudio = true → headers done = []
  ended : trailers done ≠ [] → after = total
  total : ∀ entry ∈ done, ∀ declared ∈ entry.1.header.totalSamples, declared = total

variable {entries : List Entry} (hentries : entries <+: (blocks.zip summaries).drop position)
include hentries

theorem groupHeaders_ensures {sawAudio : Bool} {total after : Nat} :
    ((List.range' position entries.length).foldlM
      (groupHeader expected maximum blocks summaries sawAudio total after) output).Ensures
        (HeadersDone sawAudio total after output entries) := by
  refine foldlM_slice hentries _ (fun done entry next hdone hentry => ?_)
    ⟨(append_nil _).symm, fun _ => rfl, fun h => absurd rfl h, fun _ h => nomatch h⟩
  obtain ⟨hblock, hsummary⟩ := entry_at hentry
  obtain ⟨houtput, hsilent, hended, htotal⟩ := hdone
  intro last hrun
  simp only [groupHeader, hblock, hsummary, bind_eq_ok, ok.injEq, exists_eq_left', rejectIf_eq_ok,
    not_differs] at hrun
  obtain ⟨_, hdeclared, written, hwritten, _, htrailer, hrun⟩ := hrun
  cases hrun
  obtain ⟨rfl, hnone⟩ := appendRiffHeader_ensures sawAudio next entry.2.riffHeader last hwritten
  refine ⟨?_, fun hsaw => ?_, fun hsome => ?_, fun other hother => ?_⟩
  · rw [houtput, headers_append, headers_singleton, append_assoc]
  · rw [headers_append, headers_singleton, hsilent hsaw, hnone hsaw]
    rfl
  · by_cases hbefore : trailers done = []
    · rw [trailers_append, hbefore, nil_append, trailers_singleton] at hsome
      have hisSome : entry.2.riffTrailer.isSome := by
        cases hcase : entry.2.riffTrailer with
        | none => rw [hcase] at hsome; exact absurd rfl hsome
        | some trailer => rfl
      exact not_not.mp fun hne => htrailer ⟨hisSome, hne⟩
    · exact hended hbefore
  · obtain hother | hother := mem_append.mp hother
    · exact htotal other hother
    · exact mem_singleton.mp hother ▸ hdeclared

theorem groupTrailers_ensures :
    ((List.range' position entries.length).foldlM (groupTrailer expected maximum summaries)
      output).Ensures fun next => next = output ++ trailers entries := by
  refine foldlM_slice hentries (fun done next => next = output ++ trailers done)
    (fun done entry next hdone hentry => ?_) (append_nil _).symm
  have hsummary := (entry_at hentry).2
  have hlast : output ++ trailers (done ++ [entry]) = next ++ entry.2.riffTrailer.getD [] := by
    rw [hdone, trailers_append, trailers_singleton, append_assoc]
  rw [groupTrailer, hsummary, ok_bind, hlast]
  cases entry.2.riffTrailer with
  | none => exact .pure (append_nil _).symm
  | some trailer => exact appendBounded_ensures next trailer

end

/-! ## One group -/

/-- What is the same in the whole stream. -/
@[ext] structure Format where
  total : Nat
  channels : Nat
  width : Nat
  isFloat : Bool

/-- The blocks of a group are for its frames, and their channels are those of the stream. -/
structure Forms (decodeStream : BlockDecoder) (format : Format) (start : Nat) (entries : List Entry)
    (group : Group) : Prop where
  frames_pos : 0 < group.frames
  flagged : Flagged true entries
  blockIndex : ∀ entry ∈ entries, entry.1.header.blockIndex = start
  blockSamples : ∀ entry ∈ entries, entry.1.header.blockSamples = group.frames
  first : ∃ entry ∈ entries.head?, entry.1.header.totalSamples = some format.total
  declared : ∀ entry ∈ entries, ∀ total ∈ entry.1.header.totalSamples, total = format.total
  width : ∀ entry ∈ entries, entry.1.header.bytesPerSample = format.width
  decodes : List.Forall₂ (Decodes decodeStream format.width) entries group.parts
  fills : ∀ part ∈ group.parts, part.Fills group.frames
  channels : totalWidth group.parts = format.channels
  cells : ∀ write ∈ group.writes format.channels, write.2.length = format.width

theorem bytesPerSample_eq {header other : BlockHeader}
    (h : other.formatSignature = header.formatSignature) :
    other.bytesPerSample = header.bytesPerSample := by
  have hmask : ∀ header : BlockHeader, header.formatSignature &&& flagBytesStored =
      header.flags &&& flagBytesStored := by
    intro header
    rw [BlockHeader.formatSignature, UInt32.and_assoc]
    rfl
  rw [BlockHeader.bytesPerSample, BlockHeader.bytesPerSample, ← hmask, ← hmask, h]

theorem bytesPerSample_pos (header : BlockHeader) : 0 < header.bytesPerSample := by
  rw [BlockHeader.bytesPerSample]
  split
  · decide
  split
  · decide
  split
  all_goals decide

/-- What a group adds. -/
structure Step (decodeStream : BlockDecoder) (state : Reassembly) (entries : List Entry)
    (format : Format) (group : Group) (next : Reassembly) : Prop where
  forms : Forms decodeStream format state.decodedFrames entries group
  position : next.position = state.position + entries.length
  sawAudio : next.sawAudio = true
  frames : next.decodedFrames = state.decodedFrames + group.frames
  le : next.decodedFrames ≤ format.total
  total : next.totalSamples = some format.total
  channels : next.channelCount = some format.channels
  width : next.bytesPerSample = some format.width
  isFloat : next.floatingPoint = some format.isFloat
  sameTotal : ∀ total ∈ state.totalSamples, total = format.total
  sameChannels : ∀ channels ∈ state.channelCount, channels = format.channels
  sameWidth : ∀ width ∈ state.bytesPerSample, width = format.width
  sameFloat : ∀ isFloat ∈ state.floatingPoint, isFloat = format.isFloat
  silent : state.sawAudio = true → headers entries = []
  ended : trailers entries ≠ [] → next.decodedFrames = format.total
  riff : state.sawAudio = false → validateRiffHeader format.channels format.width format.isFloat
    (state.output ++ headers entries) (format.total * format.channels * format.width) = .ok ()
  output : next.output = state.output ++ headers entries ++
    group.written format.channels format.width ++ trailers entries

section

variable {decodeStream : BlockDecoder} {limits : Limits} {expected maximum : Nat}
  {blocks : List Block} {summaries : List MetadataSummary} {state : Reassembly} {block : Block}

theorem findGroup_ensures :
    (findGroup limits blocks summaries state block).Ensures fun result =>
      ∃ entries, entries <+: (blocks.zip summaries).drop state.position ∧
        result.finish = state.position + entries.length ∧ Flagged true entries ∧
        ∀ entry ∈ entries, Beside block entry.1 := by
  refine .bind (groupLoop_ensures _ _) ?_
  rintro group ⟨entries, hprefix, hfinish, hflagged, hbeside, -⟩
  exact .skip fun _ => .skip fun _ => .skip fun _ => .pure ⟨entries, hprefix, hfinish, hflagged,
    hbeside⟩

theorem groupFrames_ensures :
    (groupFrames state block).Ensures fun result =>
      block.header.totalSamples = some result.1 ∧
        (∀ total ∈ state.totalSamples, total = result.1) ∧
        result.2 = state.decodedFrames + block.header.blockSamples ∧ result.2 ≤ result.1 := by
  intro result hrun
  simp only [groupFrames, bind_eq_ok, okOr_eq_ok, rejectIf_eq_ok, not_differs, checkedAdd_eq_some,
    Nat.not_lt] at hrun
  obtain ⟨total, htotal, _, -, _, hsame, _, ⟨-, rfl⟩, _, hle, hrun⟩ := hrun
  cases hrun
  exact ⟨htotal, hsame, rfl, hle⟩

theorem groupChannels_ensures (group : ChannelGroup) :
    (groupChannels state group).Ensures fun channels =>
      ∀ previous ∈ state.channelCount, previous = channels := by
  refine .skip fun _ => .bind (.self _) fun _ hsame => .skip fun _ => .pure ?_
  exact not_differs.mp (rejectIf_eq_ok.mp hsame)

theorem startAudio_ensures {sawAudio : Bool} {total channels width : Nat} {isFloat : Bool} :
    (startAudio expected sawAudio output total channels width isFloat).Ensures fun _ =>
      sawAudio = false →
        validateRiffHeader channels width isFloat output (total * channels * width) = .ok () := by
  refine .ite (fun hsaw => .pure fun hsilent => ?_) fun _ => ?_
  · rw [hsaw] at hsilent
    cases hsilent
  refine .bind (.self _) fun size hsize => .skip fun _ => ?_
  simp only [framesSize, okOr_eq_ok, Option.bind_eq_some_iff, checkedMul_eq_some] at hsize
  obtain ⟨_, ⟨-, rfl⟩, -, rfl⟩ := hsize
  exact fun _ hvalid _ => hvalid

theorem audioGroup_ensures {summary : MetadataSummary}
    (hentry : (blocks.zip summaries)[state.position]? = some (block, summary))
    (hsamples : block.header.blockSamples ≠ 0) :
    (audioGroup decodeStream limits expected maximum blocks summaries state block).granted.Ensures
      fun next => ∃ entries format group,
        entries <+: (blocks.zip summaries).drop state.position ∧
          Step decodeStream state entries format group next := by
  intro next hrun
  simp only [audioGroup, granted_bind_eq_ok, granted_lift_eq_ok, rejectIf_eq_ok,
    not_not, groupFormat, not_or, not_differs] at hrun
  obtain ⟨_, -, _, hindex, group, hgroup, ⟨total, after⟩, hframes, output, hheaders, channels,
    hchannels, _, ⟨-, hwidth, hfloat, -⟩, _, hstart, written, hwritten, last, htrailers,
    hrun⟩ := hrun
  cases hrun
  obtain ⟨entries, hentries, hfinish, hflagged, hbeside⟩ := findGroup_ensures group hgroup
  have hcount : group.finish - state.position = entries.length := by
    rw [hfinish, Nat.add_sub_cancel_left]
  obtain ⟨htotal, hsame, rfl, hle⟩ := groupFrames_ensures (total, after) hframes
  rw [hcount] at hheaders hwritten htrailers
  obtain ⟨rfl, hsilent, hended, hdeclared⟩ := groupHeaders_ensures hentries output hheaders
  obtain ⟨parts, hdecodes, hfills, hparts, hcells, rfl⟩ :=
    writeGroup_ensures hentries (bytesPerSample_pos block.header) written hwritten
  have hlast := groupTrailers_ensures hentries last htrailers
  refine ⟨entries, ⟨total, channels, block.header.bytesPerSample, block.header.isFloat⟩,
    ⟨block.header.blockSamples, parts⟩, hentries, ?_⟩
  have hforms : Forms decodeStream ⟨total, channels, block.header.bytesPerSample,
      block.header.isFloat⟩ state.decodedFrames entries ⟨block.header.blockSamples, parts⟩ :=
    { frames_pos := Nat.pos_of_ne_zero hsamples
      flagged := hflagged
      blockIndex := fun entry hentry => (hbeside entry hentry).blockIndex.trans hindex
      blockSamples := fun entry hentry => (hbeside entry hentry).blockSamples
      first := ⟨(block, summary), head_of_flagged hflagged hentries hentry, htotal⟩
      declared := hdeclared
      width := fun entry hentry => bytesPerSample_eq (hbeside entry hentry).formatSignature
      decodes := hdecodes
      fills := hfills
      channels := hparts
      cells := hcells }
  exact
    { forms := hforms
      position := hfinish
      sawAudio := rfl
      frames := rfl
      le := hle
      total := rfl
      channels := rfl
      width := rfl
      isFloat := rfl
      sameTotal := hsame
      sameChannels := groupChannels_ensures group channels hchannels
      sameWidth := hwidth
      sameFloat := hfloat
      silent := hsilent
      ended := hended
      riff := startAudio_ensures () hstart
      output := hlast }

end

/-! ## Runs -/

/-- Groups of consecutive frames, and blocks without samples between them. -/
inductive Covers (decodeStream : BlockDecoder) (format : Format) :
    Nat → List Entry → List Group → Prop
  | start : Covers decodeStream format 0 [] []
  | metadata {frames : Nat} {entries : List Entry} {groups : List Group} {entry : Entry} :
      Covers decodeStream format frames entries groups → entry.1.header.blockSamples = 0 →
      Covers decodeStream format frames (entries ++ [entry]) groups
  | group {frames : Nat} {entries more : List Entry} {groups : List Group} {group : Group} :
      Covers decodeStream format frames entries groups →
      Forms decodeStream format frames more group →
      Covers decodeStream format (frames + group.frames) (entries ++ more) (groups ++ [group])

/-- What is there before the first samples. -/
structure Silent (decodeStream : BlockDecoder) (done : List Entry) (state : Reassembly) : Prop where
  sawAudio : state.sawAudio = false
  frames : state.decodedFrames = 0
  covers : ∀ format, Covers decodeStream format 0 done []
  output : state.output = headers done
  trailers : trailers done = []

/-- What is there behind the first samples. -/
structure Sounding (decodeStream : BlockDecoder) (done : List Entry) (format : Format)
    (groups : List Group) (state : Reassembly) : Prop where
  sawAudio : state.sawAudio = true
  total : state.totalSamples = some format.total
  channels : state.channelCount = some format.channels
  width : state.bytesPerSample = some format.width
  isFloat : state.floatingPoint = some format.isFloat
  covers : Covers decodeStream format state.decodedFrames done groups
  ended : trailers done ≠ [] → state.decodedFrames = format.total
  riff : validateRiffHeader format.channels format.width format.isFloat (headers done)
    (format.total * format.channels * format.width) = .ok ()
  output : state.output = headers done ++
    (groups.flatMap (Group.written format.channels format.width) ++ trailers done)

def Progress (decodeStream : BlockDecoder) (done : List Entry) (state : Reassembly) : Prop :=
  Silent decodeStream done state ∨
    ∃ format groups, Sounding decodeStream done format groups state

section

variable {decodeStream : BlockDecoder} {limits : Limits} {expected maximum : Nat}
  {blocks : List Block} {summaries : List MetadataSummary} {state next : Reassembly}
  {done entries : List Entry} {format : Format} {group : Group}

theorem progress_start : Progress decodeStream [] .start :=
  .inl ⟨rfl, rfl, fun _ => .start, rfl, rfl⟩

theorem Step.progress (hstep : Step decodeStream state entries format group next)
    (h : Progress decodeStream done state) : Progress decodeStream (done ++ entries) next := by
  obtain hsilent | ⟨before, groups, hsounding⟩ := h
  · have hforms := hstep.forms
    rw [hsilent.frames] at hforms
    have hriff := hstep.riff hsilent.sawAudio
    rw [hsilent.output, ← headers_append] at hriff
    refine .inr ⟨format, [group], ?_⟩
    exact
      { sawAudio := hstep.sawAudio
        total := hstep.total
        channels := hstep.channels
        width := hstep.width
        isFloat := hstep.isFloat
        covers := by
          rw [hstep.frames, hsilent.frames]
          exact (hsilent.covers format).group hforms
        ended := fun h => hstep.ended (by
          rwa [trailers_append, hsilent.trailers, nil_append] at h)
        riff := hriff
        output := by
          rw [hstep.output, hsilent.output, headers_append, trailers_append, hsilent.trailers,
            flatMap_singleton, nil_append, append_assoc] }
  · -- The format is the one of the groups before.
    have hformat : before = format :=
      Format.ext (hstep.sameTotal _ hsounding.total) (hstep.sameChannels _ hsounding.channels)
        (hstep.sameWidth _ hsounding.width) (hstep.sameFloat _ hsounding.isFloat)
    subst hformat
    -- Behind a trailer no frame is left for the group.
    have hnone : trailers done = [] := by
      by_contra hsome
      have hended := hsounding.ended hsome
      have hle := hstep.le
      have hpos := hstep.forms.frames_pos
      rw [hstep.frames] at hle
      omega
    have hheaders := hstep.silent hsounding.sawAudio
    refine .inr ⟨before, groups ++ [group], ?_⟩
    exact
      { sawAudio := hstep.sawAudio
        total := hstep.total
        channels := hstep.channels
        width := hstep.width
        isFloat := hstep.isFloat
        covers := by
          rw [hstep.frames]
          exact hsounding.covers.group hstep.forms
        ended := fun h => hstep.ended (by rwa [trailers_append, hnone, nil_append] at h)
        riff := by
          rw [headers_append, hheaders, append_nil]
          exact hsounding.riff
        output := by
          rw [hstep.output, hsounding.output, headers_append, hheaders, trailers_append, hnone,
            flatMap_append, flatMap_singleton, append_nil, append_nil,
            append_nil, nil_append, append_assoc, append_assoc,
            append_assoc] }

theorem metadataBlock_ensures (summary : MetadataSummary) :
    (metadataBlock expected maximum state summary).Ensures fun next =>
      next = { state with
          output := state.output ++ summary.riffHeader.getD [] ++ summary.riffTrailer.getD []
          position := state.position + 1 } ∧
        (state.sawAudio = true → summary.riffHeader.getD [] = []) ∧
        (summary.riffTrailer.getD [] ≠ [] →
          state.sawAudio = true ∧ some state.decodedFrames = state.totalSamples) := by
  have hlast : ∀ output, Ensures
      (fun next => next = { state with output := output, position := state.position + 1 })
      (okOr (checkedAdd state.position 1) (formatError "ZIP WavPack block position overflows") >>=
        fun position => .ok { state with output := output, position := position }) := by
    intro output
    refine .bind (.self _) fun position hposition => .pure ?_
    rw [(checkedAdd_eq_ok.mp hposition).2]
  refine .skip fun _ => .bind (appendRiffHeader_ensures _ _ _) ?_
  rintro headed ⟨rfl, hsilent⟩
  cases summary.riffTrailer with
  | none =>
    refine (hlast _).mono ?_
    rintro _ rfl
    exact ⟨by rw [Option.getD_none, append_nil], hsilent, fun h => absurd rfl h⟩
  | some trailer =>
    refine .bind (.self _) fun _ hended => .bind (appendBounded_ensures _ trailer) ?_
    rintro _ rfl
    refine (hlast _).mono ?_
    rintro _ rfl
    have hended := not_or.mp (rejectIf_eq_ok.mp hended)
    exact ⟨rfl, hsilent, fun _ => ⟨eq_true_of_ne_false hended.1, not_not.mp hended.2⟩⟩

theorem metadata_progress (entry : Entry) (hsamples : entry.1.header.blockSamples = 0)
    (hnext : next = { state with
      output := state.output ++ entry.2.riffHeader.getD [] ++ entry.2.riffTrailer.getD []
      position := state.position + 1 })
    (hheader : state.sawAudio = true → entry.2.riffHeader.getD [] = [])
    (htrailer : entry.2.riffTrailer.getD [] ≠ [] →
      state.sawAudio = true ∧ some state.decodedFrames = state.totalSamples)
    (h : Progress decodeStream done state) : Progress decodeStream (done ++ [entry]) next := by
  subst hnext
  obtain hsilent | ⟨format, groups, hsounding⟩ := h
  · have hnone : entry.2.riffTrailer.getD [] = [] := by
      by_contra hsome
      exact absurd (htrailer hsome).1 (by rw [hsilent.sawAudio]; decide)
    refine .inl ⟨hsilent.sawAudio, hsilent.frames, fun format =>
      (hsilent.covers format).metadata hsamples, ?_, ?_⟩
    · show state.output ++ entry.2.riffHeader.getD [] ++ entry.2.riffTrailer.getD [] = _
      rw [hsilent.output, hnone, headers_append, headers_singleton, append_nil]
    · rw [trailers_append, trailers_singleton, hsilent.trailers, hnone]
      rfl
  · have hnone := hheader hsounding.sawAudio
    have hheaders : headers (done ++ [entry]) = headers done := by
      rw [headers_append, headers_singleton, hnone, append_nil]
    have hended : trailers (done ++ [entry]) ≠ [] → state.decodedFrames = format.total := by
      intro hsome
      by_cases hbefore : trailers done = []
      · rw [trailers_append, trailers_singleton, hbefore, nil_append] at hsome
        have htotal := (htrailer hsome).2
        rw [hsounding.total] at htotal
        exact Option.some.inj htotal
      · exact hsounding.ended hbefore
    refine .inr ⟨format, groups, ?_⟩
    exact
      { sawAudio := hsounding.sawAudio
        total := hsounding.total
        channels := hsounding.channels
        width := hsounding.width
        isFloat := hsounding.isFloat
        covers := hsounding.covers.metadata hsamples
        ended := hended
        riff := by rw [hheaders]; exact hsounding.riff
        output := by
          show state.output ++ entry.2.riffHeader.getD [] ++ entry.2.riffTrailer.getD [] = _
          rw [hsounding.output, hnone, hheaders, trailers_append, trailers_singleton,
            append_nil, append_assoc, append_assoc] }

variable (h : Progress decodeStream ((blocks.zip summaries).take state.position) state)
include h

theorem reassemblyRound_ensures :
    (reassemblyRound decodeStream limits expected maximum blocks summaries
      state).granted.Ensures fun next =>
        Progress decodeStream ((blocks.zip summaries).take next.position) next ∧
          state.position < next.position := by
  intro next hrun
  simp only [reassemblyRound, granted_bind_eq_ok, granted_lift_eq_ok, okOr_eq_ok,
    Prog.granted_ite] at hrun
  obtain ⟨block, hblock, summary, hsummary, hrun⟩ := hrun
  have hentry := entries_getElem? hblock (okOr_eq_ok.mp hsummary)
  by_cases hsamples : block.header.blockSamples = 0
  · rw [if_pos hsamples] at hrun
    obtain ⟨hnext, hheader, htrailer⟩ := metadataBlock_ensures summary next hrun
    have hposition : next.position = state.position + 1 := by rw [hnext]
    have hprogress := metadata_progress (block, summary) hsamples hnext hheader htrailer h
    rw [hposition]
    refine ⟨?_, Nat.lt_succ_self _⟩
    rwa [List.take_add_one, hentry]
  · rw [if_neg hsamples] at hrun
    obtain ⟨entries, format, group, hentries, hstep⟩ :=
      audioGroup_ensures hentry hsamples next hrun
    have hprogress := hstep.progress h
    rw [hstep.position]
    have htake : (blocks.zip summaries).take (state.position + entries.length) =
        (blocks.zip summaries).take state.position ++ entries := by
      rw [List.take_add, ← List.prefix_iff_eq_take.mp hentries]
    refine ⟨htake ▸ hprogress, ?_⟩
    have hpos := hstep.forms.flagged
    cases entries with
    | nil => exact hpos.elim
    | cons entry entries =>
      rw [List.length_cons]
      omega

theorem reassemblyLoop_ensures {rounds : Nat} (hrounds : blocks.length ≤ state.position + rounds) :
    (reassemblyLoop decodeStream limits expected maximum blocks summaries rounds
      state).granted.Ensures (Progress decodeStream (blocks.zip summaries)) := by
  induction rounds generalizing state with
  | zero =>
    rw [List.take_of_length_le (by rw [List.length_zip]; omega)] at h
    exact .pure h
  | succ rounds ih =>
    rw [reassemblyLoop, Prog.granted_ite]
    refine .ite (fun hmore => ?_) fun hend => ?_
    · rw [Prog.granted_bind]
      refine .bind (reassemblyRound_ensures h) fun next hnext => ih hnext.1 ?_
      have hlt := hnext.2
      omega
    · rw [List.take_of_length_le (by rw [List.length_zip]; omega)] at h
      exact .pure h

end

section

variable {fatal : Error → Prop} {decodeStream : BlockDecoder} {limits : Limits}
  {expected maximum : Nat}

theorem passes_parseBlocks (input : List UInt8) : Passes fatal (parseBlocks input limits) := by
  have hloop : ∀ rounds blocks position,
      Passes fatal (parseBlocksLoop input limits rounds blocks position) := by
    intro rounds
    induction rounds with
    | zero => exact fun blocks _ => .pure blocks
    | succ rounds ih =>
      intro blocks position
      refine .ite ?_ (.pure blocks)
      refine .step fun _ => .step fun _ => .step fun _ => ?_
      refine .step fun _ => .step fun _ => .step fun _ => ?_
      exact .step fun _ => .bind (.request _) fun _ => ih _ _
  exact .step fun _ => .step fun _ => hloop _ _ _

theorem passes_summarizeAll (blocks : List Block) (propertyCount : Nat) :
    Passes fatal (summarizeAll limits blocks propertyCount) := by
  have hloop : ∀ metadata rounds state,
      Passes fatal (metadataLoop metadata limits rounds state) := by
    intro metadata rounds
    induction rounds with
    | zero => exact fun state => .pure state
    | succ rounds ih =>
      intro state
      refine .ite (.bind ?_ ih) (.pure state)
      refine .step fun _ => .step fun _ => .step fun _ => ?_
      refine .step fun _ => .step fun _ => .bind (.request _) fun _ => ?_
      exact .step fun _ => .step fun _ => .pure _
  induction blocks generalizing propertyCount with
  | nil => exact .pure _
  | cons block blocks ih =>
    refine .bind (.bind (hloop _ _ _) fun _ => .pure _) fun result => ?_
    exact .bind (ih result.2) fun _ => .pure _

theorem passes_decodeBlock (block : Block) (summary : MetadataSummary) :
    Passes fatal (decodeBlock decodeStream limits block summary) := by
  refine .step fun _ => .step fun _ => .bind (.request _) fun _ => ?_
  refine .step fun _ => .step fun _ => .step fun _ => ?_
  exact .bind (.request _) fun _ => .step fun _ => .step fun _ => .pure _

variable {blocks : List Block} {summaries : List MetadataSummary}

theorem passes_writeGroup (output : List UInt8) (indices : List Nat)
    (frames channels width : Nat) :
    Passes fatal (writeGroup decodeStream limits expected maximum blocks summaries output indices
      frames channels width) := by
  refine .step fun _ => .step fun _ => .step fun _ => ?_
  refine .step fun _ => .bind (.foldlM fun group index _ => ?_) fun _ => ?_
  · refine .step fun block => .step fun summary => ?_
    exact .bind (passes_decodeBlock block summary) fun _ => .step fun _ => .step fun _ => .pure _
  · exact .step fun _ => .pure _

theorem passes_reassemblyRound (state : Reassembly) :
    Passes fatal (reassemblyRound decodeStream limits expected maximum blocks summaries state) := by
  refine .step fun block => .step fun summary => .ite (.lift _) ?_
  refine .step fun _ => .step fun _ => .step fun _ => ?_
  refine .step fun _ => .step fun _ => .step fun _ => ?_
  refine .step fun _ => .step fun _ => ?_
  exact .bind (passes_writeGroup _ _ _ _ _) fun _ => .step fun _ => .pure _

theorem passes_decodeZipWavpack (input : List UInt8) :
    Passes fatal (decodeZipWavpack decodeStream input expected maximum limits) := by
  have hloop : ∀ blocks summaries rounds state, Passes fatal
      (reassemblyLoop decodeStream limits expected maximum blocks summaries rounds state) := by
    intro blocks summaries rounds
    induction rounds with
    | zero => exact fun state => .pure state
    | succ rounds ih =>
      exact fun state => .ite (.bind (passes_reassemblyRound state) ih) (.pure state)
  refine .step fun _ => .bind (passes_parseBlocks input) fun blocks => ?_
  refine .step fun _ => .step fun _ => ?_
  refine .bind (passes_summarizeAll blocks 0) fun summaries => ?_
  exact .bind (hloop _ _ _ _) fun _ => .lift _

end

/-! ## The whole output -/

/-- The bytes of a group that are written, in the order of the writes, behind the frames in
front of it. -/
def Group.places (channels width start : Nat) (group : Group) : List Nat :=
  (group.writes channels).flatMap fun write =>
    List.range' ((start * channels + write.1) * width) write.2.length

/-- The bytes of the sample area that are written, in the order of the writes. -/
def places (channels width : Nat) : Nat → List Group → List Nat
  | _, [] => []
  | start, group :: groups =>
    group.places channels width start ++ places channels width (start + group.frames) groups

section

variable {decodeStream : BlockDecoder} {format : Format} {frames : Nat} {entries : List Entry}
  {groups : List Group}

theorem Covers.sum_frames (h : Covers decodeStream format frames entries groups) :
    (groups.map Group.frames).sum = frames := by
  induction h with
  | start => rfl
  | metadata _ _ ih => exact ih
  | group _ _ ih =>
    rw [List.map_append, List.sum_append, ih]
    rfl

theorem Covers.forms (h : Covers decodeStream format frames entries groups) :
    ∀ group ∈ groups, ∃ start more, Forms decodeStream format start more group := by
  induction h with
  | start => exact fun group hmem => nomatch hmem
  | metadata _ _ ih => exact ih
  | group _ hforms ih =>
    intro group hmem
    obtain hmem | hmem := mem_append.mp hmem
    · exact ih group hmem
    · rw [mem_singleton.mp hmem]
      exact ⟨_, _, hforms⟩

variable {start : Nat} {group : Group}

section

variable (h : Forms decodeStream format start entries group)
include h

theorem Forms.width_pos : 0 < format.width := by
  obtain ⟨entry, hentry, -⟩ := h.first
  rw [← h.width entry (List.mem_of_mem_head? hentry)]
  exact bytesPerSample_pos entry.1.header

theorem Forms.written_eq : group.written format.channels format.width = group.interleaved :=
  congrArg List.flatten (scatter_writesFrom h.fills h.channels length_replicate)

theorem Forms.length_written :
    (group.written format.channels format.width).length =
      group.frames * format.channels * format.width := by
  have hzeros : Cells format.width (group.zeros format.channels format.width) :=
    ⟨h.width_pos, fun cell hcell => by rw [List.eq_of_mem_replicate hcell, length_replicate]⟩
  rw [Group.written, length_flatten_cells (hzeros.scatter h.cells).length_eq, length_scatter,
    Group.zeros, length_replicate]

theorem Forms.places_perm (first : Nat) :
    (group.places format.channels format.width first).Perm
      (List.range' (first * format.channels * format.width)
        (group.frames * format.channels * format.width)) := by
  have hplaces : group.places format.channels format.width first =
      ((group.writes format.channels).map Prod.fst).flatMap fun place =>
        List.range' ((first * format.channels + place) * format.width) format.width := by
    rw [Group.places, List.flatMap_map]
    exact List.flatMap_congr fun write hwrite => by rw [h.cells write hwrite]
  rw [hplaces, ← flatMap_range']
  exact (Interleave.places_perm h.fills h.channels).flatMap_right _

end

variable (h : ∀ group ∈ groups, ∃ start more, Forms decodeStream format start more group)
include h

theorem places_perm (first : Nat) :
    (places format.channels format.width first groups).Perm
      (List.range' (first * format.channels * format.width)
        ((groups.map Group.frames).sum * format.channels * format.width)) := by
  induction groups generalizing first with
  | nil =>
    rw [List.map_nil, List.sum_nil, Nat.zero_mul, Nat.zero_mul]
    exact .nil
  | cons group groups ih =>
    obtain ⟨_, _, hforms⟩ := h group List.mem_cons_self
    have hrest := ih (fun other hother => h other (List.mem_cons_of_mem _ hother))
      (first + group.frames)
    rw [map_cons, sum_cons, places, Nat.add_mul, Nat.add_mul, ← List.range'_append_1,
      ← Nat.add_mul, ← Nat.add_mul]
    exact (hforms.places_perm first).append hrest

theorem length_written :
    (groups.flatMap (Group.written format.channels format.width)).length =
      (groups.map Group.frames).sum * format.channels * format.width := by
  induction groups with
  | nil => rw [List.map_nil, List.sum_nil, Nat.zero_mul, Nat.zero_mul]; rfl
  | cons group groups ih =>
    obtain ⟨_, _, hforms⟩ := h group List.mem_cons_self
    rw [List.flatMap_cons, List.length_append, hforms.length_written,
      ih fun other hother => h other (List.mem_cons_of_mem _ hother), map_cons, sum_cons,
      Nat.add_mul, Nat.add_mul]

end

theorem length_summaries {limits : Limits} (blocks : List Block) (propertyCount : Nat) :
    (summarizeAll limits blocks propertyCount).granted.Ensures fun summaries =>
      summaries.length = blocks.length := by
  induction blocks generalizing propertyCount with
  | nil => exact .pure rfl
  | cons block blocks ih =>
    rw [summarizeAll, Prog.granted_bind]
    refine .skip fun result => ?_
    rw [Prog.granted_bind]
    exact .bind (ih result.2) fun summaries hlength => .pure (congrArg (· + 1) hlength)

/-- Whenever there is an output, it is the header of the wrapper, the samples of the declared
number of frames in their order, and the trailer.  The groups are for consecutive frames, the
blocks of a group share the channels, and each byte of the samples is written once. -/
theorem decodeZipWavpack_writes_once (decodeStream : BlockDecoder) (input : List UInt8)
    (expected maximum : Nat) (limits : Limits) (output : List UInt8)
    (hrun : (decodeZipWavpack decodeStream input expected maximum limits).CanReturn output) :
    ∃ entries format groups,
      (parseBlocks input limits).granted = .ok (entries.map Prod.fst) ∧
      (summarizeAll limits (entries.map Prod.fst) 0).granted = .ok (entries.map Prod.snd) ∧
      Covers decodeStream format format.total entries groups ∧
      (groups.map Group.frames).sum = format.total ∧
      validateRiffHeader format.channels format.width format.isFloat (headers entries)
        (format.total * format.channels * format.width) = .ok () ∧
      output = headers entries ++ (groups.flatMap Group.interleaved ++ trailers entries) ∧
      (groups.flatMap Group.interleaved).length = format.total * format.channels * format.width ∧
      (∀ group ∈ groups, group.written format.channels format.width = group.interleaved) ∧
      (places format.channels format.width 0 groups).Perm
        (List.range (format.total * format.channels * format.width)) ∧
      output.length = expected ∧ expected ≤ maximum := by
  have hgranted := (passes_decodeZipWavpack input).granted_of_canReturn hrun
  simp only [decodeZipWavpack, granted_bind_eq_ok, granted_lift_eq_ok, checkLimit_eq_ok,
    checkOutput, bind_eq_ok, rejectIf_eq_ok, not_not] at hgranted
  obtain ⟨_, hmaximum, blocks, hblocks, first, -, _, -, summaries, hsummaries, state, hloop, _,
    hsaw, _, htotal, _, hlength, _, -, _, -, _, -, houtput⟩ := hgranted
  cases houtput
  have hcount := length_summaries blocks 0 summaries hsummaries
  have hstart : Progress decodeStream
      ((blocks.zip summaries).take Reassembly.start.position) .start := progress_start
  obtain hsilent | ⟨format, groups, hsounding⟩ :=
    reassemblyLoop_ensures hstart (by omega) state hloop
  · exact absurd hsilent.sawAudio hsaw
  have hend : state.decodedFrames = format.total := by
    rw [hsounding.total] at htotal
    exact Option.some.inj htotal
  have hcovers := hsounding.covers
  rw [hend] at hcovers
  have hwritten : ∀ group ∈ groups,
      group.written format.channels format.width = group.interleaved := by
    intro group hmem
    obtain ⟨_, _, hforms⟩ := hcovers.forms group hmem
    exact hforms.written_eq
  have hsamples : groups.flatMap (Group.written format.channels format.width) =
      groups.flatMap Group.interleaved := List.flatMap_congr hwritten
  have hplaces := places_perm hcovers.forms 0
  rw [hcovers.sum_frames, Nat.zero_mul, Nat.zero_mul, ← List.range_eq_range'] at hplaces
  have hsize := length_written hcovers.forms
  rw [hcovers.sum_frames, hsamples] at hsize
  have houtput := hsounding.output
  rw [hsamples] at houtput
  refine ⟨blocks.zip summaries, format, groups, ?_, ?_, hcovers, hcovers.sum_frames, hsounding.riff,
    houtput, hsize, hwritten, hplaces, hlength, hmaximum⟩
  · rw [hblocks, List.map_fst_zip (Nat.le_of_eq hcount.symm)]
  · rw [List.map_fst_zip (Nat.le_of_eq hcount.symm), hsummaries,
      List.map_snd_zip (Nat.le_of_eq hcount)]

/-- A block of one channel and one sample. -/
def waveBlock (mark crc code : UInt8) (front back : List UInt8) : List UInt8 :=
  [119, 118, 112, 107] ++ toLeBytes 4 (38 + front.length + back.length) ++
    [7, 4, 0, 0, 1, 0, 0, 0, 0, 0, 0, 0, 1, 0, 0, 0, 5, mark, 128, 4, crc, 255, 255, 255] ++
    front ++ [2, 0, 5, 3, 0, 0, 0, 0, 0, 0, 10, 1, code, 0] ++ back

def pairHeader : List UInt8 :=
  [82, 73, 70, 70, 48, 0, 0, 0, 87, 65, 86, 69, 102, 109, 116, 32, 16, 0, 0, 0, 1, 0, 2, 0, 68, 172,
    0, 0, 16, 177, 2, 0, 4, 0, 16, 0, 100, 97, 116, 97, 4, 0, 0, 0]

def pairTrailer : List UInt8 := [106, 117, 110, 107, 0, 0, 0, 0]

def pairStream : List UInt8 :=
  waveBlock 8 253 1 (33 :: 22 :: pairHeader) [] ++ waveBlock 16 252 4 [] (34 :: 4 :: pairTrailer)

/-- The samples of the two blocks are told apart by their checksums. -/
def pairDecoder : BlockDecoder := fun block =>
  some (.ok ⟨[if block[28]? = some 252 then -1 else 0], 1⟩)

/-- A group of two blocks, with the header of the wrapper in front and a trailer behind. -/
theorem decodeZipWavpack_writes_once_pair :
    ∃ entries format groups,
      Covers pairDecoder format format.total entries groups ∧
        pairHeader ++ ([0, 0, 255, 255] ++ pairTrailer) =
          headers entries ++ (groups.flatMap Group.interleaved ++ trailers entries) ∧
        (groups.flatMap Group.interleaved).length =
          format.total * format.channels * format.width := by
  obtain ⟨entries, format, groups, -, -, hcovers, -, -, houtput, hlength, -⟩ :=
    decodeZipWavpack_writes_once pairDecoder pairStream 56 56 .default
      (pairHeader ++ ([0, 0, 255, 255] ++ pairTrailer)) (.of_granted (by decide +kernel))
  exact ⟨entries, format, groups, hcovers, houtput, hlength⟩

end WavPack
end Unpackio
