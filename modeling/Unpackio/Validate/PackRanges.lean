/-
Where the packed streams of a validated section lie.

`validate_pack_ranges` lays the streams of a section one behind the other from
the end of the signature header on, and `validate_streams` deals them out to the
folders in order.  The execution of a folder finds its streams again through the
first stream of the folder and an ordinal.
-/
import Unpackio.Execute.Evaluation
import Unpackio.Foundation.Runs
import Mathlib.Order.CompletePartialOrder

namespace Unpackio

open Prog (granted_bind granted_bind_eq_ok granted_lift granted_lift_bind granted_lift_eq_ok
  granted_pure_eq_ok granted_rest)
open Except (bind_eq_ok ok_bind)

def PackStream.extent (stream : PackStream) : Set Nat :=
  Set.Ico stream.offset (stream.offset + stream.size.getD 0)

def ContiguousFrom : Nat → List PackStream → Prop
  | _, [] => True
  | start, stream :: streams =>
    stream.offset = start ∧ ∃ size, stream.size = some size ∧ ContiguousFrom (start + size) streams

def contiguousEnd (start : Nat) (streams : List PackStream) : Nat :=
  start + (streams.map fun stream => stream.size.getD 0).sum

def PackStream.Readable (envelope : HeaderEnvelope) (archiveBytes : List UInt8)
    (stream : PackStream) : Prop :=
  ∃ size, stream.size = some size ∧ stream.offset + size ≤ envelope.nextHeaderOffset ∧
    stream.offset + size < 2 ^ 64 ∧ stream.offset + size ≤ archiveBytes.length

theorem ContiguousFrom.bounds {start : Nat} {streams : List PackStream}
    (h : ContiguousFrom start streams) : ∀ stream ∈ streams, start ≤ stream.offset ∧
      stream.offset + stream.size.getD 0 ≤ contiguousEnd start streams := by
  induction streams generalizing start with
  | nil => exact fun _ hmem => absurd hmem List.not_mem_nil
  | cons first streams ih =>
    obtain ⟨hoffset, size, hsize, hrest⟩ := h
    have hend : contiguousEnd start (first :: streams) = contiguousEnd (start + size) streams := by
      rw [contiguousEnd, List.map_cons, List.sum_cons, hsize, Option.getD_some, ← Nat.add_assoc]
      rfl
    rw [hend]
    intro stream hstream
    rcases List.mem_cons.mp hstream with rfl | hstream
    · refine ⟨hoffset.ge, ?_⟩
      rw [hsize, Option.getD_some, hoffset]
      exact Nat.le_add_right _ _
    · obtain ⟨hstart, hfinish⟩ := ih hrest stream hstream
      exact ⟨Nat.le_of_add_right_le hstart, hfinish⟩

variable {envelope : HeaderEnvelope} {archiveBytes : List UInt8} {ranges ranges' : List (Nat × Nat)}
  {folders : List Folder} {limits : Limits} {streams : StreamsInfo}

theorem packStreamLoop_spec {crcs : Option (List (Option UInt32))} (sizes : List Nat)
    (index offset : Nat) {streams : List PackStream} {finish : Nat}
    (h : (packStreamLoop envelope archiveBytes crcs sizes index offset).granted =
      .ok (streams, finish)) :
    ContiguousFrom offset streams ∧ finish = contiguousEnd offset streams ∧
      ∀ stream ∈ streams, stream.Readable envelope archiveBytes := by
  induction sizes generalizing index offset streams with
  | nil =>
    cases granted_pure_eq_ok.mp h
    exact ⟨trivial, rfl, fun _ hmem => absurd hmem List.not_mem_nil⟩
  | cons rawSize sizes ih =>
    obtain ⟨_, h⟩ := granted_rest h
    obtain ⟨_, h⟩ := granted_rest h
    obtain ⟨next, hnext, h⟩ := granted_bind_eq_ok.mp h
    obtain ⟨_, hheader, h⟩ := granted_bind_eq_ok.mp h
    obtain ⟨data, hdata, h⟩ := granted_bind_eq_ok.mp h
    obtain ⟨crc, -, h⟩ := granted_bind_eq_ok.mp h
    obtain ⟨⟨rest, _⟩, hrest, h⟩ := granted_bind_eq_ok.mp h
    cases granted_pure_eq_ok.mp h
    obtain ⟨-, rfl⟩ := checkedAdd_eq_ok.mp (granted_lift_eq_ok.mp hnext)
    have hheader := rejectIf_eq_ok.mp (granted_lift_eq_ok.mp hheader)
    obtain ⟨hlt, hle, -⟩ := checkedRange_eq_ok.mp (granted_lift_eq_ok.mp hdata)
    obtain ⟨hcontiguous, hfinish, hreadable⟩ := ih _ _ hrest
    refine ⟨⟨rfl, rawSize, rfl, hcontiguous⟩, ?_, List.forall_mem_cons.mpr ⟨?_, hreadable⟩⟩
    · rw [hfinish, contiguousEnd, contiguousEnd, List.map_cons, List.sum_cons, Option.getD_some,
        Nat.add_assoc]
    · exact ⟨rawSize, rfl, Nat.le_of_not_lt hheader, hlt, hle⟩

theorem validatePackRanges_spec {pack : RawPackInfo} {position : Nat} {streams : List PackStream}
    (h : (validatePackRanges (some pack) envelope archiveBytes ranges).granted =
      .ok (position, streams, ranges')) :
    ContiguousFrom (envelope.signatureOffset + fixedHeaderSize + position) streams ∧
      (∀ stream ∈ streams, stream.Readable envelope archiveBytes) ∧
      ranges' = if envelope.signatureOffset + fixedHeaderSize + position <
          contiguousEnd (envelope.signatureOffset + fixedHeaderSize + position) streams
        then ranges ++ [(envelope.signatureOffset + fixedHeaderSize + position,
          contiguousEnd (envelope.signatureOffset + fixedHeaderSize + position) streams)]
        else ranges := by
  obtain ⟨sizes, -, h⟩ := granted_bind_eq_ok.mp h
  obtain ⟨_, h⟩ := granted_rest h
  obtain ⟨_, h⟩ := granted_rest h
  obtain ⟨_, h⟩ := granted_rest h
  obtain ⟨fixedEnd, hfixed, h⟩ := granted_bind_eq_ok.mp h
  obtain ⟨sectionStart, hstart, h⟩ := granted_bind_eq_ok.mp h
  obtain ⟨⟨loaded, finish⟩, hloop, h⟩ := granted_bind_eq_ok.mp h
  cases granted_pure_eq_ok.mp h
  obtain ⟨-, rfl⟩ := checkedAdd_eq_ok.mp (granted_lift_eq_ok.mp hfixed)
  obtain ⟨-, rfl⟩ := checkedAdd_eq_ok.mp (granted_lift_eq_ok.mp hstart)
  obtain ⟨hcontiguous, rfl, hreadable⟩ := packStreamLoop_spec _ _ _ hloop
  exact ⟨hcontiguous, hreadable, rfl⟩

/-! ## Folders of one section -/

namespace Folder

def packStreamIndices (folder : Folder) : List Nat :=
  List.range' folder.firstPackStream folder.packedInputIndices.length

def AssignedFrom : Nat → List Folder → Nat → Prop
  | first, [], finish => finish = first
  | first, folder :: folders, finish => folder.firstPackStream = first ∧
    AssignedFrom (first + folder.packedInputIndices.length) folders finish

variable {first finish : Nat} (h : AssignedFrom first folders finish)
include h

theorem AssignedFrom.flatMap_indices :
    first ≤ finish ∧ folders.flatMap packStreamIndices = List.range' first (finish - first) := by
  induction folders generalizing first with
  | nil =>
    cases h
    refine ⟨le_rfl, ?_⟩
    rw [Nat.sub_self]
    rfl
  | cons folder folders ih =>
    obtain ⟨hfirst, hrest⟩ := h
    obtain ⟨hle, hindices⟩ := ih hrest
    refine ⟨by omega, ?_⟩
    have hsplit : finish - first = folder.packedInputIndices.length +
        (finish - (first + folder.packedInputIndices.length)) := by omega
    rw [List.flatMap_cons, hindices, packStreamIndices, hfirst, hsplit, ← List.range'_append_1]

theorem AssignedFrom.folder_le :
    ∀ folder ∈ folders,
      folder.firstPackStream + folder.packedInputIndices.length ≤ finish := by
  induction folders generalizing first with
  | nil => exact fun _ hmem => absurd hmem List.not_mem_nil
  | cons other folders ih =>
    obtain ⟨rfl, hrest⟩ := h
    refine List.forall_mem_cons.mpr ⟨?_, ih hrest⟩
    exact hrest.flatMap_indices.1

end Folder

theorem validateFolder_assigned {raw : RawFolder} {folderCrc : Option UInt32} {first : Nat}
    {draft : FolderDraft} (h : (validateFolder raw folderCrc first limits).granted = .ok draft) :
    draft.firstPackStream = first ∧ draft.packedInputIndices.length = raw.packedStreams := by
  obtain ⟨_, h⟩ := granted_rest h
  obtain ⟨⟨_, _, _, _⟩, -, h⟩ := granted_bind_eq_ok.mp h
  obtain ⟨_, h⟩ := granted_rest h
  obtain ⟨graph, hgraph, h⟩ := granted_bind_eq_ok.mp h
  obtain ⟨_, h⟩ := granted_rest h
  obtain ⟨rootSize, -, h⟩ := granted_bind_eq_ok.mp h
  cases granted_pure_eq_ok.mp h
  obtain ⟨-, hports, -⟩ := RawFolder.validateFolderGraph_eq_ok.mp hgraph
  exact ⟨rfl, hports.packed_length⟩

def FolderDraft.Builds (draft : FolderDraft) (folder : Folder) : Prop :=
  ∃ substreams, folder = draft.toFolder substreams

theorem buildFolders_builds {counts : List Nat} {explicitSizes : Option (List Nat)}
    {explicitCrcs : Option (List (Option UInt32))} (drafts : List FolderDraft) (index : Nat)
    (cursors : SubstreamCursors) {cursors' : SubstreamCursors}
    (h : (buildFolders counts explicitSizes explicitCrcs limits drafts index cursors).granted =
      .ok (folders, cursors')) : List.Forall₂ FolderDraft.Builds drafts folders := by
  induction drafts generalizing index cursors folders with
  | nil =>
    cases granted_pure_eq_ok.mp h
    exact .nil
  | cons draft drafts ih =>
    obtain ⟨count, -, h⟩ := granted_bind_eq_ok.mp h
    obtain ⟨total, -, h⟩ := granted_bind_eq_ok.mp h
    obtain ⟨_, h⟩ := granted_rest h
    obtain ⟨⟨substreams, _, _⟩, -, h⟩ := granted_bind_eq_ok.mp h
    obtain ⟨⟨rest, _⟩, hrest, h⟩ := granted_bind_eq_ok.mp h
    cases granted_pure_eq_ok.mp h
    exact .cons ⟨substreams, rfl⟩ (ih _ _ hrest)

theorem validateFolders_assigned {crcs : Option (List (Option UInt32))} (raws : List RawFolder)
    (index assigned : Nat) {drafts : List FolderDraft} {assigned' : Nat}
    (h : (validateFolders crcs limits raws index assigned).granted = .ok (drafts, assigned'))
    (hbuilds : List.Forall₂ FolderDraft.Builds drafts folders) :
    Folder.AssignedFrom assigned folders assigned' ∧ (∀ folder ∈ folders, folder.Scheduled) ∧
      (assigned < 2 ^ 64 → assigned' < 2 ^ 64) := by
  induction raws generalizing index assigned drafts folders with
  | nil =>
    cases granted_pure_eq_ok.mp h
    cases hbuilds
    exact ⟨rfl, fun _ hmem => absurd hmem List.not_mem_nil, id⟩
  | cons raw raws ih =>
    obtain ⟨crc, -, h⟩ := granted_bind_eq_ok.mp h
    obtain ⟨draft, hdraft, h⟩ := granted_bind_eq_ok.mp h
    obtain ⟨next, hnext, h⟩ := granted_bind_eq_ok.mp h
    obtain ⟨⟨rest, _⟩, hrest, h⟩ := granted_bind_eq_ok.mp h
    cases granted_pure_eq_ok.mp h
    obtain ⟨hlt, rfl⟩ := checkedAdd_eq_ok.mp (granted_lift_eq_ok.mp hnext)
    cases hbuilds with
    | cons hfolder hfolders =>
      obtain ⟨substreams, rfl⟩ := hfolder
      obtain ⟨hassigned, hscheduled, hbound⟩ := ih _ _ hrest hfolders
      obtain ⟨hfirst, hlength⟩ := validateFolder_assigned hdraft
      refine ⟨⟨hfirst, ?_⟩, List.forall_mem_cons.mpr ⟨?_, hscheduled⟩, fun _ => hbound hlt⟩
      · show Folder.AssignedFrom (assigned + draft.packedInputIndices.length) _ _
        rw [hlength]
        exact hassigned
      · exact validateFolder_scheduled hdraft substreams

/-- How the packed streams of a section lie in the archive, and which folder
reads which of them. -/
structure PackedSection (envelope : HeaderEnvelope) (archiveBytes : List UInt8)
    (streams : StreamsInfo) : Prop where
  contiguous : ContiguousFrom (envelope.signatureOffset + fixedHeaderSize + streams.packPosition)
    streams.packStreams
  readable : ∀ stream ∈ streams.packStreams, stream.Readable envelope archiveBytes
  partition : streams.folders.flatMap Folder.packStreamIndices =
    List.range streams.packStreams.length
  folder_le : ∀ folder ∈ streams.folders,
    folder.firstPackStream + folder.packedInputIndices.length ≤ streams.packStreams.length
  count_lt : streams.packStreams.length < 2 ^ 64
  scheduled : ∀ folder ∈ streams.folders, folder.Scheduled

def sectionRanges (envelope : HeaderEnvelope) (streams : StreamsInfo) : List (Nat × Nat) :=
  if envelope.signatureOffset + fixedHeaderSize + streams.packPosition <
      contiguousEnd (envelope.signatureOffset + fixedHeaderSize + streams.packPosition)
        streams.packStreams
  then [(envelope.signatureOffset + fixedHeaderSize + streams.packPosition,
    contiguousEnd (envelope.signatureOffset + fixedHeaderSize + streams.packPosition)
      streams.packStreams)]
  else []

theorem sectionRanges_of_nil (h : streams.packStreams = []) :
    sectionRanges envelope streams = [] := by
  rw [sectionRanges, h]
  exact if_neg (Nat.lt_irrefl _)

theorem validateUnpack_packed {pack : RawPackInfo} {unpack : RawUnpackInfo}
    {substreams : Option RawSubstreamsInfo}
    (h : (validateUnpack pack unpack substreams envelope archiveBytes limits ranges).granted =
      .ok (streams, ranges')) :
    PackedSection envelope archiveBytes streams ∧
      ranges' = ranges ++ sectionRanges envelope streams := by
  obtain ⟨⟨position, packStreams, _⟩, hpack, h⟩ := granted_bind_eq_ok.mp h
  obtain ⟨_, h⟩ := granted_rest h
  obtain ⟨_, h⟩ := granted_rest h
  obtain ⟨⟨drafts, assigned⟩, hdrafts, h⟩ := granted_bind_eq_ok.mp h
  obtain ⟨_, htotal, h⟩ := granted_bind_eq_ok.mp h
  obtain ⟨_, h⟩ := granted_rest h
  obtain ⟨⟨folders, cursors⟩, hfolders, h⟩ := granted_bind_eq_ok.mp h
  obtain ⟨_, h⟩ := granted_rest h
  obtain ⟨_, h⟩ := granted_rest h
  cases granted_pure_eq_ok.mp h
  have htotal := not_not.mp (rejectIf_eq_ok.mp (granted_lift_eq_ok.mp htotal))
  subst htotal
  obtain ⟨hcontiguous, hreadable, hranges⟩ := validatePackRanges_spec hpack
  obtain ⟨hassigned, hscheduled, hbound⟩ :=
    validateFolders_assigned _ _ _ hdrafts (buildFolders_builds _ _ _ hfolders)
  refine ⟨⟨hcontiguous, hreadable, ?_, hassigned.folder_le, hbound (by decide), hscheduled⟩, ?_⟩
  · rw [hassigned.flatMap_indices.2, Nat.sub_zero, List.range_eq_range']
  · rw [hranges, sectionRanges]
    split
    · rfl
    · rw [List.append_nil]

theorem validateStreams_packed {raw : RawStreamsInfo}
    (h : (validateStreams raw envelope archiveBytes limits ranges).granted =
      .ok (streams, ranges')) :
    PackedSection envelope archiveBytes streams ∧
      ranges' = ranges ++ sectionRanges envelope streams := by
  obtain ⟨pack, unpack, substreams⟩ := raw
  cases pack with
  | none =>
    cases unpack with
    | some unpack => exact nomatch h
    | none =>
      obtain ⟨_, h⟩ := granted_rest h
      cases granted_pure_eq_ok.mp h
      refine ⟨⟨trivial, fun _ hmem => absurd hmem List.not_mem_nil, rfl,
        fun _ hmem => absurd hmem List.not_mem_nil, by decide,
        fun _ hmem => absurd hmem List.not_mem_nil⟩, ?_⟩
      rw [sectionRanges_of_nil rfl, List.append_nil]
  | some pack =>
    cases unpack with
    | none => exact nomatch h
    | some unpack => exact validateUnpack_packed h

theorem checkSortedRanges_pair {a b : Nat × Nat} {u : Unit}
    (h : checkNonOverlappingRanges [a, b] = .ok u) : a.2 ≤ b.1 ∨ b.2 ≤ a.1 := by
  rw [checkNonOverlappingRanges, List.insertionSort_cons, List.insertionSort_cons,
    List.insertionSort_nil, List.orderedInsert_nil, List.orderedInsert_cons,
    List.orderedInsert_nil] at h
  split at h
  · left
    obtain ⟨_, -, h⟩ := bind_eq_ok.mp h
    obtain ⟨_, hapart, -⟩ := bind_eq_ok.mp h
    have hapart := rejectIf_eq_ok.mp hapart
    by_contra hlt
    exact hapart ⟨a.2, rfl, by omega⟩
  · right
    obtain ⟨_, -, h⟩ := bind_eq_ok.mp h
    obtain ⟨_, hapart, -⟩ := bind_eq_ok.mp h
    have hapart := rejectIf_eq_ok.mp hapart
    by_contra hlt
    exact hapart ⟨b.2, rfl, by omega⟩

theorem PackedSection.disjoint {first second : StreamsInfo}
    (hfirst : PackedSection envelope archiveBytes first)
    (hsecond : PackedSection envelope archiveBytes second) {u : Unit}
    (h : checkNonOverlappingRanges (sectionRanges envelope first ++ sectionRanges envelope second) =
      .ok u) : ∀ a ∈ first.packStreams, ∀ b ∈ second.packStreams, Disjoint a.extent b.extent := by
  intro a ha b hb
  rw [Set.disjoint_left]
  rintro position ⟨haStart, haEnd⟩ ⟨hbStart, hbEnd⟩
  obtain ⟨hfirstStart, hfirstEnd⟩ := hfirst.contiguous.bounds a ha
  obtain ⟨hsecondStart, hsecondEnd⟩ := hsecond.contiguous.bounds b hb
  rw [sectionRanges, if_pos (by omega), sectionRanges, if_pos (by omega)] at h
  rcases checkSortedRanges_pair h with hapart | hapart
  · simp only at hapart
    omega
  · simp only at hapart
    omega

theorem PackedSection.packedBytes_granted (hsection : PackedSection envelope archiveBytes streams)
    {folder : Folder} (hfolder : folder ∈ streams.folders) {ordinal : Nat}
    (hordinal : ordinal < folder.packedInputIndices.length) :
    (∃ bytes, (packedBytes archiveBytes streams folder.firstPackStream ordinal).granted =
        .ok bytes) ∨
      (packedBytes archiveBytes streams folder.firstPackStream ordinal).granted =
        .error (.checksum .packedStream none) := by
  have hle := hsection.folder_le folder hfolder
  have hcount := hsection.count_lt
  have hindex : folder.firstPackStream + ordinal < streams.packStreams.length := by omega
  obtain ⟨size, hsize, -, hlt, hbytes⟩ := hsection.readable _ (List.getElem_mem hindex)
  rw [packedBytes, granted_lift_bind, checkedAdd_bind (by omega), granted_lift_bind,
    List.getElem?_eq_getElem hindex, okOr_bind, granted_lift_bind, hsize, okOr_bind,
    granted_lift_bind, checkedRange_eq_ok.mpr ⟨hlt, hbytes, rfl⟩, ok_bind]
  split
  · rw [granted_bind, checksumWithControl_granted, ok_bind, granted_bind]
    by_cases hcrc : Crc32.checksum ((archiveBytes.take
        (streams.packStreams[folder.firstPackStream + ordinal].offset + size)).drop
        streams.packStreams[folder.firstPackStream + ordinal].offset) ≠ ‹UInt32›
    · right
      rw [granted_lift, rejectIf_of hcrc]
      rfl
    · left
      rw [granted_lift, rejectIf_of_not hcrc]
      exact ⟨_, rfl⟩
  · exact .inl ⟨_, rfl⟩

/-- `load_packed_inputs` finds every port, stream and byte range of the folder:
unless a request is refused, it can only miss the digest of a stream. -/
def Folder.LoadsInRange (folder : Folder) (archiveBytes : List UInt8) (streams : StreamsInfo) :
    Prop :=
  ∃ inputCount, totalPortCount (folder.coders.map Coder.inputCount) 0 = .ok inputCount ∧
    ∀ trace error, Prog.Runs (loadPackedInputs archiveBytes streams folder.firstPackStream
        folder.packedInputIndices.zipIdx (List.replicate inputCount none)) trace (.error error) →
      error = .checksum .packedStream none ∨ ∃ event ∈ trace, event.2 ≠ .ok ()

theorem PackedSection.loadsInRange (hsection : PackedSection envelope archiveBytes streams)
    {folder : Folder} (hfolder : folder ∈ streams.folders) :
    folder.LoadsInRange archiveBytes streams := by
  have hscheduled := hsection.scheduled folder hfolder
  refine ⟨folder.inputTotal, Folder.totalPortCount_inputs hscheduled, fun trace error hruns => ?_⟩
  by_cases hgranted : ∀ event ∈ trace, event.2 = .ok ()
  · left
    have herror := hruns.eq_granted hgranted
    rcases Folder.loadPackedInputs_cases archiveBytes streams hscheduled with
      ⟨-, hload⟩ | ⟨e, hload, ordinal, hordinal, hbytes⟩
    · rw [hload] at herror
      exact (nomatch herror)
    · rw [hload] at herror
      cases herror
      rcases hsection.packedBytes_granted hfolder hordinal with ⟨bytes, hok⟩ | hchecksum
      · rw [hok] at hbytes
        exact (nomatch hbytes)
      · rw [hchecksum] at hbytes
        exact (Except.error.inj hbytes).symm
  · right
    push Not at hgranted
    exact hgranted

end Unpackio
