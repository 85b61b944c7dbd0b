/-
The header parser reads back what the writers write, production by production.

Every production of a model within the limits reads exactly its encoding and
adds its totals, so the sections compose along the identifiers read ahead.
-/
import Unpackio.Header.Parses

namespace Unpackio

open List (flatMap_cons length_append length_cons map_cons mem_cons_of_mem mem_cons_self sum_cons)
open ParseState

variable {limits : Limits} {s : ParseState}

theorem parses_parsePackInfo {pack : RawPackInfo} (hwf : pack.WellFormed)
    (hin : (s + pack.totals).Within limits) :
    Parses (parsePackInfo limits) s (writePackInfo pack) pack (s + pack.totals) := by
  have hstreams : pack.streams < 2 ^ 64 := by
    have h := hin.packedStreams.2
    simp only [add_def, RawPackInfo.totals] at h
    omega
  unfold parsePackInfo writePackInfo
  refine .bind (parses_readUint hwf.position_lt) ?_
  refine .bind (parses_readUint hstreams) ?_
  refine .check hwf.streams_ne ?_
  refine .seq_nil (parses_addPackedStreams hin) ?_
  refine Awaits.readU8 ?_
  refine Awaits.optionalSection (head?_writeOptional_append (by decide) (by decide)) ?_ ?_
  · intro sizes hsizes
    obtain ⟨hlen, hall⟩ := hwf.sizes_wf sizes hsizes
    rw [← hlen]
    exact reads_parseSizes hall
  refine Awaits.optionalSection (by decide) ?_ ?_
  · intro crcs hcrcs
    rw [← hwf.crcs_wf crcs hcrcs]
    exact reads_parseDigests crcs
  exact ⟨idEnd, [], rfl, .check (not_not_intro rfl) (.pure pack)⟩

theorem coderFlags_bits : ∀ length < 16, ∀ streams ∈ [0, 0x10], ∀ properties ∈ [0, 0x20],
    UInt8.ofNat (length + streams + properties) &&& 0x80 = 0 ∧
    UInt8.ofNat (length + streams + properties) &&& 0x40 = 0 ∧
    (UInt8.ofNat (length + streams + properties) &&& 0x0f).toNat = length ∧
    (UInt8.ofNat (length + streams + properties) &&& 0x10 = 0 ↔ streams = 0) ∧
    (UInt8.ofNat (length + streams + properties) &&& 0x20 = 0 ↔ properties = 0) := by
  decide +kernel

variable {coder : RawCoder} {unpack : RawUnpackInfo} {t : ParseState} {written : List UInt8}

theorem coderFlags_spec (h : coder.methodId.length ≤ 15) :
    coderFlags coder &&& 0x80 = 0 ∧ coderFlags coder &&& 0x40 = 0 ∧
    (coderFlags coder &&& 0x0f).toNat = coder.methodId.length ∧
    (coderFlags coder &&& 0x10 = 0 ↔ coder.inputStreams = 1 ∧ coder.outputStreams = 1) ∧
    (coderFlags coder &&& 0x20 = 0 ↔ coder.properties = []) := by
  have hbits := coderFlags_bits coder.methodId.length (by omega)
    (if coder.inputStreams = 1 ∧ coder.outputStreams = 1 then 0 else 0x10)
    (by split <;> decide)
    (if coder.properties = [] then 0 else 0x20) (by split <;> decide)
  obtain ⟨h80, h40, hlen, h10, h20⟩ := hbits
  exact ⟨h80, h40, hlen, h10.trans (by simp), h20.trans (by simp)⟩

section

variable (hwf : coder.WellFormed limits)
include hwf

theorem reads_parseCoderStreams :
    Reads (parseCoderStreams (coderFlags coder))
      (if coder.inputStreams = 1 ∧ coder.outputStreams = 1 then []
        else write7zUint coder.inputStreams ++ write7zUint coder.outputStreams)
      (coder.inputStreams, coder.outputStreams) := by
  obtain ⟨_, _, _, hflag, _⟩ := coderFlags_spec hwf.methodId_le
  unfold parseCoderStreams
  by_cases hsimple : coder.inputStreams = 1 ∧ coder.outputStreams = 1
  · rw [if_pos hsimple, if_neg (not_not_intro (hflag.mpr hsimple)), hsimple.1, hsimple.2]
    exact .pure (1, 1)
  · rw [if_neg hsimple, if_pos fun h => hsimple (hflag.mp h)]
    refine .bind (reads_readUint hwf.inputs_wf.2) ?_
    refine .bind_nil (reads_readUint hwf.outputs_wf.2) ?_
    refine .seq_nil (.liftExcept (rejectIf_of_not ?_ _)) (.pure _)
    exact not_or.mpr ⟨hwf.inputs_wf.1, hwf.outputs_wf.1⟩

theorem reads_parseCoderProperties :
    Reads (parseCoderProperties (coderFlags coder) limits)
      (if coder.properties = [] then []
        else write7zUint coder.properties.length ++ coder.properties)
      coder.properties := by
  obtain ⟨_, _, _, _, hflag⟩ := coderFlags_spec hwf.methodId_le
  unfold parseCoderProperties
  by_cases hplain : coder.properties = []
  · rw [if_pos hplain, if_neg (not_not_intro (hflag.mpr hplain)), hplain]
    exact .pure []
  · rw [if_neg hplain, if_pos fun h => hplain (hflag.mp h)]
    refine .of_short fun hshort => ?_
    rw [length_append] at hshort
    refine .bind (reads_readUint (by omega)) ?_
    exact .seq_nil (.liftExcept (checkLimit_of_le hwf.properties_le _))
      (reads_readBytes coder.properties)

theorem reads_parseCoder : Reads (parseCoder limits) (writeCoder coder) coder := by
  obtain ⟨h80, h40, hlen, _, _⟩ := coderFlags_spec hwf.methodId_le
  have hmethod : ¬coderFlags coder &&& 0x0f = 0 := by
    intro h
    rw [h] at hlen
    exact hwf.methodId_ne (List.length_eq_zero_iff.mp hlen.symm)
  unfold parseCoder writeCoder
  refine reads_readU8_bind ?_
  refine .seq_nil (.liftExcept (rejectIf_of_not (not_not_intro h80) _)) ?_
  refine .seq_nil (.liftExcept (rejectIf_of_not (not_not_intro h40) _)) ?_
  refine .seq_nil (.liftExcept (rejectIf_of_not hmethod _)) ?_
  rw [hlen]
  refine .bind (reads_readBytes coder.methodId) ?_
  refine .bind (reads_parseCoderStreams hwf) ?_
  exact .bind_nil (reads_parseCoderProperties hwf) (.pure coder)

end

theorem reads_parseCoders (coders : List RawCoder) (hwf : ∀ coder ∈ coders, coder.WellFormed limits)
    (inputs outputs : Nat)
    (hin : inputs + (coders.map RawCoder.inputStreams).sum < 2 ^ 64)
    (hout : outputs + (coders.map RawCoder.outputStreams).sum < 2 ^ 64) :
    Reads (parseCoders limits coders.length inputs outputs) (coders.flatMap writeCoder)
      (coders, inputs + (coders.map RawCoder.inputStreams).sum,
        outputs + (coders.map RawCoder.outputStreams).sum) := by
  induction coders generalizing inputs outputs with
  | nil => exact .pure ([], inputs, outputs)
  | cons coder coders ih =>
    simp only [map_cons, sum_cons, ← Nat.add_assoc] at hin hout ⊢
    rw [flatMap_cons, length_cons, parseCoders]
    refine .bind (reads_parseCoder (hwf coder mem_cons_self)) ?_
    refine .seq_nil (.liftExcept
      (okOr_eq_ok.mpr (checkedAdd_of_lt (b := coder.inputStreams) (by omega)))) ?_
    refine .seq_nil (.liftExcept
      (okOr_eq_ok.mpr (checkedAdd_of_lt (b := coder.outputStreams) (by omega)))) ?_
    exact .bind_nil
      (ih (fun c hc => hwf c (mem_cons_of_mem _ hc)) _ _ hin hout) (.pure _)

theorem reads_parseBindPair {pair : RawBindPair}
    (h : pair.input < 2 ^ 64 ∧ pair.output < 2 ^ 64) :
    Reads parseBindPair (writeBindPair pair) pair :=
  .bind (reads_readUint h.1) (.bind_nil (reads_readUint h.2) (.pure pair))

theorem reads_parsePackedIndices {folder : RawFolder} (hwf : folder.WellFormed limits) :
    Reads (parsePackedIndices folder.packedStreams) (writeSizes (folder.packedIndices.getD []))
      folder.packedIndices := by
  unfold parsePackedIndices
  by_cases hone : folder.packedStreams = 1
  · rw [if_pos hone, hwf.packedIndices_one hone]
    exact .pure none
  · obtain ⟨indices, hsome, hlen, hall⟩ := hwf.packedIndices_many hone
    rw [if_neg hone, hsome, Option.getD_some, ← hlen]
    exact .bind_nil
      (reads_repeatReading indices fun index hindex => reads_readUint (hall index hindex))
      (.pure _)

def RawFolder.withoutSizes (folder : RawFolder) : RawFolder := { folder with unpackSizes := [] }

theorem parses_parseFolder {folder : RawFolder} (hwf : folder.WellFormed limits)
    (hin : (s + folder.totals).Within limits) :
    Parses (parseFolder limits) s (writeFolder folder) folder.withoutSizes (s + folder.totals) := by
  have hsplit : s + folder.totals =
      s + { ParseState.default with totalCoders := folder.coders.length } +
        { ParseState.default with totalStreams := folder.inputStreams + folder.outputStreams } :=
    rfl
  have hcoders := hin.coders.2
  have hports := hin.streams.2
  simp only [add_def, RawFolder.totals] at hcoders hports
  have hbound := hwf.bindPairs_length
  have hpacked := hwf.packed_eq
  have houtputs := hwf.outputs_le
  rw [hsplit] at hin ⊢
  unfold parseFolder writeFolder
  refine .bind (parses_readUint (by omega)) ?_
  refine .check (fun h => hwf.coders_ne (List.length_eq_zero_iff.mp h)) ?_
  refine .checkLimit hwf.coders_le ?_
  refine .seq_nil (parses_addCoders hin.of_add) ?_
  have hread := reads_parseCoders folder.coders hwf.coders_wf 0 0
    (by rw [hwf.inputs_eq]; omega) (by rw [hwf.outputs_eq]; omega)
  rw [Nat.zero_add, Nat.zero_add, hwf.inputs_eq, hwf.outputs_eq] at hread
  refine .bind (.lift hread) ?_
  refine .seq_nil (.liftExcept
    (okOr_eq_ok.mpr (checkedAdd_of_lt (a := folder.inputStreams) (by omega)))) ?_
  refine .checkLimit hwf.ports_le ?_
  refine .seq_nil (parses_addStreams hin) ?_
  refine .check (by omega) ?_
  refine .seq_nil (.liftExcept (okOr_eq_ok.mpr
    (checkedSub_of_le (a := folder.outputStreams) (by omega)))) ?_
  rw [show folder.outputStreams - 1 = folder.bindPairs.length by omega]
  refine .bind (.lift (reads_repeatReading folder.bindPairs
    fun pair hpair => reads_parseBindPair (hwf.bindPairs_wf pair hpair))) ?_
  refine .seq_nil (.liftExcept (okOr_eq_ok.mpr
    (checkedSub_of_le (a := folder.inputStreams) (by omega)))) ?_
  rw [show folder.inputStreams - folder.bindPairs.length = folder.packedStreams by omega]
  refine .check (by omega) ?_
  exact .bind_nil (.lift (reads_parsePackedIndices hwf)) (.pure _)

theorem parses_parseFolders (folders : List RawFolder)
    (hwf : ∀ folder ∈ folders, folder.WellFormed limits)
    (hin : (s + folderTotals folders).Within limits) :
    Parses (parseFolders limits folders.length) s (folders.flatMap writeFolder)
      (folders.map RawFolder.withoutSizes) (s + folderTotals folders) := by
  induction folders generalizing s with
  | nil => exact .pure []
  | cons folder folders ih =>
    rw [folderTotals, ← ParseState.add_assoc] at hin ⊢
    rw [flatMap_cons, length_cons, parseFolders]
    refine .bind (parses_parseFolder (hwf folder mem_cons_self) hin.of_add) ?_
    exact .bind_nil (ih (fun f hf => hwf f (mem_cons_of_mem _ hf)) hin)
      (.pure _)

theorem reads_parseUnpackSizes (folders : List RawFolder)
    (hwf : ∀ folder ∈ folders, folder.WellFormed limits) :
    Reads (parseUnpackSizes (folders.map RawFolder.withoutSizes))
      (folders.flatMap fun folder => writeSizes folder.unpackSizes) folders := by
  induction folders with
  | nil => exact .pure []
  | cons folder folders ih =>
    obtain ⟨hlen, hall⟩ := (hwf folder mem_cons_self).unpackSizes_wf
    have hsizes := reads_parseSizes hall
    rw [hlen] at hsizes
    rw [flatMap_cons, map_cons, parseUnpackSizes]
    refine .bind hsizes (.bind_nil (ih ?_) (.pure _))
    exact fun f hf => hwf f (mem_cons_of_mem _ hf)

theorem reads_parseUnpackTail (hwf : unpack.WellFormed limits) :
    Reads (parseUnpackTail unpack.folders.length (unpack.folders.map RawFolder.withoutSizes))
      (idCodersUnpackSize ::
        (unpack.folders.flatMap (fun folder => writeSizes folder.unpackSizes) ++
          (writeOptional idCrc writeDigests unpack.crcs ++ [idEnd]))) unpack := by
  unfold parseUnpackTail
  refine reads_readU8_bind ?_
  refine .seq_nil (.liftExcept (rejectIf_of_not (not_not_intro rfl) _)) ?_
  refine .bind (reads_parseUnpackSizes unpack.folders hwf.folders_wf) ?_
  cases hcrcs : unpack.crcs with
  | none =>
    refine reads_readU8_bind ?_
    refine .seq_nil (.pure (none, idEnd)) ?_
    refine .seq_nil (.liftExcept (rejectIf_of_not (not_not_intro rfl) _)) ?_
    rw [← hcrcs]
    exact .pure unpack
  | some crcs =>
    refine reads_readU8_bind ?_
    have hdigests := reads_parseDigests crcs
    rw [hwf.crcs_wf crcs hcrcs] at hdigests
    have hsection : Reads (optionalSection idCrc idCrc (parseDigests unpack.folders.length))
        (writeDigests crcs ++ [idEnd]) (some crcs, idEnd) :=
      .bind hdigests (.bind_nil (reads_readU8 idEnd) (.pure _))
    refine .bind_nil hsection ?_
    refine .seq_nil (.liftExcept (rejectIf_of_not (not_not_intro rfl) _)) ?_
    rw [← hcrcs]
    exact .pure unpack

theorem parses_parseUnpackInfo (hwf : unpack.WellFormed limits)
    (hin : (s + unpack.totals).Within limits) (external : Option ExternalFolderData) :
    Parses (parseUnpackInfo limits external) s (writeUnpackInfo unpack) (.complete unpack)
      (s + unpack.totals) := by
  rw [RawUnpackInfo.totals, ← ParseState.add_assoc] at hin ⊢
  have hcount := hin.of_add.folders.2
  simp only [add_def] at hcount
  unfold parseUnpackInfo writeUnpackInfo
  refine parses_readU8_bind ?_
  refine .check (not_not_intro rfl) ?_
  refine .bind (parses_readUint (by omega)) ?_
  refine .check (fun h => hwf.folders_ne (List.length_eq_zero_iff.mp h)) ?_
  refine .seq_nil (parses_addFolders hin.of_add) ?_
  refine .seq_nil (.liftMetered (checkpoint_granted _)) ?_
  refine parses_readU8_bind ?_
  rw [if_pos rfl]
  refine .bind (parses_parseFolders unpack.folders hwf.folders_wf hin) ?_
  exact .bind_nil (.lift (reads_parseUnpackTail hwf)) (.pure _)

theorem substreamTotals_eq (counts : List Nat) (total explicit : Nat)
    (htotal : total + counts.sum < 2 ^ 64)
    (hexplicit : explicit + (counts.map (· - 1)).sum < 2 ^ 64) :
    substreamTotals counts total explicit =
      .ok (total + counts.sum, explicit + (counts.map (· - 1)).sum) := by
  induction counts generalizing total explicit with
  | nil => rfl
  | cons count counts ih =>
    simp only [map_cons, sum_cons, ← Nat.add_assoc] at htotal hexplicit ⊢
    rw [substreamTotals, checkedAdd_bind (by omega), checkedAdd_bind (by omega),
      ih _ _ htotal hexplicit]

theorem sum_pred_le (counts : List Nat) : (counts.map (· - 1)).sum ≤ counts.sum := by
  induction counts with
  | nil => exact Nat.le_refl 0
  | cons count counts ih =>
    rw [map_cons, sum_cons, sum_cons]
    omega

theorem substreamDigestCount_eq (folderCrcs : Option (List (Option UInt32))) (counts : List Nat)
    (folderIndex total : Nat) (h : total + counts.sum < 2 ^ 64) :
    substreamDigestCount folderCrcs counts folderIndex total =
      .ok (total + digestsWithoutFolder folderCrcs folderIndex counts) := by
  induction counts generalizing folderIndex total with
  | nil => rfl
  | cons count counts ih =>
    rw [sum_cons] at h
    rw [substreamDigestCount, digestsWithoutFolder]
    by_cases hown : count = 1 ∧ inheritedDigest folderCrcs folderIndex ≠ none
    · have hskip : ¬(count ≠ 1 ∨ inheritedDigest folderCrcs folderIndex = none) :=
        not_or.mpr ⟨not_not_intro hown.1, hown.2⟩
      rw [if_neg hskip, if_pos hown, Nat.zero_add, ih _ _ (by omega)]
    · have htake : count ≠ 1 ∨ inheritedDigest folderCrcs folderIndex = none :=
        (not_and_or.mp hown).imp_right not_not.mp
      rw [if_pos htake, if_neg hown, checkedAdd_bind (by omega), ih _ _ (by omega), Nat.add_assoc]

def writtenCounts (brief : Bool) (counts : List Nat) : Option (List Nat) :=
  if brief && counts.all (· == 1) then none else some counts

theorem writeSubstreamCounts_eq (brief : Bool) (counts : List Nat) :
    writeSubstreamCounts brief counts =
      writeOptional idNumUnpackStream writeSizes (writtenCounts brief counts) := by
  unfold writeSubstreamCounts writtenCounts
  split <;> rfl

theorem getD_writtenCounts (brief : Bool) (counts : List Nat) :
    (writtenCounts brief counts).getD (List.replicate counts.length 1) = counts := by
  unfold writtenCounts
  by_cases hone : brief && counts.all (· == 1)
  · rw [if_pos hone, Option.getD_none]
    refine (List.eq_replicate_iff.mpr ⟨rfl, ?_⟩).symm
    simpa using (Bool.and_eq_true _ _ ▸ hone : brief = true ∧ counts.all (· == 1) = true).2
  · rw [if_neg hone, Option.getD_some]

theorem awaits_parseSubstreamCounts {β : Type} {b : β} {f : List Nat × UInt8 → Parsing β}
    (brief : Bool) {counts : List Nat} (hall : AllU64 counts)
    (hhead : written.head? ≠ some idNumUnpackStream)
    (h : Awaits (fun id => f (counts, id)) s written b t) :
    Awaits (fun id => liftM (parseSubstreamCounts id counts.length) >>= f) s
      (writeSubstreamCounts brief counts ++ written) b t := by
  have hread : Reads (repeatReading readUint counts.length) (writeSizes counts) counts :=
    reads_repeatReading counts fun count hcount => reads_readUint (hall count hcount)
  rw [writeSubstreamCounts_eq]
  refine Awaits.optional (fun o id => f (o.getD (List.replicate counts.length 1), id))
    (fun a => a) (fun _ => ParseState.default) (p := liftM (repeatReading readUint counts.length))
    (g := fun counts => liftM readU8 >>= fun id => f (counts, id)) hhead ?_ ?_ (fun _ => rfl) ?_ ?_
  · intro id hid
    rw [parseSubstreamCounts, if_neg hid]
    rfl
  · simp only [parseSubstreamCounts, if_true, liftM_bind, liftM_pure, bind_assoc, pure_bind]
  · intro written hwritten
    have heq : counts = written := by
      have h := getD_writtenCounts brief counts
      rwa [hwritten, Option.getD_some, eq_comm] at h
    rw [← heq]
    exact .lift hread
  · simp only [getD_writtenCounts]
    cases writtenCounts brief counts <;> exact h

theorem parses_parseSubstreamsInfo {substreams : RawSubstreamsInfo} (brief : Bool)
    (hwf : substreams.WellFormed unpack)
    (hin : (s + substreamTotal (some unpack) (some substreams)).Within limits) :
    Parses (parseSubstreamsInfo limits unpack) s (writeSubstreamsInfo brief substreams) substreams
      (s + substreamTotal (some unpack) (some substreams)) := by
  have hsum : substreams.counts.sum < 2 ^ 64 := by
    have h := hin.substreams.2
    simp only [add_def, substreamTotal] at h
    omega
  have hpred := sum_pred_le substreams.counts
  have htotals := substreamTotals_eq substreams.counts 0 0 (by omega) (by omega)
  have hdigests := substreamDigestCount_eq unpack.crcs substreams.counts 0 0 (by omega)
  simp only [Nat.zero_add] at htotals hdigests
  unfold parseSubstreamsInfo writeSubstreamsInfo
  refine Awaits.readU8 ?_
  rw [← hwf.counts_wf.1]
  refine awaits_parseSubstreamCounts brief hwf.counts_wf.2
    (head?_writeOptional_append (by decide) (head?_writeOptional_append (by decide) (by decide))) ?_
  refine Awaits.seq_nil (.liftExcept htotals) ?_
  refine Awaits.seq_nil (parses_addSubstreams hin) ?_
  refine Awaits.optionalSection (head?_writeOptional_append (by decide) (by decide)) ?_ ?_
  · intro sizes hsizes
    obtain ⟨hlen, hall⟩ := hwf.sizes_wf sizes hsizes
    rw [← hlen]
    exact reads_parseSizes hall
  refine Awaits.seq_nil (.liftExcept hdigests) ?_
  refine Awaits.optionalSection (by decide) ?_ ?_
  · intro crcs hcrcs
    rw [← hwf.crcs_wf crcs hcrcs]
    exact reads_parseDigests crcs
  exact ⟨idEnd, [], rfl, .check (not_not_intro rfl) (.pure substreams)⟩

section

variable {streams : RawStreamsInfo} (brief : Bool) (hwf : streams.WellFormed limits)
include hwf

theorem awaits_parseSubstreamsSection {β : Type} {b : β}
    {f : Option RawSubstreamsInfo × UInt8 → Parsing β}
    (hin : (s + substreamTotal streams.unpack streams.substreams).Within limits)
    (hhead : written.head? ≠ some idSubstreamsInfo)
    (h : Awaits (fun id => f (streams.substreams, id))
      (s + substreamTotal streams.unpack streams.substreams) written b t) :
    Awaits (fun id => parseSubstreamsSection limits streams.unpack id >>= f) s
      (writeOptional idSubstreamsInfo (writeSubstreamsInfo brief) streams.substreams ++ written)
      b t := by
  obtain ⟨pack, unpack, substreams⟩ := streams
  cases substreams with
  | none =>
    obtain ⟨id, rest, rfl, h⟩ := h
    rw [List.head?_cons] at hhead
    have hid : id ≠ idSubstreamsInfo := fun heq => hhead (congrArg some heq)
    refine ⟨id, rest, rfl, .seq_nil ?_ h⟩
    unfold parseSubstreamsSection
    rw [if_neg hid]
    cases unpack with
    | none => exact .pure _
    | some unpack => exact .seq_nil (parses_addSubstreams hin) (.pure _)
  | some substreams =>
    obtain ⟨unpackInfo, hunpack, hsub⟩ := hwf.substreams_wf substreams rfl
    simp only at hunpack
    subst hunpack
    refine ⟨idSubstreamsInfo, writeSubstreamsInfo brief substreams ++ written, rfl, ?_⟩
    have hnext := h.readU8
    simp only [parseSubstreamsSection, if_true, bind_assoc, pure_bind]
    exact .bind (parses_parseSubstreamsInfo brief hsub hin) hnext

theorem parses_parseStreamsInfo (hin : (s + streams.totals).Within limits)
    (external : Option ExternalFolderData) :
    Parses (parseStreamsInfo limits external) s (writeStreamsInfo brief streams)
      (.complete streams) (s + streams.totals) := by
  rw [RawStreamsInfo.totals, ← ParseState.add_assoc, ← ParseState.add_assoc] at hin ⊢
  have hunpackIn := hin.of_add
  have hpackIn := hunpackIn.of_add
  unfold parseStreamsInfo writeStreamsInfo
  refine Awaits.readU8 (Awaits.section_bind RawPackInfo.totals (p := parsePackInfo limits)
    (head?_writeOptional_append (by decide) (head?_writeOptional_append (by decide) (by decide)))
    ?_ ?_ ?_ ?_)
  · intro id hid
    rw [parsePackSection, if_neg hid]
  · rw [parsePackSection, if_pos rfl]
  · intro pack hpack
    rw [hpack] at hpackIn
    exact parses_parsePackInfo (hwf.pack_wf pack hpack) hpackIn
  refine Awaits.branch (fun o id => parseStreamsTail limits streams.pack o id)
    ParsedUnpackInfo.complete RawUnpackInfo.totals
    (head?_writeOptional_append (by decide) (by decide)) (fun _ => rfl) ?_ ?_
  · intro unpack hunpack
    rw [hunpack] at hunpackIn
    exact parses_parseUnpackInfo (hwf.unpack_wf unpack hunpack) hunpackIn external
  · refine awaits_parseSubstreamsSection brief hwf hin (by decide) ?_
    exact ⟨idEnd, [], rfl, .check (not_not_intro rfl) (.pure _)⟩

end

theorem propertyTotals_cons (property : RawProperty) (properties : List RawProperty) :
    s + propertyTotals (property :: properties) =
      s + { ParseState.default with totalProperties := 1 } + propertyTotals properties := by
  simp only [add_def, propertyTotals, length_cons, ParseState.default, Nat.add_zero]
  congr 1
  omega

theorem parses_parsePropertyLoop (properties : List RawProperty)
    (hwf : ∀ property ∈ properties, property.WellFormed limits) (fuel : Nat)
    (hfuel : properties.length < fuel)
    (hin : (s + propertyTotals properties).Within limits) :
    Parses (parsePropertyLoop limits fuel) s (writeProperties properties) properties
      (s + propertyTotals properties) := by
  induction properties generalizing s fuel with
  | nil =>
    obtain ⟨fuel, rfl⟩ : ∃ n, fuel = n + 1 := ⟨fuel - 1, by rw [List.length_nil] at hfuel; omega⟩
    refine .bind_nil (parses_readU8 idEnd) ?_
    rw [if_pos rfl]
    exact .pure []
  | cons property properties ih =>
    rw [length_cons] at hfuel
    obtain ⟨fuel, rfl⟩ : ∃ n, fuel = n + 1 := ⟨fuel - 1, by omega⟩
    obtain ⟨hid, hdata⟩ := hwf property mem_cons_self
    rw [propertyTotals_cons] at hin ⊢
    have hwritten : writeProperties (property :: properties) =
        [property.id] ++ (write7zUint property.data.length ++
          (property.data ++ writeProperties properties)) := by
      simp only [writeProperties, writeProperty, flatMap_cons, List.append_assoc,
        List.cons_append, List.nil_append]
    rw [hwritten]
    refine .of_short fun hshort => ?_
    simp only [length_append] at hshort
    refine .bind (parses_readU8 property.id) ?_
    rw [if_neg hid]
    refine .seq_nil (parses_addProperty hin.of_add) ?_
    refine .bind (parses_readUint (by omega)) ?_
    refine .checkLimit hdata ?_
    refine .bind (.lift (reads_readBytes property.data)) ?_
    exact .bind_nil
      (ih (fun q hq => hwf q (mem_cons_of_mem _ hq)) fuel (by omega) hin) (.pure _)

theorem length_lt_writeProperties (properties : List RawProperty) :
    properties.length < (writeProperties properties).length := by
  induction properties with
  | nil => exact Nat.one_pos
  | cons property properties ih =>
    simp only [writeProperties, writeProperty, flatMap_cons, length_append,
      length_cons] at ih ⊢
    omega

theorem parses_parsePropertyList {properties : List RawProperty}
    (hwf : ∀ property ∈ properties, property.WellFormed limits)
    (hin : (s + propertyTotals properties).Within limits) :
    Parses (parsePropertyList limits) s (writeProperties properties) properties
      (s + propertyTotals properties) := by
  intro front rest hlen
  refine parses_parsePropertyLoop properties hwf _ ?_ hin front rest hlen
  have hlt := length_lt_writeProperties properties
  simp only [BoundedReader.split, length_append]
  omega

theorem parses_parseFilesInfo {files : RawFilesInfo} (hwf : files.WellFormed limits)
    (hin : (s + propertyTotals files.properties).Within limits) :
    Parses (parseFilesInfo limits) s (writeFilesInfo files) files
      (s + propertyTotals files.properties) := by
  refine .bind (parses_readUint hwf.count_wf.2) ?_
  refine .checkLimit hwf.count_wf.1 ?_
  exact .bind_nil (parses_parsePropertyList hwf.properties_wf hin) (.pure _)

def writtenProperties (properties : List RawProperty) : Option (List RawProperty) :=
  if properties = [] then none else some properties

theorem getD_writtenProperties (properties : List RawProperty) :
    (writtenProperties properties).getD [] = properties := by
  unfold writtenProperties
  by_cases h : properties = []
  · rw [if_pos h, h, Option.getD_none]
  · rw [if_neg h, Option.getD_some]

theorem writeArchiveProperties_eq (properties : List RawProperty) :
    (if properties = [] then [] else idArchiveProperties :: writeProperties properties) =
      writeOptional idArchiveProperties writeProperties (writtenProperties properties) := by
  unfold writtenProperties
  split <;> rfl

theorem awaits_parseArchiveProperties {β : Type} {b : β} {f : List RawProperty × UInt8 → Parsing β}
    {properties : List RawProperty} (hwf : ∀ property ∈ properties, property.WellFormed limits)
    (hin : (s + propertyTotals properties).Within limits)
    (hhead : written.head? ≠ some idArchiveProperties)
    (h : Awaits (fun id => f (properties, id)) (s + propertyTotals properties) written b t) :
    Awaits (fun id => parseArchiveProperties limits id >>= f) s
      ((if properties = [] then [] else idArchiveProperties :: writeProperties properties) ++
        written) b t := by
  rw [writeArchiveProperties_eq]
  refine Awaits.optional (fun o id => f (o.getD [], id)) (fun a => a) propertyTotals
    (p := parsePropertyList limits)
    (g := fun properties => liftM readU8 >>= fun id => f (properties, id)) hhead ?_ ?_ (fun _ =>
      rfl) ?_ ?_
  · intro id hid
    rw [parseArchiveProperties, if_neg hid]
    rfl
  · simp only [parseArchiveProperties, if_true, bind_assoc, pure_bind]
  · intro written hwritten
    have heq : properties = written := by
      have h := getD_writtenProperties properties
      rwa [hwritten, Option.getD_some, eq_comm] at h
    rw [← heq]
    exact parses_parsePropertyList hwf hin
  · simp only [getD_writtenProperties]
    have htotal : (writtenProperties properties).elim ParseState.default propertyTotals =
        propertyTotals properties := by
      unfold writtenProperties
      by_cases hnil : properties = []
      · rw [if_pos hnil, hnil]
        rfl
      · rw [if_neg hnil]
        rfl
    rw [htotal]
    exact h

theorem awaits_parseAdditionalStreams {β : Type} {b : β}
    {f : Option RawStreamsInfo × UInt8 → Parsing β} {o : Option RawStreamsInfo} (brief : Bool)
    (hwf : ∀ streams, o = some streams → streams.WellFormed limits)
    (hin : (s + o.elim ParseState.default RawStreamsInfo.totals).Within limits)
    (hhead : written.head? ≠ some idAdditionalStreamsInfo)
    (h : Awaits (fun id => f (o, id)) (s + o.elim ParseState.default RawStreamsInfo.totals)
      written b t) :
    Awaits (fun id => parseAdditionalStreams limits id >>= f) s
      (writeOptional idAdditionalStreamsInfo (writeStreamsInfo brief) o ++ written) b t := by
  refine Awaits.optional (fun o id => f (o, id)) ParsedStreamsInfo.complete RawStreamsInfo.totals
    (p := parseStreamsInfo limits none) (g := fun parsed => acceptAdditional parsed >>=
      f) hhead ?_ ?_ ?_ ?_ h
  · intro id hid
    rw [parseAdditionalStreams, if_neg hid, pure_bind]
  · rw [parseAdditionalStreams, if_pos rfl, bind_assoc]
  · intro streams
    simp only [acceptAdditional, bind_assoc, pure_bind]
  · intro streams hstreams
    rw [hstreams] at hin
    exact parses_parseStreamsInfo brief (hwf streams hstreams) hin none

theorem parses_parseHeaderBody {header : RawHeader} (brief : Bool) (hwf : header.WellFormed limits)
    (hin : (s + header.totals).Within limits) (bytes : List UInt8)
    (external : Option ExternalFolderData) :
    Parses (parseHeaderBody limits bytes external) s (writeHeader brief header) (.header header)
      (s + header.totals) := by
  rw [RawHeader.totals, ← ParseState.add_assoc, ← ParseState.add_assoc,
    ← ParseState.add_assoc] at hin ⊢
  have hmainIn := hin.of_add
  have hadditionalIn := hmainIn.of_add
  unfold parseHeaderBody writeHeader
  refine Awaits.readU8 (awaits_parseArchiveProperties hwf.properties_wf hadditionalIn.of_add
    (head?_writeOptional_append (by decide) (head?_writeOptional_append (by decide)
      (head?_writeOptional_append (by decide) (by decide)))) ?_)
  refine awaits_parseAdditionalStreams brief hwf.additional_wf hadditionalIn
    (head?_writeOptional_append (by decide) (head?_writeOptional_append (by decide) (by decide))) ?_
  refine Awaits.branch
    (fun o id => parseHeaderTail limits header.archiveProperties header.additionalStreams o id)
    ParsedStreamsInfo.complete RawStreamsInfo.totals
    (head?_writeOptional_append (by decide) (by decide)) (fun _ => rfl) ?_ ?_
  · intro streams hstreams
    rw [hstreams] at hmainIn
    exact parses_parseStreamsInfo brief (hwf.main_wf streams hstreams) hmainIn external
  refine Awaits.section_bind (fun files => propertyTotals files.properties)
    (p := parseFilesInfo limits) (by decide) ?_ ?_ ?_ ?_
  · intro id hid
    rw [parseFilesSection, if_neg hid]
  · rw [parseFilesSection, if_pos rfl]
  · intro files hfiles
    rw [hfiles] at hin
    exact parses_parseFilesInfo (hwf.files_wf files hfiles) hin
  · exact ⟨idEnd, [], rfl, .check (not_not_intro rfl) (.pure (RawNextHeader.header header))⟩

section

variable {model : HeaderModel} (brief : Bool) (hwf : model.WellFormed limits)
  (hin : (s + model.totals).Within limits)
include hwf hin

theorem parses_parseNextHeaderKind (bytes : List UInt8) (external : Option ExternalFolderData) :
    Parses (parseNextHeaderKind limits bytes external) s (model.write brief) model.toRaw
      (s + model.totals) := by
  unfold parseNextHeaderKind
  cases model with
  | header plain =>
    refine parses_readU8_bind ?_
    rw [if_pos rfl]
    exact parses_parseHeaderBody brief hwf hin bytes external
  | encoded streams =>
    refine parses_readU8_bind ?_
    rw [if_neg (by decide), if_pos rfl]
    exact .bind_nil (parses_parseStreamsInfo brief hwf hin none) (.pure _)

theorem parseNextHeader_append (hdepth : 1 ≤ limits.maxRecursionDepth) (suffix : List UInt8)
    (hlen : (model.write brief ++ suffix).length < 2 ^ 64) :
    (parseNextHeader limits (model.write brief ++ suffix) s).granted =
      if suffix = [] then .ok (model.toRaw, s + model.totals)
      else .error (formatError "next-header body was not consumed exactly") := by
  have hread := parses_parseNextHeaderKind brief hwf hin (model.write brief ++ suffix) none
    [] suffix hlen
  rw [List.nil_append] at hread
  simp only [parseNextHeader, parseNextHeaderInner, checkLimit_of_le hdepth,
    BoundedReader.new_eq_split, Prog.granted_bind, Prog.granted_lift, Except.ok_bind, hread]
  cases model <;> simp only [HeaderModel.toRaw, Prog.granted_bind, Prog.granted_lift,
    BoundedReader.finish_split] <;> split <;> rfl

end

/-- The canonical encoding of a well-formed model within the limits reads back
as the model, every byte of it is consumed, and no other byte may follow.
`brief` encodings leave out a NumUnpackStream record that says one substream
per folder. -/
theorem parseNextHeader_write (limits : Limits) (model : HeaderModel) (state : ParseState)
    (brief : Bool) (hwf : model.WellFormed limits)
    (hin : (state + model.totals).Within limits) (hdepth : 1 ≤ limits.maxRecursionDepth) :
    ((model.write brief).length < 2 ^ 64 →
      (parseNextHeader limits (model.write brief) state).granted =
        .ok (model.toRaw, state + model.totals)) ∧
    (∀ suffix, suffix ≠ [] → (model.write brief ++ suffix).length < 2 ^ 64 →
      (parseNextHeader limits (model.write brief ++ suffix) state).granted =
        .error (formatError "next-header body was not consumed exactly")) ∧
    ∀ folders, writeSubstreamCounts true (List.replicate folders 1) = [] := by
  refine ⟨fun hlen => ?_, fun suffix hsuffix hlen => ?_, fun folders => ?_⟩
  · have h := parseNextHeader_append brief hwf hin hdepth []
    rw [List.append_nil] at h
    exact h hlen
  · rw [parseNextHeader_append brief hwf hin hdepth suffix hlen, if_neg hsuffix]
  · have hone : (List.replicate folders 1).all (· == 1) = true := by
      rw [List.all_eq_true]
      intro count hcount
      rw [List.eq_of_mem_replicate hcount]
      rfl
    rw [writeSubstreamCounts, hone]
    rfl

/-- Two files in one folder, behind a comment property. -/
def sampleHeader : RawHeader :=
  { archiveProperties := [⟨0x20, [1, 2]⟩]
    additionalStreams := none
    mainStreams := some
      { pack := some ⟨0, 1, some [5], none⟩
        unpack := some
          { folders := [⟨[⟨[0], 1, 1, []⟩], 1, 1, [], 1, none, [5]⟩]
            crcs := some [none] }
        substreams := some ⟨[2], some [3], some [some 7, none]⟩ }
    files := some ⟨2, [⟨idDummy, []⟩]⟩ }

theorem wellFormed_sampleHeader : (HeaderModel.header sampleHeader).WellFormed Limits.default := by
  have hcoder : RawCoder.WellFormed Limits.default ⟨[0], 1, 1, []⟩ := by constructor <;> decide
  have hfolder : RawFolder.WellFormed Limits.default
      ⟨[⟨[0], 1, 1, []⟩], 1, 1, [], 1, none, [5]⟩ := by
    constructor <;> simp [hcoder, AllU64] <;> decide
  have hsub : RawSubstreamsInfo.WellFormed
      ⟨[⟨[⟨[0], 1, 1, []⟩], 1, 1, [], 1, none, [5]⟩], some [none]⟩
      ⟨[2], some [3], some [some 7, none]⟩ := by
    constructor <;> simp [AllU64]
    decide
  refine ⟨?_, ?_, ?_, ?_⟩
  · simp [sampleHeader]
    constructor <;> decide
  · intro streams h
    cases h
  · intro streams h
    cases h
    refine ⟨?_, ?_, ?_⟩
    · intro pack h
      cases h
      constructor <;> simp [AllU64]
    · intro unpack h
      cases h
      constructor <;> simp [hfolder]
    · intro substreams h
      cases h
      exact ⟨_, rfl, hsub⟩
  · intro files h
    cases h
    refine ⟨by decide, ?_⟩
    simp
    constructor <;> decide

theorem parseNextHeader_write_sampleHeader :
    (parseNextHeader Limits.default ((HeaderModel.header sampleHeader).write false)
        ParseState.default).granted =
      .ok (.header sampleHeader, ParseState.default + (HeaderModel.header sampleHeader).totals) :=
  (parseNextHeader_write Limits.default (.header sampleHeader) ParseState.default false
    wellFormed_sampleHeader (by constructor <;> decide) (by decide)).1 (by decide)

end Unpackio
