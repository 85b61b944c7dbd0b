/-
Runs of the coder loop, and the result of `decode_folder`.
-/
import Unpackio.Execute.Meaning
import Unpackio.Filter.Branch

namespace Unpackio

open Prog (granted_bind granted_lift_bind)
open Except (ok_bind)
open Table

namespace Folder

variable {folder : Folder} {packed values : Nat → List UInt8} {done : List Nat}

section Network

variable {decodeCoder : CoderDecoder} {archiveBytes : List UInt8} {streams : StreamsInfo}
  {limits : Limits} {maximumOutput : Nat}

theorem uses_iff (h : folder.Scheduled) {c d : Nat} (hc : c < folder.coders.length) :
    (folder.network decodeCoder archiveBytes streams limits maximumOutput).Uses c d ↔
      ∃ i, folder.reader i = some c ∧ folder.boundTo i = some d := by
  have hcoder := List.getElem?_eq_getElem hc
  have hreader := fun i => reader_of_coder (i := i) h hcoder
  simp only [Network.Uses, network, hcoder, Option.elim_some]
  constructor
  · intro huses
    obtain ⟨k, hk, hsource⟩ := huses
    refine ⟨folder.coders[c].inputStart + k, (hreader _).mpr (by omega), ?_⟩
    cases hbound : folder.boundTo (folder.coders[c].inputStart + k) with
    | none =>
      rw [hbound] at hsource
      cases hsource
    | some o =>
      rw [hbound] at hsource
      exact congrArg some (Sum.inr.inj hsource)
  · intro huses
    obtain ⟨i, hi, hbound⟩ := huses
    have hrange := (hreader i).mp hi
    refine ⟨i - folder.coders[c].inputStart, by omega, ?_⟩
    rw [show folder.coders[c].inputStart + (i - folder.coders[c].inputStart) = i by omega, hbound]

theorem mem_order (h : folder.Scheduled) {c : Nat} :
    c ∈ folder.topologicalCoderOrder ↔ c < folder.coders.length := by
  rw [h.order_perm.mem_iff, List.mem_range]

theorem follows_order (h : folder.Scheduled) (hone : folder.OneOutput) :
    (folder.network decodeCoder archiveBytes streams limits maximumOutput).Follows []
      folder.topologicalCoderOrder := by
  apply Network.follows_of_idxOf (h.order_perm.nodup_iff.mpr List.nodup_range)
  intro c hc d huses
  rw [mem_order h] at hc
  obtain ⟨i, hreader, hbound⟩ := (uses_iff h hc).mp huses
  have hmem := (boundTo_eq_some h).mp hbound
  have hd : d < folder.coders.length := by
    rw [← hone.outputTotal_eq]
    exact (bindPair_lt h hmem).2
  exact ⟨(mem_order h).mpr hd, h.before _ hmem d c (hone.owns hd) (reader_eq_some.mp hreader)⟩

variable (decodeCoder archiveBytes streams limits maximumOutput) in
theorem runCoders_eq (h : folder.Scheduled) (hone : folder.OneOutput) (order : List Nat)
    (hrange : ∀ c ∈ order, c < folder.coders.length)
    (hfollows : (folder.network decodeCoder archiveBytes streams limits maximumOutput).Follows
      done order)
    (hclosed : ∀ d ∈ done, ∀ i o, folder.reader i = some d → folder.boundTo i = some o →
      o ∈ done) :
    (runCoders decodeCoder folder limits maximumOutput order
        (folder.portsAt (folder.packedInput archiveBytes streams) values done)).granted =
      (folder.network decodeCoder archiveBytes streams limits maximumOutput).run order values >>=
        fun values' => .ok (folder.portsAt (folder.packedInput archiveBytes streams) values'
          (done ++ order)) := by
  induction order generalizing done values with
  | nil =>
    rw [List.append_nil]
    rfl
  | cons c order ih =>
    obtain ⟨hnot, huses, hrest⟩ := hfollows
    have hc := hrange c List.mem_cons_self
    have hsources : ∀ i o, folder.reader i = some c → folder.boundTo i = some o → o ∈ done :=
      fun i o hreader hbound => huses o ((uses_iff h hc).mpr ⟨i, hreader, hbound⟩)
    rw [runCoders, granted_bind,
      runCoder_eq decodeCoder archiveBytes streams limits maximumOutput h hone hc
        ⟨hnot, hsources, hclosed⟩, Network.run]
    cases (folder.network decodeCoder archiveBytes streams limits maximumOutput).apply c
      ((folder.network decodeCoder archiveBytes streams limits maximumOutput).inputs values c) with
    | error e => rfl
    | ok output =>
      rw [ok_bind, ok_bind,
        ih (fun d hd => hrange d (List.mem_cons_of_mem c hd)) hrest, List.append_assoc]
      · rfl
      · intro d hd i o hreader hbound
        rw [List.mem_append, List.mem_singleton] at hd
        rcases hd with hd | rfl
        · exact List.mem_append_left _ (hclosed d hd i o hreader hbound)
        · exact List.mem_append_left _ (hsources i o hreader hbound)

end Network

theorem root_lt (h : folder.Scheduled) :
    folder.rootOutputIndex < folder.outputTotal ∧
      folder.rootOutputIndex ∉ folder.boundOutputs :=
  (RawFolder.unmarked_eq_singleton.mp h.root).1

theorem boundTo_eq_none (h : folder.Scheduled) {i : Nat} :
    folder.boundTo i = none ↔ i ∉ folder.boundInputs := by
  rw [Option.eq_none_iff_forall_ne_some]
  constructor
  · intro hnone hmem
    obtain ⟨pair, hpair, rfl⟩ := List.mem_map.mp hmem
    exact hnone _ ((boundTo_eq_some h).mpr hpair)
  · exact fun hnot o hbound => hnot (List.mem_map.mpr ⟨_, (boundTo_eq_some h).mp hbound, rfl⟩)

theorem destination_eq_none (h : folder.Scheduled) {o : Nat} :
    folder.destination o = none ↔ o ∉ folder.boundOutputs := by
  rw [Option.eq_none_iff_forall_ne_some]
  constructor
  · intro hnone hmem
    obtain ⟨pair, hpair, rfl⟩ := List.mem_map.mp hmem
    exact hnone _ ((destination_eq_some h).mpr hpair)
  · exact fun hnot i hbound =>
      hnot (List.mem_map.mpr ⟨_, (destination_eq_some h).mp hbound, rfl⟩)

theorem portsAt_nil (values : Nat → List UInt8) (h : folder.Scheduled) :
    { inputs := table folder.inputTotal fun i =>
        if i ∈ folder.packedInputIndices then some (packed i) else none,
      outputs := List.replicate folder.outputTotal none,
      destinations := table folder.outputTotal folder.destination } =
      folder.portsAt packed values [] := by
  have hinputs : (table folder.inputTotal fun i =>
        if i ∈ folder.packedInputIndices then some (packed i) else none) =
      table folder.inputTotal (folder.inputSlot packed values []) := by
    refine table_congr fun i hi => ?_
    have hfree : ¬∃ c ∈ [], folder.reader i = some c := by simp
    rw [inputSlot, if_neg hfree]
    cases hbound : folder.boundTo i with
    | none =>
      have hunbound := (boundTo_eq_none h).mp hbound
      rcases h.partition i hi with hx | hx
      · exact absurd hx.1 hunbound
      · rw [if_pos hx.1]
    | some o =>
      have hmem : i ∈ folder.boundInputs := by
        by_contra hnot
        rw [(boundTo_eq_none h).mpr hnot] at hbound
        cases hbound
      rcases h.partition i hi with hx | hx
      · rw [if_neg hx.2]
        rfl
      · exact absurd hmem hx.2
  have houtputs : List.replicate folder.outputTotal none =
      table folder.outputTotal (folder.outputSlot values []) := by
    rw [replicate_eq_table]
    exact table_congr fun o _ => (if_neg fun hin => absurd hin.1 List.not_mem_nil).symm
  rw [hinputs, houtputs]
  rfl

theorem takeRoot_eq_ok (h : folder.Scheduled) (hone : folder.OneOutput) :
    takeRoot folder (folder.portsAt packed values folder.topologicalCoderOrder) =
      .ok (values folder.rootOutputIndex) := by
  obtain ⟨hroot, hunbound⟩ := root_lt h
  have hrun : ∀ o < folder.outputTotal, o ∈ folder.topologicalCoderOrder := by
    intro o ho
    rw [hone.outputTotal_eq] at ho
    exact (mem_order h).mpr ho
  have hinputs : ¬((folder.portsAt packed values folder.topologicalCoderOrder).inputs.any
      Option.isSome = true) := by
    show ¬((table _ _).any _ = true)
    rw [any_table]
    intro hleft
    obtain ⟨i, hi, hsome⟩ := hleft
    obtain ⟨c, hc, hreader⟩ := exists_reader hi
    rw [inputSlot, if_pos ⟨c, (mem_order h).mpr hc, hreader⟩] at hsome
    cases hsome
  have hslot : folder.outputSlot values folder.topologicalCoderOrder folder.rootOutputIndex =
      some (values folder.rootOutputIndex) :=
    if_pos ⟨hrun _ hroot, (destination_eq_none h).mpr hunbound⟩
  have hget : (folder.portsAt packed values folder.topologicalCoderOrder).outputs[
      folder.rootOutputIndex]? = some (some (values folder.rootOutputIndex)) := by
    show (table _ _)[_]? = _
    rw [getElem?_table_of_lt hroot, hslot]
  have hothers : ¬(((folder.portsAt packed values folder.topologicalCoderOrder).outputs.set
      folder.rootOutputIndex none).any Option.isSome = true) := by
    show ¬(((table _ _).set _ _).any _ = true)
    rw [set_table, any_table]
    intro hleft
    obtain ⟨o, ho, hsome⟩ := hleft
    by_cases heq : o = folder.rootOutputIndex
    · subst heq
      rw [Function.update_self] at hsome
      cases hsome
    · have hbound : folder.destination o ≠ none := by
        intro hnone
        exact heq ((RawFolder.unmarked_eq_singleton.mp h.root).2 o
          ⟨ho, (destination_eq_none h).mp hnone⟩)
      rw [Function.update_of_ne heq, outputSlot, if_neg fun hin => hbound hin.2] at hsome
      cases hsome
  rw [takeRoot, rejectIf_of_not hinputs, ok_bind, hget, okOr_bind, okOr_bind,
    rejectIf_of_not hothers]
  rfl

theorem folderCrcMismatch_granted (crc : Option UInt32) (bytes : List UInt8) :
    (folderCrcMismatch crc bytes).granted =
      .ok (crc.any fun expected => Crc32.checksum bytes != expected) := by
  cases crc with
  | none => rfl
  | some expected =>
    rw [folderCrcMismatch, granted_bind, checksumWithControl_granted]
    rfl

section Result

variable (decodeCoder : CoderDecoder) (archiveBytes : List UInt8) (streams : StreamsInfo)
  (folderIndex : Nat) (limits : Limits) (maximumOutput : Nat)

variable (h : folder.Scheduled)
include h

theorem packedInput_of_mem {port : Nat × Nat} (hport : port ∈ folder.packedInputIndices.zipIdx) :
    folder.packedInput archiveBytes streams port.1 =
      packedSlice archiveBytes streams (folder.firstPackStream + port.2) := by
  obtain ⟨input, ordinal⟩ := port
  have hget : folder.packedInputIndices[ordinal]? = some input :=
    List.mem_zipIdx_iff_getElem?.mp hport
  obtain ⟨hlt, rfl⟩ := List.getElem?_eq_some_iff.mp hget
  rw [packedInput]
  simp only
  rw [List.Nodup.idxOf_getElem h.packed.2]

theorem totalPortCount_inputs :
    totalPortCount (folder.coders.map Coder.inputCount) 0 = .ok folder.inputTotal := by
  have hlt := h.ports_lt
  rw [totalPortCount_eq_ok _ _ (by rw [Nat.zero_add, ← inputTotal]; omega), Nat.zero_add]
  rfl

theorem totalPortCount_outputs :
    totalPortCount (folder.coders.map Coder.outputCount) 0 = .ok folder.outputTotal := by
  have hlt := h.ports_lt
  rw [totalPortCount_eq_ok _ _ (by rw [Nat.zero_add, ← outputTotal]; omega), Nat.zero_add]
  rfl

theorem loadPackedInputs_cases :
    ((∀ port ∈ folder.packedInputIndices.zipIdx,
        (packedBytes archiveBytes streams folder.firstPackStream port.2).granted =
          .ok (folder.packedInput archiveBytes streams port.1)) ∧
      (loadPackedInputs archiveBytes streams folder.firstPackStream
          folder.packedInputIndices.zipIdx (List.replicate folder.inputTotal none)).granted =
        .ok (table folder.inputTotal fun i => if i ∈ folder.packedInputIndices
          then some (folder.packedInput archiveBytes streams i) else none)) ∨
    ∃ e, (loadPackedInputs archiveBytes streams folder.firstPackStream
        folder.packedInputIndices.zipIdx (List.replicate folder.inputTotal none)).granted =
          .error e ∧
      ∃ ordinal < folder.packedInputIndices.length,
        (packedBytes archiveBytes streams folder.firstPackStream ordinal).granted = .error e := by
  have hfst : folder.packedInputIndices.zipIdx.map Prod.fst = folder.packedInputIndices :=
    List.zipIdx_map_fst 0 _
  have hload := loadPackedInputs_spec archiveBytes streams folder.firstPackStream
    folder.inputTotal (folder.packedInput archiveBytes streams)
    folder.packedInputIndices.zipIdx (fun _ => none)
    (fun port hport => (h.packed.1 _ (hfst ▸ List.mem_map_of_mem hport)).1)
    (hfst.symm ▸ h.packed.2) (fun _ _ => rfl)
    (fun port hport bytes hbytes => by
      rw [packedInput_of_mem archiveBytes streams h hport]
      exact (packedBytes_eq_ok.mp hbytes).2)
  rw [hfst] at hload
  rw [replicate_eq_table]
  rcases hload with hload | ⟨e, hload, port, hport, herror⟩
  · exact .inl hload
  · exact .inr ⟨e, hload, port.2,
      (List.getElem?_eq_some_iff.mp (List.mem_zipIdx_iff_getElem?.mp hport)).1, herror⟩

theorem decodeFolder_cases (hfolder : streams.folders[folderIndex]? = some folder) :
    (folder.Checked archiveBytes streams limits maximumOutput ∧
      (decodeFolder decodeCoder archiveBytes streams folderIndex limits maximumOutput).granted =
        (folder.network decodeCoder archiveBytes streams limits maximumOutput).run
          folder.topologicalCoderOrder (fun _ => []) >>= fun values =>
            .ok (folder.decoded (values folder.rootOutputIndex))) ∨
    ¬folder.Checked archiveBytes streams limits maximumOutput ∧
      ∃ e, (decodeFolder decodeCoder archiveBytes streams folderIndex limits
          maximumOutput).granted = .error e ∧
        ((checkFolder folder limits maximumOutput).granted = .error e ∨
          ∃ ordinal < folder.packedInputIndices.length,
            (packedBytes archiveBytes streams folder.firstPackStream ordinal).granted =
              .error e) := by
  have hroot : folder.rootOutputIndex < folder.unpackSizes.length := by
    rw [h.sizes]
    exact (root_lt h).1
  rw [decodeFolder, granted_lift_bind, hfolder, okOr_bind, granted_bind]
  cases hcheck : (checkFolder folder limits maximumOutput).granted with
  | error e =>
    refine .inr ⟨fun hchecked => ?_, e, rfl, .inl rfl⟩
    rw [(checkFolder_eq_ok hroot).mpr ⟨hchecked.dictionary, hchecked.rootSize,
      hchecked.registered⟩] at hcheck
    cases hcheck
  | ok u =>
    obtain ⟨hdictionary, hrootSize, hregistered⟩ := (checkFolder_eq_ok hroot).mp hcheck
    have hone : folder.OneOutput := fun coder hcoder =>
      outputCount_of_registered (hregistered coder hcoder)
    rw [ok_bind, granted_lift_bind, totalPortCount_inputs h, ok_bind, granted_lift_bind,
      totalPortCount_outputs h, ok_bind, granted_bind, outputDestinations_eq_ok h, ok_bind,
      granted_bind]
    rcases loadPackedInputs_cases archiveBytes streams h with
      ⟨hall, hload⟩ | ⟨e, hload, ordinal, hordinal, herror⟩
    · refine .inl ⟨⟨hdictionary, hrootSize, hregistered, fun ordinal hordinal => ?_⟩, ?_⟩
      · have hport : (folder.packedInputIndices[ordinal], ordinal) ∈
            folder.packedInputIndices.zipIdx :=
          List.mem_zipIdx_iff_getElem?.mpr (List.getElem?_eq_getElem hordinal)
        exact (packedBytes_eq_ok.mp (hall _ hport)).1
      · rw [hload, ok_bind, granted_bind,
          portsAt_nil (fun _ => []) h,
          runCoders_eq decodeCoder archiveBytes streams limits maximumOutput h hone _
            (fun c hc => (mem_order h).mp hc) (follows_order h hone)
            (fun d hd => absurd hd List.not_mem_nil), List.nil_append]
        cases (folder.network decodeCoder archiveBytes streams limits maximumOutput).run
          folder.topologicalCoderOrder (fun _ => []) with
        | error e => rfl
        | ok values =>
          rw [ok_bind, ok_bind, granted_lift_bind, takeRoot_eq_ok h hone, ok_bind, granted_bind,
            folderCrcMismatch_granted]
          rfl
    · refine .inr ⟨fun hchecked => ?_, e, by rw [hload]; rfl, .inr ⟨ordinal, hordinal, herror⟩⟩
      rw [packedBytes_eq_ok.mpr ⟨hchecked.packed ordinal hordinal, rfl⟩] at herror
      cases herror

end Result

/-- `validate_folder` accepted the folder. -/
def Accepted (folder : Folder) : Prop :=
  ∃ raw folderCrc firstPackStream limits draft substreams,
    (validateFolder raw folderCrc firstPackStream limits).granted = .ok draft ∧
      folder = draft.toFolder substreams

theorem Accepted.scheduled (h : folder.Accepted) : folder.Scheduled := by
  obtain ⟨raw, folderCrc, first, limits, draft, substreams, hdraft, rfl⟩ := h
  exact validateFolder_scheduled hdraft substreams

end Folder

/-- For an accepted folder, `decode_folder` yields the recursive value of the
root output, and it does so exactly when its checks pass and every coder of the
folder has a value.  An error is one of a check, of a packed stream or of
`decode_coder`: the failures of the port tables are never reached. -/
theorem decodeFolder_iff_evaluates (decodeCoder : CoderDecoder) (archiveBytes : List UInt8)
    (streams : StreamsInfo) (folderIndex : Nat) (limits : Limits) (maximumOutput : Nat)
    (folder : Folder) (haccepted : folder.Accepted)
    (hfolder : streams.folders[folderIndex]? = some folder) :
    (∀ decoded,
      (decodeFolder decodeCoder archiveBytes streams folderIndex limits maximumOutput).granted =
          .ok decoded ↔
        folder.Checked archiveBytes streams limits maximumOutput ∧
        (∀ c < folder.coders.length, ∃ bytes,
          (folder.network decodeCoder archiveBytes streams limits maximumOutput).Evaluates c
            bytes) ∧
        (folder.network decodeCoder archiveBytes streams limits maximumOutput).Evaluates
          folder.rootOutputIndex decoded.bytes ∧
        decoded = folder.decoded decoded.bytes) ∧
    ∀ e, (decodeFolder decodeCoder archiveBytes streams folderIndex limits
        maximumOutput).granted = .error e →
      (checkFolder folder limits maximumOutput).granted = .error e ∨
      (∃ ordinal < folder.packedInputIndices.length,
        (packedBytes archiveBytes streams folder.firstPackStream ordinal).granted = .error e) ∨
      ∃ coder ∈ folder.coders, ∃ inputs expected maximum,
        (decodeCoder coder inputs expected maximum).granted = .error e := by
  have h := haccepted.scheduled
  rcases Folder.decodeFolder_cases decodeCoder archiveBytes streams folderIndex limits
    maximumOutput h hfolder with ⟨hchecked, hdecode⟩ | ⟨hchecked, e, hdecode, hcause⟩
  · have hone : folder.OneOutput := fun coder hcoder =>
      outputCount_of_registered (hchecked.registered coder hcoder)
    have hfollows :
        (folder.network decodeCoder archiveBytes streams limits maximumOutput).Follows []
          folder.topologicalCoderOrder :=
      Folder.follows_order h hone
    rw [hdecode]
    cases hrun : (folder.network decodeCoder archiveBytes streams limits maximumOutput).run
      folder.topologicalCoderOrder (fun _ => []) with
    | ok values =>
      have hsettled := Network.run_settled hfollows (Network.settled_nil _) hrun
      have hall : ∀ c < folder.coders.length,
          (folder.network decodeCoder archiveBytes streams limits maximumOutput).Evaluates c
            (values c) := fun c hc => hsettled c ((Folder.mem_order h).mpr hc)
      have hroot := (Folder.root_lt h).1
      rw [hone.outputTotal_eq] at hroot
      refine ⟨fun decoded => ⟨fun hok => ?_, fun hspec => ?_⟩, fun e herror => (by cases herror)⟩
      · cases hok
        exact ⟨hchecked, fun c hc => ⟨_, hall c hc⟩, hall _ hroot, rfl⟩
      · obtain ⟨-, -, hvalue, heq⟩ := hspec
        rw [heq, hvalue.unique (hall _ hroot)]
        rfl
    | error e =>
      obtain ⟨c, hc, ⟨inputs, happly⟩, hnone⟩ :=
        Network.run_error hfollows (Network.settled_nil _) hrun
      have hlt := (Folder.mem_order h).mp hc
      refine ⟨fun decoded => ⟨fun hok => (by cases hok), fun hspec => ?_⟩, fun e' herror => ?_⟩
      · obtain ⟨bytes, hbytes⟩ := hspec.2.1 c hlt
        exact absurd hbytes (hnone bytes)
      · cases herror
        simp only [Folder.network, List.getElem?_eq_getElem hlt] at happly
        exact .inr (.inr ⟨_, List.getElem_mem hlt, _, _, _, happly⟩)
  · rw [hdecode]
    refine ⟨fun decoded => ⟨fun hok => (by cases hok), fun hspec => absurd hspec.1 hchecked⟩,
      fun e' herror => ?_⟩
    cases herror
    rcases hcause with hcheck | hpacked
    · exact .inl hcheck
    · exact .inr (.inl hpacked)

def copyFolder : Folder where
  coders := [⟨methodCopy, 0, 1, 0, 1, [], none⟩]
  bindPairs := []
  packedInputIndices := [0]
  unpackSizes := [some 3]
  rootOutputIndex := 0
  topologicalCoderOrder := [0]
  crc := none
  substreams := []
  dictionaryBytes := 0
  firstPackStream := 0

def copyStreams (crc : Option UInt32) : StreamsInfo where
  packPosition := 0
  packStreams := [⟨0, some 3, crc⟩]
  folders := [copyFolder]
  substreamCount := 0

/-- `decode_coder` on a Copy coder. -/
def copyCoder : CoderDecoder := fun _ inputs _ _ => copyBytes inputs.flatten

theorem copyFolder_accepted : copyFolder.Accepted :=
  ⟨⟨[⟨methodCopy, 1, 1, []⟩], 1, 1, [], 1, none, [3]⟩, none, 0, Limits.default, _, [], rfl, rfl⟩

/-- A Delta coder that reads what a Copy coder writes. -/
def chainFolder : Folder :=
  { copyFolder with
    coders := [⟨methodDelta, 0, 1, 0, 1, [0], none⟩, ⟨methodCopy, 1, 1, 1, 1, [], none⟩]
    bindPairs := [⟨0, 1⟩]
    packedInputIndices := [1]
    unpackSizes := [some 3, some 3]
    topologicalCoderOrder := [1, 0] }

def chainStreams : StreamsInfo := { copyStreams none with folders := [chainFolder] }

/-- `decode_coder` on a Copy coder and on a Delta coder. -/
def chainCoder : CoderDecoder := fun coder inputs expected maximum =>
  if coder.methodId = methodDelta then Filter.decodeDelta inputs.flatten coder.properties
  else copyCoder coder inputs expected maximum

theorem chainFolder_accepted : chainFolder.Accepted :=
  ⟨⟨[⟨methodDelta, 1, 1, [0]⟩, ⟨methodCopy, 1, 1, []⟩], 2, 2, [⟨0, 1⟩], 1, none, [3, 3]⟩, none, 0,
    Limits.default, _, [], rfl, rfl⟩

/-- The bytes `1, 1, 1` go through both coders. -/
theorem decodeFolder_iff_evaluates_chainFolder :
    (decodeFolder chainCoder [1, 1, 1] chainStreams 0 Limits.default 3).granted =
        .ok ⟨[1, 2, 3], false, false⟩ ∧
      (chainFolder.network chainCoder [1, 1, 1] chainStreams Limits.default 3).Evaluates 0
        [1, 2, 3] := by
  have hdecode : (decodeFolder chainCoder [1, 1, 1] chainStreams 0 Limits.default 3).granted =
      .ok ⟨[1, 2, 3], false, false⟩ := by
    decide +kernel
  exact ⟨hdecode, (((decodeFolder_iff_evaluates chainCoder [1, 1, 1] chainStreams 0
    Limits.default 3 chainFolder chainFolder_accepted rfl).1 _).mp hdecode).2.2.1⟩

/-- A packed stream that misses its digest fails the folder, although every
coder has a value. -/
theorem decodeFolder_packed_digest :
    copyFolder.Accepted ∧ (copyStreams (some 0)).folders[0]? = some copyFolder ∧
      (∀ c < copyFolder.coders.length, ∃ bytes, (copyFolder.network copyCoder [1, 2, 3]
        (copyStreams (some 0)) Limits.default 3).Evaluates c bytes) ∧
      (decodeFolder copyCoder [1, 2, 3] (copyStreams (some 0)) 0 Limits.default 3).granted =
        .error (.checksum .packedStream none) := by
  refine ⟨copyFolder_accepted, rfl, fun c hc => ⟨[1, 2, 3], ?_⟩, by decide +kernel⟩
  obtain rfl : c = 0 := Nat.lt_one_iff.mp hc
  refine .node 0 (fun _ => []) _ (fun d huses => ?_) rfl
  obtain ⟨k, hk, hsource⟩ := huses
  obtain rfl : k = 0 := Nat.lt_one_iff.mp hk
  cases hsource

end Unpackio
