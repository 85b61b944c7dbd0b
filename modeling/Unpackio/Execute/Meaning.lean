/-
`decode_folder` computes the recursive meaning of the folder graph.

The network of a folder has its coders as nodes.  The port tables of a running
folder are determined by the coders that have run and their values, and one
round of the coder loop fires one node.
-/
import Unpackio.Execute.Ports
import Unpackio.Foundation.Dataflow

namespace Unpackio

open Function (update update_of_ne update_self)
open List (mem_append mem_singleton)
open Prog (granted_bind granted_bind_eq_ok granted_lift_bind)
open Except (ok_bind)
open Table

def packedSlice (archiveBytes : List UInt8) (streams : StreamsInfo) (streamIndex : Nat) :
    List UInt8 :=
  match streams.packStreams[streamIndex]? with
  | some stream => (archiveBytes.drop stream.offset).take (stream.size.getD 0)
  | none => []

def PackedIntact (archiveBytes : List UInt8) (streams : StreamsInfo) (streamIndex : Nat) : Prop :=
  ∃ stream size, streams.packStreams[streamIndex]? = some stream ∧ stream.size = some size ∧
    stream.offset + size < 2 ^ 64 ∧ stream.offset + size ≤ archiveBytes.length ∧
    ∀ crc, stream.crc = some crc →
      Crc32.checksum (packedSlice archiveBytes streams streamIndex) = crc

namespace Folder

def packedInput (folder : Folder) (archiveBytes : List UInt8) (streams : StreamsInfo)
    (input : Nat) : List UInt8 :=
  packedSlice archiveBytes streams
    (folder.firstPackStream + folder.packedInputIndices.idxOf input)

def network (folder : Folder) (decodeCoder : CoderDecoder) (archiveBytes : List UInt8)
    (streams : StreamsInfo) (limits : Limits) (maximumOutput : Nat) :
    Network (List UInt8) Error where
  arity c := folder.coders[c]?.elim 0 Coder.inputCount
  source c k :=
    let input := folder.coders[c]?.elim k fun coder => coder.inputStart + k
    match folder.boundTo input with
    | some output => .inr output
    | none => .inl (folder.packedInput archiveBytes streams input)
  apply c inputs :=
    match folder.coders[c]? with
    | some coder =>
      (decodeCoder coder inputs (folder.unpackSizes.getD c none)
        (coderMaximum folder limits maximumOutput c)).granted
    | none => .error (formatError "coder index is out of range during execution")

/-- What `decode_folder` checks of a folder and its packed streams. -/
structure Checked (folder : Folder) (archiveBytes : List UInt8) (streams : StreamsInfo)
    (limits : Limits) (maximumOutput : Nat) : Prop where
  dictionary : folder.dictionaryBytes ≤ limits.maxDictionaryBytes
  rootSize : ∀ size, folder.unpackSizes[folder.rootOutputIndex]? = some (some size) →
    size ≤ maximumOutput
  registered : ∀ coder ∈ folder.coders, validateCoderRegistration coder = .ok ()
  packed : ∀ ordinal < folder.packedInputIndices.length,
    folder.firstPackStream + ordinal < 2 ^ 64 ∧
      PackedIntact archiveBytes streams (folder.firstPackStream + ordinal)

/-- The outcome of `decode_folder` for the bytes of the root output. -/
def decoded (folder : Folder) (bytes : List UInt8) : DecodedFolder where
  bytes := bytes
  crcMismatch := folder.crc.any fun expected => Crc32.checksum bytes != expected
  encrypted := folder.coders.any fun coder => coder.methodId = methodAes

end Folder

/-! ## Checks -/

theorem packedBytes_eq_ok {archiveBytes bytes : List UInt8} {streams : StreamsInfo}
    {first ordinal : Nat} :
    (packedBytes archiveBytes streams first ordinal).granted = .ok bytes ↔
      (first + ordinal < 2 ^ 64 ∧ PackedIntact archiveBytes streams (first + ordinal)) ∧
        bytes = packedSlice archiveBytes streams (first + ordinal) := by
  simp only [packedBytes, granted_bind_eq_ok, Prog.granted_lift_eq_ok, okOr_eq_ok,
    checkedAdd_eq_some, checkedRange_eq_ok, PackedIntact]
  constructor
  · intro h
    obtain ⟨_, ⟨hlt, rfl⟩, stream, hstream, size, hsize, slice, ⟨h64, hlen, hslice⟩, h⟩ := h
    have hvalue : packedSlice archiveBytes streams (first + ordinal) = slice := by
      rw [packedSlice, hstream, ← hslice, List.drop_take, Nat.add_sub_cancel_left]
      simp only [hsize, Option.getD_some]
    rw [hvalue]
    cases hcrc : stream.crc with
    | none =>
      rw [hcrc] at h
      cases Prog.granted_pure_eq_ok.mp h
      exact ⟨⟨hlt, stream, size, hstream, hsize, h64, hlen, fun crc hsome => by
        rw [hcrc] at hsome
        cases hsome⟩, rfl⟩
    | some expected =>
      rw [hcrc] at h
      obtain ⟨_, hactual, h⟩ := granted_bind_eq_ok.mp h
      obtain ⟨_, hmatch, h⟩ := granted_bind_eq_ok.mp h
      cases Prog.granted_pure_eq_ok.mp h
      rw [checksumWithControl_granted] at hactual
      cases hactual
      have hmatch := not_not.mp (rejectIf_eq_ok.mp (Prog.granted_lift_eq_ok.mp hmatch))
      exact ⟨⟨hlt, stream, size, hstream, hsize, h64, hlen, fun crc hsome => by
        rw [hcrc] at hsome
        cases hsome
        exact hmatch⟩, rfl⟩
  · intro h
    obtain ⟨⟨hlt, stream, size, hstream, hsize, h64, hlen, hcrc⟩, rfl⟩ := h
    have hvalue : (archiveBytes.take (stream.offset + size)).drop stream.offset =
        packedSlice archiveBytes streams (first + ordinal) := by
      rw [packedSlice, hstream, List.drop_take, Nat.add_sub_cancel_left]
      simp only [hsize, Option.getD_some]
    refine ⟨_, ⟨hlt, rfl⟩, stream, hstream, size, hsize, _, ⟨h64, hlen, hvalue⟩, ?_⟩
    cases hsome : stream.crc with
    | none => rfl
    | some expected =>
      have hmatch := hcrc expected hsome
      refine granted_bind_eq_ok.mpr ⟨_, checksumWithControl_granted _, ?_⟩
      refine granted_bind_eq_ok.mpr ⟨(), ?_, rfl⟩
      exact rejectIf_of_not (not_not_intro hmatch) _

theorem registerCoders_eq_ok (coders : List Coder) :
    (registerCoders coders).granted = .ok () ↔
      ∀ coder ∈ coders, validateCoderRegistration coder = .ok () := by
  induction coders with
  | nil => exact ⟨fun _ _ h => absurd h List.not_mem_nil, fun _ => rfl⟩
  | cons coder coders ih =>
    rw [registerCoders, List.forall_mem_cons, ← ih]
    simp only [granted_bind_eq_ok, Prog.granted_lift_eq_ok, checkpoint_granted]
    constructor
    · intro h
      obtain ⟨_, hcoder, _, -, hrest⟩ := h
      exact ⟨hcoder, hrest⟩
    · exact fun h => ⟨(), h.1, (), trivial, h.2⟩

theorem outputCount_of_registered {coder : Coder}
    (h : validateCoderRegistration coder = .ok ()) : coder.outputCount = 1 := by
  obtain ⟨_, hcount, -⟩ := Except.bind_eq_ok.mp h
  exact not_not.mp (rejectIf_eq_ok.mp hcount)

theorem checkFolder_eq_ok {folder : Folder} {limits : Limits} {maximumOutput : Nat}
    (hroot : folder.rootOutputIndex < folder.unpackSizes.length) :
    (checkFolder folder limits maximumOutput).granted = .ok () ↔
      folder.dictionaryBytes ≤ limits.maxDictionaryBytes ∧
      (∀ size, folder.unpackSizes[folder.rootOutputIndex]? = some (some size) →
        size ≤ maximumOutput) ∧
      ∀ coder ∈ folder.coders, validateCoderRegistration coder = .ok () := by
  simp only [checkFolder, granted_bind_eq_ok, Prog.granted_lift_eq_ok, okOr_eq_ok,
    checkLimit_eq_ok, rejectIf_eq_ok, registerCoders_eq_ok]
  have hget := List.getElem?_eq_getElem hroot
  constructor
  · intro h
    obtain ⟨_, hdictionary, rootSize, hsize, _, hmaximum, hregistered⟩ := h
    refine ⟨hdictionary, fun size hsome => ?_, hregistered⟩
    rw [hsize] at hsome
    cases hsome
    by_contra hlt
    exact hmaximum ⟨size, rfl, Nat.lt_of_not_le hlt⟩
  · intro h
    obtain ⟨hdictionary, hmaximum, hregistered⟩ := h
    refine ⟨(), hdictionary, _, hget, (), ?_, hregistered⟩
    intro hlarge
    obtain ⟨size, hsome, hlt⟩ := hlarge
    have hle := hmaximum size (by rw [hget]; exact congrArg some hsome)
    omega

namespace Folder

def reader (folder : Folder) (input : Nat) : Option Nat :=
  (owners (folder.coders.map Coder.inputCount) 0)[input]?

theorem reader_eq_some {folder : Folder} {c i : Nat} :
    folder.reader i = some c ↔ Owns (folder.coders.map Coder.inputCount) c i := by
  rw [reader, getElem?_owners]
  constructor
  · intro h
    obtain ⟨d, rfl, hd⟩ := h
    rwa [Nat.zero_add]
  · exact fun h => ⟨c, (Nat.zero_add c).symm, h⟩

/-- What an input port holds once the coders `done` have run. -/
def inputSlot (folder : Folder) (packed : Nat → List UInt8) (values : Nat → List UInt8)
    (done : List Nat) (input : Nat) : Option (List UInt8) :=
  if ∃ c ∈ done, folder.reader input = some c then none
  else
    match folder.boundTo input with
    | some output => if output ∈ done then some (values output) else none
    | none => some (packed input)

def outputSlot (folder : Folder) (values : Nat → List UInt8) (done : List Nat) (output : Nat) :
    Option (List UInt8) :=
  if output ∈ done ∧ folder.destination output = none then some (values output) else none

def destinationSlot (folder : Folder) (done : List Nat) (output : Nat) : Option Nat :=
  if output ∈ done then none else folder.destination output

/-- The port tables once the coders `done` have run with their values. -/
def portsAt (folder : Folder) (packed : Nat → List UInt8) (values : Nat → List UInt8)
    (done : List Nat) : Ports where
  inputs := table folder.inputTotal (folder.inputSlot packed values done)
  outputs := table folder.outputTotal (folder.outputSlot values done)
  destinations := table folder.outputTotal (folder.destinationSlot done)

def OneOutput (folder : Folder) : Prop := ∀ coder ∈ folder.coders, coder.outputCount = 1

variable {folder : Folder}

theorem OneOutput.sum_take (h : folder.OneOutput) {c : Nat} (hc : c ≤ folder.coders.length) :
    ((folder.coders.take c).map Coder.outputCount).sum = c := by
  have hones : (folder.coders.take c).map Coder.outputCount = List.replicate c 1 := by
    refine List.eq_replicate_iff.mpr ⟨by rw [List.length_map, List.length_take]; omega, ?_⟩
    intro count hcount
    obtain ⟨coder, hcoder, rfl⟩ := List.mem_map.mp hcount
    exact h coder (List.mem_of_mem_take hcoder)
  rw [hones, List.sum_replicate_nat, Nat.mul_one]

theorem OneOutput.outputTotal_eq (h : folder.OneOutput) :
    folder.outputTotal = folder.coders.length := by
  have hall := h.sum_take (Nat.le_refl _)
  rwa [List.take_length] at hall

theorem OneOutput.owns (h : folder.OneOutput) {o : Nat} (ho : o < folder.coders.length) :
    Owns (folder.coders.map Coder.outputCount) o o := by
  refine owns_iff.mpr ⟨1, ?_, ?_⟩
  · rw [List.getElem?_map, List.getElem?_eq_getElem ho, Option.map_some,
      h _ (List.getElem_mem ho)]
  · rw [← List.map_take, h.sum_take (Nat.le_of_lt ho)]
    omega

theorem reader_of_coder (h : folder.Scheduled) {c : Nat} {coder : Coder}
    (hcoder : folder.coders[c]? = some coder) {i : Nat} :
    folder.reader i = some c ↔
      coder.inputStart ≤ i ∧ i < coder.inputStart + coder.inputCount := by
  obtain ⟨hstart, -⟩ := h.starts c coder hcoder
  rw [reader_eq_some, owns_iff, List.getElem?_map, hcoder, Option.map_some, ← List.map_take,
    hstart, Nat.zero_add]
  constructor
  · intro hcount
    obtain ⟨count, heq, hrange⟩ := hcount
    cases heq
    exact hrange
  · exact fun hrange => ⟨_, rfl, hrange⟩

theorem exists_reader {i : Nat} (hi : i < folder.inputTotal) :
    ∃ c < folder.coders.length, folder.reader i = some c := by
  have hlen := length_owners (folder.coders.map Coder.inputCount) 0
  have hget := List.getElem?_eq_getElem (show i < (owners _ 0).length by rw [hlen]; exact hi)
  refine ⟨_, ?_, hget⟩
  have hlt := mem_owners_lt _ 0 _ (List.getElem_mem (show i < (owners _ 0).length by
    rw [hlen]
    exact hi))
  rwa [Nat.zero_add, List.length_map] at hlt

theorem inputStart_add_le (h : folder.Scheduled) {c : Nat} {coder : Coder}
    (hcoder : folder.coders[c]? = some coder) :
    coder.inputStart + coder.inputCount ≤ folder.inputTotal := by
  obtain ⟨hlt, rfl⟩ := List.getElem?_eq_some_iff.mp hcoder
  obtain ⟨hstart, -⟩ := h.starts c _ hcoder
  have hsplit : folder.inputTotal = ((folder.coders.take c).map Coder.inputCount).sum +
      ((folder.coders.drop c).map Coder.inputCount).sum := by
    rw [inputTotal, ← List.sum_append, ← List.map_append, List.take_append_drop]
  rw [List.drop_eq_getElem_cons hlt, List.map_cons, List.sum_cons] at hsplit
  omega

/-! ## One round of the coder loop -/

/-- Coder `c` can run after the coders `done`: it and they read no output of a
coder that has not run. -/
structure Ready (folder : Folder) (done : List Nat) (c : Nat) : Prop where
  unfired : c ∉ done
  sources : ∀ i o, folder.reader i = some c → folder.boundTo i = some o → o ∈ done
  closed : ∀ d ∈ done, ∀ i o, folder.reader i = some d → folder.boundTo i = some o → o ∈ done

variable {packed values : Nat → List UInt8} {done : List Nat} {c : Nat}

/-- A coder that has its input bound to output `c` runs after coder `c`. -/
theorem Ready.reader_notMem (hready : folder.Ready done c) {i d : Nat}
    (hbound : folder.boundTo i = some c) (hreader : folder.reader i = some d) :
    d ∉ done ++ [c] := by
  intro hd
  rw [mem_append, mem_singleton] at hd
  rcases hd with hd | rfl
  · exact hready.unfired (hready.closed d hd i c hreader hbound)
  · exact hready.unfired (hready.sources i d hreader hbound)

theorem inputSlot_fire (hready : folder.Ready done c) (output : List UInt8) (i : Nat) :
    folder.inputSlot packed (update values c output) (done ++ [c]) i =
      if folder.boundTo i = some c then
        if ∃ d ∈ done ++ [c], folder.reader i = some d then none else some output
      else if folder.reader i = some c then none
      else folder.inputSlot packed values done i := by
  unfold inputSlot
  have hor : (∃ d ∈ done ++ [c], folder.reader i = some d) ↔
      folder.reader i = some c ∨ ∃ d ∈ done, folder.reader i = some d := by
    simp only [mem_append, mem_singleton, or_and_right, exists_or, exists_eq_left, or_comm]
  simp only [hor]
  cases hbound : folder.boundTo i with
  | none =>
    rw [if_neg (show ¬(none = some c) by simp)]
    exact ite_or _ _ _ _
  | some o =>
    by_cases hoc : o = c
    · subst hoc
      rw [if_pos rfl]
      simp only [mem_append, mem_singleton, or_true, if_true, update_self]
    · rw [if_neg fun heq => hoc (Option.some.inj heq)]
      simp only [mem_append, mem_singleton, hoc, or_false, update_of_ne,
        ne_eq, not_false_eq_true]
      exact ite_or _ _ _ _

/-- The input ports of coder `c` hold the inputs of its node. -/
theorem inputSlot_of_ready {decodeCoder : CoderDecoder} {archiveBytes : List UInt8}
    {streams : StreamsInfo} {limits : Limits} {maximumOutput : Nat} (h : folder.Scheduled)
    (hready : folder.Ready done c) {coder : Coder} (hcoder : folder.coders[c]? = some coder)
    {k : Nat} (hk : k < coder.inputCount) :
    folder.inputSlot (folder.packedInput archiveBytes streams) values done
        (coder.inputStart + k) =
      some ((folder.network decodeCoder archiveBytes streams limits maximumOutput).input
        values c k) := by
  have hreader : folder.reader (coder.inputStart + k) = some c :=
    (reader_of_coder h hcoder).mpr (by omega)
  have hfree : ¬∃ d ∈ done, folder.reader (coder.inputStart + k) = some d := by
    intro hd
    obtain ⟨d, hd, hsame⟩ := hd
    rw [hreader, Option.some_inj] at hsame
    exact hready.unfired (hsame ▸ hd)
  rw [inputSlot, if_neg hfree, Network.input]
  simp only [network, hcoder, Option.elim_some]
  cases hbound : folder.boundTo (coder.inputStart + k) with
  | none => rfl
  | some o =>
    simp only
    rw [if_pos (hready.sources _ o hreader hbound)]

theorem storeOutput_eq_ok (h : folder.Scheduled) (hready : folder.Ready done c)
    (hc : c < folder.outputTotal) (output : List UInt8) :
    storeOutput c output
        { folder.portsAt packed values done with
          inputs := table folder.inputTotal fun i =>
            if folder.reader i = some c then none else folder.inputSlot packed values done i } =
      .ok (folder.portsAt packed (update values c output) (done ++ [c])) := by
  have hdestinations : (table folder.outputTotal (folder.destinationSlot done)).set c none =
      table folder.outputTotal (folder.destinationSlot (done ++ [c])) := by
    rw [set_table]
    refine table_congr fun o _ => ?_
    unfold destinationSlot
    by_cases ho : o = c
    · subst ho
      rw [update_self, if_pos (List.mem_append_right _ (mem_singleton.mpr rfl))]
    · rw [update_of_ne ho]
      simp only [mem_append, mem_singleton, ho, or_false]
  have hslot : folder.destinationSlot done c = folder.destination c := if_neg hready.unfired
  unfold storeOutput
  simp only [portsAt]
  rw [getElem?_table_of_lt hc, okOr_bind, hslot, hdestinations]
  cases hdestination : folder.destination c with
  | none =>
    have hunbound : ∀ i, folder.boundTo i ≠ some c := by
      intro i hbound
      have hmem := (destination_eq_some h).mpr ((boundTo_eq_some h).mp hbound)
      rw [hdestination] at hmem
      cases hmem
    have hinputs : table folder.inputTotal (fun i => if folder.reader i = some c then none
          else folder.inputSlot packed values done i) =
        table folder.inputTotal
          (folder.inputSlot packed (update values c output) (done ++ [c])) := by
      refine table_congr fun i _ => ?_
      rw [inputSlot_fire hready, if_neg (hunbound i)]
    have hempty : folder.outputSlot values done c = none :=
      if_neg fun hin => hready.unfired hin.1
    have houtputs : (table folder.outputTotal (folder.outputSlot values done)).set c
          (some output) =
        table folder.outputTotal
          (folder.outputSlot (update values c output) (done ++ [c])) := by
      rw [set_table]
      refine table_congr fun o _ => ?_
      unfold outputSlot
      by_cases ho : o = c
      · subst ho
        rw [update_self, update_self,
          if_pos ⟨List.mem_append_right _ (mem_singleton.mpr rfl), hdestination⟩]
      · rw [update_of_ne ho, update_of_ne ho]
        simp only [mem_append, mem_singleton, ho, or_false]
    rw [hinputs]
    simp only
    rw [getElem?_table_of_lt hc, okOr_bind, hempty, rejectIf_of_not (by decide), ok_bind, houtputs]
    rfl
  | some i =>
    have hmem := (destination_eq_some h).mp hdestination
    have hbound := (boundTo_eq_some h).mpr hmem
    have hi := (bindPair_lt h hmem).1
    have hopen : ¬∃ d ∈ done ++ [c], folder.reader i = some d := by
      intro hd
      obtain ⟨d, hd, hreader⟩ := hd
      exact hready.reader_notMem hbound hreader hd
    have hempty : (if folder.reader i = some c then none
        else folder.inputSlot packed values done i) = none := by
      have hfree : ¬∃ d ∈ done, folder.reader i = some d := by
        intro hd
        obtain ⟨d, hd, hreader⟩ := hd
        exact hopen ⟨d, List.mem_append_left _ hd, hreader⟩
      rw [inputSlot, if_neg hfree, hbound]
      simp only
      rw [if_neg hready.unfired, ite_self]
    have hinputs : (table folder.inputTotal (fun j => if folder.reader j = some c then none
          else folder.inputSlot packed values done j)).set i (some output) =
        table folder.inputTotal
          (folder.inputSlot packed (update values c output) (done ++ [c])) := by
      rw [set_table]
      refine table_congr fun j _ => ?_
      rw [inputSlot_fire hready]
      by_cases hj : j = i
      · subst hj
        rw [update_self, if_pos hbound, if_neg hopen]
      · have hunbound : folder.boundTo j ≠ some c := by
          intro hsame
          have hother := (destination_eq_some h).mpr ((boundTo_eq_some h).mp hsame)
          rw [hdestination, Option.some_inj] at hother
          exact hj hother.symm
        rw [update_of_ne hj, if_neg hunbound]
    have houtputs : table folder.outputTotal (folder.outputSlot values done) =
        table folder.outputTotal
          (folder.outputSlot (update values c output) (done ++ [c])) := by
      refine table_congr fun o _ => ?_
      unfold outputSlot
      by_cases ho : o = c
      · subst ho
        rw [hdestination, if_neg (by simp), if_neg (by simp)]
      · rw [update_of_ne ho]
        simp only [mem_append, mem_singleton, ho, or_false]
    simp only
    rw [getElem?_table_of_lt hi, okOr_bind, hempty, rejectIf_of_not (by decide), ok_bind, hinputs,
      houtputs]
    rfl

section Run

variable (decodeCoder : CoderDecoder) (archiveBytes : List UInt8) (streams : StreamsInfo)
  (limits : Limits) (maximumOutput : Nat)

theorem runCoder_eq (h : folder.Scheduled) (hone : folder.OneOutput)
    (hc : c < folder.coders.length) (hready : folder.Ready done c) :
    (runCoder decodeCoder folder limits maximumOutput c
        (folder.portsAt (folder.packedInput archiveBytes streams) values done)).granted =
      (folder.network decodeCoder archiveBytes streams limits maximumOutput).apply c
          ((folder.network decodeCoder archiveBytes streams limits maximumOutput).inputs
            values c) >>= fun output =>
        .ok (folder.portsAt (folder.packedInput archiveBytes streams)
          (update values c output) (done ++ [c])) := by
  have hcoder := List.getElem?_eq_getElem hc
  have hstart : folder.coders[c].outputStart = c := by
    rw [(h.starts c _ hcoder).2, hone.sum_take (Nat.le_of_lt hc), Nat.zero_add]
  have hct : c < folder.outputTotal := by
    rw [hone.outputTotal_eq]
    exact hc
  have hsize : folder.unpackSizes[c]? = some (folder.unpackSizes.getD c none) := by
    have hlt : c < folder.unpackSizes.length := by
      rw [h.sizes]
      exact hct
    rw [List.getD_eq_getElem?_getD, List.getElem?_eq_getElem hlt, Option.getD_some]
  have hend := inputStart_add_le h hcoder
  have htake := takeInputs_eq_ok folder.inputTotal folder.coders[c].inputStart
    ((folder.network decodeCoder archiveBytes streams limits maximumOutput).input values c)
    folder.coders[c].inputCount 0
    (folder.inputSlot (folder.packedInput archiveBytes streams) values done)
    hend (by have := h.ports_lt; omega)
    (fun k hk => by
      rw [Nat.zero_add]
      exact inputSlot_of_ready h hready hcoder hk)
  have hslots : table folder.inputTotal (fun i =>
        if folder.coders[c].inputStart + 0 ≤ i ∧
            i < folder.coders[c].inputStart + 0 + folder.coders[c].inputCount then none
        else folder.inputSlot (folder.packedInput archiveBytes streams) values done i) =
      table folder.inputTotal fun i => if folder.reader i = some c then none
        else folder.inputSlot (folder.packedInput archiveBytes streams) values done i := by
    refine table_congr fun i _ => ?_
    simp only [reader_of_coder h hcoder, Nat.add_zero]
  have hinputs : (List.range folder.coders[c].inputCount).map (fun k =>
        (folder.network decodeCoder archiveBytes streams limits maximumOutput).input values c
          (0 + k)) =
      (folder.network decodeCoder archiveBytes streams limits maximumOutput).inputs values c := by
    simp only [Network.inputs, Nat.zero_add]
    simp only [network, hcoder, Option.elim_some]
  rw [hslots, hinputs] at htake
  have happly : (folder.network decodeCoder archiveBytes streams limits maximumOutput).apply c
        ((folder.network decodeCoder archiveBytes streams limits maximumOutput).inputs values c) =
      (decodeCoder folder.coders[c]
        ((folder.network decodeCoder archiveBytes streams limits maximumOutput).inputs values c)
        (folder.unpackSizes.getD c none) (coderMaximum folder limits maximumOutput c)).granted := by
    conv => lhs; unfold network
    simp only [hcoder]
    rfl
  rw [happly, runCoder, checkpoint_bind, granted_lift_bind, hcoder, okOr_bind, granted_lift_bind,
    rejectIf_of_not (not_not_intro (hone _ (List.getElem_mem hc))), ok_bind, granted_lift_bind]
  have hports : (folder.portsAt (folder.packedInput archiveBytes streams) values done).inputs =
    table folder.inputTotal
      (folder.inputSlot (folder.packedInput archiveBytes streams) values done) := rfl
  rw [hports, htake, ok_bind, granted_lift_bind, hstart, hsize, okOr_bind, granted_bind]
  refine congrArg _ (funext fun output => ?_)
  exact storeOutput_eq_ok h hready hct output

end Run

end Folder

end Unpackio
