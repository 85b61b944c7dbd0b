/-
What `validate_folder` establishes about the ports and the coder order of a
folder.
-/
import Unpackio.Graph.WellFormed
import Unpackio.Validate

namespace Unpackio

open Prog (granted_bind_eq_ok granted_rest)

def PortsFrom (inputStart outputStart : Nat) (coders : List Coder) : Prop :=
  ∀ c coder, coders[c]? = some coder →
    coder.inputStart = inputStart + ((coders.take c).map Coder.inputCount).sum ∧
    coder.outputStart = outputStart + ((coders.take c).map Coder.outputCount).sum

theorem portsFrom_cons {inputStart outputStart : Nat} {coder : Coder} {coders : List Coder}
    (hinput : coder.inputStart = inputStart) (houtput : coder.outputStart = outputStart)
    (h : PortsFrom (inputStart + coder.inputCount) (outputStart + coder.outputCount) coders) :
    PortsFrom inputStart outputStart (coder :: coders) := by
  intro c
  cases c with
  | zero =>
    intro other hother
    cases hother
    exact ⟨hinput, houtput⟩
  | succ c =>
    intro other hother
    obtain ⟨hin, hout⟩ := h c other hother
    rw [List.take_succ_cons, List.map_cons, List.map_cons, List.sum_cons, List.sum_cons]
    omega

theorem validateCoders_spec {limits : Limits} (raws : List RawCoder)
    (inputStart outputStart dictionary : Nat) {r : List Coder × Nat × Nat × Nat}
    (h : (validateCoders limits raws inputStart outputStart dictionary).granted = .ok r) :
    r.1.map Coder.inputCount = raws.map RawCoder.inputStreams ∧
      r.1.map Coder.outputCount = raws.map RawCoder.outputStreams ∧
      PortsFrom inputStart outputStart r.1 := by
  induction raws generalizing inputStart outputStart dictionary r with
  | nil =>
    cases Prog.granted_pure_eq_ok.mp h
    exact ⟨rfl, rfl, fun c coder hc => (nomatch hc)⟩
  | cons raw raws ih =>
    rw [validateCoders] at h
    obtain ⟨_, h⟩ := granted_rest h
    obtain ⟨_, h⟩ := granted_rest h
    obtain ⟨_, h⟩ := granted_rest h
    obtain ⟨_, h⟩ := granted_rest h
    obtain ⟨_, h⟩ := granted_rest h
    obtain ⟨nextInput, hinput, h⟩ := granted_bind_eq_ok.mp h
    obtain ⟨nextOutput, houtput, h⟩ := granted_bind_eq_ok.mp h
    obtain ⟨⟨coders, _, _, _⟩, hcoders, h⟩ := granted_bind_eq_ok.mp h
    cases Prog.granted_pure_eq_ok.mp h
    obtain ⟨-, rfl⟩ := checkedAdd_eq_ok.mp hinput
    obtain ⟨-, rfl⟩ := checkedAdd_eq_ok.mp houtput
    obtain ⟨hin, hout, hports⟩ := ih _ _ _ hcoders
    refine ⟨?_, ?_, portsFrom_cons rfl rfl hports⟩
    · rw [List.map_cons, List.map_cons, hin]
    · rw [List.map_cons, List.map_cons, hout]

namespace Folder

def inputTotal (folder : Folder) : Nat := (folder.coders.map Coder.inputCount).sum

def outputTotal (folder : Folder) : Nat := (folder.coders.map Coder.outputCount).sum

def boundInputs (folder : Folder) : List Nat := folder.bindPairs.map BindPair.inputIndex

def boundOutputs (folder : Folder) : List Nat := folder.bindPairs.map BindPair.outputIndex

/-- The graph of a folder is well formed and its coder order is topological. -/
structure Scheduled (folder : Folder) : Prop where
  starts : PortsFrom 0 0 folder.coders
  ports_lt : folder.inputTotal + folder.outputTotal < 2 ^ 64
  sizes : folder.unpackSizes.length = folder.outputTotal
  inputs : Fresh folder.inputTotal [] folder.boundInputs
  outputs : Fresh folder.outputTotal [] folder.boundOutputs
  root : unmarked folder.outputTotal folder.boundOutputs = [folder.rootOutputIndex]
  packed : Fresh folder.inputTotal [] folder.packedInputIndices
  partition : ∀ i < folder.inputTotal, Xor (i ∈ folder.boundInputs) (i ∈ folder.packedInputIndices)
  order_perm : folder.topologicalCoderOrder.Perm (List.range folder.coders.length)
  before : ∀ pair ∈ folder.bindPairs, ∀ a b,
    Owns (folder.coders.map Coder.outputCount) a pair.outputIndex →
    Owns (folder.coders.map Coder.inputCount) b pair.inputIndex →
      folder.topologicalCoderOrder.idxOf a < folder.topologicalCoderOrder.idxOf b

end Folder

theorem validateFolder_scheduled {raw : RawFolder} {folderCrc : Option UInt32} {first : Nat}
    {limits : Limits} {draft : FolderDraft}
    (h : (validateFolder raw folderCrc first limits).granted = .ok draft)
    (substreams : List Substream) : (draft.toFolder substreams).Scheduled := by
  obtain ⟨_, h⟩ := granted_rest h
  obtain ⟨⟨coders, _, _, dictionary⟩, hcoders, h⟩ := granted_bind_eq_ok.mp h
  obtain ⟨_, h⟩ := granted_rest h
  obtain ⟨graph, hgraph, h⟩ := granted_bind_eq_ok.mp h
  obtain ⟨_, hsizes, h⟩ := granted_bind_eq_ok.mp h
  obtain ⟨rootSize, -, h⟩ := granted_bind_eq_ok.mp h
  cases Prog.granted_pure_eq_ok.mp h
  obtain ⟨hin, hout, hports⟩ := validateCoders_spec _ _ _ _ hcoders
  obtain ⟨htotals, hchecked, horder⟩ := RawFolder.validateFolderGraph_eq_ok.mp hgraph
  obtain ⟨hperm, hbefore⟩ :=
    (RawFolder.coderOrder_spec htotals hchecked.inputs hchecked.outputs).2 _ horder
  have hinTotal : (coders.map Coder.inputCount).sum = raw.inputStreams := by
    rw [hin, htotals.inputs_eq]
  have houtTotal : (coders.map Coder.outputCount).sum = raw.outputStreams := by
    rw [hout, htotals.outputs_eq]
  have hboundIn : graph.bindPairs.map BindPair.inputIndex = raw.boundInputs := by
    rw [hchecked.bindPairs, List.map_map]
    rfl
  have hboundOut : graph.bindPairs.map BindPair.outputIndex = raw.boundOutputs := by
    rw [hchecked.bindPairs, List.map_map]
    rfl
  have hlength : coders.length = raw.coders.length := by
    have hlen := congrArg List.length hin
    rwa [List.length_map, List.length_map] at hlen
  have hsizes := not_not.mp (rejectIf_eq_ok.mp (Prog.granted_lift_eq_ok.mp hsizes))
  constructor
  case starts => exact hports
  case ports_lt =>
    show (coders.map _).sum + (coders.map _).sum < _
    rw [hinTotal, houtTotal]
    exact htotals.ports_lt
  case sizes =>
    show (raw.unpackSizes.map optionalSize).length = (coders.map _).sum
    rw [List.length_map, hsizes, houtTotal]
  case inputs =>
    show Fresh (coders.map _).sum [] (graph.bindPairs.map _)
    rw [hinTotal, hboundIn]
    exact hchecked.inputs
  case outputs =>
    show Fresh (coders.map _).sum [] (graph.bindPairs.map _)
    rw [houtTotal, hboundOut]
    exact hchecked.outputs
  case root =>
    show unmarked (coders.map _).sum (graph.bindPairs.map _) = _
    rw [houtTotal, hboundOut]
    exact hchecked.root
  case packed =>
    show Fresh (coders.map _).sum [] graph.packedInputIndices
    rw [hinTotal]
    exact hchecked.packed_fresh
  case partition =>
    show ∀ i < (coders.map _).sum, Xor (i ∈ graph.bindPairs.map _) (i ∈ graph.packedInputIndices)
    rw [hinTotal, hboundIn]
    exact hchecked.partition
  case order_perm =>
    show graph.topologicalCoderOrder.Perm (List.range coders.length)
    rw [hlength]
    exact hperm
  case before =>
    show ∀ pair ∈ graph.bindPairs, ∀ a b, Owns (coders.map _) a _ → Owns (coders.map _) b _ → _
    rw [hin, hout, hchecked.bindPairs]
    intro pair hpair a b ha hb
    obtain ⟨rawPair, hrawPair, rfl⟩ := List.mem_map.mp hpair
    exact hbefore a b ⟨rawPair, hrawPair, ha, hb⟩

end Unpackio
