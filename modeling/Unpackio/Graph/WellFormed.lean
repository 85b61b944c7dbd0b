/-
`validate_folder_graph` accepts exactly the well-formed coder graphs.
-/
import Unpackio.Graph.Order
import Mathlib.Algebra.Order.BigOperators.Group.List
import Mathlib.Algebra.Order.Group.Nat

namespace Unpackio

open Topological

namespace RawFolder

variable {raw : RawFolder}

theorem length_unmarked {count : Nat} {used : List Nat} (hrange : ∀ i ∈ used, i < count)
    (hnodup : used.Nodup) : (unmarked count used).length + used.length = count := by
  have hperm : (unmarked count used ++ used).Perm (List.range count) := by
    refine (List.perm_ext_iff_of_nodup ?_ List.nodup_range).mpr fun i => ?_
    · refine List.nodup_append.mpr ⟨nodup_unmarked count used, hnodup, ?_⟩
      rintro i hi j hj rfl
      exact (mem_unmarked.mp hi).2 hj
    · rw [List.mem_append, mem_unmarked, List.mem_range]
      constructor
      · rintro (h | h)
        · exact h.1
        · exact hrange i h
      · intro h
        by_cases hused : i ∈ used
        · exact .inr hused
        · exact .inl ⟨h, hused⟩
  have h := hperm.length_eq
  rwa [List.length_append, List.length_range] at h

theorem packedList_none (h : raw.packedIndices = none) :
    raw.packedList = unmarked raw.inputStreams raw.boundInputs := by
  rw [packedList, h, Option.getD_none, unmarked]

theorem packedList_some {indices : List Nat} (h : raw.packedIndices = some indices) :
    raw.packedList = indices := by
  rw [packedList, h, Option.getD_some]

theorem PortCounts.boundInputs_length (hcounts : raw.PortCounts) :
    raw.packedStreams + raw.boundInputs.length = raw.inputStreams := by
  rw [boundInputs, List.length_map]
  exact hcounts.packed_eq

theorem WellFormedGraph.boundInputs_lt (h : raw.WellFormedGraph) :
    ∀ i ∈ raw.boundInputs, i < raw.inputStreams := by
  intro i hi
  obtain ⟨pair, hpair, rfl⟩ := List.mem_map.mp hi
  exact h.inputs_in_range pair hpair

theorem WellFormedGraph.packedList_perm (hcounts : raw.PortCounts) (h : raw.WellFormedGraph) :
    raw.packedList.Perm (unmarked raw.inputStreams raw.boundInputs) := by
  cases hpacked : raw.packedIndices with
  | none => rw [packedList_none hpacked]
  | some indices =>
    have hsub : (unmarked raw.inputStreams raw.boundInputs).Subperm raw.packedList := by
      refine (nodup_unmarked _ _).subperm fun i hi => ?_
      obtain ⟨hlt, hunbound⟩ := mem_unmarked.mp hi
      rcases h.partition i hlt with hx | hx
      · exact absurd hx.1 hunbound
      · exact hx.1
    have hlen := length_unmarked h.boundInputs_lt h.inputs_nodup
    have htotal := hcounts.boundInputs_length
    refine (hsub.perm_of_length_le ?_).symm
    rw [packedList_some hpacked, hcounts.packedIndices_length indices hpacked]
    omega

theorem packedInputs_eq_ok {indices : List Nat} :
    packedInputs raw (marks raw.inputStreams raw.boundInputs) = .ok indices ↔
      raw.packedIndices = some indices ∨
      raw.packedIndices = none ∧
        ∃ i, (unmarked raw.inputStreams raw.boundInputs).head? = some i ∧ indices = [i] := by
  unfold packedInputs
  cases hpacked : raw.packedIndices with
  | some listed =>
    refine ⟨fun h => .inl (congrArg some (Except.ok.inj h)), ?_⟩
    rintro (h | ⟨h, -⟩)
    · exact congrArg Except.ok (Option.some.inj h)
    · exact nomatch h
  | none =>
    simp only [findIdx?_marks, Except.bind_eq_ok, okOr_eq_ok, true_and, reduceCtorEq, false_or]
    constructor
    · rintro ⟨i, hi, h⟩
      exact ⟨i, hi, (Except.ok.inj h).symm⟩
    · rintro ⟨i, hi, rfl⟩
      exact ⟨i, hi, rfl⟩

theorem mem_pairEdges {a b : Nat}
    (hinputs : ∀ pair ∈ raw.bindPairs,
      pair.input < (owners (raw.coders.map RawCoder.inputStreams) 0).length)
    (houtputs : ∀ pair ∈ raw.bindPairs,
      pair.output < (owners (raw.coders.map RawCoder.outputStreams) 0).length) :
    (a, b) ∈ pairEdges (owners (raw.coders.map RawCoder.inputStreams) 0)
        (owners (raw.coders.map RawCoder.outputStreams) 0) raw.bindPairs ↔
      raw.Feeds a b := by
  have howns : ∀ (counts : List Nat) (i c : Nat), i < (owners counts 0).length →
      ((owners counts 0).getD i 0 = c ↔ Owns counts c i) := by
    intro counts i c h
    have hget := getElem?_owners counts 0 i c
    rw [List.getElem?_eq_getElem h, Option.some_inj] at hget
    rw [List.getD_eq_getElem?_getD, List.getElem?_eq_getElem h, Option.getD_some, hget]
    constructor
    · rintro ⟨d, rfl, hd⟩
      rwa [Nat.zero_add]
    · exact fun hd => ⟨c, (Nat.zero_add c).symm, hd⟩
  simp only [pairEdges, List.mem_map, Prod.mk.injEq, Feeds]
  refine exists_congr fun pair => and_congr_right fun hpair => ?_
  rw [howns _ _ _ (houtputs pair hpair), howns _ _ _ (hinputs pair hpair)]
  rfl

/-- What the port checks of `validate_folder_graph` establish. -/
structure PortsChecked (raw : RawFolder) (graph : ValidatedGraph) : Prop where
  inputs : Fresh raw.inputStreams [] raw.boundInputs
  outputs : Fresh raw.outputStreams [] raw.boundOutputs
  root : unmarked raw.outputStreams raw.boundOutputs = [graph.rootOutputIndex]
  packed : packedInputs raw (marks raw.inputStreams raw.boundInputs) =
    .ok graph.packedInputIndices
  packed_length : graph.packedInputIndices.length = raw.packedStreams
  packed_fresh : Fresh raw.inputStreams [] graph.packedInputIndices
  packed_unbound : ∀ i ∈ graph.packedInputIndices, i ∉ raw.boundInputs
  partition : ∀ i < raw.inputStreams, Xor (i ∈ raw.boundInputs) (i ∈ graph.packedInputIndices)
  bindPairs : graph.bindPairs = raw.bindPairs.map fun pair => ⟨pair.input, pair.output⟩

def coderOrder (raw : RawFolder) : Metered (List Nat) :=
  topologicalOrder raw.coders.length (owners (raw.coders.map RawCoder.inputStreams) 0)
    (owners (raw.coders.map RawCoder.outputStreams) 0) raw.bindPairs

theorem PortTotals.coder_lt (h : raw.PortTotals) :
    ∀ coder ∈ raw.coders, coder.inputStreams + coder.outputStreams < 2 ^ 64 := by
  intro coder hcoder
  have hin := List.le_sum_of_mem (List.mem_map_of_mem (f := RawCoder.inputStreams) hcoder)
  have hout := List.le_sum_of_mem (List.mem_map_of_mem (f := RawCoder.outputStreams) hcoder)
  rw [h.inputs_eq] at hin
  rw [h.outputs_eq] at hout
  have := h.ports_lt
  omega

theorem validateFolderGraph_eq_ok {graph : ValidatedGraph} :
    (validateFolderGraph raw).granted = .ok graph ↔ raw.PortTotals ∧
      raw.PortsChecked graph ∧ raw.coderOrder.granted = .ok graph.topologicalCoderOrder := by
  simp only [validateFolderGraph, Prog.granted_bind_eq_ok, Prog.granted_lift_eq_ok, okOr_eq_ok,
    checkedAdd_eq_some, checkpoint_granted, streamOwners_eq_ok, marks_nil,
    Prog.granted_pure_eq_ok]
  constructor
  · rintro ⟨_, ⟨hlt, -⟩, _, -, _, ⟨-, rfl⟩, _, htotals, ⟨pairs, inputUsed, outputUsed⟩, hpairs,
      root, hroot, rootIndex, rfl, packed, hpacked, _, hlength, packedUsed, hmark, _, hpartition,
      order, horder, rfl⟩
    obtain ⟨hin, hout, hused⟩ := (validateBindPairs_eq_ok _ _ _).mp hpairs
    simp only [List.nil_append, Prod.mk.injEq] at hused
    obtain ⟨rfl, rfl, rfl⟩ := hused
    have hroot := findRoot_marks.mp hroot
    obtain ⟨hfresh, hunbound, rfl⟩ := (markPacked_eq_ok _ _).mp hmark
    rw [List.nil_append] at hpartition
    have hpartition := checkPartition_eq_ok.mp hpartition
    have htotals := rejectIf_eq_ok.mp htotals
    rw [not_or, not_not, not_not, length_owners, length_owners] at htotals
    exact ⟨⟨htotals.1, htotals.2, hlt⟩, ⟨hin, hout, hroot, hpacked,
      not_not.mp (rejectIf_eq_ok.mp hlength), hfresh, hunbound, hpartition, rfl⟩, horder⟩
  · rintro ⟨htotals, ⟨hin, hout, hroot, hpacked, hlength, hfresh, hunbound, hpartition, hpairs⟩,
      horder⟩
    refine ⟨_, ⟨htotals.ports_lt, rfl⟩, (), trivial, _, ⟨htotals.coder_lt, rfl⟩, (),
      rejectIf_eq_ok.mpr ?_, _, (validateBindPairs_eq_ok _ _ _).mpr ⟨hin, hout, rfl⟩,
      some graph.rootOutputIndex, findRoot_marks.mpr hroot, _, rfl, _, hpacked, (),
      rejectIf_eq_ok.mpr (not_not_intro hlength), _,
      (markPacked_eq_ok _ _).mpr ⟨hfresh, hunbound, rfl⟩, (), checkPartition_eq_ok.mpr ?_, _,
      horder, ?_⟩
    · rw [length_owners, length_owners, htotals.inputs_eq, htotals.outputs_eq]
      exact not_or.mpr ⟨not_not_intro rfl, not_not_intro rfl⟩
    · rwa [List.nil_append]
    · rw [← hpairs]

/-! ## Acceptance -/

theorem fresh_boundInputs : Fresh raw.inputStreams [] raw.boundInputs ↔
    (∀ pair ∈ raw.bindPairs, pair.input < raw.inputStreams) ∧ raw.boundInputs.Nodup := by
  simp [Fresh, boundInputs]

theorem fresh_boundOutputs : Fresh raw.outputStreams [] raw.boundOutputs ↔
    (∀ pair ∈ raw.bindPairs, pair.output < raw.outputStreams) ∧ raw.boundOutputs.Nodup := by
  simp [Fresh, boundOutputs]

theorem unmarked_eq_singleton {count root : Nat} {used : List Nat} :
    unmarked count used = [root] ↔
      (root < count ∧ root ∉ used) ∧ ∀ o, o < count ∧ o ∉ used → o = root := by
  rw [← List.perm_singleton, List.perm_ext_iff_of_nodup (nodup_unmarked _ _)
    (List.nodup_singleton _)]
  simp only [mem_unmarked, List.mem_singleton]
  constructor
  · exact fun h => ⟨(h root).mpr rfl, fun o ho => (h o).mp ho⟩
  · rintro ⟨hroot, hunique⟩ o
    refine ⟨hunique o, ?_⟩
    rintro rfl
    exact hroot

theorem PortsChecked.packedList_eq {graph : ValidatedGraph} (h : raw.PortsChecked graph) :
    raw.packedList = graph.packedInputIndices := by
  rcases packedInputs_eq_ok.mp h.packed with hsome | ⟨hnone, i, hi, hindices⟩
  · exact packedList_some hsome
  · rw [packedList_none hnone, hindices]
    refine unmarked_eq_singleton.mpr ⟨mem_unmarked.mp (List.mem_of_head? hi), fun j hj => ?_⟩
    rcases h.partition j hj.1 with hx | hx
    · exact absurd hx.1 hj.2
    · rw [hindices] at hx
      exact List.mem_singleton.mp hx.1

theorem acyclic_pairEdges
    (hinputs : ∀ pair ∈ raw.bindPairs,
      pair.input < (owners (raw.coders.map RawCoder.inputStreams) 0).length)
    (houtputs : ∀ pair ∈ raw.bindPairs,
      pair.output < (owners (raw.coders.map RawCoder.outputStreams) 0).length) :
    Acyclic (pairEdges (owners (raw.coders.map RawCoder.inputStreams) 0)
        (owners (raw.coders.map RawCoder.outputStreams) 0) raw.bindPairs) ↔
      ∀ c, ¬Relation.TransGen raw.Feeds c c := by
  have hrel : (fun a b => (a, b) ∈ pairEdges (owners (raw.coders.map RawCoder.inputStreams) 0)
      (owners (raw.coders.map RawCoder.outputStreams) 0) raw.bindPairs) = raw.Feeds := by
    funext a b
    exact propext (mem_pairEdges hinputs houtputs)
  rw [Acyclic, hrel]

theorem coderOrder_spec (htotals : raw.PortTotals)
    (hinputs : Fresh raw.inputStreams [] raw.boundInputs)
    (houtputs : Fresh raw.outputStreams [] raw.boundOutputs) :
    ((∃ order, raw.coderOrder.granted = .ok order) ↔ ∀ c, ¬Relation.TransGen raw.Feeds c c) ∧
    ∀ order, raw.coderOrder.granted = .ok order →
      order.Perm (List.range raw.coders.length) ∧
        ∀ a b, raw.Feeds a b → order.idxOf a < order.idxOf b := by
  have hinputs' : ∀ pair ∈ raw.bindPairs,
      pair.input < (owners (raw.coders.map RawCoder.inputStreams) 0).length := by
    rw [length_owners, htotals.inputs_eq]
    exact (fresh_boundInputs.mp hinputs).1
  have houtputs' : ∀ pair ∈ raw.bindPairs,
      pair.output < (owners (raw.coders.map RawCoder.outputStreams) 0).length := by
    rw [length_owners, htotals.outputs_eq]
    exact (fresh_boundOutputs.mp houtputs).1
  have hbound : ∀ (f : RawCoder → Nat), ∀ c ∈ owners (raw.coders.map f) 0,
      c < raw.coders.length := by
    intro f c hc
    have h := mem_owners_lt _ 0 c hc
    rwa [Nat.zero_add, List.length_map] at h
  have hpairs : raw.bindPairs.length < 2 ^ 64 := by
    have hlen := length_unmarked (fun o ho => (houtputs.1 o ho).1) houtputs.2
    rw [boundOutputs, List.length_map] at hlen
    have := htotals.ports_lt
    omega
  obtain ⟨hiff, horder⟩ := topologicalOrder_spec (hbound _) (hbound _) hinputs' houtputs' hpairs
  rw [acyclic_pairEdges hinputs' houtputs'] at hiff
  refine ⟨hiff, fun order h => ?_⟩
  obtain ⟨hperm, hbefore⟩ := horder order h
  exact ⟨hperm, fun a b hfeeds => hbefore a b ((mem_pairEdges hinputs' houtputs').mpr hfeeds)⟩

theorem WellFormedGraph.of_portsChecked (htotals : raw.PortTotals) {graph : ValidatedGraph}
    (hports : raw.PortsChecked graph)
    (horder : raw.coderOrder.granted = .ok graph.topologicalCoderOrder) :
    raw.WellFormedGraph := by
  obtain ⟨hinputs, hinodup⟩ := fresh_boundInputs.mp hports.inputs
  obtain ⟨houtputs, honodup⟩ := fresh_boundOutputs.mp hports.outputs
  obtain ⟨hroot, hunique⟩ := unmarked_eq_singleton.mp hports.root
  refine ⟨hinputs, houtputs, hinodup, honodup, ?_, ?_, ⟨_, hroot, hunique⟩, ?_⟩
  · rw [hports.packedList_eq]
    exact hports.packed_fresh.2
  · rw [hports.packedList_eq]
    exact hports.partition
  · exact (coderOrder_spec htotals hports.inputs hports.outputs).1.mp ⟨_, horder⟩

variable (hcounts : raw.PortCounts) (h : raw.WellFormedGraph)
include hcounts h

/-- The packed inputs that `validate_folder_graph` finds in a well-formed graph. -/
theorem WellFormedGraph.packedInputs_eq :
    packedInputs raw (marks raw.inputStreams raw.boundInputs) = .ok raw.packedList := by
  rw [packedInputs_eq_ok]
  cases hpacked : raw.packedIndices with
  | some indices => exact .inl (congrArg some (packedList_some hpacked).symm)
  | none =>
    have hlen := length_unmarked h.boundInputs_lt h.inputs_nodup
    have htotal := hcounts.boundInputs_length
    rw [hcounts.packedIndices_none hpacked] at htotal
    obtain ⟨i, hi⟩ := List.length_eq_one_iff.mp
      (show (unmarked raw.inputStreams raw.boundInputs).length = 1 by omega)
    refine .inr ⟨rfl, i, ?_, ?_⟩
    · rw [hi, List.head?_cons]
    · rw [packedList_none hpacked, hi]

theorem WellFormedGraph.packedList_length : raw.packedList.length = raw.packedStreams := by
  have hlen := length_unmarked h.boundInputs_lt h.inputs_nodup
  have htotal := hcounts.boundInputs_length
  rw [(h.packedList_perm hcounts).length_eq]
  omega

theorem WellFormedGraph.exists_graph : ∃ graph, (validateFolderGraph raw).granted = .ok graph := by
  have hinputs := fresh_boundInputs.mpr ⟨h.inputs_in_range, h.inputs_nodup⟩
  have houtputs := fresh_boundOutputs.mpr ⟨h.outputs_in_range, h.outputs_nodup⟩
  obtain ⟨order, horder⟩ :=
    (coderOrder_spec hcounts.toPortTotals hinputs houtputs).1.mpr h.acyclic
  obtain ⟨root, hroot, hunique⟩ := h.root
  have hunbound : ∀ i ∈ raw.packedList, i < raw.inputStreams ∧ i ∉ raw.boundInputs := fun i hi =>
    mem_unmarked.mp ((h.packedList_perm hcounts).mem_iff.mp hi)
  refine ⟨⟨raw.bindPairs.map fun pair => ⟨pair.input, pair.output⟩, raw.packedList, root, order⟩,
    validateFolderGraph_eq_ok.mpr ⟨hcounts.toPortTotals,
      ⟨hinputs, houtputs, ?_, ?_, ?_, ?_, ?_, ?_, rfl⟩, horder⟩⟩
  · exact unmarked_eq_singleton.mpr ⟨hroot, hunique⟩
  · exact h.packedInputs_eq hcounts
  · exact h.packedList_length hcounts
  · exact ⟨fun i hi => ⟨(hunbound i hi).1, List.not_mem_nil⟩, h.packed_nodup⟩
  · exact fun i hi => (hunbound i hi).2
  · exact h.partition

end RawFolder

/-- For the folders that `parse_folder` yields, `validate_folder_graph` accepts
exactly the well-formed coder graphs, and then the root is the open output and
the coder order is topological. -/
theorem validateFolderGraph_iff_wellFormedGraph (limits : Limits) (state state' : ParseState)
    (reader reader' : BoundedReader) (raw : RawFolder)
    (hparse : (parseFolder limits state reader).granted = .ok ((raw, state'), reader')) :
    ((∃ graph, (validateFolderGraph raw).granted = .ok graph) ↔ raw.WellFormedGraph) ∧
    ∀ graph, (validateFolderGraph raw).granted = .ok graph →
      (graph.rootOutputIndex < raw.outputStreams ∧ graph.rootOutputIndex ∉ raw.boundOutputs) ∧
      graph.topologicalCoderOrder.Perm (List.range raw.coders.length) ∧
      ∀ pair ∈ raw.bindPairs, ∀ a b, raw.OwnsOutput a pair.output → raw.OwnsInput b pair.input →
        graph.topologicalCoderOrder.idxOf a < graph.topologicalCoderOrder.idxOf b := by
  have hcounts := parseFolder_portCounts hparse
  refine ⟨⟨?_, fun h => h.exists_graph hcounts⟩, ?_⟩
  · rintro ⟨graph, hgraph⟩
    obtain ⟨htotals, hports, horder⟩ := RawFolder.validateFolderGraph_eq_ok.mp hgraph
    exact .of_portsChecked htotals hports horder
  · intro graph hgraph
    obtain ⟨htotals, hports, horder⟩ := RawFolder.validateFolderGraph_eq_ok.mp hgraph
    obtain ⟨hperm, hbefore⟩ :=
      (RawFolder.coderOrder_spec htotals hports.inputs hports.outputs).2 _ horder
    exact ⟨(RawFolder.unmarked_eq_singleton.mp hports.root).1, hperm,
      fun pair hpair a b ha hb => hbefore a b ⟨pair, hpair, ha, hb⟩⟩

/-- Two coders, the output of the second bound to the input of the first. -/
def chainedFolder : RawFolder :=
  ⟨[⟨[0], 1, 1, []⟩, ⟨[0], 1, 1, []⟩], 2, 2, [⟨0, 1⟩], 1, none, []⟩

theorem parseFolder_chainedFolder :
    (parseFolder Limits.default ParseState.default (.new [2, 1, 0, 1, 0, 0, 1])).granted =
      .ok ((chainedFolder, ⟨0, 2, 4, 0, 0, 0⟩), ⟨[2, 1, 0, 1, 0, 0, 1], 7, by decide⟩) := rfl

theorem validateFolderGraph_iff_chainedFolder :
    (∃ graph, (validateFolderGraph chainedFolder).granted = .ok graph) ↔
      chainedFolder.WellFormedGraph :=
  (validateFolderGraph_iff_wellFormedGraph _ _ _ _ _ _ parseFolder_chainedFolder).1

end Unpackio
