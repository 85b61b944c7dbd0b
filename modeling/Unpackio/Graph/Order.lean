/-
The coder order of `topological_order`: the indegree vector counts residual
edges, so the worklist keeps `Topological.Progress`.
-/
import Unpackio.Graph.Ports

namespace Unpackio

open List (getD_eq_getElem?_getD length_map length_range length_set mem_cons_of_mem mem_cons_self
  mem_range)
open Topological

/-- The indegree vector over `count` coders once the coders of `done` are
ordered. -/
def degrees (count : Nat) (edges : List (Nat × Nat)) (done : List Nat) : List Nat :=
  (List.range count).map (residual edges done)

section

variable {count v : Nat} (edges : List (Nat × Nat)) (done : List Nat) (h : v < count)
include h

theorem getElem?_degrees : (degrees count edges done)[v]? = some (residual edges done v) := by
  rw [degrees, List.getElem?_map, List.getElem?_range h, Option.map_some]

theorem getD_degrees : (degrees count edges done).getD v 0 = residual edges done v := by
  rw [getD_eq_getElem?_getD, getElem?_degrees edges done h, Option.getD_some]

end

/-! ## Releasing the edges of one coder -/

theorem releaseEdges_eq (coder : Nat) (edges : List (Nat × Nat)) (indegree : List Nat)
    (hrange : ∀ v, (coder, v) ∈ edges → v < indegree.length)
    (hcount : ∀ v, edges.count (coder, v) ≤ indegree.getD v 0) :
    ∃ fresh indegree', (releaseEdges coder edges indegree).granted = .ok (fresh, indegree') ∧
      indegree'.length = indegree.length ∧
      (∀ v, indegree'.getD v 0 = indegree.getD v 0 - edges.count (coder, v)) ∧
      fresh.Nodup ∧
      ∀ v, v ∈ fresh ↔ indegree.getD v 0 ≠ 0 ∧ indegree'.getD v 0 = 0 := by
  induction edges generalizing indegree with
  | nil =>
    refine ⟨[], indegree, rfl, rfl, fun v => ?_, List.nodup_nil, fun v => ?_⟩
    · rw [List.count_nil, Nat.sub_zero]
    · exact ⟨fun h => absurd h List.not_mem_nil, fun h => absurd h.2 h.1⟩
  | cons edge edges ih =>
    obtain ⟨source, destination⟩ := edge
    by_cases hsource : source = coder
    · subst hsource
      have hlt : destination < indegree.length := hrange destination mem_cons_self
      have hpos := hcount destination
      rw [List.count_cons_self] at hpos
      have hget : indegree[destination]? = some (indegree.getD destination 0) := by
        rw [getD_eq_getElem?_getD, List.getElem?_eq_getElem hlt, Option.getD_some]
      -- One edge less: only the destination of this edge changes.
      have hset : ∀ v, (indegree.set destination (indegree.getD destination 0 - 1)).getD v 0 =
          indegree.getD v 0 - if destination = v then 1 else 0 := by
        intro v
        rw [getD_eq_getElem?_getD, List.getElem?_set]
        by_cases hv : destination = v
        · subst hv
          rw [if_pos rfl, if_pos hlt, Option.getD_some, if_pos rfl]
        · rw [if_neg hv, if_neg hv, Nat.sub_zero, getD_eq_getElem?_getD]
      have hcons : ∀ v, ((source, destination) :: edges).count (source, v) =
          edges.count (source, v) + if destination = v then 1 else 0 := by
        intro v
        rw [List.count_cons]
        by_cases hv : destination = v <;> simp [hv]
      obtain ⟨fresh, indegree', hrun, hlen, hdeg, hnodup, hfresh⟩ :=
        ih (indegree.set destination (indegree.getD destination 0 - 1))
          (fun v hv => by
            rw [length_set]
            exact hrange v (mem_cons_of_mem _ hv))
          (fun v => by
            have := hcount v
            rw [hcons] at this
            rw [hset]
            omega)
      have hfinal : ∀ v, indegree'.getD v 0 =
          indegree.getD v 0 - ((source, destination) :: edges).count (source, v) := by
        intro v
        rw [hdeg, hset, hcons]
        omega
      refine ⟨if indegree.getD destination 0 - 1 = 0 then destination :: fresh else fresh,
        indegree', ?_, by rw [hlen, length_set], hfinal, ?_, ?_⟩
      · simp only [releaseEdges, ne_eq, not_true_eq_false, if_false, Prog.granted_bind,
          checkpoint_granted, Except.ok_bind, hget, okOr_some, Prog.granted_lift,
          checkedSub_of_le (show 1 ≤ indegree.getD destination 0 by omega), hrun]
        rfl
      · by_cases hzero : indegree.getD destination 0 - 1 = 0
        · rw [if_pos hzero]
          refine List.nodup_cons.mpr ⟨fun hmem => ?_, hnodup⟩
          have h := ((hfresh destination).mp hmem).1
          rw [hset, if_pos rfl] at h
          exact h hzero
        · rw [if_neg hzero]
          exact hnodup
      · intro v
        have hv := hfresh v
        rw [hset] at hv
        have hdv := hdeg v
        rw [hset] at hdv
        by_cases hdest : destination = v
        · subst hdest
          rw [if_pos rfl] at hv hdv
          by_cases hzero : indegree.getD destination 0 - 1 = 0
          · rw [if_pos hzero]
            simp only [List.mem_cons, true_or, true_iff]
            omega
          · rw [if_neg hzero, hv]
            omega
        · rw [if_neg hdest, Nat.sub_zero] at hv
          by_cases hzero : indegree.getD destination 0 - 1 = 0
          · rw [if_pos hzero, List.mem_cons, hv]
            have hne : v ≠ destination := Ne.symm hdest
            simp only [hne, false_or]
          · rw [if_neg hzero, hv]
    · have hcons : ∀ v, ((source, destination) :: edges).count (coder, v) =
          edges.count (coder, v) := by
        intro v
        rw [List.count_cons_of_ne]
        exact fun h => hsource (Prod.mk.inj h).1
      obtain ⟨fresh, indegree', hrun, hlen, hdeg, hnodup, hfresh⟩ := ih indegree
        (fun v hv => hrange v (mem_cons_of_mem _ hv))
        (fun v => by
          have := hcount v
          rwa [hcons] at this)
      refine ⟨fresh, indegree', ?_, hlen, fun v => ?_, hnodup, hfresh⟩
      · simp only [releaseEdges, ne_eq, hsource, not_false_eq_true, if_true, Prog.granted_bind,
          checkpoint_granted, Except.ok_bind, hrun]
      · rw [hcons]
        exact hdeg v

/-- Every round keeps `Progress`, and the order ends with an empty worklist. -/
theorem orderReady_eq {count : Nat} {edges : List (Nat × Nat)}
    (hedges : ∀ a b, (a, b) ∈ edges → b < count) (fuel : Nat) (done pending : List Nat)
    (hfuel : count ≤ done.length + fuel)
    (h : Progress edges (List.range count) done pending) :
    ∃ order, (orderReady edges fuel pending (degrees count edges done) done).granted = .ok order ∧
      Progress edges (List.range count) order [] := by
  induction fuel generalizing done pending with
  | zero =>
    have hle := h.length_le
    rw [length_range] at hle
    obtain rfl : pending = [] := List.length_eq_zero_iff.mp (by omega)
    exact ⟨done, rfl, h⟩
  | succ fuel ih =>
    cases pending with
    | nil => exact ⟨done, rfl, h⟩
    | cons c pending =>
      have hc : c ∉ done := fun hmem =>
        (List.nodup_append.mp h.nodup).2.2 c hmem c mem_cons_self rfl
      have hlength : (degrees count edges done).length = count := by
        rw [degrees, length_map, length_range]
      have hbeyond : ∀ v, ¬v < count → (degrees count edges done).getD v 0 = 0 := by
        intro v hv
        rw [getD_eq_getElem?_getD, List.getElem?_eq_none (by omega), Option.getD_none]
      have hresidual : ∀ v, ¬v < count → residual edges done v = 0 := fun v hv =>
        residual_eq_zero.mpr fun u hu => absurd (hedges u v hu) hv
      have hgetD : ∀ v, (degrees count edges done).getD v 0 = residual edges done v := by
        intro v
        by_cases hv : v < count
        · exact getD_degrees edges done hv
        · rw [hbeyond v hv, hresidual v hv]
      obtain ⟨fresh, indegree, hrun, hlen, hdeg, hnodup, hfresh⟩ :=
        releaseEdges_eq c edges (degrees count edges done)
          (fun v hv => by rw [hlength]; exact hedges c v hv)
          (fun v => by rw [hgetD]; exact count_le_residual hc edges v)
      have hnext : ∀ v, indegree.getD v 0 = residual edges (done ++ [c]) v := by
        intro v
        rw [hdeg, hgetD, residual_append hc edges v]
        omega
      have hindegree : indegree = degrees count edges (done ++ [c]) := by
        refine List.ext_getElem? fun v => ?_
        by_cases hv : v < count
        · rw [getElem?_degrees edges _ hv, ← hnext, getD_eq_getElem?_getD,
            List.getElem?_eq_getElem (by omega), Option.getD_some]
        · rw [List.getElem?_eq_none (by omega),
            List.getElem?_eq_none (by rw [degrees, length_map, length_range]; omega)]
      have hstep : Progress edges (List.range count) (done ++ [c]) (pending ++ fresh) := by
        refine h.step hnodup fun v => ?_
        rw [hfresh, hgetD, hnext, mem_range]
        constructor
        · rintro ⟨hne, hzero⟩
          refine ⟨?_, hne, hzero⟩
          by_contra hv
          exact hne (hresidual v hv)
        · exact fun hv => hv.2
      obtain ⟨order, horder, hfinal⟩ := ih (done ++ [c]) (pending ++ fresh)
        (by rw [List.length_append, List.length_singleton]; omega) hstep
      refine ⟨order, ?_, hfinal⟩
      rw [← hindegree] at horder
      simp only [orderReady, Prog.granted_bind, checkpoint_granted, Except.ok_bind, hrun]
      exact horder

/-! ## The edges between coders -/

def pairEdges (inputOwners outputOwners : List Nat) (pairs : List RawBindPair) :
    List (Nat × Nat) :=
  pairs.map fun pair => (outputOwners.getD pair.output 0, inputOwners.getD pair.input 0)

theorem pairEdges_cons (inputOwners outputOwners : List Nat) (pair : RawBindPair)
    (pairs : List RawBindPair) :
    pairEdges inputOwners outputOwners (pair :: pairs) =
      (outputOwners.getD pair.output 0, inputOwners.getD pair.input 0) ::
        pairEdges inputOwners outputOwners pairs := rfl

theorem collectEdges_eq {inputOwners outputOwners : List Nat} {count : Nat}
    (howners : ∀ c ∈ inputOwners, c < count) (pairs : List RawBindPair) (indegree : List Nat)
    (hlen : indegree.length = count)
    (hinputs : ∀ pair ∈ pairs, pair.input < inputOwners.length)
    (houtputs : ∀ pair ∈ pairs, pair.output < outputOwners.length)
    (hroom : ∀ v, indegree.getD v 0 + pairs.length < 2 ^ 64) :
    ∃ indegree', collectEdges inputOwners outputOwners pairs indegree =
        .ok (pairEdges inputOwners outputOwners pairs, indegree') ∧
      indegree'.length = count ∧
      ∀ v, indegree'.getD v 0 =
        indegree.getD v 0 + residual (pairEdges inputOwners outputOwners pairs) [] v := by
  induction pairs generalizing indegree with
  | nil => exact ⟨indegree, rfl, hlen, fun _ => rfl⟩
  | cons pair pairs ih =>
    have hget : ∀ (l : List Nat) (i : Nat), i < l.length → l[i]? = some (l.getD i 0) := by
      intro l i h
      rw [getD_eq_getElem?_getD, List.getElem?_eq_getElem h, Option.getD_some]
    have hinput := hinputs pair mem_cons_self
    have hdest : inputOwners.getD pair.input 0 < count :=
      howners _ (List.mem_of_getElem? (hget inputOwners pair.input hinput))
    have hroomAt := hroom (inputOwners.getD pair.input 0)
    rw [List.length_cons] at hroomAt
    have hset : ∀ v, (indegree.set (inputOwners.getD pair.input 0)
        (indegree.getD (inputOwners.getD pair.input 0) 0 + 1)).getD v 0 =
        indegree.getD v 0 + if inputOwners.getD pair.input 0 = v then 1 else 0 := by
      intro v
      rw [getD_eq_getElem?_getD, List.getElem?_set]
      by_cases hv : inputOwners.getD pair.input 0 = v
      · rw [if_pos hv, if_pos (by omega), Option.getD_some, if_pos hv, hv]
      · rw [if_neg hv, if_neg hv, Nat.add_zero, getD_eq_getElem?_getD]
    obtain ⟨indegree', hrun, hlen', hdeg⟩ := ih
      (indegree.set (inputOwners.getD pair.input 0)
        (indegree.getD (inputOwners.getD pair.input 0) 0 + 1))
      (by rw [length_set, hlen])
      (fun q hq => hinputs q (mem_cons_of_mem _ hq))
      (fun q hq => houtputs q (mem_cons_of_mem _ hq))
      (fun v => by
        have := hroom v
        rw [List.length_cons] at this
        rw [hset]
        split <;> omega)
    refine ⟨indegree', ?_, hlen', fun v => ?_⟩
    · simp only [collectEdges, ownerForPort, hget _ _ hinput,
        hget _ _ (houtputs pair mem_cons_self), hget indegree _ (hlen ▸ hdest), okOr_some,
        Except.ok_bind, checkedAdd_of_lt (show indegree.getD (inputOwners.getD pair.input 0) 0 + 1 <
          2 ^ 64 by omega), hrun]
      rfl
    · rw [hdeg, hset, pairEdges_cons, residual_nil_cons, Nat.add_assoc,
        Nat.add_comm (residual _ _ _)]

/-- `topological_order` succeeds exactly on the acyclic graphs, with a
topological order. -/
theorem topologicalOrder_spec {inputOwners outputOwners : List Nat} {count : Nat}
    (hinputOwners : ∀ c ∈ inputOwners, c < count) (houtputOwners : ∀ c ∈ outputOwners, c < count)
    {pairs : List RawBindPair} (hinputs : ∀ pair ∈ pairs, pair.input < inputOwners.length)
    (houtputs : ∀ pair ∈ pairs, pair.output < outputOwners.length)
    (hroom : pairs.length < 2 ^ 64) :
    ((∃ order, (topologicalOrder count inputOwners outputOwners pairs).granted = .ok order) ↔
      Acyclic (pairEdges inputOwners outputOwners pairs)) ∧
    ∀ order, (topologicalOrder count inputOwners outputOwners pairs).granted = .ok order →
      IsOrder (pairEdges inputOwners outputOwners pairs) (List.range count) order := by
  have hmem : ∀ a b, (a, b) ∈ pairEdges inputOwners outputOwners pairs → a < count ∧ b < count := by
    intro a b hedge
    obtain ⟨pair, hpair, heq⟩ := List.mem_map.mp hedge
    have hget : ∀ (l : List Nat) (i : Nat), i < l.length → l.getD i 0 ∈ l := by
      intro l i h
      rw [getD_eq_getElem?_getD, List.getElem?_eq_getElem h, Option.getD_some]
      exact List.getElem_mem h
    cases heq
    exact ⟨houtputOwners _ (hget _ _ (houtputs pair hpair)),
      hinputOwners _ (hget _ _ (hinputs pair hpair))⟩
  have hzero : ∀ v, (List.replicate count 0).getD v 0 = 0 := by
    intro v
    rw [getD_eq_getElem?_getD, List.getElem?_replicate]
    split <;> rfl
  obtain ⟨indegree, hcollect, hlen, hdeg⟩ := collectEdges_eq hinputOwners pairs
    (List.replicate count 0) List.length_replicate hinputs houtputs
    (fun v => by rw [hzero]; omega)
  have hindegree : indegree = degrees count (pairEdges inputOwners outputOwners pairs) [] := by
    refine List.ext_getElem? fun v => ?_
    have hv' := hdeg v
    rw [hzero, Nat.zero_add] at hv'
    by_cases hv : v < count
    · rw [getElem?_degrees _ _ hv, ← hv', getD_eq_getElem?_getD,
        List.getElem?_eq_getElem (by omega), Option.getD_some]
    · rw [List.getElem?_eq_none (by omega),
        List.getElem?_eq_none (by rw [degrees, length_map, length_range]; omega)]
  have hready : ((List.range count).filter fun index => indegree.getD index 0 = 0) =
      (List.range count).filter fun v =>
        residual (pairEdges inputOwners outputOwners pairs) [] v = 0 := by
    refine List.filter_congr fun v hv => ?_
    rw [hindegree, getD_degrees _ _ (mem_range.mp hv)]
  obtain ⟨order, hloop, hprogress⟩ := orderReady_eq (fun a b h => (hmem a b h).2) count [] _
    (by omega) (Progress.start List.nodup_range)
  have hrun : (topologicalOrder count inputOwners outputOwners pairs).granted =
      if order.length ≠ count then .error (formatError "folder coder graph contains a cycle")
      else .ok order := by
    simp only [topologicalOrder, Prog.granted_bind, Prog.granted_lift, hcollect, Except.ok_bind]
    rw [hready, hindegree, hloop, Except.ok_bind, rejectIf]
    split <;> rfl
  obtain ⟨hiff, horder⟩ := hprogress.finish
    (fun a b h => mem_range.mpr (hmem a b h).2)
    (fun a b h => mem_range.mpr (hmem a b h).1) List.nodup_range
  rw [length_range] at hiff horder
  rw [hrun]
  by_cases hfull : order.length = count
  · rw [if_neg (not_not_intro hfull)]
    refine ⟨⟨fun _ => hiff.mp hfull, fun _ => ⟨order, rfl⟩⟩, fun order' h => ?_⟩
    rw [← Except.ok.inj h]
    exact horder hfull
  · rw [if_pos hfull]
    refine ⟨⟨?_, fun h => absurd (hiff.mpr h) hfull⟩, ?_⟩
    · rintro ⟨_, h⟩
      cases h
    · intro _ h
      cases h

end Unpackio
