/-
Topological orders of finite multigraphs, and the worklist that finds one.

A graph is a list of edges.  `Progress` relates the vertices already ordered and
the worklist to the edges: a vertex has entered one of the two exactly when all
its predecessors are ordered.  A worklist that keeps `Progress` ends with a
topological order if and only if the graph has no cycle.
-/
import Mathlib.Data.Fintype.Order

namespace Topological

variable {α : Type}

def Acyclic (edges : List (α × α)) : Prop :=
  ∀ v, ¬Relation.TransGen (fun a b => (a, b) ∈ edges) v v

theorem acyclic_of_rank {edges : List (α × α)} (rank : α → Nat)
    (h : ∀ a b, (a, b) ∈ edges → rank a < rank b) : Acyclic edges := by
  have hlt : ∀ a b, Relation.TransGen (fun a b => (a, b) ∈ edges) a b → rank a < rank b := by
    intro a b hab
    induction hab with
    | single hedge => exact h _ _ hedge
    | tail _ hedge ih => exact Nat.lt_trans ih (h _ _ hedge)
  exact fun v hv => Nat.lt_irrefl _ (hlt v v hv)

theorem Acyclic.exists_source {edges : List (α × α)} (h : Acyclic edges) {vertices : List α}
    (hne : vertices ≠ []) : ∃ v ∈ vertices, ∀ u ∈ vertices, (u, v) ∉ edges := by
  let below : {v // v ∈ vertices} → {v // v ∈ vertices} → Prop :=
    fun a b => Relation.TransGen (fun a b => (a, b) ∈ edges) a.val b.val
  have : IsTrans _ below := ⟨fun _ _ _ hab hbc => hab.trans hbc⟩
  have : Std.Irrefl below := ⟨fun a ha => h a.val ha⟩
  have : Finite {v // v ∈ vertices} := List.finite_toSet vertices
  obtain ⟨first, hfirst⟩ := List.exists_mem_of_ne_nil vertices hne
  obtain ⟨v, -, hmin⟩ :=
    (Finite.wellFounded_of_trans_of_irrefl below).has_min Set.univ ⟨⟨first, hfirst⟩, trivial⟩
  exact ⟨v.val, v.property, fun u hu hedge => hmin ⟨u, hu⟩ trivial (.single hedge)⟩

variable [DecidableEq α]

/-- `order` lists the vertices, each after all its predecessors. -/
def IsOrder (edges : List (α × α)) (vertices order : List α) : Prop :=
  order.Perm vertices ∧ ∀ a b, (a, b) ∈ edges → order.idxOf a < order.idxOf b

theorem IsOrder.acyclic {edges : List (α × α)} {vertices order : List α}
    (h : IsOrder edges vertices order) : Acyclic edges :=
  acyclic_of_rank order.idxOf h.2

/-- The number of edges into `v` from vertices that are not in `done`. -/
def residual (edges : List (α × α)) (done : List α) (v : α) : Nat :=
  edges.countP fun edge => edge.2 = v ∧ edge.1 ∉ done

theorem residual_eq_zero {edges : List (α × α)} {done : List α} {v : α} :
    residual edges done v = 0 ↔ ∀ u, (u, v) ∈ edges → u ∈ done := by
  rw [residual, List.countP_eq_zero]
  constructor
  · intro h u hu
    have hnot := h (u, v) hu
    simpa using hnot
  · rintro h ⟨u, w⟩ hmem
    simp only [decide_eq_true_eq, not_and, not_not]
    rintro rfl
    exact h u hmem

theorem residual_nil_cons (edge : α × α) (edges : List (α × α)) (v : α) :
    residual (edge :: edges) [] v = residual edges [] v + if edge.2 = v then 1 else 0 := by
  simp [residual, List.countP_cons]

section

variable {done : List α} {c : α} (hc : c ∉ done) (edges : List (α × α)) (v : α)
include hc

/-- Moving `c` to the vertices that are done takes its edges out. -/
theorem residual_append :
    residual edges done v = residual edges (done ++ [c]) v + edges.count (c, v) := by
  induction edges with
  | nil => rfl
  | cons edge edges ih =>
    obtain ⟨u, w⟩ := edge
    unfold residual at ih ⊢
    rw [List.countP_cons, List.countP_cons, List.count_cons, ih]
    by_cases hw : w = v
    · by_cases hu : u = c
      · subst hw hu
        simp [hc]
        omega
      · subst hw
        by_cases hdone : u ∈ done
        · simp [hu, hdone]
        · simp [hu, hdone]
          omega
    · have hne : ((u, w) == (c, v)) = false := by
        rw [beq_eq_false_iff_ne]
        exact fun h => hw (Prod.mk.inj h).2
      simp [hw, hne]

theorem count_le_residual : edges.count (c, v) ≤ residual edges done v := by
  rw [residual_append hc edges v]
  omega

end

structure Progress (edges : List (α × α)) (vertices done pending : List α) : Prop where
  nodup : (done ++ pending).Nodup
  subset : ∀ v ∈ done ++ pending, v ∈ vertices
  ready : ∀ v ∈ vertices, v ∈ done ++ pending ↔ residual edges done v = 0
  ordered : ∀ a b, (a, b) ∈ edges → b ∈ done ++ pending →
    (done ++ pending).idxOf a < (done ++ pending).idxOf b

namespace Progress

variable {edges : List (α × α)} {vertices done pending : List α}

theorem start (hnodup : vertices.Nodup) :
    Progress edges vertices [] (vertices.filter fun v => residual edges [] v = 0) := by
  refine ⟨?_, ?_, ?_, ?_⟩
  · exact hnodup.filter _
  · intro v hv
    exact (List.mem_filter.mp hv).1
  · intro v hv
    rw [List.nil_append, List.mem_filter]
    simp [hv]
  · intro a b hedge hb
    rw [List.nil_append, List.mem_filter] at hb
    have hzero : residual edges [] b = 0 := by simpa using hb.2
    exact absurd (residual_eq_zero.mp hzero a hedge) List.not_mem_nil

theorem step {c : α} {fresh : List α} (h : Progress edges vertices done (c :: pending))
    (hnodup : fresh.Nodup)
    (hfresh : ∀ v, v ∈ fresh ↔
      v ∈ vertices ∧ residual edges done v ≠ 0 ∧ residual edges (done ++ [c]) v = 0) :
    Progress edges vertices (done ++ [c]) (pending ++ fresh) := by
  have hlist : done ++ [c] ++ (pending ++ fresh) = done ++ (c :: pending) ++ fresh := by
    simp only [List.append_assoc, List.cons_append, List.nil_append]
  have hc : c ∉ done := by
    have hdisjoint := (List.nodup_append.mp h.nodup).2.2
    exact fun hmem => hdisjoint c hmem c List.mem_cons_self rfl
  have hold : ∀ v ∈ done ++ c :: pending, v ∉ fresh := fun v hv hmem =>
    ((hfresh v).mp hmem).2.1 ((h.ready v (h.subset v hv)).mp hv)
  refine ⟨?_, ?_, ?_, ?_⟩
  · rw [hlist]
    refine List.nodup_append.mpr ⟨h.nodup, hnodup, ?_⟩
    rintro v hv w hw rfl
    exact hold v hv hw
  · intro v hv
    rw [hlist] at hv
    rcases List.mem_append.mp hv with hv | hv
    · exact h.subset v hv
    · exact ((hfresh v).mp hv).1
  · intro v hv
    have hsplit := residual_append hc edges v
    rw [hlist, List.mem_append, h.ready v hv, hfresh v]
    constructor
    · rintro (hzero | ⟨-, -, hzero⟩)
      · omega
      · exact hzero
    · intro hzero
      by_cases hdone : residual edges done v = 0
      · exact .inl hdone
      · exact .inr ⟨hv, hdone, hzero⟩
  · intro a b hedge hb
    rw [hlist] at hb ⊢
    rcases List.mem_append.mp hb with hb | hb
    · have hlt := h.ordered a b hedge hb
      have hblt := List.idxOf_lt_length_of_mem hb
      have ha : a ∈ done ++ c :: pending := List.idxOf_lt_length_iff.mp (by omega)
      rwa [List.idxOf_append_of_mem ha, List.idxOf_append_of_mem hb]
    · have hnot : b ∉ done ++ c :: pending := fun hmem => hold b hmem hb
      have ha : a ∈ done ++ [c] := residual_eq_zero.mp ((hfresh b).mp hb).2.2 a hedge
      have ha' : a ∈ done ++ c :: pending := by
        rcases List.mem_append.mp ha with ha | ha
        · exact List.mem_append_left _ ha
        · rw [List.mem_singleton.mp ha]
          exact List.mem_append_right _ List.mem_cons_self
      have hlt := List.idxOf_lt_length_of_mem ha'
      rw [List.idxOf_append_of_mem ha', List.idxOf_append_of_notMem hnot]
      omega

theorem length_le (h : Progress edges vertices done pending) :
    done.length + pending.length ≤ vertices.length := by
  have hsub : (done ++ pending).Subperm vertices := h.nodup.subperm h.subset
  rw [← List.length_append]
  exact hsub.length_le

/-- With an empty worklist, either everything is ordered or there is a cycle. -/
theorem finish (h : Progress edges vertices done [])
    (hedges : ∀ a b, (a, b) ∈ edges → b ∈ vertices)
    (hsources : ∀ a b, (a, b) ∈ edges → a ∈ vertices) (hvertices : vertices.Nodup) :
    (done.length = vertices.length ↔ Acyclic edges) ∧
      (done.length = vertices.length → IsOrder edges vertices done) := by
  have hnil : done ++ [] = done := List.append_nil done
  have hnodup : done.Nodup := hnil ▸ h.nodup
  have hsub : done.Subperm vertices := hnodup.subperm fun v hv => h.subset v (by rwa [hnil])
  have horder : done.length = vertices.length → IsOrder edges vertices done := by
    intro hlen
    have hperm : done.Perm vertices := hsub.perm_of_length_le hlen.ge
    refine ⟨hperm, fun a b hedge => ?_⟩
    have hb : b ∈ done ++ [] := by rw [hnil]; exact hperm.mem_iff.mpr (hedges a b hedge)
    have hlt := h.ordered a b hedge hb
    rwa [hnil] at hlt
  refine ⟨⟨fun hlen => (horder hlen).acyclic, fun hacyclic => ?_⟩, horder⟩
  -- A source among the vertices left over would have entered the worklist.
  have hall : ∀ v ∈ vertices, v ∈ done := by
    by_contra hleft
    have hne : (vertices.filter fun v => v ∉ done) ≠ [] := by
      intro hempty
      refine hleft fun v hv => ?_
      have hnone := List.filter_eq_nil_iff.mp hempty v hv
      simpa using hnone
    obtain ⟨v, hv, hsource⟩ := hacyclic.exists_source hne
    obtain ⟨hmem, hnot⟩ := List.mem_filter.mp hv
    have hnot : v ∉ done := by simpa using hnot
    have hzero : residual edges done v = 0 := by
      refine residual_eq_zero.mpr fun u hu => ?_
      by_contra hundone
      refine hsource u (List.mem_filter.mpr ⟨hsources u v hu, ?_⟩) hu
      simpa using hundone
    have hin := (h.ready v hmem).mpr hzero
    rw [hnil] at hin
    exact hnot hin
  have hsub' : vertices.Subperm done := hvertices.subperm hall
  exact Nat.le_antisymm hsub.length_le hsub'.length_le

end Progress

end Topological
