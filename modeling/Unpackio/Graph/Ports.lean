/-
Which ports a folder binds, packs and leaves open.

`WellFormedGraph` says what a coder graph is without the vectors of
`validate_folder_graph`.  The lemmas here read those vectors as sets of ports.
-/
import Unpackio.Graph
import Unpackio.Header.Results
import Unpackio.Foundation.Topological

namespace Unpackio

open List (append_assoc append_nil ext_getElem length_replicate not_mem_nil)

/-- Port `i` belongs to coder `c` when the ports are numbered coder by coder. -/
def Owns : List Nat → Nat → Nat → Prop
  | [], _, _ => False
  | count :: _, 0, i => i < count
  | count :: counts, c + 1, i => count ≤ i ∧ Owns counts c (i - count)

theorem owns_iff {counts : List Nat} {c i : Nat} :
    Owns counts c i ↔ ∃ count, counts[c]? = some count ∧
      (counts.take c).sum ≤ i ∧ i < (counts.take c).sum + count := by
  induction counts generalizing c i with
  | nil => simp [Owns]
  | cons count counts ih =>
    cases c with
    | zero => simp [Owns]
    | succ c =>
      rw [Owns, ih, List.getElem?_cons_succ, List.take_succ_cons, List.sum_cons]
      constructor
      · intro h
        obtain ⟨hle, own, hown, hlow, hhigh⟩ := h
        exact ⟨own, hown, by omega, by omega⟩
      · intro h
        obtain ⟨own, hown, hlow, hhigh⟩ := h
        exact ⟨by omega, own, hown, by omega, by omega⟩

namespace RawFolder

def OwnsInput (raw : RawFolder) (c i : Nat) : Prop :=
    Owns (raw.coders.map RawCoder.inputStreams) c i

def OwnsOutput (raw : RawFolder) (c o : Nat) : Prop :=
  Owns (raw.coders.map RawCoder.outputStreams) c o

/-- An output of coder `a` is bound to an input of coder `b`. -/
def Feeds (raw : RawFolder) (a b : Nat) : Prop :=
  ∃ pair ∈ raw.bindPairs, raw.OwnsOutput a pair.output ∧ raw.OwnsInput b pair.input

def boundInputs (raw : RawFolder) : List Nat := raw.bindPairs.map RawBindPair.input

def boundOutputs (raw : RawFolder) : List Nat := raw.bindPairs.map RawBindPair.output

def packedList (raw : RawFolder) : List Nat :=
  raw.packedIndices.getD ((List.range raw.inputStreams).filter fun i => i ∉ raw.boundInputs)

structure WellFormedGraph (raw : RawFolder) : Prop where
  inputs_in_range : ∀ pair ∈ raw.bindPairs, pair.input < raw.inputStreams
  outputs_in_range : ∀ pair ∈ raw.bindPairs, pair.output < raw.outputStreams
  inputs_nodup : raw.boundInputs.Nodup
  outputs_nodup : raw.boundOutputs.Nodup
  packed_nodup : raw.packedList.Nodup
  partition : ∀ i < raw.inputStreams, Xor (i ∈ raw.boundInputs) (i ∈ raw.packedList)
  root : ∃! o, o < raw.outputStreams ∧ o ∉ raw.boundOutputs
  acyclic : ∀ c, ¬Relation.TransGen raw.Feeds c c

end RawFolder

def owners : List Nat → Nat → List Nat
  | [], _ => []
  | count :: counts, k => List.replicate count k ++ owners counts (k + 1)

theorem length_owners (counts : List Nat) (k : Nat) : (owners counts k).length = counts.sum := by
  induction counts generalizing k with
  | nil => rfl
  | cons count counts ih =>
    rw [owners, List.length_append, length_replicate, ih, List.sum_cons]

theorem getElem?_owners (counts : List Nat) (k i c : Nat) :
    (owners counts k)[i]? = some c ↔ ∃ d, c = k + d ∧ Owns counts d i := by
  induction counts generalizing k i with
  | nil => simp [owners, Owns]
  | cons count counts ih =>
    rw [owners]
    by_cases hi : i < count
    · rw [List.getElem?_append_left (by rw [length_replicate]; exact hi),
        List.getElem?_replicate, if_pos hi, Option.some_inj]
      constructor
      · rintro rfl
        exact ⟨0, rfl, hi⟩
      · rintro ⟨d, rfl, hd⟩
        cases d with
        | zero => rfl
        | succ d => exact absurd hd.1 (by omega)
    · rw [List.getElem?_append_right (by rw [length_replicate]; omega),
        length_replicate, ih]
      constructor
      · rintro ⟨d, rfl, hd⟩
        exact ⟨d + 1, by omega, by omega, hd⟩
      · rintro ⟨d, rfl, hd⟩
        cases d with
        | zero => exact absurd hd hi
        | succ d => exact ⟨d, by omega, hd.2⟩

theorem mem_owners_lt (counts : List Nat) (k c : Nat) (h : c ∈ owners counts k) :
    c < k + counts.length := by
  induction counts generalizing k with
  | nil => exact absurd h not_mem_nil
  | cons count counts ih =>
    rw [owners, List.mem_append] at h
    rw [List.length_cons]
    rcases h with h | h
    · rw [List.eq_of_mem_replicate h]
      omega
    · have := ih (k + 1) h
      omega

theorem streamOwners_eq_ok (coders : List RawCoder) (k : Nat) {r : List Nat × List Nat} :
    (streamOwners coders k).granted = .ok r ↔
      (∀ coder ∈ coders, coder.inputStreams + coder.outputStreams < 2 ^ 64) ∧
        r = (owners (coders.map RawCoder.inputStreams) k,
          owners (coders.map RawCoder.outputStreams) k) := by
  induction coders generalizing k r with
  | nil =>
    refine Prog.granted_pure_eq_ok.trans ⟨?_, fun h => h.2.symm⟩
    rintro rfl
    exact ⟨fun _ hmem => absurd hmem not_mem_nil, rfl⟩
  | cons coder coders ih =>
    simp only [streamOwners, Prog.granted_bind_eq_ok, Prog.granted_lift_eq_ok, okOr_eq_ok,
      checkedAdd_eq_some, Prog.granted_pure_eq_ok, checkpoint_granted, ih, List.forall_mem_cons,
      List.map_cons, owners]
    constructor
    · rintro ⟨_, ⟨hlt, rfl⟩, _, -, _, ⟨hall, rfl⟩, rfl⟩
      exact ⟨⟨hlt, hall⟩, rfl⟩
    · rintro ⟨⟨hlt, hall⟩, rfl⟩
      exact ⟨_, ⟨hlt, rfl⟩, (), trivial, _, ⟨hall, rfl⟩, rfl⟩

/-! ## Vectors of used ports -/

/-- The vector over `count` ports in which the ports of `used` are marked. -/
def marks (count : Nat) (used : List Nat) : List Bool :=
  (List.range count).map fun i => decide (i ∈ used)

theorem marks_nil (count : Nat) : List.replicate count false = marks count [] := by
  refine ext_getElem (by simp [marks]) fun i h₁ h₂ => ?_
  simp [marks]

theorem getElem?_marks (count : Nat) (used : List Nat) (i : Nat) :
    (marks count used)[i]? = if i < count then some (decide (i ∈ used)) else none := by
  rw [marks, List.getElem?_map]
  by_cases h : i < count
  · rw [if_pos h, List.getElem?_range h, Option.map_some]
  · rw [if_neg h, List.getElem?_eq_none (by rw [List.length_range]; omega), Option.map_none]

theorem marks_set (count : Nat) (used : List Nat) (i : Nat) :
    (marks count used).set i true = marks count (used ++ [i]) := by
  refine ext_getElem (by simp [marks]) fun j h₁ h₂ => ?_
  by_cases hij : i = j
  · subst hij
    simp [marks]
  · rw [List.getElem_set_ne hij]
    simp [marks, Ne.symm hij]

/-- `ports` are in range, not yet used, and not repeated. -/
def Fresh (count : Nat) (used ports : List Nat) : Prop :=
  (∀ i ∈ ports, i < count ∧ i ∉ used) ∧ ports.Nodup

theorem fresh_nil (count : Nat) (used : List Nat) : Fresh count used [] :=
  ⟨fun _ h => absurd h not_mem_nil, List.nodup_nil⟩

variable {count : Nat} {used : List Nat}

theorem fresh_cons {i : Nat} {ports : List Nat} :
    Fresh count used (i :: ports) ↔ (i < count ∧ i ∉ used) ∧ Fresh count (used ++ [i]) ports := by
  simp only [Fresh, List.mem_cons, forall_eq_or_imp, List.nodup_cons, List.mem_append,
    not_mem_nil, or_false, not_or]
  constructor
  · rintro ⟨⟨hi, hports⟩, hnot, hnodup⟩
    exact ⟨hi, fun j hj => ⟨(hports j hj).1, (hports j hj).2, fun heq => hnot (heq ▸ hj)⟩, hnodup⟩
  · rintro ⟨hi, hports, hnodup⟩
    exact ⟨⟨hi, fun j hj => ⟨(hports j hj).1, (hports j hj).2.1⟩⟩,
      fun hmem => (hports i hmem).2.2 rfl, hnodup⟩

theorem lookup_marks_eq_ok {i : Nat} {e e' : Error} {u : Unit} {marked : Bool} :
    (okOr (marks count used)[i]? e = .ok marked ∧ rejectIf (marked = true) e' = .ok u) ↔
      (i < count ∧ i ∉ used) ∧ marked = false := by
  rw [okOr_eq_ok, getElem?_marks, rejectIf_eq_ok]
  by_cases hi : i < count
  · by_cases hu : i ∈ used <;> cases marked <;> simp [hi, hu]
  · simp [hi]

theorem validateBindPairs_eq_ok {inputs outputs : Nat} (raws : List RawBindPair)
    (inputUsed outputUsed : List Nat) {r : List BindPair × List Bool × List Bool} :
    validateBindPairs raws (marks inputs inputUsed) (marks outputs outputUsed) = .ok r ↔
      Fresh inputs inputUsed (raws.map RawBindPair.input) ∧
      Fresh outputs outputUsed (raws.map RawBindPair.output) ∧
      r = (raws.map fun raw => ⟨raw.input, raw.output⟩,
        marks inputs (inputUsed ++ raws.map RawBindPair.input),
        marks outputs (outputUsed ++ raws.map RawBindPair.output)) := by
  induction raws generalizing inputUsed outputUsed r with
  | nil =>
    simp only [validateBindPairs, List.map_nil, fresh_nil, append_nil, true_and]
    exact ⟨fun h => (Except.ok.inj h).symm, fun h => h ▸ rfl⟩
  | cons raw raws ih =>
    have hpair : ∀ r, validateBindPair raw (marks inputs inputUsed) (marks outputs outputUsed) =
        .ok r ↔ (raw.input < inputs ∧ raw.input ∉ inputUsed) ∧
          (raw.output < outputs ∧ raw.output ∉ outputUsed) ∧
          r = (⟨raw.input, raw.output⟩, marks inputs (inputUsed ++ [raw.input]),
            marks outputs (outputUsed ++ [raw.output])) := by
      intro r
      simp only [validateBindPair, Except.bind_eq_ok]
      constructor
      · rintro ⟨bi, hbi, _, hri, bo, hbo, _, hro, hr⟩
        have hin := (lookup_marks_eq_ok.mp ⟨hbi, hri⟩).1
        have hout := (lookup_marks_eq_ok.mp ⟨hbo, hro⟩).1
        refine ⟨hin, hout, ?_⟩
        rw [← marks_set, ← marks_set]
        exact (Except.ok.inj hr).symm
      · rintro ⟨hin, hout, rfl⟩
        obtain ⟨hbi, hri⟩ := (lookup_marks_eq_ok (u := ())).mpr ⟨hin, rfl⟩
        obtain ⟨hbo, hro⟩ := (lookup_marks_eq_ok (u := ())).mpr ⟨hout, rfl⟩
        refine ⟨_, hbi, _, hri, _, hbo, _, hro, ?_⟩
        rw [marks_set, marks_set]
        rfl
    simp only [validateBindPairs, Except.bind_eq_ok, List.map_cons, fresh_cons]
    constructor
    · rintro ⟨_, hr, ⟨pairs, x, y⟩, hrest, hret⟩
      obtain ⟨hin, hout, rfl⟩ := (hpair _).mp hr
      obtain ⟨hfin, hfout, hval⟩ := (ih _ _).mp hrest
      refine ⟨⟨hin, hfin⟩, ⟨hout, hfout⟩, ?_⟩
      cases hval
      rw [← Except.ok.inj hret, append_assoc, append_assoc]
      rfl
    · rintro ⟨⟨hin, hfin⟩, ⟨hout, hfout⟩, rfl⟩
      refine ⟨_, (hpair _).mpr ⟨hin, hout, rfl⟩, _, (ih _ _).mpr ⟨hfin, hfout, rfl⟩, ?_⟩
      rw [append_assoc, append_assoc]
      rfl

def unmarked (count : Nat) (used : List Nat) : List Nat :=
  (List.range count).filter fun i => i ∉ used

theorem mem_unmarked {i : Nat} : i ∈ unmarked count used ↔ i < count ∧ i ∉ used := by
  simp [unmarked]

theorem nodup_unmarked (count : Nat) (used : List Nat) : (unmarked count used).Nodup :=
  List.nodup_range.filter _

theorem zipIdx_marks (count : Nat) (used : List Nat) :
    (marks count used).zipIdx = (List.range count).map fun i => (decide (i ∈ used), i) := by
  refine ext_getElem (by simp [marks]) fun i h₁ h₂ => ?_
  simp [marks]

theorem findRoot_eq_ok (used : List (Bool × Nat)) (root r : Option Nat) :
    findRoot used root = .ok r ↔
      root.toList ++ ((used.filter fun port => !port.1).map Prod.snd) = r.toList := by
  induction used generalizing root with
  | nil =>
    rw [findRoot, List.filter_nil, List.map_nil, append_nil]
    cases root <;> cases r <;> simp
  | cons port used ih =>
    obtain ⟨bound, index⟩ := port
    cases bound with
    | true => exact ih root
    | false =>
      cases root with
      | none => exact ih (some index)
      | some first =>
        rw [findRoot]
        cases r <;> simp

theorem findRoot_marks {r : Option Nat} :
    findRoot (marks count used).zipIdx none = .ok r ↔ unmarked count used = r.toList := by
  rw [findRoot_eq_ok, zipIdx_marks, List.filter_map, List.map_map, Option.toList_none,
    List.nil_append, unmarked]
  simp only [Function.comp_def, List.map_id']
  simp only [decide_not]

theorem findIdx?_marks (count : Nat) (used : List Nat) :
    (marks count used).findIdx? (fun bound => !bound) = (unmarked count used).head? := by
  rw [List.findIdx?_eq_fst_find?_zipIdx, zipIdx_marks, List.find?_map, unmarked, List.head?_filter]
  simp only [Function.comp_def, Option.map_map, decide_not]
  exact Option.map_id'

theorem markPacked_eq_ok {bound : List Nat} (indices used : List Nat) {r : List Bool} :
    markPacked (marks count bound) indices (marks count used) = .ok r ↔
      Fresh count used indices ∧ (∀ i ∈ indices, i ∉ bound) ∧
        r = marks count (used ++ indices) := by
  induction indices generalizing used r with
  | nil =>
    simp only [markPacked, fresh_nil, append_nil, true_and]
    refine ⟨fun h => ⟨fun _ h => absurd h not_mem_nil, (Except.ok.inj h).symm⟩,
      fun h => h.2 ▸ rfl⟩
  | cons index indices ih =>
    simp only [markPacked, Except.bind_eq_ok, fresh_cons, List.forall_mem_cons, marks_set]
    constructor
    · rintro ⟨packed, hpacked, _, hfree, isBound, hbound, _, hunbound, hrest⟩
      have hin := (lookup_marks_eq_ok.mp ⟨hpacked, hfree⟩).1
      have hnot := (lookup_marks_eq_ok.mp ⟨hbound, hunbound⟩).1.2
      obtain ⟨hfresh, hall, rfl⟩ := (ih _).mp hrest
      exact ⟨⟨hin, hfresh⟩, ⟨hnot, hall⟩, by rw [append_assoc]; rfl⟩
    · rintro ⟨⟨hin, hfresh⟩, ⟨hnot, hall⟩, rfl⟩
      obtain ⟨hpacked, hfree⟩ := (lookup_marks_eq_ok (u := ())).mpr ⟨hin, rfl⟩
      obtain ⟨hbound, hunbound⟩ := (lookup_marks_eq_ok (u := ())).mpr ⟨⟨hin.1, hnot⟩, rfl⟩
      refine ⟨_, hpacked, _, hfree, _, hbound, _, hunbound, (ih _).mpr ⟨hfresh, hall, ?_⟩⟩
      rw [append_assoc]
      rfl

theorem checkPartition_eq_ok {bound packed : List Nat} {u : Unit} :
    checkPartition (marks count bound) (marks count packed) = .ok u ↔
      ∀ i < count, Xor (i ∈ bound) (i ∈ packed) := by
  rw [checkPartition, rejectIf_eq_ok, marks, marks, List.zip_map', List.any_map,
    List.any_eq_true]
  simp only [List.mem_range, Function.comp_apply, not_exists, not_and]
  refine forall₂_congr fun i _ => ?_
  by_cases hb : i ∈ bound <;> by_cases hp : i ∈ packed <;> simp [hb, hp, Xor]

end Unpackio
