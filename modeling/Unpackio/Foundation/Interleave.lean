/-
Frames of several parts, whose values are written part by part.

Each part has some values in every frame, and they go behind those of the parts in
front of it.  Whatever the widths of the parts are, every place is written once, and
what is there in the end is the frames in their order.
-/
import Mathlib.Algebra.GroupWithZero.Nat
import Mathlib.Data.List.Perm.Basic

namespace Interleave

theorem group_lt {group count offset size : Nat} (hgroup : group < count)
    (hoffset : offset < size) : group * size + offset < count * size := by
  have hle : (group + 1) * size ≤ count * size := Nat.mul_le_mul_right size hgroup
  rw [Nat.add_mul, Nat.one_mul] at hle
  omega

theorem flatMap_groups {β : Type} (count size : Nat) (f : Nat → List β) :
    ((List.range count).flatMap fun group =>
      (List.range size).flatMap fun offset => f (group * size + offset)) =
        (List.range (count * size)).flatMap f := by
  induction count with
  | zero =>
    rw [Nat.zero_mul]
    rfl
  | succ count ih =>
    rw [List.range_succ, List.flatMap_append, ih, Nat.succ_mul, List.range_add,
      List.flatMap_append, List.flatMap_map]
    exact congrArg _ (List.append_nil _)

theorem flatMap_range' (start count width : Nat) :
    ((List.range count).flatMap fun index => List.range' ((start + index) * width) width) =
      List.range' (start * width) (count * width) := by
  induction count with
  | zero =>
    rw [Nat.zero_mul]
    rfl
  | succ count ih =>
    rw [List.range_succ, List.flatMap_append, ih, List.flatMap_singleton, Nat.add_mul start count,
      List.range'_append_1, Nat.succ_mul]

variable {α : Type}

/-- Write values at places, in this order. -/
def scatter (writes : List (Nat × α)) (cells : List α) : List α :=
  writes.foldl (fun cells write => cells.set write.1 write.2) cells

theorem length_scatter (writes : List (Nat × α)) (cells : List α) :
    (scatter writes cells).length = cells.length := by
  induction writes generalizing cells with
  | nil => rfl
  | cons write writes ih => exact (ih _).trans List.length_set

theorem getElem?_scatter_of_notMem {writes : List (Nat × α)} {index : Nat}
    (h : index ∉ writes.map Prod.fst) (cells : List α) :
    (scatter writes cells)[index]? = cells[index]? := by
  induction writes generalizing cells with
  | nil => rfl
  | cons write writes ih =>
    rw [List.map_cons, List.mem_cons, not_or] at h
    refine (ih h.2 _).trans ?_
    rw [List.getElem?_set_ne fun heq => h.1 heq.symm]

theorem getElem?_scatter {writes : List (Nat × α)} (h : (writes.map Prod.fst).Nodup)
    {index : Nat} {a : α} (hmem : (index, a) ∈ writes) {cells : List α}
    (hlt : index < cells.length) :
    (scatter writes cells)[index]? = some a := by
  induction writes generalizing cells with
  | nil => cases hmem
  | cons write writes ih =>
    rw [List.map_cons, List.nodup_cons] at h
    obtain rfl | hmem := List.mem_cons.mp hmem
    · refine (getElem?_scatter_of_notMem h.1 _).trans ?_
      rw [List.getElem?_set_self hlt]
    · exact ih h.2 hmem (by rwa [List.length_set])

theorem scatter_eq {writes ordered : List (Nat × α)} (h : writes.Perm ordered) {cells : List α}
    (hplaces : ordered.map Prod.fst = List.range cells.length) :
    scatter writes cells = ordered.map Prod.snd := by
  have hcount : ordered.length = cells.length := by
    rw [← List.length_map (f := Prod.fst), hplaces, List.length_range]
  have hnodup : (writes.map Prod.fst).Nodup := by
    rw [(h.map Prod.fst).nodup_iff, hplaces]
    exact List.nodup_range
  refine List.ext_getElem? fun index => ?_
  by_cases hlt : index < cells.length
  · have hindex : index < ordered.length := by omega
    have hplace : ordered[index].1 = index := by
      have hget := List.getElem_map Prod.fst (l := ordered) (i := index) (h := by
        rwa [List.length_map])
      rw [← hget]
      simp only [hplaces, List.getElem_range]
    have hmem : (index, ordered[index].2) ∈ writes := by
      refine h.mem_iff.mpr ?_
      have hself := List.getElem_mem hindex
      rwa [show ordered[index] = (index, ordered[index].2) from Prod.ext hplace rfl] at hself
    rw [getElem?_scatter hnodup hmem hlt, List.getElem?_map, List.getElem?_eq_getElem hindex,
      Option.map_some]
  · rw [List.getElem?_eq_none (by rw [length_scatter]; omega),
      List.getElem?_eq_none (by rw [List.length_map]; omega)]

/-! ## Parts -/

/-- A part has as many values in each frame as it is wide. -/
structure Part (α : Type) where
  width : Nat
  values : List α

def Part.frame (part : Part α) (frame : Nat) : List α :=
  (part.values.drop (frame * part.width)).take part.width

def Part.Fills (part : Part α) (frames : Nat) : Prop := part.values.length = frames * part.width

theorem Part.Fills.length_frame {part : Part α} {frames frame : Nat} (h : part.Fills frames)
    (hframe : frame < frames) : (part.frame frame).length = part.width := by
  have hle : (frame + 1) * part.width ≤ frames * part.width := Nat.mul_le_mul_right _ hframe
  rw [Nat.add_mul, Nat.one_mul, ← h] at hle
  rw [Part.frame, List.length_take, List.length_drop]
  omega

def totalWidth (parts : List (Part α)) : Nat := (parts.map Part.width).sum

def interleave (frames : Nat) (parts : List (Part α)) : List α :=
  (List.range frames).flatMap fun frame => parts.flatMap fun part => part.frame frame

def placed (start : Nat) (values : List α) : List (Nat × α) :=
  (values.zipIdx start).map fun entry => (entry.2, entry.1)

theorem placed_append (start : Nat) (first second : List α) :
    placed start (first ++ second) =
      placed start first ++ placed (start + first.length) second := by
  rw [placed, List.zipIdx_append, List.map_append]
  rfl

theorem map_fst_placed (start : Nat) (values : List α) :
    (placed start values).map Prod.fst = List.range' start values.length := by
  rw [placed, List.map_map]
  exact List.zipIdx_map_snd start values

theorem map_snd_placed (start : Nat) (values : List α) :
    (placed start values).map Prod.snd = values := by
  rw [placed, List.map_map]
  exact List.zipIdx_map_fst start values

def Part.writes (frames total offset : Nat) (part : Part α) : List (Nat × α) :=
  (List.range frames).flatMap fun frame => placed (frame * total + offset) (part.frame frame)

def writesFrom (frames total : Nat) : Nat → List (Part α) → List (Nat × α)
  | _, [] => []
  | offset, part :: parts =>
    part.writes frames total offset ++ writesFrom frames total (offset + part.width) parts

theorem writesFrom_concat (frames total offset : Nat) (parts : List (Part α)) (part : Part α) :
    writesFrom frames total offset (parts ++ [part]) =
      writesFrom frames total offset parts ++
        part.writes frames total (offset + totalWidth parts) := by
  induction parts generalizing offset with
  | nil => exact List.append_nil _
  | cons first parts ih =>
    have hwidth : totalWidth (first :: parts) = first.width + totalWidth parts := rfl
    rw [List.cons_append, writesFrom, writesFrom, ih, hwidth, List.append_assoc, Nat.add_assoc]

theorem scatter_append (first second : List (Nat × α)) (cells : List α) :
    scatter (first ++ second) cells = scatter second (scatter first cells) := List.foldl_append

section

variable {frames total : Nat} {parts : List (Part α)}

theorem writesFrom_perm (h : ∀ part ∈ parts, part.Fills frames) (offset : Nat) :
    (writesFrom frames total offset parts).Perm
      ((List.range frames).flatMap fun frame =>
        placed (frame * total + offset) (parts.flatMap fun part => part.frame frame)) := by
  induction parts generalizing offset with
  | nil =>
    refine .of_eq ?_
    exact (List.flatMap_eq_nil_iff.mpr fun frame _ => rfl).symm
  | cons part parts ih =>
    have hpart := h part List.mem_cons_self
    have hrest := ih (fun other hmem => h other (List.mem_cons_of_mem _ hmem)) (offset + part.width)
    refine ((List.Perm.refl _).append hrest).trans ?_
    refine (List.flatMap_append_perm _ _ _).trans (.of_eq ?_)
    refine List.flatMap_congr fun frame hframe => ?_
    rw [List.flatMap_cons, placed_append, hpart.length_frame (List.mem_range.mp hframe),
      Nat.add_assoc]

variable (h : ∀ part ∈ parts, part.Fills frames) (htotal : totalWidth parts = total)
include h htotal

theorem map_fst_frames :
    ((List.range frames).flatMap fun frame =>
      placed (frame * total + 0) (parts.flatMap fun part => part.frame frame)).map Prod.fst =
        List.range (frames * total) := by
  have hframe : ∀ frame < frames,
      (parts.flatMap fun part => part.frame frame).length = total := by
    intro frame hlt
    rw [List.length_flatMap, ← htotal, totalWidth]
    exact congrArg List.sum (List.map_congr_left fun part hmem => (h part hmem).length_frame hlt)
  have hnumbers : (List.range (frames * total)).flatMap (fun index => [index]) =
      List.range (frames * total) := by
    rw [← List.map_eq_flatMap, List.map_id']
  rw [List.map_flatMap, ← hnumbers, ← flatMap_groups]
  refine List.flatMap_congr fun frame hmem => ?_
  rw [map_fst_placed, hframe frame (List.mem_range.mp hmem), Nat.add_zero, ← List.map_eq_flatMap,
    List.range'_eq_map_range]

theorem places_perm :
    ((writesFrom frames total 0 parts).map Prod.fst).Perm (List.range (frames * total)) :=
  map_fst_frames h htotal ▸ (writesFrom_perm h 0).map Prod.fst

theorem scatter_writesFrom {cells : List α} (hcells : cells.length = frames * total) :
    scatter (writesFrom frames total 0 parts) cells = interleave frames parts := by
  rw [scatter_eq (writesFrom_perm h 0) (by rw [map_fst_frames h htotal, hcells]), List.map_flatMap]
  exact List.flatMap_congr fun frame _ => map_snd_placed _ _

end

/-- Bytes in place of those that are as many from a start on. -/
def splice (list : List α) (start : Nat) (new : List α) : List α :=
  list.take start ++ (new ++ list.drop (start + new.length))

theorem splice_append {front old new : List α} (h : new.length = old.length) :
    splice (front ++ old) front.length new = front ++ new := by
  rw [splice, List.take_left, h, List.drop_length_add_append, List.drop_length, List.append_nil]

variable {cells : List (List α)} {width : Nat} (h : ∀ cell ∈ cells, cell.length = width)
include h

theorem length_flatten_cells : cells.flatten.length = cells.length * width := by
  rw [List.length_flatten, List.map_congr_left h, List.map_const', List.sum_replicate_nat]

theorem splice_flatten {index : Nat} (hindex : index < cells.length) {new : List α}
    (hnew : new.length = width) :
    splice cells.flatten (index * width) new = (cells.set index new).flatten := by
  induction cells generalizing index with
  | nil => cases hindex
  | cons cell cells ih =>
    have hcell := h cell List.mem_cons_self
    cases index with
    | zero =>
      rw [splice, Nat.zero_mul, List.take_zero, Nat.zero_add, hnew, ← hcell, List.flatten_cons,
        List.drop_left, List.set_cons_zero, List.flatten_cons]
      rfl
    | succ index =>
      have hrest := ih (fun other hmem => h other (List.mem_cons_of_mem _ hmem))
        (Nat.lt_of_succ_lt_succ hindex)
      have hstart : (index + 1) * width = cell.length + index * width := by
        rw [Nat.succ_mul, hcell, Nat.add_comm]
      rw [List.set_cons_succ, List.flatten_cons, List.flatten_cons, ← hrest, splice, splice, hstart,
        List.take_length_add_append, Nat.add_assoc, List.drop_length_add_append, List.append_assoc]

end Interleave
