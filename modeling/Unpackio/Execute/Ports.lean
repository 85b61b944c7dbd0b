/-
The loops of `decode_folder` over its port vectors.

Each vector is a table, so a loop is described by the function its table holds
when it ends.
-/
import Unpackio.Execute
import Unpackio.Foundation.Table
import Unpackio.Validate.Scheduled

namespace Unpackio

open List (map_cons mem_cons_of_mem mem_cons_self mem_map_of_mem)
open Prog (granted_bind granted_lift_bind)
open Except (ok_bind)
open Table

theorem find?_key_eq_some {α : Type} {key : α → Nat} {l : List α} (hnodup : (l.map key).Nodup)
    {k : Nat} {a : α} :
    l.find? (fun b => key b = k) = some a ↔ a ∈ l ∧ key a = k := by
  constructor
  · intro h
    exact ⟨List.mem_of_find?_eq_some h, by simpa using List.find?_some h⟩
  · intro h
    obtain ⟨hmem, rfl⟩ := h
    cases hfind : l.find? fun b => key b = key a with
    | none =>
      have hno := List.find?_eq_none.mp hfind a hmem
      simp at hno
    | some b =>
      have hkey : key b = key a := by simpa using List.find?_some hfind
      rw [List.inj_on_of_nodup_map hnodup (List.mem_of_find?_eq_some hfind) hmem hkey]

namespace Folder

def boundTo (folder : Folder) (input : Nat) : Option Nat :=
  (folder.bindPairs.find? fun pair => pair.inputIndex = input).map BindPair.outputIndex

def destination (folder : Folder) (output : Nat) : Option Nat :=
  (folder.bindPairs.find? fun pair => pair.outputIndex = output).map BindPair.inputIndex

variable {folder : Folder}

variable {i o : Nat} (h : folder.Scheduled)
include h

theorem boundTo_eq_some : folder.boundTo i = some o ↔ ⟨i, o⟩ ∈ folder.bindPairs := by
  simp only [boundTo, Option.map_eq_some_iff, find?_key_eq_some h.inputs.2]
  constructor
  · intro hpair
    obtain ⟨pair, ⟨hmem, rfl⟩, rfl⟩ := hpair
    exact hmem
  · exact fun hmem => ⟨⟨i, o⟩, ⟨hmem, rfl⟩, rfl⟩

theorem destination_eq_some : folder.destination o = some i ↔ ⟨i, o⟩ ∈ folder.bindPairs := by
  simp only [destination, Option.map_eq_some_iff, find?_key_eq_some h.outputs.2]
  constructor
  · intro hpair
    obtain ⟨pair, ⟨hmem, rfl⟩, rfl⟩ := hpair
    exact hmem
  · exact fun hmem => ⟨⟨i, o⟩, ⟨hmem, rfl⟩, rfl⟩

theorem bindPair_lt (hmem : ⟨i, o⟩ ∈ folder.bindPairs) :
    i < folder.inputTotal ∧ o < folder.outputTotal :=
  ⟨(h.inputs.1 i (mem_map_of_mem hmem)).1, (h.outputs.1 o (mem_map_of_mem hmem)).1⟩

end Folder

theorem totalPortCount_eq_ok (counts : List Nat) (total : Nat)
    (h : total + counts.sum < 2 ^ 64) :
    totalPortCount counts total = .ok (total + counts.sum) := by
  induction counts generalizing total with
  | nil => rfl
  | cons count counts ih =>
    rw [List.sum_cons] at h ⊢
    rw [totalPortCount, checkedAdd_bind (by omega), ih _ (by omega), Nat.add_assoc]

theorem bindOutputs_eq_ok (count : Nat) (seen pairs : List BindPair)
    (hrange : ∀ pair ∈ pairs, pair.outputIndex < count)
    (hnodup : ((seen ++ pairs).map BindPair.outputIndex).Nodup) :
    (bindOutputs pairs (table count fun o =>
        (seen.find? fun pair => pair.outputIndex = o).map BindPair.inputIndex)).granted =
      .ok (table count fun o =>
        ((seen ++ pairs).find? fun pair => pair.outputIndex = o).map BindPair.inputIndex) := by
  induction pairs generalizing seen with
  | nil =>
    rw [List.append_nil]
    rfl
  | cons pair pairs ih =>
    have hlt := hrange pair mem_cons_self
    have hunseen : seen.find? (fun other => other.outputIndex = pair.outputIndex) = none := by
      apply List.find?_eq_none.mpr
      intro other hother heq
      rw [List.map_append, map_cons] at hnodup
      exact (List.nodup_append.mp hnodup).2.2 _ (mem_map_of_mem hother) _
        mem_cons_self (by simpa using heq)
    have hset : Function.update (fun o =>
        (seen.find? fun other => other.outputIndex = o).map BindPair.inputIndex)
        pair.outputIndex (some pair.inputIndex) = fun o =>
          ((seen ++ [pair]).find? fun other => other.outputIndex = o).map BindPair.inputIndex := by
      funext o
      rw [List.find?_append]
      by_cases ho : o = pair.outputIndex
      · subst ho
        rw [Function.update_self, hunseen, Option.none_or, List.find?_cons_of_pos (by simp)]
        rfl
      · rw [Function.update_of_ne ho, List.find?_cons_of_neg (by simpa using Ne.symm ho),
          List.find?_nil, Option.or_none]
    have hrest := ih (seen ++ [pair]) (fun other hother => hrange other (mem_cons_of_mem _ hother))
      (by rwa [List.append_assoc])
    rw [List.append_assoc] at hrest
    rw [bindOutputs, checkpoint_bind, granted_lift_bind, getElem?_table_of_lt hlt, hunseen,
      Option.map_none, okOr_bind, granted_lift_bind, rejectIf_of_not (by decide), ok_bind,
      set_table, hset]
    exact hrest

theorem outputDestinations_eq_ok {folder : Folder} (h : folder.Scheduled) :
    (outputDestinations folder folder.outputTotal).granted =
      .ok (table folder.outputTotal folder.destination) := by
  have hloop := bindOutputs_eq_ok folder.outputTotal [] folder.bindPairs
    (fun pair hpair => (h.outputs.1 _ (mem_map_of_mem hpair)).1) h.outputs.2
  rw [outputDestinations, replicate_eq_table]
  exact hloop

section Packed

variable (archiveBytes : List UInt8) (streams : StreamsInfo) (first : Nat)

theorem loadPackedInputs_spec (count : Nat) (packed : Nat → List UInt8)
    (todo : List (Nat × Nat)) (slots : Nat → Option (List UInt8))
    (hrange : ∀ port ∈ todo, port.1 < count) (hnodup : (todo.map Prod.fst).Nodup)
    (hempty : ∀ port ∈ todo, slots port.1 = none)
    (hpacked : ∀ port ∈ todo, ∀ bytes,
      (packedBytes archiveBytes streams first port.2).granted = .ok bytes →
        bytes = packed port.1) :
    ((∀ port ∈ todo, (packedBytes archiveBytes streams first port.2).granted =
        .ok (packed port.1)) ∧
      (loadPackedInputs archiveBytes streams first todo (table count slots)).granted =
        .ok (table count fun i => if i ∈ todo.map Prod.fst then some (packed i) else slots i)) ∨
    ∃ e, (loadPackedInputs archiveBytes streams first todo (table count slots)).granted =
        .error e ∧
      ∃ port ∈ todo, (packedBytes archiveBytes streams first port.2).granted = .error e := by
  induction todo generalizing slots with
  | nil => exact .inl ⟨fun _ h => absurd h List.not_mem_nil, rfl⟩
  | cons port todo ih =>
    obtain ⟨input, ordinal⟩ := port
    have hlt : input < count := hrange _ mem_cons_self
    have hfree : slots input = none := hempty _ mem_cons_self
    rw [map_cons, List.nodup_cons] at hnodup
    rw [loadPackedInputs, checkpoint_bind, granted_bind]
    cases hbytes : (packedBytes archiveBytes streams first ordinal).granted with
    | error e => exact .inr ⟨e, rfl, _, mem_cons_self, hbytes⟩
    | ok bytes =>
      have hvalue : bytes = packed input := hpacked _ mem_cons_self bytes hbytes
      have hstep := ih (Function.update slots input (some bytes))
        (fun port hport => hrange port (mem_cons_of_mem _ hport)) hnodup.2
        (fun port hport => by
          have hne : port.1 ≠ input := fun heq => hnodup.1 (by
            show input ∈ todo.map Prod.fst
            rw [← heq]
            exact mem_map_of_mem hport)
          rw [Function.update_of_ne hne]
          exact hempty port (mem_cons_of_mem _ hport))
        (fun port hport => hpacked port (mem_cons_of_mem _ hport))
      rw [ok_bind, granted_lift_bind, getElem?_table_of_lt hlt, hfree, okOr_bind, granted_lift_bind,
        rejectIf_of_not (by decide), ok_bind, granted_bind, copyBytes_granted, ok_bind, set_table]
      rcases hstep with ⟨hall, hload⟩ | ⟨e, hload, port, hport, herror⟩
      · left
        refine ⟨List.forall_mem_cons.mpr ⟨by rw [hbytes, hvalue], hall⟩, ?_⟩
        rw [hload]
        refine congrArg _ (table_congr fun i _ => ?_)
        simp only [map_cons, List.mem_cons]
        by_cases hi : i = input
        · subst hi
          rw [if_neg hnodup.1, Function.update_self, if_pos (.inl rfl), hvalue]
        · rw [Function.update_of_ne hi]
          simp only [hi, false_or]
      · exact .inr ⟨e, hload, port, mem_cons_of_mem _ hport, herror⟩

end Packed

theorem takeInputs_eq_ok (count start : Nat) (values : Nat → List UInt8) (arity relative : Nat)
    (slots : Nat → Option (List UInt8))
    (hrange : start + relative + arity ≤ count) (hcount : count < 2 ^ 64)
    (hfull : ∀ k < arity, slots (start + (relative + k)) = some (values (relative + k))) :
    takeInputs start arity relative (table count slots) =
      .ok ((List.range arity).map fun k => values (relative + k),
        table count fun i =>
          if start + relative ≤ i ∧ i < start + relative + arity then none else slots i) := by
  induction arity generalizing relative slots with
  | zero =>
    have hslots : table count slots = table count fun i =>
        if start + relative ≤ i ∧ i < start + relative + 0 then none else slots i :=
      table_congr fun i _ => by rw [if_neg (by omega)]
    rw [← hslots]
    rfl
  | succ arity ih =>
    have hfirst := hfull 0 (Nat.succ_pos arity)
    rw [Nat.add_zero] at hfirst
    have hrest := ih (relative + 1) (Function.update slots (start + relative) none) (by omega)
      (fun k hk => by
        have h := hfull (k + 1) (by omega)
        rw [Function.update_of_ne (by omega), Nat.add_assoc relative 1 k, Nat.add_comm 1 k, h])
    rw [takeInputs, checkedAdd_bind (by omega), getElem?_table_of_lt (by omega), okOr_bind, hfirst,
      okOr_bind, set_table, hrest, ok_bind]
    refine congrArg _ (Prod.ext ?_ (table_congr fun i _ => ?_))
    · show values relative :: _ = _
      rw [List.range_succ_eq_map, map_cons, List.map_map, Nat.add_zero]
      refine congrArg _ (List.map_congr_left fun k _ => ?_)
      rw [Function.comp_apply, Nat.add_assoc, Nat.add_comm 1 k]
    · by_cases hi : i = start + relative
      · subst hi
        rw [if_neg (by omega), Function.update_self, if_pos (by omega)]
      · rw [Function.update_of_ne hi]
        by_cases hin : start + (relative + 1) ≤ i ∧ i < start + (relative + 1) + arity
        · rw [if_pos hin, if_pos (by omega)]
        · rw [if_neg hin, if_neg (by omega)]

end Unpackio
