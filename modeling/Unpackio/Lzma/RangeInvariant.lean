/-
What the calls on a range decoder keep.

Between two calls the range has its top byte filled, and every probability stays
away from both ends of its scale, so no checked operation fails and one byte is
enough to fill the range again.  The code stays inside the range as long as no
direct bit meets an odd range with the code at its very end.
-/
import Unpackio.Lzma.Range

namespace Unpackio
namespace Lzma

open Unpackio.Filter (wrappingShl)
open Prog (Passes Yields FailsWith CanReturn granted_lift_bind)

def Adapted (probability : Nat) : Prop := 31 ≤ probability ∧ probability ≤ 2017

instance (probability : Nat) : Decidable (Adapted probability) := by
  unfold Adapted
  infer_instance

theorem adapted_initial : Adapted probInitial := by decide

variable {probability : Nat} {decoder : RangeDecoder}

theorem adapted_zero (h : Adapted probability) :
    Adapted (probability + (probTotal - probability) >>> moveBits) := by
  obtain ⟨hlow, hhigh⟩ := h
  have htotal : probTotal = 2048 := rfl
  rw [htotal, Nat.shiftRight_eq_div_pow, moveBits]
  exact ⟨by omega, by omega⟩

theorem adapted_one (h : Adapted probability) :
    Adapted (probability - probability >>> moveBits) := by
  obtain ⟨hlow, hhigh⟩ := h
  rw [Nat.shiftRight_eq_div_pow, moveBits]
  exact ⟨by omega, by omega⟩

def Truncated (e : Error) : Prop := e = formatError "truncated LZMA range stream"

namespace RangeDecoder

/-- The state between two calls. -/
structure Ready (decoder : RangeDecoder) : Prop where
  top : topValue ≤ decoder.range
  range_lt : decoder.range < 2 ^ 32
  code_lt : decoder.code < 2 ^ 32
  cursor_le : decoder.cursor ≤ decoder.input.length
  input_lt : decoder.input.length < 2 ^ 64

def Inside (decoder : RangeDecoder) : Prop := decoder.code < decoder.range

/-- What any number of calls leaves of a decoder. -/
structure After (decoder next : RangeDecoder) : Prop where
  ready : next.Ready
  inside : decoder.Inside → next.Inside

theorem After.refl (h : decoder.Ready) : After decoder decoder :=
  ⟨h, id⟩

theorem After.trans {next last : RangeDecoder} (h : After decoder next) (hnext : After next last) :
    After decoder last :=
  ⟨hnext.ready, fun hinside => hnext.inside (h.inside hinside)⟩

/-! ## One byte -/

theorem readByte_eq {decoder : RangeDecoder} (hinput : decoder.input.length < 2 ^ 64) :
    decoder.readByte.granted =
      if h : decoder.cursor < decoder.input.length then
        .ok (decoder.input.get ⟨decoder.cursor, h⟩, { decoder with cursor := decoder.cursor + 1 })
      else .error (formatError "truncated LZMA range stream") := by
  rw [readByte, checkpoint_bind]
  by_cases h : decoder.cursor < decoder.input.length
  · rw [dif_pos h, List.getElem?_eq_getElem h, checkedAdd_of_lt (by omega)]
    rfl
  · rw [dif_neg h, List.getElem?_eq_none (by omega)]
    rfl

theorem readByte_yields (hinput : decoder.input.length < 2 ^ 64) :
    Yields Truncated (fun result => decoder.cursor < decoder.input.length ∧
      result.2 = { decoder with cursor := decoder.cursor + 1 }) decoder.readByte := by
  have hread := readByte_eq hinput
  by_cases h : decoder.cursor < decoder.input.length
  · rw [dif_pos h] at hread
    exact .of_ok hread ⟨h, rfl⟩
  · rw [dif_neg h] at hread
    exact .of_error hread rfl

theorem shiftIn_lt (code : Nat) (byte : UInt8) : wrappingShl code 8 ||| byte.toNat < 2 ^ 32 := by
  have hbyte := byte.toNat_lt
  exact Nat.or_lt_two_pow (Nat.mod_lt _ (by decide)) (by omega)

theorem shiftIn_eq {code : Nat} (h : code < topValue) (byte : UInt8) :
    wrappingShl code 8 ||| byte.toNat = 256 * code + byte.toNat := by
  have htop : topValue = 2 ^ 24 := rfl
  have hshift : wrappingShl code 8 = code <<< 8 := by
    rw [wrappingShl, Nat.mod_eq_of_lt]
    rw [Nat.shiftLeft_eq]
    omega
  rw [hshift, ← Nat.shiftLeft_add_eq_or_of_lt byte.toNat_lt, Nat.shiftLeft_eq]
  omega

theorem wrappingShl_range {range : Nat} (h : range < topValue) :
    wrappingShl range 8 = 256 * range := by
  have htop : topValue = 2 ^ 24 := rfl
  rw [wrappingShl, Nat.shiftLeft_eq]
  omega

theorem normalize_yields (hrange : 2 ^ 16 ≤ decoder.range) (hlt : decoder.range < 2 ^ 32)
    (hcode : decoder.code < 2 ^ 32) (hcursor : decoder.cursor ≤ decoder.input.length)
    (hinput : decoder.input.length < 2 ^ 64) :
    Yields Truncated (fun next => After decoder next ∧
      (topValue ≤ decoder.range ∨ decoder.cursor < decoder.input.length)) decoder.normalize := by
  refine .ite (fun htop => .pure ⟨⟨⟨htop, hlt, hcode, hcursor, hinput⟩, id⟩, .inl htop⟩)
    fun htop => ?_
  have htop : decoder.range < topValue := Nat.lt_of_not_le htop
  have htwo : topValue = 2 ^ 24 := rfl
  rw [wrappingShl_range htop]
  refine .bind (readByte_yields hinput) ?_
  rintro ⟨byte, next⟩ ⟨hread, rfl⟩
  refine .pure ⟨⟨⟨?_, ?_, shiftIn_lt _ byte, hread, hinput⟩, fun hinside => ?_⟩, .inr hread⟩
  · show topValue ≤ 256 * decoder.range
    omega
  · show 256 * decoder.range < 2 ^ 32
    omega
  · have hbyte := byte.toNat_lt
    have hinside : decoder.code < decoder.range := hinside
    show wrappingShl decoder.code 8 ||| byte.toNat < 256 * decoder.range
    rw [shiftIn_eq (by omega) byte]
    omega

theorem normalize_eq (htop : decoder.range < topValue) (h : decoder.cursor < decoder.input.length)
    (hinput : decoder.input.length < 2 ^ 64) :
    decoder.normalize.granted = .ok { decoder with
      cursor := decoder.cursor + 1
      range := wrappingShl decoder.range 8
      code := wrappingShl decoder.code 8 |||
        (decoder.input.get ⟨decoder.cursor, h⟩).toNat } := by
  have hread := @readByte_eq { decoder with range := wrappingShl decoder.range 8 } hinput
  rw [dif_pos h] at hread
  rw [normalize, if_neg (Nat.not_le_of_lt htop), Prog.granted_bind, hread]
  rfl

theorem normalize_edge (hedge : decoder.code = decoder.range)
    (hinput : decoder.input.length < 2 ^ 64)
    (hroom : topValue ≤ decoder.range ∨ decoder.cursor < decoder.input.length) :
    ∃ next, decoder.normalize.granted = .ok next ∧ ¬next.Inside := by
  by_cases htop : topValue ≤ decoder.range
  · refine ⟨decoder, ?_, fun hinside => ?_⟩
    · rw [normalize, if_pos htop]
      rfl
    · have hinside : decoder.code < decoder.range := hinside
      omega
  · have hread := hroom.resolve_left htop
    have hshift := shiftIn_eq (show decoder.code < topValue by omega)
      (decoder.input.get ⟨decoder.cursor, hread⟩)
    refine ⟨_, normalize_eq (Nat.lt_of_not_le htop) hread hinput, fun hinside => ?_⟩
    have hinside : wrappingShl decoder.code 8 ||| _ < wrappingShl decoder.range 8 := hinside
    rw [hshift, wrappingShl_range (Nat.lt_of_not_le htop)] at hinside
    omega

theorem passes_readByte (decoder : RangeDecoder) : Passes (fun _ => True) decoder.readByte :=
  .bind (.request _) fun _ => .step fun _ => .step fun _ => .pure _

theorem passes_normalize (decoder : RangeDecoder) : Passes (fun _ => True) decoder.normalize :=
  .ite (.pure _) (.bind (passes_readByte _) fun _ => .pure _)

/-- An odd range with the code at its end, and the byte that may be needed behind
it.  Halving the range leaves the code outside. -/
def Ties (decoder : RangeDecoder) : Prop :=
  decoder.range % 2 = 1 ∧ decoder.code + 1 = decoder.range ∧
    (topValue ≤ decoder.range / 2 ∨ decoder.cursor < decoder.input.length)

instance (decoder : RangeDecoder) : Decidable decoder.Ties := by
  unfold Ties
  infer_instance

theorem decodeDirectBit_yields (h : decoder.Ready) :
    Yields Truncated (fun result => result.2.Ready ∧
      (decoder.Inside → ¬decoder.Ties → result.2.Inside)) decoder.decodeDirectBit := by
  obtain ⟨htop, hrange, hcode, hcursor, hinput⟩ := h
  have htwo : topValue = 2 ^ 24 := rfl
  have hhalf : decoder.range >>> 1 = decoder.range / 2 := Nat.shiftRight_eq_div_pow _ 1
  rw [decodeDirectBit, hhalf]
  refine .ite (fun hle => ?_) fun hlt => ?_
  · refine .bind_ok (a := decoder.code - decoder.range / 2) ?_ ?_
    · rw [checkedSub_of_le hle]
      rfl
    · refine .bind (normalize_yields (show 2 ^ 16 ≤ decoder.range / 2 by omega)
        (show decoder.range / 2 < 2 ^ 32 by omega)
        (show decoder.code - decoder.range / 2 < 2 ^ 32 by omega) hcursor hinput) ?_
      intro next hnext
      obtain ⟨⟨hready, hkeeps⟩, hroom⟩ := hnext
      refine .pure ⟨hready, fun hinside hties => hkeeps ?_⟩
      have hinside : decoder.code < decoder.range := hinside
      -- Halving loses a place only where the range is odd and the code at its end.
      have hplace : ¬(decoder.range % 2 = 1 ∧ decoder.code + 1 = decoder.range) :=
        fun hedge => hties ⟨hedge.1, hedge.2, hroom⟩
      show decoder.code - decoder.range / 2 < decoder.range / 2
      omega
  · refine .bind (normalize_yields (show 2 ^ 16 ≤ decoder.range / 2 by omega)
      (show decoder.range / 2 < 2 ^ 32 by omega) hcode hcursor hinput) ?_
    intro next hnext
    exact .pure ⟨hnext.1.ready, fun _ _ => hnext.1.inside (Nat.lt_of_not_le hlt)⟩

theorem decodeDirectBit_ties (h : decoder.Ready) (hties : decoder.Ties) :
    ∃ bit next, decoder.decodeDirectBit.granted = .ok (bit, next) ∧ ¬next.Inside := by
  obtain ⟨hodd, hedge, hroom⟩ := hties
  have hhalf : decoder.range >>> 1 = decoder.range / 2 := Nat.shiftRight_eq_div_pow _ 1
  have hcode : decoder.code - decoder.range / 2 = decoder.range / 2 := by omega
  obtain ⟨next, hnormal, houtside⟩ := normalize_edge
    (show (RangeDecoder.mk decoder.input decoder.cursor (decoder.range / 2)
      (decoder.range / 2)).code = decoder.range / 2 from rfl) h.input_lt hroom
  refine ⟨1, next, ?_, houtside⟩
  rw [decodeDirectBit, hhalf, if_pos (by omega), checkedSub_of_le (by omega), hcode,
    granted_lift_bind, okOr_bind, Prog.granted_bind, hnormal]
  rfl

theorem passes_decodeDirectBit (decoder : RangeDecoder) :
    Passes (fun _ => True) decoder.decodeDirectBit :=
  .ite (.step fun _ => .bind (passes_normalize _) fun _ => .pure _)
    (.bind (passes_normalize _) fun _ => .pure _)

theorem fillCode_yields (count : Nat) (hinput : decoder.input.length < 2 ^ 64)
    (hcode : decoder.code < 2 ^ 32) (hcursor : decoder.cursor ≤ decoder.input.length) :
    Yields (fun _ => True) (fun next : RangeDecoder => next.input = decoder.input ∧
      next.range = decoder.range ∧ next.code < 2 ^ 32 ∧ next.cursor ≤ next.input.length)
      (fillCode count decoder) := by
  induction count generalizing decoder with
  | zero => exact .pure ⟨rfl, rfl, hcode, hcursor⟩
  | succ count ih =>
    refine .bind ⟨(readByte_yields hinput).1, fun _ _ => trivial⟩ ?_
    rintro ⟨byte, next⟩ ⟨hread, rfl⟩
    exact ih hinput (shiftIn_lt _ byte) hread

theorem new_yields {input : List UInt8} (hinput : input.length < 2 ^ 64) :
    Yields (fun _ => True) (fun decoder : RangeDecoder => decoder.Ready ∧ decoder.Inside)
      (new input) := by
  refine .bind ⟨(readByte_yields hinput).1, fun _ _ => trivial⟩ ?_
  rintro ⟨first, next⟩ ⟨hread, rfl⟩
  refine .bind (m := fun _ => True) (.lift (fun _ _ => trivial) fun _ _ => trivial) fun _ _ => ?_
  refine .bind (fillCode_yields 4 hinput (show 0 < 2 ^ 32 by decide) hread) ?_
  intro next hnext
  obtain ⟨hsame, hrange, hcode, hcursor⟩ := hnext
  refine .bind (m := fun _ => next.code < next.range) (.lift (fun _ heq => ?_) fun _ _ => trivial)
    fun _ hinside => ?_
  · exact Nat.lt_of_not_le (rejectIf_eq_ok.mp heq)
  · refine .pure ⟨⟨?_, ?_, hcode, hcursor, hsame ▸ hinput⟩, hinside⟩
    · rw [hrange]
      exact (by decide : topValue ≤ 2 ^ 32 - 1)
    · rw [hrange]
      exact (by decide : 2 ^ 32 - 1 < 2 ^ 32)

theorem passes_fillCode (count : Nat) (decoder : RangeDecoder) :
    Passes (fun _ => True) (fillCode count decoder) := by
  induction count generalizing decoder with
  | zero => exact .pure _
  | succ count ih => exact .bind (passes_readByte _) fun _ => ih _

theorem passes_new (input : List UInt8) : Passes (fun _ => True) (new input) :=
  .bind (passes_readByte _) fun _ => .step fun _ => .bind (passes_fillCode _ _) fun _ =>
    .step fun _ => .pure _

end RangeDecoder

open RangeDecoder (Ready Inside After)

theorem decodeBit_yields (hprobability : Adapted probability) (h : decoder.Ready) :
    Yields Truncated (fun result => result.1 ≤ 1 ∧ Adapted result.2.1 ∧ After decoder result.2.2)
      (decodeBit probability decoder) := by
  obtain ⟨htop, hrange, hcode, hcursor, hinput⟩ := h
  obtain ⟨hlow, hhigh⟩ := id hprobability
  have htwo : topValue = 2 ^ 24 := rfl
  have htotal : probTotal = 2048 := rfl
  -- The part of the range that stands for a zero.
  have hunit : decoder.range >>> probBits = decoder.range / 2048 := Nat.shiftRight_eq_div_pow _ 11
  have hboundLow : 31 * (decoder.range / 2048) ≤ decoder.range / 2048 * probability := by
    rw [Nat.mul_comm]
    exact Nat.mul_le_mul_left _ hlow
  have hboundHigh : decoder.range / 2048 * probability ≤ 2017 * (decoder.range / 2048) := by
    rw [Nat.mul_comm]
    exact Nat.mul_le_mul_right _ hhigh
  rw [decodeBit, hunit]
  generalize decoder.range / 2048 * probability = bound at hboundLow hboundHigh
  refine .bind_ok (a := bound) ?_ (.ite (fun hlt => ?_) fun hge => ?_)
  · rw [tryFrom_of_lt (by omega)]
    rfl
  · refine .bind_ok (a := probTotal - probability) ?_ (.bind_ok
      (a := probability + (probTotal - probability) >>> moveBits) ?_ ?_)
    · rw [checkedSub_of_le (by omega)]
      rfl
    · have hadapted := adapted_zero hprobability
      rw [tryFrom_of_lt (Nat.lt_of_le_of_lt hadapted.2 (by decide))]
      rfl
    · refine .bind (RangeDecoder.normalize_yields (show 2 ^ 16 ≤ bound by omega)
        (show bound < 2 ^ 32 by omega) hcode hcursor hinput) ?_
      intro next hnext
      exact .pure ⟨Nat.zero_le 1, adapted_zero hprobability, hnext.1.ready,
        fun _ => hnext.1.inside hlt⟩
  · refine .bind_ok (a := decoder.code - bound) ?_ (.bind_ok (a := decoder.range - bound) ?_
      (.bind_ok (a := probability - probability >>> moveBits) ?_ ?_))
    · rw [checkedSub_of_le (by omega)]
      rfl
    · rw [checkedSub_of_le (by omega)]
      rfl
    · rw [checkedSub_of_le (by rw [Nat.shiftRight_eq_div_pow]; exact Nat.div_le_self _ _)]
      rfl
    · refine .bind (RangeDecoder.normalize_yields (show 2 ^ 16 ≤ decoder.range - bound by omega)
        (show decoder.range - bound < 2 ^ 32 by omega)
        (show decoder.code - bound < 2 ^ 32 by omega) hcursor hinput) ?_
      intro next hnext
      refine .pure ⟨Nat.le_refl 1, adapted_one hprobability, hnext.1.ready,
        fun hinside => hnext.1.inside ?_⟩
      have hinside : decoder.code < decoder.range := hinside
      show decoder.code - bound < decoder.range - bound
      omega

theorem passes_decodeBit (probability : Nat) (decoder : RangeDecoder) :
    Passes (fun _ => True) (decodeBit probability decoder) :=
  .step fun _ => .ite
    (.step fun _ => .step fun _ => .bind (RangeDecoder.passes_normalize _) fun _ => .pure _)
    (.step fun _ => .step fun _ => .step fun _ => .bind (RangeDecoder.passes_normalize _) fun _ =>
      .pure _)

namespace ProbabilityTree

/-- A tree with a probability for every node. -/
structure Shaped (tree : ProbabilityTree) : Prop where
  bits_pos : 1 ≤ tree.bits
  bits_le : tree.bits ≤ 8
  length_eq : tree.probabilities.length = 2 ^ tree.bits
  adapted : ∀ probability ∈ tree.probabilities, Adapted probability

theorem shaped_of_new {bits : Nat} {tree : ProbabilityTree} (h : new bits = .ok tree) :
    tree.Shaped := by
  obtain ⟨_, hbits, h⟩ := Except.bind_eq_ok.mp h
  obtain ⟨hpos, hle⟩ := not_not.mp (rejectIf_eq_ok.mp hbits)
  rw [checkedShl_one (by omega), okOr_bind] at h
  cases h
  refine ⟨hpos, hle, List.length_replicate, fun probability hmem => ?_⟩
  rw [List.eq_of_mem_replicate hmem]
  exact adapted_initial

theorem Shaped.set {tree : ProbabilityTree} (h : tree.Shaped) (node : Nat)
    (hprobability : Adapted probability) :
    Shaped { tree with probabilities := tree.probabilities.set node probability } := by
  refine ⟨h.bits_pos, h.bits_le, List.length_set.trans h.length_eq, fun other hmem => ?_⟩
  rcases List.mem_or_eq_of_mem_set hmem with hmem | rfl
  · exact h.adapted other hmem
  · exact hprobability

theorem child_eq {node bit : Nat} (hnode : node < 2 ^ 8) (hbit : bit ≤ 1) :
    child node bit = .ok (2 * node + bit) := by
  rw [child, tryFrom_of_lt (by omega), Option.bind_some, checkedAdd_of_lt (by omega), Nat.mul_comm]
  rfl

/-- A node of a level, in a tree that has `count` levels more. -/
structure Stands (tree : ProbabilityTree) (count node : Nat) : Prop where
  shaped : tree.Shaped
  le : count ≤ tree.bits
  low : 2 ^ (tree.bits - count) ≤ node
  high : node < 2 ^ (tree.bits - count + 1)

theorem stands_root {tree : ProbabilityTree} (h : tree.Shaped) : Stands tree tree.bits 1 := by
  refine ⟨h, Nat.le_refl _, ?_, ?_⟩
  · rw [Nat.sub_self]
    decide
  · rw [Nat.sub_self]
    decide

section Level

variable {tree : ProbabilityTree} {count node : Nat} (h : Stands tree (count + 1) node)
include h

theorem Stands.lt : node < tree.probabilities.length := by
  have hle := h.le
  rw [h.shaped.length_eq]
  exact Nat.lt_of_lt_of_le h.high (Nat.pow_le_pow_right (by decide) (by omega))

theorem Stands.lt_byte : node < 2 ^ 8 :=
  Nat.lt_of_lt_of_le h.lt (h.shaped.length_eq ▸ Nat.pow_le_pow_right (by decide) h.shaped.bits_le)

theorem Stands.child {bit : Nat} (hbit : bit ≤ 1) (hprobability : Adapted probability) :
    Stands { tree with probabilities := tree.probabilities.set node probability } count
      (2 * node + bit) := by
  have hle := h.le
  have hlow := h.low
  have hhigh := h.high
  have hlevel : tree.bits - count = tree.bits - (count + 1) + 1 := by omega
  refine ⟨h.shaped.set node hprobability, by simp only; omega, ?_, ?_⟩
  · simp only [hlevel]
    rw [Nat.pow_succ]
    omega
  · simp only [hlevel]
    rw [Nat.pow_succ]
    omega

theorem Stands.decodeBit_yields (hdecoder : decoder.Ready) :
    ∃ probability, tree.probabilities[node]? = some probability ∧
      Yields Truncated (fun result => result.1 ≤ 1 ∧ After decoder result.2.2 ∧
        Stands { tree with probabilities := tree.probabilities.set node result.2.1 } count
          (2 * node + result.1)) (decodeBit probability decoder) := by
  refine ⟨tree.probabilities.get ⟨node, h.lt⟩, List.getElem?_eq_getElem h.lt, ?_⟩
  exact (Lzma.decodeBit_yields (h.shaped.adapted _ (List.getElem_mem h.lt)) hdecoder).mono
    fun result hresult => ⟨hresult.1, hresult.2.2, h.child hresult.1 hresult.2.1⟩

end Level

theorem decodeLoop_yields {tree : ProbabilityTree} {count node : Nat} (h : Stands tree count node)
    (hdecoder : decoder.Ready) :
    Yields Truncated (fun result => Stands result.2.1 0 result.1 ∧ After decoder result.2.2)
      (decodeLoop count node tree decoder) := by
  induction count generalizing tree node decoder with
  | zero => exact .pure ⟨h, .refl hdecoder⟩
  | succ count ih =>
    obtain ⟨probability, hget, hbit⟩ := h.decodeBit_yields hdecoder
    refine .bind_ok (a := probability) (by rw [hget]; rfl) (.bind hbit ?_)
    rintro ⟨bit, adapted, next⟩ ⟨hle, hafter, hstands⟩
    refine .bind_ok (child_eq h.lt_byte hle) ?_
    exact (ih hstands hafter.ready).mono fun _ hresult => ⟨hresult.1, hafter.trans hresult.2⟩

theorem decode_yields {tree : ProbabilityTree} (h : tree.Shaped) (hdecoder : decoder.Ready) :
    Yields Truncated (fun result => result.2.1.Shaped ∧ After decoder result.2.2)
      (tree.decode decoder) := by
  refine .bind (decodeLoop_yields (stands_root h) hdecoder) ?_
  rintro ⟨node, last, next⟩ ⟨hstands, hafter⟩
  obtain ⟨hshaped, -, hlow, hhigh⟩ : Stands last 0 node := hstands
  have hbits := hshaped.bits_le
  rw [Nat.sub_zero] at hlow hhigh
  have hsmall : node < 2 ^ 9 :=
    Nat.lt_of_lt_of_le hhigh (Nat.pow_le_pow_right (by decide) (by omega))
  refine .bind_ok (a := 2 ^ last.bits) (by rw [checkedShl_one (by omega)]; rfl) (.bind_ok
    (a := node - 2 ^ last.bits) (by rw [checkedSub_of_le hlow]; rfl) (.bind_ok
      (a := node - 2 ^ last.bits) (by rw [tryFrom_of_lt (by omega)]; rfl) ?_))
  exact .pure ⟨hshaped, hafter⟩

theorem reverseLoop_yields {tree : ProbabilityTree} {count node : Nat} (h : Stands tree count node)
    (shift value : Nat) (hshift : shift + count ≤ 8) (hdecoder : decoder.Ready) :
    Yields Truncated (fun result => result.2.1.Shaped ∧ After decoder result.2.2)
      (reverseLoop count shift node value tree decoder) := by
  induction count generalizing tree node shift value decoder with
  | zero => exact .pure ⟨h.shaped, .refl hdecoder⟩
  | succ count ih =>
    obtain ⟨probability, hget, hbit⟩ := h.decodeBit_yields hdecoder
    refine .bind_ok (a := probability) (by rw [hget]; rfl) (.bind hbit ?_)
    rintro ⟨bit, adapted, next⟩ ⟨hle, hafter, hstands⟩
    refine .bind_ok (a := bit <<< shift % 2 ^ 32)
      (by rw [checkedShl, if_pos (by omega)]; rfl) (.bind_ok (child_eq h.lt_byte hle) ?_)
    exact (ih hstands (shift + 1) _ (by omega) hafter.ready).mono
      fun _ hresult => ⟨hresult.1, hafter.trans hresult.2⟩

theorem decodeReverse_yields {tree : ProbabilityTree} (h : tree.Shaped) (hdecoder : decoder.Ready) :
    Yields Truncated (fun result => result.2.1.Shaped ∧ After decoder result.2.2)
      (tree.decodeReverse decoder) :=
  reverseLoop_yields (stands_root h) 0 0 (by rw [Nat.zero_add]; exact h.bits_le) hdecoder

theorem passes_decodeLoop (count node : Nat) (tree : ProbabilityTree) (decoder : RangeDecoder) :
    Passes (fun _ => True) (decodeLoop count node tree decoder) := by
  induction count generalizing node tree decoder with
  | zero => exact .pure _
  | succ count ih =>
    exact .step fun _ => .bind (passes_decodeBit _ _) fun _ => .step fun _ => ih _ _ _

theorem passes_decode (tree : ProbabilityTree) (decoder : RangeDecoder) :
    Passes (fun _ => True) (tree.decode decoder) :=
  .bind (passes_decodeLoop _ _ _ _) fun _ => .step fun _ => .step fun _ => .step fun _ => .pure _

theorem passes_reverseLoop (count shift node value : Nat) (tree : ProbabilityTree)
    (decoder : RangeDecoder) :
    Passes (fun _ => True) (reverseLoop count shift node value tree decoder) := by
  induction count generalizing shift node value tree decoder with
  | zero => exact .pure _
  | succ count ih =>
    exact .step fun _ => .bind (passes_decodeBit _ _) fun _ => .step fun _ => .step fun _ =>
      ih _ _ _ _ _

theorem passes_decodeReverse (tree : ProbabilityTree) (decoder : RangeDecoder) :
    Passes (fun _ => True) (tree.decodeReverse decoder) := passes_reverseLoop _ _ _ _ _ _

end ProbabilityTree

namespace Machine

/-- What holds between two calls, whatever the code does. -/
structure Safe (machine : Machine) : Prop where
  ready : machine.decoder.Ready
  slots : ∀ slot, Adapted (machine.slots slot)
  trees : ∀ index, (machine.trees index).Shaped

/-- Nothing has been decoded with the probabilities. -/
structure Fresh (machine : Machine) : Prop where
  slots : ∀ slot, machine.slots slot = probInitial
  trees : ∀ index, ∃ bits, ProbabilityTree.new bits = .ok (machine.trees index)

/-- The state that every call should leave. -/
structure Within (machine : Machine) : Prop where
  top : topValue ≤ machine.decoder.range
  range_lt : machine.decoder.range < 2 ^ 32
  inside : machine.decoder.code < machine.decoder.range
  slots : ∀ slot, Adapted (machine.slots slot)
  trees : ∀ index, ∀ probability ∈ (machine.trees index).probabilities, Adapted probability

variable {machine : Machine}

theorem Safe.within (h : machine.Safe) (hinside : machine.decoder.Inside) : machine.Within :=
  ⟨h.ready.top, h.ready.range_lt, hinside, h.slots, fun index => (h.trees index).adapted⟩

theorem Fresh.safe (h : machine.Fresh) (hready : machine.decoder.Ready) : machine.Safe := by
  refine ⟨hready, fun slot => ?_, fun index => ?_⟩
  · rw [h.slots slot]
    exact adapted_initial
  · obtain ⟨bits, hnew⟩ := h.trees index
    exact ProbabilityTree.shaped_of_new hnew

theorem step_yields (h : machine.Safe) (operation : Operation) :
    Yields Truncated (fun next => next.Safe ∧
      (machine.decoder.Inside → (operation = .direct → ¬machine.decoder.Ties) →
        next.decoder.Inside)) (machine.step operation) := by
  have htrees : ∀ index {tree : ProbabilityTree}, tree.Shaped →
      ∀ other, (Function.update machine.trees index tree other).Shaped :=
    fun index _ htree => (Function.forall_update_iff machine.trees fun _ =>
      ProbabilityTree.Shaped).mpr
      ⟨htree, fun other _ => h.trees other⟩
  cases operation with
  | bit slot =>
    refine .bind (decodeBit_yields (h.slots slot) h.ready) ?_
    rintro ⟨bit, probability, decoder⟩ ⟨-, hprobability, hafter⟩
    refine .pure ⟨⟨hafter.ready, ?_, h.trees⟩, fun hinside _ => hafter.inside hinside⟩
    exact (Function.forall_update_iff machine.slots fun _ => Adapted).mpr
      ⟨hprobability, fun other _ => h.slots other⟩
  | direct =>
    refine .bind (RangeDecoder.decodeDirectBit_yields h.ready) ?_
    rintro ⟨bit, decoder⟩ ⟨hready, hkeeps⟩
    exact .pure ⟨⟨hready, h.slots, h.trees⟩, fun hinside hties => hkeeps hinside (hties rfl)⟩
  | tree index =>
    refine .bind (ProbabilityTree.decode_yields (h.trees index) h.ready) ?_
    rintro ⟨value, tree, decoder⟩ ⟨hshaped, hafter⟩
    exact .pure ⟨⟨hafter.ready, h.slots, htrees index hshaped⟩,
      fun hinside _ => hafter.inside hinside⟩
  | reverse index =>
    refine .bind (ProbabilityTree.decodeReverse_yields (h.trees index) h.ready) ?_
    rintro ⟨value, tree, decoder⟩ ⟨hshaped, hafter⟩
    exact .pure ⟨⟨hafter.ready, h.slots, htrees index hshaped⟩,
      fun hinside _ => hafter.inside hinside⟩

theorem run_yields (h : machine.Safe) (operations : List Operation) :
    Yields Truncated Safe (machine.run operations) := by
  induction operations generalizing machine with
  | nil => exact .pure h
  | cons operation operations ih =>
    exact .bind (step_yields h operation) fun _ hnext => ih hnext.1

theorem passes_step (machine : Machine) (operation : Operation) :
    Passes (fun _ => True) (machine.step operation) := by
  cases operation with
  | bit slot => exact .bind (passes_decodeBit _ _) fun _ => .pure _
  | direct => exact .bind (RangeDecoder.passes_decodeDirectBit _) fun _ => .pure _
  | tree index => exact .bind (ProbabilityTree.passes_decode _ _) fun _ => .pure _
  | reverse index => exact .bind (ProbabilityTree.passes_decodeReverse _ _) fun _ => .pure _

theorem passes_run (machine : Machine) (operations : List Operation) :
    Passes (fun _ => True) (machine.run operations) := by
  induction operations generalizing machine with
  | nil => exact .pure _
  | cons operation operations ih =>
    exact .bind (passes_step machine operation) fun next => ih next

theorem run_append (front rest : List Operation) (machine : Machine) :
    machine.run (front ++ rest) = machine.run front >>= run rest := by
  induction front generalizing machine with
  | nil => rfl
  | cons operation front ih =>
    rw [List.cons_append, run, run, bind_assoc]
    exact congrArg _ (funext ih)

/-- No direct bit of the run meets the code at the end of an odd range. -/
def NeverTies (machine : Machine) (operations : List Operation) : Prop :=
  ∀ front rest, operations = front ++ .direct :: rest →
    ∀ next, (machine.run front).CanReturn next → ¬next.decoder.Ties

theorem run_inside (h : machine.Safe) (hinside : machine.decoder.Inside)
    {operations : List Operation} (hnever : machine.NeverTies operations) {next : Machine}
    (hnext : (machine.run operations).granted = .ok next) : next.decoder.Inside := by
  induction operations generalizing machine with
  | nil =>
    cases hnext
    exact hinside
  | cons operation operations ih =>
    obtain ⟨middle, hstep, hrest⟩ := Prog.granted_bind_eq_ok.mp hnext
    obtain ⟨hsafe, hkeeps⟩ := (step_yields h operation).1 middle hstep
    refine ih hsafe (hkeeps hinside ?_) ?_ hrest
    · intro hdirect
      exact hnever [] operations (by rw [hdirect]; rfl) machine (CanReturn.pure_iff.mpr rfl)
    · intro front rest heq last hlast
      refine hnever (operation :: front) rest (by rw [heq]; rfl) last ?_
      exact CanReturn.bind_iff.mpr ⟨middle, .of_granted hstep, hlast⟩

/-- On every input that begins a range stream, and for every sequence of calls that
start from fresh probabilities: the code is inside the range between all calls
exactly if no direct bit meets it at the end of an odd range.  The other bounds hold
of every run, and a call can only fail at the end of the input. -/
theorem run_within_iff {input : List UInt8} (hinput : input.length < 2 ^ 64)
    {machine : Machine} (hnew : (RangeDecoder.new input).CanReturn machine.decoder)
    (hfresh : machine.Fresh) (operations : List Operation) :
    ((∀ front rest, operations = front ++ rest →
        ∀ next, (machine.run front).CanReturn next → next.Within) ∧
      FailsWith Truncated (machine.run operations)) ↔ machine.NeverTies operations := by
  have hdecoder := RangeDecoder.passes_new input |>.granted_of_canReturn hnew
  obtain ⟨hready, hinside⟩ := (RangeDecoder.new_yields hinput).1 _ hdecoder
  have hsafe := hfresh.safe hready
  constructor
  · rintro ⟨hwithin, -⟩ front rest heq next hnext hties
    have hgranted := (passes_run machine front).granted_of_canReturn hnext
    have hnextSafe := (run_yields hsafe front).1 next hgranted
    obtain ⟨bit, last, hbit, houtside⟩ := RangeDecoder.decodeDirectBit_ties hnextSafe.ready hties
    have hstep : (next.step .direct).granted = .ok { next with decoder := last } := by
      rw [step, Prog.granted_bind, hbit]
      rfl
    have hlast := hwithin (front ++ [.direct]) rest (by rw [heq, List.append_assoc]; rfl)
      { next with decoder := last } <| by
        rw [run_append]
        exact CanReturn.bind_iff.mpr ⟨next, hnext, CanReturn.bind_iff.mpr
          ⟨_, .of_granted hstep, CanReturn.pure_iff.mpr rfl⟩⟩
    exact houtside hlast.inside
  · intro hnever
    refine ⟨fun front rest heq next hnext => ?_, (run_yields hsafe operations).failsWith
      (passes_run machine operations)⟩
    have hgranted := (passes_run machine front).granted_of_canReturn hnext
    refine ((run_yields hsafe front).1 next hgranted).within
      (run_inside hsafe hinside (fun early late hfront => ?_) hgranted)
    exact hnever early (late ++ rest) (by rw [heq, hfront, List.append_assoc]; rfl)

/-- A decoder with fresh probabilities, and trees of three bits. -/
def start (input : List UInt8) (code : Nat) : Machine where
  decoder := { input := input, cursor := 5, range := 2 ^ 32 - 1, code := code }
  slots := fun _ => probInitial
  trees := fun _ => { probabilities := List.replicate 8 probInitial, bits := 3 }

theorem fresh_start (input : List UInt8) (code : Nat) : (start input code).Fresh :=
  ⟨fun _ => rfl, fun _ => ⟨3, rfl⟩⟩

theorem run_within_iff_calls :
    (∀ front rest, [Operation.bit 0, .direct, .tree 1, .reverse 1] = front ++ rest →
        ∀ next, ((start [0, 0, 0, 0, 1, 2] 1).run front).CanReturn next → next.Within) ∧
      FailsWith Truncated ((start [0, 0, 0, 0, 1, 2] 1).run
        [.bit 0, .direct, .tree 1, .reverse 1]) := by
  have hlength : ([0, 0, 0, 0, 1, 2] : List UInt8).length < 2 ^ 64 := by decide
  refine (run_within_iff hlength (.of_granted rfl) (fresh_start _ 1) _).mpr ?_
  intro front rest heq next hnext
  have hfront : front = [.bit 0] := by
    match front with
    | [] => exact (nomatch heq)
    | [operation] => exact congrArg (fun operation => [operation]) (List.cons.inj heq).1.symm
    | [_, _] => exact (nomatch heq)
    | [_, _, _] => exact (nomatch heq)
    | _ :: _ :: _ :: _ :: front =>
      cases front with
      | nil => exact (nomatch heq)
      | cons operation front => exact (nomatch heq)
  subst hfront
  have hgranted := (passes_run _ _).granted_of_canReturn hnext
  have hrun : ((start [0, 0, 0, 0, 1, 2] 1).run [.bit 0]).granted = .ok _ := rfl
  rw [hrun] at hgranted
  cases hgranted
  decide

/-- The first direct bit of this stream leaves the code outside the range. -/
theorem run_leaves_range :
    (RangeDecoder.new [0, 0xff, 0xff, 0xff, 0xfe]).granted =
        .ok (start [0, 0xff, 0xff, 0xff, 0xfe] (2 ^ 32 - 2)).decoder ∧
      (start [0, 0xff, 0xff, 0xff, 0xfe] (2 ^ 32 - 2)).Fresh ∧
      ∃ next, ((start [0, 0xff, 0xff, 0xff, 0xfe] (2 ^ 32 - 2)).run [.direct]).granted = .ok next ∧
        ¬next.Within := by
  refine ⟨rfl, fresh_start _ _, _, rfl, fun hwithin => ?_⟩
  exact absurd hwithin.inside (by decide)

end Machine

end Lzma
end Unpackio
