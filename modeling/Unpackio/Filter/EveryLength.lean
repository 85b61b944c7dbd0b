/-
Which lengths the branch filters accept.

The addresses of the instructions are 32-bit numbers, and the positions are not.
Seven of the filters take a position modulo `2 ^ 32`.  The x86 filter fails where
the position is no `u32`, and it also tests the position where its scan stops.
-/
import Unpackio.Filter.RiscV
import Unpackio.Filter.WordBranch
import Unpackio.Filter.Bundle
import Unpackio.Filter.X86Loop

namespace Unpackio
namespace Filter

open Rewriting (Makes pass)

def branchMethods : List (List UInt8) :=
  [methodBcj, methodPpc, methodArm, methodArm64, methodSparc, methodArmThumb, methodIa64,
    methodRiscv]

/-- What a branch filter makes of the bytes, with the addresses of the
instructions modulo `2 ^ 32`.  RISC-V instructions are at even addresses. -/
def branchDecoded (method : List UInt8) (start : Nat) (bytes : List UInt8) : List UInt8 :=
  if method = methodBcj then pass (x86Step wrappingSub) (start, 0) bytes
  else if method = methodPpc then ppc.decode start bytes
  else if method = methodArm then arm.decode (wrappingAdd start 4) bytes
  else if method = methodArm64 then arm64.decode start bytes
  else if method = methodSparc then sparc.decode start bytes
  else if method = methodArmThumb then pass (thumbStep wrappingSub) start bytes
  else if method = methodIa64 then pass (bundleStep wrappingSub) start bytes
  else if method = methodRiscv then pass (riscvStep riscvDecoder) (start / 2 * 2) bytes
  else bytes

theorem length_wordBranch_decode (branch : WordBranch) (start : Nat) (bytes : List UInt8) :
    (branch.decode start bytes).length = bytes.length :=
  Rewriting.length_pass (balanced_wordStep (WordBranch.keepsFour_unit _)) start bytes

theorem length_branchDecoded (method : List UInt8) (start : Nat) (bytes : List UInt8) :
    (branchDecoded method start bytes).length = bytes.length := by
  unfold branchDecoded
  repeat' split
  · exact Rewriting.length_pass (balanced_x86Step _) _ bytes
  · exact length_wordBranch_decode ppc start bytes
  · exact length_wordBranch_decode arm _ bytes
  · exact length_wordBranch_decode arm64 start bytes
  · exact length_wordBranch_decode sparc start bytes
  · exact Rewriting.length_pass (balanced_thumbStep _) start bytes
  · exact Rewriting.length_pass (balanced_bundleStep _) start bytes
  · exact Rewriting.length_pass (balanced_riscvStep _) _ bytes
  · rfl

/-- Is an instruction converted that ends `limit` bytes further, or behind?  The
scan goes on behind a conversion, and else behind the byte. -/
def ConvertsPast (limit mask : Nat) : List UInt8 → Prop
  | a :: b :: c :: d :: e :: rest =>
    if a &&& 0xfe = 0xe8 then
      if x86Blocked mask b c d = false ∧ testX86Msb e then
        limit ≤ x86InstructionSize ∨ ConvertsPast (limit - x86InstructionSize) 0 rest
      else ConvertsPast (limit - 1) (mask / 2 + 4) (b :: c :: d :: e :: rest)
    else ConvertsPast (limit - 1) (mask / 2) (b :: c :: d :: e :: rest)
  | _ => False

/-- What is reached `taken` bytes further. -/
theorem past_step {limit taken made bytes bytes' : Nat} {Past : Prop} (htaken : 0 < taken)
    (hbytes : bytes' + taken = bytes)
    (hlater : limit - taken ≤ made ↔
      limit - taken = 0 ∨ limit - taken + x86LookAhead ≤ bytes' ∨ Past) :
    limit ≤ taken + made ↔ limit = 0 ∨ limit + x86LookAhead ≤ bytes ∨ limit ≤ taken ∨ Past := by
  by_cases hpast : Past <;> simp only [hpast, or_true, or_false, iff_true] at hlater ⊢ <;> omega

theorem le_stop_iff {move : Nat → Nat → Nat} {state last : Nat × Nat}
    {bytes made left : List UInt8} (hmakes : Makes (x86Step move) state bytes made last left)
    (hstop : x86Step move last left = none) (limit : Nat) :
    limit ≤ made.length ↔
      limit = 0 ∨ limit + x86LookAhead ≤ bytes.length ∨ ConvertsPast limit state.2 bytes := by
  induction hmakes generalizing limit with
  | refl state bytes =>
    have hshort := x86Step_none.mp hstop
    have hnot : ¬ConvertsPast limit state.2 bytes := by
      match bytes, hshort with
      | [], _ | [_], _ | [_, _], _ | [_, _, _], _ | [_, _, _, _], _ => exact not_false
    simp only [List.length_nil, x86LookAhead, hnot, or_false]
    omega
  | @step state _ _ _ _ _ made _ hstep hrest ih =>
    obtain ⟨ip, mask⟩ := state
    rcases x86Step_cases hstep with ⟨a, b, c, d, e, rfl, hopcode, hblocked, htest, rfl, rfl⟩ |
      ⟨a, b, c, d, e, tail, rfl, rfl, rfl, hnext⟩
    · have hlater := ih hstop (limit - x86InstructionSize)
      rw [ConvertsPast, if_pos hopcode, if_pos ⟨hblocked, htest⟩]
      simp only [List.length_append, List.length_cons, length_x86Operand]
      exact past_step (by decide) rfl hlater
    · have hlater := ih hstop (limit - 1)
      have hone : ∀ Past : Prop, (limit + 4 ≤ tail.length + 5 ∨ limit ≤ 1 ∨ Past) ↔
          (limit + 4 ≤ tail.length + 5 ∨ Past) := by
        intro Past
        rw [← or_assoc]
        exact or_congr_left (or_iff_left_of_imp (by omega))
      simp only [List.length_append, List.length_cons, List.length_nil] at hlater ⊢
      rcases hnext with ⟨hopcode, rfl⟩ | ⟨hopcode, hnot, rfl⟩
      · rw [ConvertsPast, if_neg hopcode]
        exact (past_step Nat.one_pos rfl hlater).trans (or_congr_right (hone _))
      · rw [ConvertsPast, if_pos hopcode, if_neg hnot]
        exact (past_step Nat.one_pos rfl hlater).trans (or_congr_right (hone _))

def InDomain (bytes : List UInt8) : Prop :=
  bytes.length < 2 ^ 32 + x86LookAhead ∧ ¬ConvertsPast (2 ^ 32) 0 bytes

section Lengths

variable {properties bytes : List UInt8} {start : Nat} (hlen : bytes.length < 2 ^ 64)
  (hstart : startingPosition properties = .ok start)
include hlen hstart

theorem decodeX86Bcj_inDomain :
    (InDomain bytes ∧
      (decodeX86Bcj bytes properties).granted = .ok (branchDecoded methodBcj start bytes)) ∨
    (¬InDomain bytes ∧ (decodeX86Bcj bytes properties).granted = .error x86PositionError) := by
  obtain ⟨made, last, left, hmakes, hstop⟩ :=
    Rewriting.exists_stop (balanced_x86Step wrappingSub) (start, 0) bytes
  have hpast := le_stop_iff hmakes hstop (2 ^ 32)
  have hdomain : InDomain bytes ↔ made.length < 2 ^ 32 := by
    rw [← Nat.not_le, hpast, InDomain]
    simp only [not_or, Nat.not_le]
    exact ⟨fun h => ⟨by decide, h⟩, fun h => h.2⟩
  rw [decodeX86Bcj_granted hlen hstart hmakes hstop, hdomain]
  by_cases hstopped : made.length < 2 ^ 32
  · rw [if_pos hstopped]
    exact .inl ⟨hstopped, rfl⟩
  · rw [if_neg hstopped]
    exact .inr ⟨hstopped, rfl⟩

theorem decodeFilter_branchDecoded {method : List UInt8} (hmethod : method ∈ branchMethods)
    (hnot : method ≠ methodBcj) :
    (decodeFilterInPlace method properties bytes).granted =
      .ok (branchDecoded method start bytes) := by
  simp only [branchMethods, List.mem_cons, List.not_mem_nil, or_false] at hmethod
  rcases hmethod with rfl | rfl | rfl | rfl | rfl | rfl | rfl | rfl
  · exact absurd rfl hnot
  · exact decodePpc_granted hlen hstart
  · exact decodeArm_granted hlen hstart
  · exact decodeArm64_granted hlen hstart
  · exact decodeSparc_granted hlen hstart
  · exact decodeArmThumb_granted hlen hstart
  · exact decodeIa64_granted hlen hstart
  · exact decodeRiscv_granted hlen hstart

end Lengths

theorem decodeFilter_accepts_iff {method properties bytes : List UInt8}
    (hmethod : method ∈ branchMethods) (hproperties : properties = [] ∨ properties.length = 4)
    (hlen : bytes.length < 2 ^ 64) :
    (∃ result, (decodeFilterInPlace method properties bytes).granted = .ok result ∧
      result.length = bytes.length ∧
        result = branchDecoded method (fromLeBytes properties) bytes) ↔
      (method = methodBcj → InDomain bytes) := by
  have hstart := startingPosition_of_valid hproperties
  have hresult : (∃ result, (decodeFilterInPlace method properties bytes).granted = .ok result ∧
      result.length = bytes.length ∧
        result = branchDecoded method (fromLeBytes properties) bytes) ↔
      (decodeFilterInPlace method properties bytes).granted =
        .ok (branchDecoded method (fromLeBytes properties) bytes) := by
    constructor
    · rintro ⟨result, hgranted, -, rfl⟩
      exact hgranted
    · exact fun hgranted => ⟨_, hgranted, length_branchDecoded _ _ _, rfl⟩
  rw [hresult]
  by_cases hbcj : method = methodBcj
  · subst hbcj
    show (decodeX86Bcj bytes properties).granted = _ ↔ _
    rcases decodeX86Bcj_inDomain hlen hstart with ⟨hdomain, hgranted⟩ | ⟨hdomain, hgranted⟩
    · exact iff_of_true hgranted (fun _ => hdomain)
    · rw [hgranted]
      exact iff_of_false (fun h => nomatch h) (fun h => hdomain (h rfl))
  · exact iff_of_true (decodeFilter_branchDecoded hlen hstart hmethod hbcj)
      (fun h => absurd h hbcj)

/-- A call behind two other bytes. -/
theorem decodeFilter_accepts_call :
    (∃ result, (decodeFilterInPlace methodBcj [] [0, 0, 0xe8, 9, 0, 0, 0]).granted = .ok result ∧
      result.length = 7 ∧
        result = branchDecoded methodBcj (fromLeBytes []) [0, 0, 0xe8, 9, 0, 0, 0]) ↔
      (methodBcj = methodBcj → InDomain [0, 0, 0xe8, 9, 0, 0, 0]) :=
  decodeFilter_accepts_iff (by decide) (.inl rfl) (by decide)

/-- The x86 filter fails on `2 ^ 32 + 4` zero bytes, which have no opcode at all. -/
theorem decodeFilter_refuses_zeros :
    (decodeFilterInPlace methodBcj [] (List.replicate (2 ^ 32 + 4) 0)).granted =
      .error x86PositionError := by
  have hlength : (List.replicate (2 ^ 32 + 4) (0 : UInt8)).length = 2 ^ 32 + 4 :=
    List.length_replicate
  have hlen : (List.replicate (2 ^ 32 + 4) (0 : UInt8)).length < 2 ^ 64 := by
    rw [hlength]
    omega
  have hdomain : ¬InDomain (List.replicate (2 ^ 32 + 4) 0) := by
    rintro ⟨hshort, -⟩
    rw [hlength] at hshort
    exact Nat.lt_irrefl _ hshort
  show (decodeX86Bcj (List.replicate (2 ^ 32 + 4) 0) []).granted = _
  rcases @decodeX86Bcj_inDomain [] _ 0 hlen rfl with ⟨h, -⟩ | ⟨-, hgranted⟩
  · exact absurd h hdomain
  · exact hgranted

end Filter
end Unpackio
