/-
Decoding undoes the forward transforms of the filters.

The forward transforms are those of the encoders that the filters come from.  The
one of Delta subtracts the byte `distance` places before, which the filter keeps in
a ring that it walks downwards.  Those of the branch filters find the same branches
and add the address.
-/
import Unpackio.Decode.Xz
import Unpackio.Filter.Bundle
import Unpackio.Filter.WordBranch

namespace Unpackio
namespace Filter

/-- The byte that lies `distance` places before, zero where there is none.
`past` lists the bytes before, the last one first. -/
def byteBefore (distance : Nat) (past : List UInt8) : UInt8 := past[distance - 1]?.getD 0

def deltaEncodeFrom (distance : Nat) : List UInt8 → List UInt8 → List UInt8
  | _, [] => []
  | past, byte :: bytes =>
    (byte - byteBefore distance past) :: deltaEncodeFrom distance (byte :: past) bytes

def deltaEncode (distance : Nat) (bytes : List UInt8) : List UInt8 :=
  deltaEncodeFrom distance [] bytes

/-- The ring holds the last 256 bytes, the newest one behind the position. -/
def Remembers (state : DeltaState) (past : List UInt8) : Prop :=
  state.history.length = 256 ∧
    ∀ age < 256, state.history[(state.position.toNat + 1 + age) % 256]? = some (past[age]?.getD 0)

theorem remembers_initial : Remembers .initial [] := by
  refine ⟨List.length_replicate, fun age _ => ?_⟩
  rw [DeltaState.initial, List.getElem?_replicate, if_pos (Nat.mod_lt _ (by decide))]
  rfl

theorem remembers_step {state : DeltaState} {past : List UInt8} (h : Remembers state past)
    (byte : UInt8) :
    Remembers ⟨state.history.set state.position.toNat byte, state.position - 1⟩ (byte :: past) := by
  obtain ⟨hlength, hring⟩ := h
  have hposition := state.position.toNat_lt
  have hback : (state.position - 1).toNat = (state.position.toNat + 255) % 256 := by
    rw [UInt8.toNat_sub, UInt8.toNat_one]
    omega
  refine ⟨by rw [List.length_set, hlength], fun age hage => ?_⟩
  rw [hback, List.getElem?_set]
  cases age with
  | zero =>
    have hindex : ((state.position.toNat + 255) % 256 + 1 + 0) % 256 = state.position.toNat := by
      omega
    rw [hindex, if_pos rfl, if_pos (by rw [hlength]; exact hposition)]
    rfl
  | succ age =>
    have hindex : ((state.position.toNat + 255) % 256 + 1 + (age + 1)) % 256 =
        (state.position.toNat + 1 + age) % 256 := by omega
    rw [hindex, if_neg (by omega), hring age (by omega), List.getElem?_cons_succ]

theorem decodeDeltaLoop_granted {distance : Nat} (hpositive : 0 < distance)
    (hdistance : distance ≤ 256) (bytes : List UInt8) {state : DeltaState} {past : List UInt8}
    (h : Remembers state past) :
    (decodeDeltaLoop distance (deltaEncodeFrom distance past bytes) state).granted = .ok bytes := by
  induction bytes generalizing state past with
  | nil => rfl
  | cons byte bytes ih =>
    obtain ⟨hlength, hring⟩ := h
    have hposition := state.position.toNat_lt
    have hadd : distance + state.position.toNat < 2 ^ 64 := by omega
    have hindex : distance + state.position.toNat &&& 255 =
        (state.position.toNat + 1 + (distance - 1)) % 256 := by
      refine (and_ones _ 8).trans ?_
      omega
    have hdestination : state.position.toNat &&& 255 = state.position.toNat :=
      (and_ones _ 8).trans (Nat.mod_eq_of_lt hposition)
    have hread := hring (distance - 1) (by omega)
    have hbyte : byte - byteBefore distance past + past[distance - 1]?.getD 0 = byte :=
      UInt8.sub_add_cancel byte _
    have hinside : ¬state.history.length ≤ state.position.toNat := by
      rw [hlength]
      exact Nat.not_le.mpr hposition
    rw [deltaEncodeFrom, decodeDeltaLoop]
    simp only [Prog.granted_bind, checkpoint_granted, Prog.granted_lift, Except.ok_bind,
      checkedAdd_of_lt hadd, okOr_some, hindex, hread, hbyte, hdestination,
      rejectIf_of_not hinside, ih (remembers_step ⟨hlength, hring⟩ byte), Prog.granted_pure]

theorem decodeDelta_deltaEncode (property : UInt8) (bytes : List UInt8) :
    (decodeDelta (deltaEncode (property.toNat + 1) bytes) [property]).granted = .ok bytes := by
  have hproperty := property.toNat_lt
  have hadd : property.toNat + 1 < 2 ^ 64 := by omega
  rw [decodeDelta]
  simp only [Prog.granted_bind, Prog.granted_lift, Except.ok_bind, List.head?_cons, okOr_some,
    checkedAdd_of_lt hadd]
  exact decodeDeltaLoop_granted (Nat.succ_pos _) (by omega) bytes remembers_initial

def swapChunks (width : Nat) : Nat → List UInt8 → List UInt8
  | 0, bytes => bytes
  | count + 1, bytes => (bytes.take width).reverse ++ swapChunks width count (bytes.drop width)

def swap (width : Nat) (bytes : List UInt8) : List UInt8 :=
  swapChunks width (bytes.length / width) bytes

theorem decodeSwapLoop_granted (width count : Nat) (bytes : List UInt8) :
    (decodeSwapLoop width count bytes).granted = .ok (swapChunks width count bytes) := by
  induction count generalizing bytes with
  | zero => rfl
  | succ count ih =>
    rw [decodeSwapLoop]
    simp only [Prog.granted_bind, checkpoint_granted, ih, Except.ok_bind, Prog.granted_pure]
    rfl

theorem decodeSwap_granted {width : Nat} (hwidth : width = 2 ∨ width = 4) (bytes : List UInt8) :
    (decodeSwap bytes [] width).granted = .ok (swap width bytes) := by
  rw [decodeSwap]
  simp only [Prog.granted_bind, Prog.granted_lift, Except.ok_bind,
    rejectIf_of_not (not_not.mpr (@rfl _ ([] : List UInt8))), rejectIf_of_not (not_not.mpr hwidth)]
  exact decodeSwapLoop_granted width _ bytes

section

variable {width count : Nat} {bytes : List UInt8} (h : count * width ≤ bytes.length)
include h

theorem length_swapChunks : (swapChunks width count bytes).length = bytes.length := by
  induction count generalizing bytes with
  | zero => rfl
  | succ count ih =>
    rw [Nat.succ_mul] at h
    rw [swapChunks, List.length_append, List.length_reverse, List.length_take,
      ih (by rw [List.length_drop]; omega), List.length_drop]
    omega

theorem swapChunks_swapChunks : swapChunks width count (swapChunks width count bytes) = bytes := by
  induction count generalizing bytes with
  | zero => rfl
  | succ count ih =>
    rw [Nat.succ_mul] at h
    have hwidth : (bytes.take width).reverse.length = width := by
      rw [List.length_reverse, List.length_take]
      omega
    rw [swapChunks, swapChunks, List.take_left' hwidth, List.drop_left' hwidth,
      List.reverse_reverse, ih (by rw [List.length_drop]; omega), List.take_append_drop]

end

theorem swap_swap (width : Nat) (bytes : List UInt8) : swap width (swap width bytes) = bytes := by
  have hcount := Nat.div_mul_le_self bytes.length width
  rw [swap, swap, length_swapChunks hcount, swapChunks_swapChunks hcount]

open Rewriting (pass)

def forward (method properties bytes : List UInt8) : List UInt8 :=
  let start := fromLeBytes properties
  if method = methodDelta then deltaEncode (start + 1) bytes
  else if method = methodPpc then ppc.encode start bytes
  else if method = methodArm then arm.encode (wrappingAdd start 4) bytes
  else if method = methodArm64 then arm64.encode start bytes
  else if method = methodSparc then sparc.encode start bytes
  else if method = methodArmThumb then pass (thumbStep wrappingAdd) start bytes
  else if method = methodIa64 then pass (bundleStep wrappingAdd) start bytes
  else if method = methodSwap2 then swap 2 bytes
  else if method = methodSwap4 then swap 4 bytes
  else bytes

/-- The methods whose forward transform is given here, with the properties that
are accepted: any distance for Delta, none for Swap, and for a branch filter a
start offset that XZ accepts. -/
inductive Accepted : List UInt8 → List UInt8 → Prop where
  | delta (property : UInt8) : Accepted methodDelta [property]
  | swap2 : Accepted methodSwap2 []
  | swap4 : Accepted methodSwap4 []
  | branch {identifier : Nat} {method properties : List UInt8} {profile : Xz.Profile}
      (hbranch : identifier ∈ [0x05, 0x06, 0x07, 0x08, 0x09, 0x0a])
      (hmethod : Xz.filterMethod identifier = some method)
      (haccepted : Xz.validateBcjProperties identifier properties profile = .ok ()) :
      Accepted method properties

theorem aligned_of_validate {identifier alignment : Nat} {properties : List UInt8}
    {profile : Xz.Profile} (halignment : Xz.bcjAlignment identifier = some alignment)
    (h : Xz.validateBcjProperties identifier properties profile = .ok ()) :
    startingPosition properties = .ok (fromLeBytes properties) ∧
      Aligned alignment (fromLeBytes properties) := by
  by_cases hnil : properties = []
  · subst hnil
    exact ⟨rfl, by decide, Nat.zero_mod alignment⟩
  · rw [Xz.validateBcjProperties, if_neg hnil, halignment] at h
    simp only [Except.bind_eq_ok, rejectIf_eq_ok, okOr_some, Except.ok_bind,
      Decidable.not_not] at h
    obtain ⟨-, hfour, hmod⟩ := h
    have hstart := startingPosition_four hfour
    exact ⟨hstart, startingPosition_lt hstart, hmod⟩

theorem length_wordBranch_encode (branch : WordBranch) (start : Nat) (bytes : List UInt8) :
    (branch.encode start bytes).length = bytes.length :=
  Rewriting.length_pass (balanced_wordStep (WordBranch.keepsFour_unit _)) start bytes

section Branches

variable {properties bytes : List UInt8} (hlen : bytes.length < 2 ^ 64)
  (hstart : startingPosition properties = .ok (fromLeBytes properties))
include hlen hstart

section

variable (haligned : Aligned 4 (fromLeBytes properties))
include haligned

theorem decodePpc_encode :
    (decodePpc (ppc.encode (fromLeBytes properties) bytes) properties).granted = .ok bytes := by
  rw [decodePpc_granted (by rw [length_wordBranch_encode]; exact hlen) hstart]
  exact congrArg Except.ok (WordBranch.pass_unit_pass_unit closed_ppc
    (fun _ => aligned_wrappingAdd) haligned bytes)

theorem decodeArm_encode :
    (decodeArm (arm.encode (wrappingAdd (fromLeBytes properties) 4) bytes) properties).granted =
      .ok bytes := by
  rw [decodeArm_granted (by rw [length_wordBranch_encode]; exact hlen) hstart]
  exact congrArg Except.ok (WordBranch.pass_unit_pass_unit closed_arm
    (fun _ => aligned_wrappingAdd) (aligned_wrappingAdd haligned) bytes)

theorem decodeArm64_encode :
    (decodeArm64 (arm64.encode (fromLeBytes properties) bytes) properties).granted = .ok bytes := by
  rw [decodeArm64_granted (by rw [length_wordBranch_encode]; exact hlen) hstart]
  exact congrArg Except.ok (WordBranch.pass_unit_pass_unit closed_arm64
    (fun _ => aligned_wrappingAdd) haligned bytes)

theorem decodeSparc_encode :
    (decodeSparc (sparc.encode (fromLeBytes properties) bytes) properties).granted = .ok bytes := by
  rw [decodeSparc_granted (by rw [length_wordBranch_encode]; exact hlen) hstart]
  exact congrArg Except.ok (WordBranch.pass_unit_pass_unit closed_sparc
    (fun _ => aligned_wrappingAdd) haligned bytes)

end

theorem decodeArmThumb_encode (haligned : Aligned 2 (fromLeBytes properties)) :
    (decodeArmThumb (pass (thumbStep wrappingAdd) (fromLeBytes properties) bytes)
      properties).granted = .ok bytes := by
  rw [decodeArmThumb_granted (by rw [Rewriting.length_pass (balanced_thumbStep _)]; exact hlen)
    hstart, thumbPass_thumbPass haligned]

theorem decodeIa64_encode (haligned : Aligned 16 (fromLeBytes properties)) :
    (decodeIa64 (pass (bundleStep wrappingAdd) (fromLeBytes properties) bytes)
      properties).granted = .ok bytes := by
  rw [decodeIa64_granted (by rw [Rewriting.length_pass (balanced_bundleStep _)]; exact hlen)
    hstart, bundlePass_bundlePass haligned]

end Branches

/-- Decoding gives back what an encoder was given. -/
theorem decodeFilter_forward {method properties : List UInt8} (h : Accepted method properties)
    {bytes : List UInt8} (hlen : bytes.length < 2 ^ 64) :
    (decodeFilterInPlace method properties (forward method properties bytes)).granted =
      .ok bytes := by
  cases h with
  | delta property =>
    have hproperty : fromLeBytes [property] = property.toNat := rfl
    show (decodeDelta (deltaEncode (fromLeBytes [property] + 1) bytes) [property]).granted = _
    rw [hproperty]
    exact decodeDelta_deltaEncode property bytes
  | swap2 =>
    show (decodeSwap (swap 2 bytes) [] 2).granted = _
    rw [decodeSwap_granted (.inl rfl), swap_swap]
  | swap4 =>
    show (decodeSwap (swap 4 bytes) [] 4).granted = _
    rw [decodeSwap_granted (.inr rfl), swap_swap]
  | @branch identifier _ _ _ hbranch hmethod haccepted =>
    simp only [List.mem_cons, List.not_mem_nil, or_false] at hbranch
    rcases hbranch with rfl | rfl | rfl | rfl | rfl | rfl <;> cases hmethod
    · obtain ⟨hstart, haligned⟩ := aligned_of_validate rfl haccepted
      exact decodePpc_encode hlen hstart haligned
    · obtain ⟨hstart, haligned⟩ := aligned_of_validate rfl haccepted
      exact decodeIa64_encode hlen hstart haligned
    · obtain ⟨hstart, haligned⟩ := aligned_of_validate rfl haccepted
      exact decodeArm_encode hlen hstart haligned
    · obtain ⟨hstart, haligned⟩ := aligned_of_validate rfl haccepted
      exact decodeArmThumb_encode hlen hstart haligned
    · obtain ⟨hstart, haligned⟩ := aligned_of_validate rfl haccepted
      exact decodeSparc_encode hlen hstart haligned
    · obtain ⟨hstart, haligned⟩ := aligned_of_validate rfl haccepted
      exact decodeArm64_encode hlen hstart haligned

/-- An ADRP instruction, a branch and two bytes more, four bytes into the code. -/
theorem decodeFilter_forward_arm64 :
    (decodeFilterInPlace methodArm64 [4, 0, 0, 0] (forward methodArm64 [4, 0, 0, 0]
      [0x01, 0, 0, 0x90, 0x02, 0, 0, 0x94, 0, 0])).granted =
        .ok [0x01, 0, 0, 0x90, 0x02, 0, 0, 0x94, 0, 0] :=
  decodeFilter_forward (@Accepted.branch 0x0a _ _ .packagePayload (by decide) rfl rfl) (by decide)

end Filter
end Unpackio
