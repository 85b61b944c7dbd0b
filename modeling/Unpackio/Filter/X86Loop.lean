/-
The loop of the x86 filter makes the pass, as long as its positions are below
`2 ^ 32`.
-/
import Unpackio.Filter.X86Pass

namespace Unpackio
namespace Filter

open List (append_assoc length_append length_cons length_nil length_singleton nil_append)
open Prog (granted_bind granted_lift)
open Except (ok_bind)
open Rewriting (Makes pass)

/-- The error of a position that is no `u32`. -/
def x86PositionError : Error := formatError "BCJ position exceeds the 32-bit address domain"

theorem x86Destination_eq (value current mask : Nat) :
    x86Destination value current mask = x86Moved wrappingSub value current mask := rfl

theorem x86Step_skip {move : Nat → Nat → Nat} {ip mask : Nat} {a : UInt8} {rest : List UInt8}
    (hopcode : ¬a &&& 0xfe = 0xe8) (hrest : 4 ≤ rest.length) :
    x86Step move (ip, mask) (a :: rest) = some ([a], (wrappingAdd ip 1, mask / 2), rest) := by
  match rest, hrest with
  | b :: c :: d :: e :: tail, _ => rw [x86Step, if_neg hopcode]

/-- How far the pass comes without an opcode. -/
def Skips (front gap rest rest' : List UInt8) : Prop :=
  ∀ move ip mask, Makes (x86Step move) (wrappingAdd ip (lowU32Offset front.length), mask) rest gap
    (wrappingAdd ip (lowU32Offset (front.length + gap.length)), mask / 2 ^ gap.length) rest'

theorem skips_nil (front rest : List UInt8) : Skips front [] rest rest := by
  intro move ip mask
  rw [length_nil, Nat.add_zero, Nat.pow_zero, Nat.div_one]
  exact .refl _ _

theorem skips_cons {front gap rest rest' : List UInt8} {a : UInt8} (hopcode : ¬a &&& 0xfe = 0xe8)
    (hrest : 4 ≤ rest.length) (h : Skips (front ++ [a]) gap rest rest') :
    Skips front (a :: gap) (a :: rest) rest' := by
  intro move ip mask
  have hmakes := h move ip (mask / 2)
  have hlength : (front ++ [a]).length + gap.length = front.length + (gap.length + 1) := by
    rw [length_append, length_singleton]
    omega
  rw [hlength, length_append, length_singleton, ← wrappingAdd_offset,
    Nat.div_div_eq_div_mul, ← Nat.pow_succ'] at hmakes
  exact .step (x86Step_skip hopcode hrest) hmakes

theorem x86Scan_granted {scanEnd : Nat} (hscan : scanEnd + 4 < 2 ^ 64) (fuel : Nat)
    {front rest : List UInt8} (hlen : front.length + rest.length = scanEnd + 4)
    (hfuel : scanEnd - front.length ≤ fuel) :
    ∃ gap rest', rest = gap ++ rest' ∧
      (x86Scan (front ++ rest) scanEnd fuel front.length).granted =
        .ok (front.length + gap.length) ∧ Skips front gap rest rest' ∧
      (rest'.length < 5 ∨ ∃ a tail, rest' = a :: tail ∧ 4 ≤ tail.length ∧ a &&& 0xfe = 0xe8) := by
  induction fuel generalizing front rest with
  | zero => exact ⟨[], rest, rfl, rfl, skips_nil front rest, .inl (by omega)⟩
  | succ fuel ih =>
    rw [x86Scan]
    by_cases hinside : front.length < scanEnd
    · match rest, hlen with
      | a :: tail, hlen =>
        rw [length_cons] at hlen
        have hbyte : (front ++ a :: tail)[front.length]? = some a := by
          rw [List.getElem?_append_right (Nat.le_refl _), Nat.sub_self]
          rfl
        have hadd : front.length + 1 < 2 ^ 64 := by omega
        rw [if_pos hinside]
        simp only [granted_bind, checkpoint_granted, granted_lift, ok_bind, hbyte,
          okOr_some]
        by_cases hopcode : a &&& 0xfe = 0xe8
        · rw [if_pos hopcode]
          exact ⟨[], a :: tail, rfl, rfl, skips_nil front _, .inr ⟨a, tail, rfl, by omega, hopcode⟩⟩
        · have hfront : (front ++ [a]).length = front.length + 1 := by
            rw [length_append, length_singleton]
          obtain ⟨gap, rest', htail, hgranted, hskips, hend⟩ :=
            @ih (front ++ [a]) tail (by rw [hfront]; omega) (by rw [hfront]; omega)
          have hsplit : front ++ [a] ++ tail = front ++ a :: tail := append_assoc _ _ _
          have hplace : front.length + 1 + gap.length = front.length + (a :: gap).length := by
            rw [length_cons]
            omega
          rw [hsplit, hfront, hplace] at hgranted
          refine ⟨a :: gap, rest', by rw [htail]; rfl, ?_,
            skips_cons hopcode (by omega) hskips, hend⟩
          rw [if_neg hopcode]
          simp only [granted_bind, granted_lift, checkedAdd_of_lt hadd, okOr_some,
            ok_bind, hgranted]
      | [], hlen => exact absurd hlen (by rw [length_nil]; omega)
    · rw [if_neg hinside]
      exact ⟨[], rest, rfl, rfl, skips_nil front rest, .inl (by omega)⟩

section Opcode

variable {front tail : List UInt8} {a b c d e : UInt8} (hroom : front.length + 5 < 2 ^ 64)
include hroom

theorem x86Masked_eq {mask : Nat} (hmask : mask < 8) :
    x86Masked (front ++ a :: b :: c :: d :: e :: tail) front.length mask =
      .ok (x86Blocked mask b c d) := by
  by_cases hzero : mask = 0
  · subst hzero
    rfl
  have hlook : ∃ byte, (a :: b :: c :: d :: e :: tail)[mask >>> 1 + 1]? = some byte ∧
      (¬(4 < mask ∨ mask = 3) → byte = pointed mask b c d) := by
    have hcases : mask = 1 ∨ mask = 2 ∨ mask = 3 ∨ mask = 4 ∨ mask = 5 ∨ mask = 6 ∨ mask = 7 := by
      omega
    rcases hcases with rfl | rfl | rfl | rfl | rfl | rfl | rfl
    · exact ⟨b, rfl, fun _ => rfl⟩
    · exact ⟨c, rfl, fun _ => rfl⟩
    · exact ⟨c, rfl, fun h => absurd (.inr rfl) h⟩
    · exact ⟨d, rfl, fun _ => rfl⟩
    · exact ⟨d, rfl, fun h => absurd (.inl (by decide)) h⟩
    · exact ⟨e, rfl, fun h => absurd (.inl (by decide)) h⟩
    · exact ⟨e, rfl, fun h => absurd (.inl (by decide)) h⟩
  obtain ⟨byte, hbyte, hpointed⟩ := hlook
  have hhalf : mask >>> 1 < 4 := by
    rw [Nat.shiftRight_eq_div_pow]
    omega
  have hfirst : front.length + mask >>> 1 < 2 ^ 64 := by omega
  have hsecond : front.length + mask >>> 1 + 1 < 2 ^ 64 := by omega
  have hread : (front ++ a :: b :: c :: d :: e :: tail)[front.length + mask >>> 1 + 1]? =
      some byte := by
    rw [List.getElem?_append_right (by omega), Nat.add_assoc, Nat.add_sub_cancel_left, hbyte]
  rw [x86Masked, if_pos hzero, checkedAdd_of_lt hfirst, Option.bind_some, checkedAdd_bind hsecond,
    hread, okOr_bind, x86Blocked]
  refine congrArg Except.ok (decide_eq_decide.mpr ?_)
  by_cases hforbidden : 4 < mask ∨ mask = 3
  · exact ⟨fun _ => ⟨hzero, or_assoc.mp (.inl hforbidden)⟩, fun _ => or_assoc.mp (.inl hforbidden)⟩
  · rw [hpointed hforbidden]
    exact ⟨fun h => ⟨hzero, h⟩, fun h => h.2⟩

omit hroom in
theorem x86Convert_high :
    (front ++ a :: b :: c :: d :: e :: tail)[front.length + 4]? = some e ∧
      ∀ byte, (front ++ a :: b :: c :: d :: e :: tail).set (front.length + 4) byte =
        front ++ a :: b :: c :: d :: byte :: tail := by
  refine ⟨?_, fun byte => ?_⟩
  · rw [List.getElem?_append_right (Nat.le_add_right _ _), Nat.add_sub_cancel_left]
    rfl
  · rw [List.set_append_right _ _ (Nat.le_add_right _ _), Nat.add_sub_cancel_left]
    rfl

/-- The instruction at the place of the scan, below `2 ^ 32`. -/
theorem x86Convert_eq (start mask : Nat) (hposition : front.length < 2 ^ 32) :
    x86Convert start (front ++ a :: b :: c :: d :: e :: tail) front.length mask =
      .ok (front ++ (a :: x86Operand wrappingSub
        (wrappingAdd start (lowU32Offset front.length)) mask [b, c, d, e] ++ tail)) := by
  have hadd : front.length + 1 < 2 ^ 64 := by omega
  have hfront : (front ++ [a]).length = front.length + 1 := by
    rw [length_append, length_singleton]
  have hsplit : ∀ rest : List UInt8, front ++ [a] ++ rest = front ++ a :: rest :=
    fun rest => append_assoc _ _ _
  have hread := @readU32Le_append (front ++ [a]) tail b c d e (by rw [hfront]; omega)
  have hwrite := fun value => @writeWord_append (front ++ [a]) tail b c d e
    (by rw [hfront]; omega) (toLeBytes 4 value) (length_toLeBytes 4 value)
  rw [hsplit, hfront] at hread
  have hcurrent : wrappingAdd (wrappingAdd start x86InstructionSize) front.length =
      wrappingAdd (wrappingAdd start (lowU32Offset front.length)) x86InstructionSize := by
    simp only [wrappingAdd, lowU32Offset]
    omega
  simp only [x86Convert, checkedAdd_of_lt hadd, okOr_some, ok_bind, hread,
    tryFrom_of_lt hposition, hcurrent, x86Destination_eq]
  rw [x86Operand]
  generalize x86Moved wrappingSub (fromLeBytes [b, c, d, e])
    (wrappingAdd (wrappingAdd start (lowU32Offset front.length)) x86InstructionSize) mask = value
  have hbytes : toLeBytes 4 value = [UInt8.ofNat value, UInt8.ofNat (value / 256),
      UInt8.ofNat (value / 256 / 256), UInt8.ofNat (value / 256 / 256 / 256)] := rfl
  have hhigh : UInt8.ofNat (value >>> 24) = UInt8.ofNat (value / 256 / 256 / 256) := by
    rw [Nat.shiftRight_eq_div_pow, Nat.div_div_eq_div_mul, Nat.div_div_eq_div_mul]
  have hwritten := hwrite value
  rw [hsplit, hfront, hsplit, hbytes] at hwritten
  obtain ⟨hget, hset⟩ := @x86Convert_high front tail a (.ofNat value) (.ofNat (value / 256))
    (.ofNat (value / 256 / 256)) (.ofNat (value / 256 / 256 / 256))
  rw [hbytes, hwritten, ok_bind]
  simp only [List.cons_append, nil_append, hget, okOr_some, ok_bind, hset, hhigh]
  rfl

theorem x86Convert_error (start mask : Nat) (hposition : ¬front.length < 2 ^ 32) :
    x86Convert start (front ++ a :: b :: c :: d :: e :: tail) front.length mask =
      .error x86PositionError := by
  have hadd : front.length + 1 < 2 ^ 64 := by omega
  have hfront : (front ++ [a]).length = front.length + 1 := by
    rw [length_append, length_singleton]
  have hread := @readU32Le_append (front ++ [a]) tail b c d e (by rw [hfront]; omega)
  rw [append_assoc, hfront] at hread
  have htry : tryFrom 32 front.length = none := if_neg hposition
  rw [x86Convert, checkedAdd_bind hadd]
  refine (congrArg (· >>= _) hread).trans ?_
  rw [ok_bind, htry]
  rfl

end Opcode

/-! ## The loop -/

theorem x86ShiftMask_eq {mask : Nat} (hmask : mask < 8) (distance : Nat) :
    x86ShiftMask mask distance = mask / 2 ^ distance := by
  rw [x86ShiftMask, Nat.shiftRight_eq_div_pow]
  split
  · rename_i hfar
    have hpow : 2 ^ 3 ≤ 2 ^ distance := Nat.pow_le_pow_right (by decide) hfar
    rw [Nat.div_eq_of_lt (Nat.lt_of_lt_of_le hmask hpow)]
  · rfl

theorem x86NextMask_eq {mask : Nat} (hmask : mask < 8) : mask >>> 1 ||| 4 = mask / 2 + 4 := by
  revert mask
  decide

section Opcode

variable {front tail piece rest : List UInt8} {a : UInt8} (hroom : front.length + 5 < 2 ^ 64)
  (hopcode : a &&& 0xfe = 0xe8) {start mask mask' ip' : Nat} (hmask : mask < 8)
  (hstep : x86Step wrappingSub (wrappingAdd start (lowU32Offset front.length), mask) (a :: tail) =
    some (piece, (ip', mask'), rest))
include hroom hopcode hmask hstep

/-- What is done at an opcode is a step of the pass, if it is no conversion at
`2 ^ 32` or behind. -/
theorem x86Opcode_eq :
    ip' = wrappingAdd (wrappingAdd start (lowU32Offset front.length)) piece.length ∧
      x86Opcode start (front ++ a :: tail) front.length mask =
        if piece.length = 1 ∨ front.length < 2 ^ 32 then
          .ok (front ++ (piece ++ rest), front.length + piece.length, mask')
        else .error x86PositionError := by
  have hone : front.length + 1 < 2 ^ 64 := by omega
  rcases x86Step_cases hstep with ⟨a', b, c, d, e, heq, -, hblocked, htest, rfl, hstate⟩ |
    ⟨a', b, c, d, e, tail', heq, rfl, rfl, hnext⟩
  · cases heq
    cases hstate
    refine ⟨rfl, ?_⟩
    have hhigh := @byteAt_eq front (a :: b :: c :: d :: e :: rest) "BCJ high-byte index overflows"
      "BCJ high-byte index is out of range" 4 e rfl (by omega)
    have hfive : ¬(a :: x86Operand wrappingSub (wrappingAdd start (lowU32Offset front.length)) mask
        [b, c, d, e]).length = 1 := by
      rw [length_cons, length_x86Operand]
      decide
    rw [x86Opcode, x86Masked_eq hroom hmask, ok_bind, hblocked, if_neg Bool.false_ne_true,
      hhigh, ok_bind, if_pos htest]
    by_cases hposition : front.length < 2 ^ 32
    · have hadd : front.length + x86InstructionSize < 2 ^ 64 := hroom
      rw [x86Convert_eq hroom start mask hposition, if_pos (.inr hposition), ok_bind,
        checkedAdd_of_lt hadd]
      rfl
    · rw [x86Convert_error hroom start mask hposition, if_neg (not_or.mpr ⟨hfive, hposition⟩)]
      rfl
  · cases heq
    rcases hnext with ⟨hnot, -⟩ | ⟨-, hnot, hstate⟩
    · exact absurd hopcode hnot
    · cases hstate
      refine ⟨rfl, ?_⟩
      have hhigh := @byteAt_eq front (a :: b :: c :: d :: e :: tail')
        "BCJ high-byte index overflows" "BCJ high-byte index is out of range" 4 e rfl (by omega)
      have hlength : [a].length = 1 ∨ front.length < 2 ^ 32 := .inl rfl
      rw [x86Opcode, x86Masked_eq hroom hmask, ok_bind, checkedAdd_of_lt hone,
        x86NextMask_eq hmask, if_pos hlength]
      by_cases hblocked : x86Blocked mask b c d = true
      · rw [if_pos hblocked]
        rfl
      · have htest : ¬testX86Msb e = true :=
          fun htest => hnot ⟨Bool.eq_false_iff.mpr hblocked, htest⟩
        rw [if_neg hblocked, hhigh, ok_bind, if_neg htest]
        rfl

end Opcode

/-- The loop makes the pass, and fails where the pass stops at `2 ^ 32` or behind. -/
theorem decodeX86Loop_granted {scanEnd start : Nat} (hscan : scanEnd + 4 < 2 ^ 64) (fuel : Nat)
    {front rest made left : List UInt8} {mask : Nat} {last : Nat × Nat}
    (hlen : front.length + rest.length = scanEnd + 4) (hmask : mask < 8)
    (hfuel : rest.length ≤ fuel) (hpositive : 0 < fuel)
    (hmakes : Makes (x86Step wrappingSub) (wrappingAdd start (lowU32Offset front.length), mask) rest
      made last left) (hstop : x86Step wrappingSub last left = none) :
    (decodeX86Loop start scanEnd fuel (front ++ rest) front.length mask).granted =
      if front.length + made.length < 2 ^ 32 then .ok (front ++ (made ++ left))
      else .error x86PositionError := by
  induction fuel generalizing front rest mask made with
  | zero => exact absurd hpositive (Nat.lt_irrefl 0)
  | succ fuel ih =>
    obtain ⟨gap, rest', rfl, hgranted, hskips, hend⟩ :=
      x86Scan_granted hscan (scanEnd - front.length) hlen (Nat.le_refl _)
    obtain ⟨more, rfl, hmore⟩ := (hskips wrappingSub start mask).rest_of_stop hmakes hstop
    have hdistance : checkedSub (front.length + gap.length) front.length = some gap.length := by
      rw [checkedSub, if_pos (Nat.le_add_right _ _), Nat.add_sub_cancel_left]
    have hsmall : mask / 2 ^ gap.length < 8 := Nat.lt_of_le_of_lt (Nat.div_le_self _ _) hmask
    have hplace : (front ++ gap).length = front.length + gap.length := length_append
    rw [length_append] at hlen hfuel
    rw [decodeX86Loop]
    simp only [granted_bind, hgranted, ok_bind, granted_lift, hdistance, okOr_some]
    rw [length_append, append_assoc gap, ← append_assoc front gap,
      ← append_assoc front gap, ← Nat.add_assoc, x86ShiftMask_eq hmask]
    rw [← hplace] at hmore ⊢
    rcases hend with hshort | ⟨a, tail, rfl, htail, hopcode⟩
    · have hfinish : scanEnd ≤ (front ++ gap).length := by omega
      have hnone : ∀ state, x86Step wrappingSub state rest' = none :=
        fun _ => x86Step_none.mpr hshort
      rw [if_pos hfinish]
      cases hmore with
      | step hstep _ =>
        rw [hnone] at hstep
        cases hstep
      | refl =>
        rw [length_nil, Nat.add_zero]
        by_cases hposition : (front ++ gap).length < 2 ^ 32
        · rw [if_pos hposition, tryFrom_of_lt hposition]
          rfl
        · have htry : tryFrom 32 (front ++ gap).length = none := if_neg hposition
          rw [if_neg hposition, htry]
          rfl
    · have hinside : ¬scanEnd ≤ (front ++ gap).length := by
        rw [length_cons] at hlen
        omega
      rw [if_neg hinside]
      cases hmore with
      | refl => exact absurd (x86Step_none.mp hstop) (by rw [length_cons]; omega)
      | @step _ state' _ _ piece rest'' more' _ hstep hrest =>
        have hall := Makes.step hstep hrest
        obtain ⟨hip, hround⟩ := x86Opcode_eq (by omega) hopcode hsmall hstep
        have hsmall' := x86Step_mask hsmall hstep
        have hbalance := balanced_x86Step wrappingSub _ _ _ _ _ hstep
        rw [hround]
        by_cases hposition : piece.length = 1 ∨ (front ++ gap).length < 2 ^ 32
        · have hplace' : (front ++ gap ++ piece).length = (front ++ gap).length + piece.length :=
            length_append
          have hrest' := hrest
          rw [show state' = (state'.1, state'.2) from rfl, hip, wrappingAdd_offset,
            ← hplace'] at hrest'
          have hloop := @ih (front ++ gap ++ piece) rest'' more' state'.2 (by omega) hsmall'
            (by omega) (by omega) hrest'
          rw [if_pos hposition]
          simp only [granted_bind, granted_lift, ok_bind]
          rw [← append_assoc (front ++ gap) piece, ← hplace', hloop, @List.length_append _ piece,
            ← Nat.add_assoc, ← hplace', append_assoc piece, ← append_assoc _ piece]
        · rw [if_neg hposition, if_neg (by omega)]
          rfl

/-- The filter makes the pass, and fails where the pass stops at `2 ^ 32` or
behind. -/
theorem decodeX86Bcj_granted {bytes properties made left : List UInt8} {start : Nat}
    {last : Nat × Nat} (hlen : bytes.length < 2 ^ 64)
    (hstart : startingPosition properties = .ok start)
    (hmakes : Makes (x86Step wrappingSub) (start, 0) bytes made last left)
    (hstop : x86Step wrappingSub last left = none) :
    (decodeX86Bcj bytes properties).granted =
      if made.length < 2 ^ 32 then .ok (pass (x86Step wrappingSub) (start, 0) bytes)
      else .error x86PositionError := by
  have hminimum : checkedAdd x86LookAhead 1 = some 5 := rfl
  have hpass := hmakes.pass_eq (balanced_x86Step wrappingSub)
  rw [Rewriting.pass_of_none hstop] at hpass
  rw [decodeX86Bcj, hminimum, hpass]
  simp only [okOr_some, granted_bind, granted_lift, ok_bind]
  by_cases hshort : bytes.length < 5
  · have hcount := hmakes.length_eq (balanced_x86Step wrappingSub)
    rw [Rewriting.pass_of_none (x86Step_none.mpr hshort)] at hpass
    rw [if_pos hshort, if_pos (by omega), hpass]
    rfl
  · have hbound : checkedSub bytes.length x86LookAhead = some (bytes.length - 4) :=
      if_pos (show 4 ≤ bytes.length by omega)
    have hfirst : wrappingAdd start (lowU32Offset 0) = start :=
      Nat.mod_eq_of_lt (startingPosition_lt hstart)
    rw [if_neg hshort, hbound, hstart]
    simp only [okOr_some, granted_bind, granted_lift, ok_bind]
    have hloop := @decodeX86Loop_granted (bytes.length - 4) start (by omega) bytes.length [] bytes
      made left 0 last (by rw [length_nil]; omega) (by decide) (Nat.le_refl _) (by omega)
      (by rw [length_nil, hfirst]; exact hmakes) hstop
    rw [nil_append, length_nil, Nat.zero_add, nil_append] at hloop
    exact hloop

def x86Forward (start : Nat) (bytes : List UInt8) : List UInt8 :=
  pass (x86Step wrappingAdd) (start, 0) bytes

theorem length_x86Forward (start : Nat) (bytes : List UInt8) :
    (x86Forward start bytes).length = bytes.length :=
  Rewriting.length_pass (balanced_x86Step _) _ bytes

theorem startingPosition_of_valid {properties : List UInt8}
    (h : properties = [] ∨ properties.length = 4) :
    startingPosition properties = .ok (fromLeBytes properties) := by
  rcases h with rfl | h
  · rfl
  · exact startingPosition_four h

theorem decodeX86Bcj_x86Forward {properties bytes : List UInt8}
    (hproperties : properties = [] ∨ properties.length = 4) (hlen : bytes.length < 2 ^ 32) :
    (x86Forward (fromLeBytes properties) bytes).length = bytes.length ∧
      (decodeX86Bcj (x86Forward (fromLeBytes properties) bytes) properties).granted =
        .ok bytes := by
  have hstart := startingPosition_of_valid hproperties
  have hlength := length_x86Forward (fromLeBytes properties) bytes
  have hgood : X86Good (fromLeBytes properties, 0) := ⟨startingPosition_lt hstart,
    Nat.zero_lt_succ 7⟩
  obtain ⟨made, last, left, hmakes, hstop⟩ := Rewriting.exists_stop (balanced_x86Step wrappingSub)
    (fromLeBytes properties, 0) (x86Forward (fromLeBytes properties) bytes)
  have hcount := hmakes.length_eq (balanced_x86Step wrappingSub)
  refine ⟨hlength, ?_⟩
  rw [decodeX86Bcj_granted (by omega) hstart hmakes hstop, if_pos (by omega)]
  exact congrArg Except.ok (x86Pass_x86Pass hgood bytes)

/-- Two calls that overlap, and the end of a third, sixteen bytes into the code. -/
theorem decodeX86Bcj_x86Forward_calls :
    (x86Forward (fromLeBytes [16, 0, 0, 0])
      [0xe8, 0xe9, 0x01, 0x02, 0x03, 0, 0xe8, 0x05, 0, 0, 0xff, 0xe8]).length = 12 ∧
      (decodeX86Bcj (x86Forward (fromLeBytes [16, 0, 0, 0])
        [0xe8, 0xe9, 0x01, 0x02, 0x03, 0, 0xe8, 0x05, 0, 0, 0xff, 0xe8]) [16, 0, 0, 0]).granted =
          .ok [0xe8, 0xe9, 0x01, 0x02, 0x03, 0, 0xe8, 0x05, 0, 0, 0xff, 0xe8] :=
  decodeX86Bcj_x86Forward (.inr rfl) (by decide)

end Filter
end Unpackio
