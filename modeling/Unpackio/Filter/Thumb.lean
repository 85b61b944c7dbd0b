/-
The ARM Thumb filter as a pass, and its forward transform.

A branch takes two halfwords.  A halfword that starts no branch is left as it is,
and the next one is looked at; its second byte keeps its opcode under a
conversion, so that the filter finds the same branches.
-/
import Unpackio.Filter.Phase5

namespace Unpackio
namespace Filter

open List (cons_append length_append nil_append)
open Rewriting (Step Balanced pass)

/-- The 22 bits of a branch, counted in halfwords. -/
def thumbSource (a b c d : UInt8) : Nat :=
  (b &&& 7).toNat <<< 19 ||| a.toNat <<< 11 ||| (d &&& 7).toNat <<< 8 ||| c.toNat

/-- The branch with these 22 bits. -/
def thumbEncoded (destination : Nat) : List UInt8 :=
  [.ofNat (destination >>> 11 &&& 0xff),
    .ofNat (0xf0 ||| destination >>> 19 &&& 7),
    .ofNat (destination &&& 0xff),
    .ofNat (0xf8 ||| destination >>> 8 &&& 7)]

def isThumbBranch (b d : UInt8) : Bool := b &&& 0xf8 = 0xf0 ∧ d &&& 0xf8 = 0xf8

def thumbUnit (move : Nat → Nat → Nat) (ip : Nat) (a b c d : UInt8) : List UInt8 :=
  thumbEncoded (move (wrappingShl (thumbSource a b c d) 1) (wrappingAdd ip 4) >>> 1)

def thumbStep (move : Nat → Nat → Nat) : Step Nat UInt8
  | ip, a :: b :: c :: d :: rest =>
    if isThumbBranch b d then some (thumbUnit move ip a b c d, wrappingAdd ip 4, rest)
    else some ([a, b], wrappingAdd ip 2, c :: d :: rest)
  | _, _ => none

theorem thumbSource_eq (a b c d : UInt8) :
    thumbSource a b c d =
      c.toNat + 2 ^ 8 * (d.toNat % 8) + 2 ^ 11 * a.toNat + 2 ^ 19 * (b.toNat % 8) := by
  have hc := c.toNat_lt
  have ha := a.toNat_lt
  have hmask : ∀ byte : UInt8, (byte &&& 7).toNat = byte.toNat % 8 :=
    fun byte => (UInt8.toNat_and byte 7).trans (and_ones _ 3)
  have hd : d.toNat % 8 < 8 := Nat.mod_lt _ (by decide)
  have hswap : thumbSource a b c d =
      c.toNat ||| 2 ^ 8 * (d.toNat % 8) ||| 2 ^ 11 * a.toNat ||| 2 ^ 19 * (b.toNat % 8) := by
    rw [thumbSource, hmask, hmask, Nat.shiftLeft_eq, Nat.shiftLeft_eq, Nat.shiftLeft_eq]
    ac_rfl
  rw [hswap, or_field hc, or_field (show c.toNat + 2 ^ 8 * (d.toNat % 8) < 2 ^ 11 by omega),
    or_field (by omega)]

theorem thumbEncoded_eq (destination : Nat) :
    thumbEncoded destination =
      [.ofNat (destination / 2 ^ 11 % 2 ^ 8), .ofNat (0xf0 + destination / 2 ^ 19 % 2 ^ 3),
        .ofNat (destination % 2 ^ 8), .ofNat (0xf8 + destination / 2 ^ 8 % 2 ^ 3)] := by
  have hlow : ∀ value, value &&& 0xff = value % 2 ^ 8 := fun value => and_ones value 8
  have hfield : ∀ value, value &&& 7 = value % 2 ^ 3 := fun value => and_ones value 3
  have hsecond : ∀ value, 0xf0 ||| value % 2 ^ 3 = 0xf0 + value % 2 ^ 3 := by
    intro value
    rw [Nat.or_comm]
    exact (or_field (Nat.mod_lt value (by decide)) 0x1e).trans (Nat.add_comm _ _)
  have hfourth : ∀ value, 0xf8 ||| value % 2 ^ 3 = 0xf8 + value % 2 ^ 3 := by
    intro value
    rw [Nat.or_comm]
    exact (or_field (Nat.mod_lt value (by decide)) 0x1f).trans (Nat.add_comm _ _)
  rw [thumbEncoded, hlow, hlow, hfield, hfield, hsecond, hfourth, Nat.shiftRight_eq_div_pow,
    Nat.shiftRight_eq_div_pow, Nat.shiftRight_eq_div_pow]

theorem isThumbBranch_iff {b d : UInt8} :
    isThumbBranch b d = true ↔ b.toNat / 8 = 0x1e ∧ d.toNat / 8 = 0x1f := by
  have hb : b &&& 0xf8 = 0xf0 ↔ b.toNat / 8 = 0x1e :=
    @forall_byte (fun b => b &&& 0xf8 = 0xf0 ↔ b.toNat / 8 = 0x1e) (by decide +kernel) b
  have hd : d &&& 0xf8 = 0xf8 ↔ d.toNat / 8 = 0x1f :=
    @forall_byte (fun d => d &&& 0xf8 = 0xf8 ↔ d.toNat / 8 = 0x1f) (by decide +kernel) d
  rw [isThumbBranch, decide_eq_true_iff, hb, hd]

theorem thumbEncoded_spec (destination : Nat) :
    ∃ a b c d, thumbEncoded destination = [a, b, c, d] ∧ isThumbBranch b d = true ∧
      thumbSource a b c d = destination % 2 ^ 22 := by
  refine ⟨_, _, _, _, thumbEncoded_eq destination, ?_, ?_⟩
  · rw [isThumbBranch_iff, UInt8.toNat_ofNat', UInt8.toNat_ofNat']
    omega
  · rw [thumbSource_eq, UInt8.toNat_ofNat', UInt8.toNat_ofNat', UInt8.toNat_ofNat',
      UInt8.toNat_ofNat']
    omega

theorem thumbEncoded_thumbSource {a b c d : UInt8} (h : isThumbBranch b d = true) {value : Nat}
    (hvalue : value % 2 ^ 22 = thumbSource a b c d) : thumbEncoded value = [a, b, c, d] := by
  obtain ⟨hb, hd⟩ := isThumbBranch_iff.mp h
  have ha := a.toNat_lt
  have hc := c.toNat_lt
  rw [thumbSource_eq] at hvalue
  have hfirst : value / 2 ^ 11 % 2 ^ 8 = a.toNat := by omega
  have hsecond : 0xf0 + value / 2 ^ 19 % 2 ^ 3 = b.toNat := by omega
  have hthird : value % 2 ^ 8 = c.toNat := by omega
  have hfourth : 0xf8 + value / 2 ^ 8 % 2 ^ 3 = d.toNat := by omega
  rw [thumbEncoded_eq, hfirst, hsecond, hthird, hfourth]
  simp only [UInt8.ofNat_toNat]

theorem length_thumbUnit (move : Nat → Nat → Nat) (ip : Nat) (a b c d : UInt8) :
    (thumbUnit move ip a b c d).length = 4 := rfl

theorem thumbStep_none {move : Nat → Nat → Nat} {ip : Nat} {bytes : List UInt8} :
    thumbStep move ip bytes = none ↔ bytes.length < 4 := by
  match bytes with
  | [] | [_] | [_, _] | [_, _, _] => simp [thumbStep]
  | _ :: b :: _ :: d :: _ =>
    rw [thumbStep]
    split <;> simp

theorem thumbStep_cases {move : Nat → Nat → Nat} {ip ip' : Nat} {bytes piece rest : List UInt8}
    (h : thumbStep move ip bytes = some (piece, ip', rest)) :
    (∃ a b c d, bytes = a :: b :: c :: d :: rest ∧ isThumbBranch b d = true ∧
      piece = thumbUnit move ip a b c d ∧ ip' = wrappingAdd ip 4) ∨
    ∃ a b c d tail, bytes = a :: b :: c :: d :: tail ∧ isThumbBranch b d = false ∧
      piece = [a, b] ∧ rest = c :: d :: tail ∧ ip' = wrappingAdd ip 2 := by
  match bytes, h with
  | a :: b :: c :: d :: tail, h =>
    rw [thumbStep] at h
    cases hbranch : isThumbBranch b d with
    | true =>
      rw [hbranch] at h
      cases h
      exact .inl ⟨a, b, c, d, rfl, hbranch, rfl, rfl⟩
    | false =>
      rw [hbranch] at h
      cases h
      exact .inr ⟨a, b, c, d, tail, rfl, hbranch, rfl, rfl, rfl⟩

theorem balanced_thumbStep (move : Nat → Nat → Nat) : Balanced (thumbStep move) := by
  intro ip bytes piece ip' rest h
  rcases thumbStep_cases h with ⟨a, b, c, d, rfl, -, rfl, -⟩ | ⟨a, b, c, d, tail, rfl, -,
    rfl, rfl, -⟩
  · rw [length_thumbUnit]
    refine ⟨by decide, ?_⟩
    simp only [List.length_cons]
    omega
  · refine ⟨by simp, ?_⟩
    simp only [List.length_cons, List.length_nil]
    omega

theorem pass_thumb_second (move : Nat → Nat → Nat) (ip : Nat) (c d : UInt8) (rest : List UInt8) :
    ∃ c' d' rest', pass (thumbStep move) ip (c :: d :: rest) = c' :: d' :: rest' ∧
      d'.toNat / 8 = d.toNat / 8 := by
  cases h : thumbStep move ip (c :: d :: rest) with
  | none => exact ⟨c, d, rest, Rewriting.pass_of_none h, rfl⟩
  | some step =>
    obtain ⟨piece, ip', rest''⟩ := step
    rw [Rewriting.pass_of_some (balanced_thumbStep move) h]
    rcases thumbStep_cases h with ⟨a, b, e, f, heq, hbranch, rfl, -⟩ | ⟨a, b, e, f, tail, heq, -,
      rfl, -, -⟩
    · cases heq
      obtain ⟨a', b', e', f', hencoded, hagain, -⟩ := thumbEncoded_spec
        (move (wrappingShl (thumbSource c d e f) 1) (wrappingAdd ip 4) >>> 1)
      refine ⟨a', b', e' :: f' :: pass (thumbStep move) ip' rest'', ?_, ?_⟩
      · rw [thumbUnit, hencoded]
        rfl
      · rw [(isThumbBranch_iff.mp hagain).1, (isThumbBranch_iff.mp hbranch).1]
    · cases heq
      exact ⟨c, d, pass (thumbStep move) ip' rest'', rfl, rfl⟩

theorem aligned_two {ip bytes : Nat} (h : Aligned 2 ip) (hbytes : bytes % 2 = 0) :
    Aligned 2 (wrappingAdd ip bytes) := by
  obtain ⟨hlt, hmod⟩ := h
  rw [wrappingAdd]
  exact ⟨Nat.mod_lt _ (by decide), by omega⟩

theorem thumbUnit_thumbUnit {ip : Nat} (hip : Aligned 2 ip) {a b c d a' b' c' d' : UInt8}
    (hbranch : isThumbBranch b d = true)
    (hforward : thumbUnit wrappingAdd ip a b c d = [a', b', c', d']) :
    isThumbBranch b' d' = true ∧ thumbUnit wrappingSub ip a' b' c' d' = [a, b, c, d] := by
  obtain ⟨hlt, hmod⟩ := hip
  obtain ⟨_, _, _, _, hencoded, hagain, hsource⟩ := thumbEncoded_spec
    (wrappingAdd (wrappingShl (thumbSource a b c d) 1) (wrappingAdd ip 4) >>> 1)
  rw [thumbUnit, hencoded] at hforward
  cases hforward
  refine ⟨hagain, thumbEncoded_thumbSource hbranch ?_⟩
  have hsmall : thumbSource a b c d < 2 ^ 22 := by
    rw [thumbSource_eq]
    have ha := a.toNat_lt
    have hc := c.toNat_lt
    omega
  rw [hsource]
  generalize thumbSource a b c d = source at hsmall ⊢
  simp only [wrappingAdd, wrappingSub, wrappingShl, Nat.shiftLeft_eq, Nat.shiftRight_eq_div_pow]
  omega

theorem thumbPass_thumbPass {start : Nat} (hstart : Aligned 2 start) (bytes : List UInt8) :
    pass (thumbStep wrappingSub) start (pass (thumbStep wrappingAdd) start bytes) = bytes := by
  refine Rewriting.pass_pass (balanced_thumbStep _) (balanced_thumbStep _)
    (fun ip _ _ _ _ hip h => ?_) (fun ip bytes _ h => ?_) (fun ip bytes piece ip' rest hip h => ?_)
    hstart bytes
  · rcases thumbStep_cases h with ⟨_, _, _, _, -, -, -, rfl⟩ | ⟨_, _, _, _, _, -, -, -, -, rfl⟩
    · exact aligned_two hip (by decide)
    · exact aligned_two hip (by decide)
  · exact thumbStep_none.mpr (thumbStep_none.mp h)
  · rcases thumbStep_cases h with
      ⟨a, b, c, d, rfl, hbranch, rfl, rfl⟩ | ⟨a, b, c, d, tail, rfl, hbranch, rfl, rfl, rfl⟩
    · refine ⟨[a, b, c, d], rfl, ?_⟩
      match hforward : thumbUnit wrappingAdd ip a b c d, length_thumbUnit wrappingAdd ip a
        b c d with
      | [a', b', c', d'], _ =>
        obtain ⟨hagain, hback⟩ := thumbUnit_thumbUnit hip hbranch hforward
        rw [cons_append, cons_append, cons_append, cons_append,
          nil_append, thumbStep, if_pos hagain, hback]
    · obtain ⟨c', d', rest', hpass, hclass⟩ :=
        pass_thumb_second wrappingAdd (wrappingAdd ip 2) c d tail
      have hnot : ¬isThumbBranch b d' = true := by
        rw [isThumbBranch_iff, hclass, ← isThumbBranch_iff, hbranch]
        exact Bool.false_ne_true
      refine ⟨[a, b], rfl, ?_⟩
      rw [hpass, cons_append, cons_append, nil_append, thumbStep, if_neg hnot]

/-! ## The filter -/

theorem wrappingAdd_offset (start offset bytes : Nat) :
    wrappingAdd (wrappingAdd start (lowU32Offset offset)) bytes =
      wrappingAdd start (lowU32Offset (offset + bytes)) := by
  simp only [wrappingAdd, lowU32Offset]
  omega

theorem scanLoop_granted {next : Step Nat UInt8} (hnext : Balanced next)
    {condition : ScanState → Bool} {body : ScanState → Metered ScanState} {bytes : List UInt8}
    {start : Nat} (hstart : start < 2 ^ 32) (unit : Nat)
    (hstop : ∀ front rest : List UInt8, front.length + rest.length = bytes.length →
      unit ∣ front.length → next (wrappingAdd start (lowU32Offset front.length)) rest = none →
        condition ⟨front ++ rest, front.length⟩ = false)
    (hstep : ∀ (front rest piece : List UInt8) (ip : Nat) (rest' : List UInt8),
      front.length + rest.length = bytes.length → unit ∣ front.length →
      next (wrappingAdd start (lowU32Offset front.length)) rest = some (piece, ip, rest') →
        condition ⟨front ++ rest, front.length⟩ = true ∧ unit ∣ piece.length ∧
        ip = wrappingAdd (wrappingAdd start (lowU32Offset front.length)) piece.length ∧
        (body ⟨front ++ rest, front.length⟩).granted =
          .ok ⟨front ++ (piece ++ rest'), front.length + piece.length⟩) :
    (ScanState.bytes <$> Prog.whileLoop condition body bytes.length ⟨bytes, 0⟩).granted =
      .ok (pass next start bytes) := by
  let Stands (state : ScanState) (front : List UInt8) (ip : Nat) (rest : List UInt8) : Prop :=
    state = ⟨front ++ rest, front.length⟩ ∧ ip = wrappingAdd start (lowU32Offset front.length) ∧
      front.length + rest.length = bytes.length ∧ unit ∣ front.length
  have hend : ∀ state front ip rest, Stands state front ip rest → next ip rest = none →
      condition state = false := by
    rintro _ front ip rest ⟨rfl, rfl, hroom, hunit⟩ hnone
    exact hstop front rest hroom hunit hnone
  have hround : ∀ state front ip rest piece ip' rest', Stands state front ip rest →
      next ip rest = some (piece, ip', rest') → condition state = true ∧
        ∃ state', (body state).granted = .ok state' ∧ Stands state' (front ++ piece) ip' rest' := by
    rintro _ front ip rest piece ip' rest' ⟨rfl, rfl, hroom, hunit⟩ hsome
    obtain ⟨hcondition, hpiece, hip, hbody⟩ := hstep front rest piece ip' rest' hroom hunit hsome
    have hcount := hnext _ _ _ _ _ hsome
    refine ⟨hcondition, _, hbody, ?_, ?_, ?_, ?_⟩
    · rw [List.append_assoc, length_append]
    · rw [hip, wrappingAdd_offset, length_append]
    · rw [length_append, Nat.add_assoc, hcount.2, hroom]
    · rw [length_append]
      exact Nat.dvd_add hunit hpiece
  obtain ⟨state', front', ip', rest', hgranted, ⟨rfl, -⟩, heq⟩ :=
    Prog.whileLoop_granted hnext hend hround (Nat.le_refl bytes.length)
      (show Stands ⟨bytes, 0⟩ [] start bytes from
        ⟨rfl, (Nat.mod_eq_of_lt hstart).symm, Nat.zero_add _, Nat.dvd_zero _⟩)
  rw [Prog.granted_map, hgranted]
  exact congrArg Except.ok heq

section

variable (start : Nat) (front : List UInt8)

theorem convertArmThumb_eq (a b c d : UInt8) (rest : List UInt8)
    (hroom : front.length + 4 < 2 ^ 64) :
    convertArmThumb start ⟨front ++ a :: b :: c :: d :: rest, front.length⟩ b d =
      .ok ⟨front ++ (thumbUnit wrappingSub (wrappingAdd start (lowU32Offset front.length))
        a b c d ++
        rest), front.length + 2⟩ := by
  have hfirst := @byteAt_eq front (a :: b :: c :: d :: rest) "ARM Thumb index overflows"
    "ARM Thumb instruction is truncated" 0 a rfl (by omega)
  have hthird := @byteAt_eq front (a :: b :: c :: d :: rest) "ARM Thumb index overflows"
    "ARM Thumb instruction is truncated" 2 c rfl (by omega)
  have hwrite := @writeRange_append front [a, b, c, d] rest hroom "ARM Thumb range overflows"
    "ARM Thumb instruction is truncated"
    (thumbUnit wrappingSub (wrappingAdd start (lowU32Offset front.length)) a b c d)
    (length_thumbUnit _ _ a b c d)
  have hadd : front.length + 2 < 2 ^ 64 := by omega
  simp only [thumbUnit, thumbEncoded, thumbSource, cons_append, nil_append] at hwrite ⊢
  simp only [convertArmThumb, hfirst, hthird, Except.ok_bind, hwrite, checkedAdd_of_lt hadd,
    okOr_some, pure, Except.pure]

theorem armThumbBody_branch {b d : UInt8} (h : isThumbBranch b d = true) (a c : UInt8)
    (rest : List UInt8) (hroom : front.length + 4 < 2 ^ 64) :
    (armThumbBody start ⟨front ++ a :: b :: c :: d :: rest, front.length⟩).granted =
      .ok ⟨front ++ (thumbUnit wrappingSub (wrappingAdd start (lowU32Offset front.length))
        a b c d ++
        rest), front.length + 4⟩ := by
  have hsecond := @byteAt_eq front (a :: b :: c :: d :: rest) "ARM Thumb index overflows"
    "ARM Thumb instruction is truncated" 1 b rfl (by omega)
  have hfourth := @byteAt_eq front (a :: b :: c :: d :: rest) "ARM Thumb index overflows"
    "ARM Thumb instruction is truncated" 3 d rfl (by omega)
  have hadd : front.length + 2 + 2 < 2 ^ 64 := hroom
  have hopcode := of_decide_eq_true h
  simp only [armThumbBody, Prog.granted_bind, checkpoint_granted, Prog.granted_lift, hsecond,
    hfourth, Except.ok_bind, hopcode, and_self, if_true,
    convertArmThumb_eq start front a b c d rest hroom, checkedAdd_of_lt hadd, okOr_some,
    Prog.granted_pure]

theorem armThumbBody_skip {b d : UInt8} (h : isThumbBranch b d = false) (a c : UInt8)
    (rest : List UInt8) (hroom : front.length + 4 < 2 ^ 64) :
    (armThumbBody start ⟨front ++ a :: b :: c :: d :: rest, front.length⟩).granted =
      .ok ⟨front ++ a :: b :: c :: d :: rest, front.length + 2⟩ := by
  have hsecond := @byteAt_eq front (a :: b :: c :: d :: rest) "ARM Thumb index overflows"
    "ARM Thumb instruction is truncated" 1 b rfl (by omega)
  have hfourth := @byteAt_eq front (a :: b :: c :: d :: rest) "ARM Thumb index overflows"
    "ARM Thumb instruction is truncated" 3 d rfl (by omega)
  have hadd : front.length + 2 < 2 ^ 64 := by omega
  have hopcode : ¬(b &&& 0xf8 = 0xf0 ∧ d &&& 0xf8 = 0xf8) := of_decide_eq_false h
  simp only [armThumbBody, Prog.granted_bind, checkpoint_granted, Prog.granted_lift, hsecond,
    hfourth, Except.ok_bind, if_neg hopcode, Prog.granted_pure, checkedAdd_of_lt hadd, okOr_some]

end

theorem decodeArmThumb_granted {bytes properties : List UInt8} (hlen : bytes.length < 2 ^ 64)
    {start : Nat} (hstart : startingPosition properties = .ok start) :
    (decodeArmThumb bytes properties).granted = .ok (pass (thumbStep wrappingSub) start bytes) := by
  rw [decodeArmThumb]
  by_cases hshort : bytes.length < 4
  · rw [if_pos hshort, Rewriting.pass_of_none (thumbStep_none.mpr hshort)]
    rfl
  have hbound : checkedSub bytes.length 4 = some (bytes.length - 4) :=
    if_pos (Nat.not_lt.mp hshort)
  rw [if_neg hshort, hstart, hbound]
  simp only [Prog.granted_lift_bind, okOr_some, Except.ok_bind]
  refine scanLoop_granted (balanced_thumbStep wrappingSub) (startingPosition_lt hstart) 1 ?_ ?_
  · intro front rest hroom _ hnone
    have hrest := thumbStep_none.mp hnone
    rw [decide_eq_false_iff_not]
    show ¬front.length ≤ bytes.length - 4
    omega
  · intro front rest piece ip rest' hroom _ hsome
    have hfour : 4 ≤ rest.length := by
      refine Nat.not_lt.mp fun hlt => ?_
      rw [thumbStep_none.mpr hlt] at hsome
      cases hsome
    refine ⟨decide_eq_true (show front.length ≤ bytes.length - 4 by omega), Nat.one_dvd _, ?_⟩
    rcases thumbStep_cases hsome with
      ⟨a, b, c, d, rfl, hbranch, rfl, rfl⟩ | ⟨a, b, c, d, tail, rfl, hbranch, rfl, rfl, rfl⟩
    · rw [length_thumbUnit]
      exact ⟨rfl, armThumbBody_branch start front hbranch a c rest' (by omega)⟩
    · exact ⟨rfl, armThumbBody_skip start front hbranch a c tail (by omega)⟩

end Filter
end Unpackio
