/-
The RISC-V filter as a pass, and its forward transform.

The forward transform packs an AUIPC instruction and the one behind it into an
escape form, which uses the register x2.  Bytes that had this form before are put
into the form of a pair, so that the filter packs them again.
-/
import Unpackio.Filter.Thumb

namespace Unpackio
namespace Filter

open List (length_append length_cons)
open Except (ok_bind)
open Rewriting (Step Balanced pass)

def registerOf (instruction : Nat) : Nat := instruction / 2 ^ 7 % 2 ^ 5

theorem registerOf_lt (instruction : Nat) : registerOf instruction < 2 ^ 5 :=
  Nat.mod_lt _ (by decide)

def sourceOf (instruction : Nat) : Nat := instruction / 2 ^ 15 % 2 ^ 5

def IsEscape (register : Nat) : Prop := register = 0 ∨ register = 2

instance (register : Nat) : Decidable (IsEscape register) := inferInstanceAs (Decidable (_ ∨ _))

theorem and_mul (value factor offset : Nat) :
    value &&& 2 ^ offset * factor = 2 ^ offset * (value / 2 ^ offset &&& factor) := by
  refine Nat.eq_of_testBit_eq fun i => ?_
  rw [Nat.testBit_and, Nat.testBit_two_pow_mul, Nat.testBit_two_pow_mul, Nat.testBit_and,
    Nat.testBit_div_two_pow]
  by_cases h : offset ≤ i
  · rw [Nat.sub_add_cancel h]
    simp only [h, decide_true, Bool.true_and]
  · simp only [h, decide_false, Bool.false_and, Bool.and_false]

theorem escape_mask {register : Nat} (h : register < 2 ^ 5) :
    register &&& 0x1d = 0 ↔ IsEscape register := by
  revert register
  decide

theorem escape_opcode (instruction : Nat) :
    instruction &&& 0x0e80 = 0 ↔ IsEscape (registerOf instruction) := by
  have hlow : instruction / 2 ^ 7 &&& 0x1d = instruction / 2 ^ 7 % 2 ^ 5 &&& 0x1d := by
    rw [← and_ones, Nat.and_assoc]
    rfl
  rw [show 0x0e80 = 2 ^ 7 * 0x1d from rfl, and_mul, Nat.mul_eq_zero,
    or_iff_right (by decide), hlow]
  exact escape_mask (Nat.mod_lt _ (by decide))

theorem xor_eq_zero_iff {a b : Nat} : a ^^^ b = 0 ↔ a = b := by
  constructor
  · intro h
    have hsame := congrArg (· ^^^ b) h
    simpa only [Nat.xor_assoc, Nat.xor_self, Nat.xor_zero, Nat.zero_xor] using hsame
  · intro h
    rw [h, Nat.xor_self]

theorem isNotAuipcPair_iff {instruction second : Nat} (h : second < 2 ^ 32) :
    isNotAuipcPair instruction second = false ↔
      second % 4 = 3 ∧ sourceOf second = registerOf instruction := by
  have hmask : 0x000f8003 = 2 ^ 15 * (2 ^ 5 - 1) ||| 2 ^ 2 - 1 := by decide
  have hshift : wrappingShl instruction 8 / 2 ^ 15 % 2 ^ 5 = registerOf instruction ∧
      wrappingShl instruction 8 % 2 ^ 2 = 0 := by
    rw [wrappingShl, Nat.shiftLeft_eq, registerOf]
    omega
  rw [isNotAuipcPair, decide_eq_false_iff_not, Decidable.not_not, hmask, Nat.and_or_distrib_left,
    Nat.or_eq_zero_iff, and_field, and_ones, Nat.mul_eq_zero, or_iff_right (by decide),
    Nat.xor_div_two_pow, Nat.xor_mod_two_pow, Nat.xor_mod_two_pow, xor_eq_zero_iff,
    xor_eq_zero_iff, hshift.1, hshift.2, wrappingSub, sourceOf]
  omega

theorem isNotSpecialAuipc_iff {instruction : Nat} (h : instruction < 2 ^ 32) :
    isNotSpecialAuipc instruction (instruction >>> 27) = false ↔
      instruction % 2 ^ 14 = 0x3117 ∧ ¬IsEscape (instruction / 2 ^ 27) := by
  have hregister : instruction / 2 ^ 27 < 2 ^ 5 := by omega
  have hshift : wrappingShl (wrappingSub instruction 0x3117) 18 =
      2 ^ 18 * ((instruction + 2 ^ 32 - 0x3117) % 2 ^ 14) := by
    rw [wrappingShl, Nat.shiftLeft_eq, wrappingSub]
    omega
  have hsmall : instruction / 2 ^ 27 &&& 0x1d ≤ 0x1d := Nat.and_le_right
  rw [isNotSpecialAuipc, decide_eq_false_iff_not, hshift, Nat.shiftRight_eq_div_pow,
    ← escape_mask hregister]
  omega

/-! ## Jumps -/

def jalGather (b c d : UInt8) : Nat :=
  (b &&& 0xf0).toNat <<< 8 ||| (c &&& 0x0f).toNat <<< 16 ||| (c &&& 0x10).toNat <<< 7 |||
    (c &&& 0xe0).toNat >>> 4 ||| (d &&& 0x7f).toNat <<< 4 ||| (d &&& 0x80).toNat <<< 13

def jalScatter (a b : UInt8) (address : Nat) : List UInt8 :=
  [a,
    .ofNat ((b &&& 0x0f).toNat ||| (address >>> 8 &&& 0xf0)),
    .ofNat ((address >>> 16 &&& 0x0f) ||| (address >>> 7 &&& 0x10) |||
      (wrappingShl address 4 &&& 0xe0)),
    .ofNat ((address >>> 4 &&& 0x7f) ||| (address >>> 13 &&& 0x80))]

/-- The address that is stored in the place of a JAL instruction. -/
def jalLoad (b c d : UInt8) : Nat :=
  (b &&& 0xf0).toNat <<< 13 ||| c.toNat <<< 9 ||| d.toNat <<< 1

def jalStore (a b : UInt8) (address : Nat) : List UInt8 :=
  [a,
    .ofNat ((b &&& 0x0f).toNat ||| (address >>> 13 &&& 0xf0)),
    .ofNat (address >>> 9 &&& 0xff),
    .ofNat (address >>> 1 &&& 0xff)]

theorem byte_field (byte : UInt8) {mask offset width : Nat} (hmask : mask < 256)
    (h : mask = 2 ^ offset * (2 ^ width - 1)) :
    (byte &&& .ofNat mask).toNat = 2 ^ offset * (byte.toNat / 2 ^ offset % 2 ^ width) := by
  rw [UInt8.toNat_and, UInt8.toNat_ofNat', Nat.mod_eq_of_lt hmask, h, and_field]

theorem jalGather_eq (b c d : UInt8) :
    jalGather b c d = 2 * (c.toNat / 2 ^ 5) + 2 ^ 4 * (d.toNat % 2 ^ 7) +
      2 ^ 11 * (c.toNat / 2 ^ 4 % 2) + 2 ^ 12 * (b.toNat / 2 ^ 4) + 2 ^ 16 * (c.toNat % 2 ^ 4) +
        2 ^ 20 * (d.toNat / 2 ^ 7) := by
  have hb := b.toNat_lt
  have hc := c.toNat_lt
  have hd := d.toNat_lt
  have hbhigh : (b &&& 0xf0).toNat <<< 8 = 2 ^ 12 * (b.toNat / 2 ^ 4) := by
    rw [show (0xf0 : UInt8) = .ofNat 0xf0 from rfl, @byte_field b 0xf0 4 4 (by decide) rfl,
      Nat.shiftLeft_eq]
    omega
  have hclow : (c &&& 0x0f).toNat <<< 16 = 2 ^ 16 * (c.toNat % 2 ^ 4) := by
    rw [show (0x0f : UInt8) = .ofNat 0x0f from rfl, @byte_field c 0x0f 0 4 (by decide) rfl,
      Nat.shiftLeft_eq]
    omega
  have hcbit : (c &&& 0x10).toNat <<< 7 = 2 ^ 11 * (c.toNat / 2 ^ 4 % 2) := by
    rw [show (0x10 : UInt8) = .ofNat 0x10 from rfl, @byte_field c 0x10 4 1 (by decide) rfl,
      Nat.shiftLeft_eq]
    omega
  have hchigh : (c &&& 0xe0).toNat >>> 4 = 2 * (c.toNat / 2 ^ 5) := by
    rw [show (0xe0 : UInt8) = .ofNat 0xe0 from rfl, @byte_field c 0xe0 5 3 (by decide) rfl,
      Nat.shiftRight_eq_div_pow]
    omega
  have hdlow : (d &&& 0x7f).toNat <<< 4 = 2 ^ 4 * (d.toNat % 2 ^ 7) := by
    rw [show (0x7f : UInt8) = .ofNat 0x7f from rfl, @byte_field d 0x7f 0 7 (by decide) rfl,
      Nat.shiftLeft_eq]
    omega
  have hdbit : (d &&& 0x80).toNat <<< 13 = 2 ^ 20 * (d.toNat / 2 ^ 7) := by
    rw [show (0x80 : UInt8) = .ofNat 0x80 from rfl, @byte_field d 0x80 7 1 (by decide) rfl,
      Nat.shiftLeft_eq]
    omega
  have horder : jalGather b c d = 2 * (c.toNat / 2 ^ 5) ||| 2 ^ 4 * (d.toNat % 2 ^ 7) |||
      2 ^ 11 * (c.toNat / 2 ^ 4 % 2) ||| 2 ^ 12 * (b.toNat / 2 ^ 4) ||| 2 ^ 16 *
        (c.toNat % 2 ^ 4) |||
        2 ^ 20 * (d.toNat / 2 ^ 7) := by
    rw [jalGather, hbhigh, hclow, hcbit, hchigh, hdlow, hdbit]
    ac_rfl
  have hto4 : 2 * (c.toNat / 2 ^ 5) < 2 ^ 4 := by omega
  have hto11 : 2 * (c.toNat / 2 ^ 5) + 2 ^ 4 * (d.toNat % 2 ^ 7) < 2 ^ 11 := by omega
  have hto12 : 2 * (c.toNat / 2 ^ 5) + 2 ^ 4 * (d.toNat % 2 ^ 7) +
      2 ^ 11 * (c.toNat / 2 ^ 4 % 2) < 2 ^ 12 := by omega
  have hto16 : 2 * (c.toNat / 2 ^ 5) + 2 ^ 4 * (d.toNat % 2 ^ 7) +
      2 ^ 11 * (c.toNat / 2 ^ 4 % 2) + 2 ^ 12 * (b.toNat / 2 ^ 4) < 2 ^ 16 := by omega
  have hto20 : 2 * (c.toNat / 2 ^ 5) + 2 ^ 4 * (d.toNat % 2 ^ 7) +
      2 ^ 11 * (c.toNat / 2 ^ 4 % 2) + 2 ^ 12 * (b.toNat / 2 ^ 4) +
        2 ^ 16 * (c.toNat % 2 ^ 4) < 2 ^ 20 := by omega
  rw [horder, or_field hto4, or_field hto11, or_field hto12, or_field hto16, or_field hto20]

theorem jalLoad_eq (b c d : UInt8) :
    jalLoad b c d = 2 * (d.toNat + 2 ^ 8 * c.toNat + 2 ^ 16 * (b.toNat / 2 ^ 4)) := by
  have hb := b.toNat_lt
  have hc := c.toNat_lt
  have hd := d.toNat_lt
  have hbhigh : (b &&& 0xf0).toNat <<< 13 = 2 ^ 17 * (b.toNat / 2 ^ 4) := by
    rw [show (0xf0 : UInt8) = .ofNat 0xf0 from rfl, @byte_field b 0xf0 4 4 (by decide) rfl,
      Nat.shiftLeft_eq]
    omega
  have horder : jalLoad b c d = 2 * d.toNat ||| 2 ^ 9 * c.toNat ||| 2 ^ 17 * (b.toNat / 2 ^ 4) := by
    rw [jalLoad, hbhigh, Nat.shiftLeft_eq, Nat.shiftLeft_eq, Nat.mul_comm c.toNat,
      Nat.mul_comm d.toNat]
    ac_rfl
  have hto9 : 2 * d.toNat < 2 ^ 9 := by omega
  have hto17 : 2 * d.toNat + 2 ^ 9 * c.toNat < 2 ^ 17 := by omega
  rw [horder, or_field hto9, or_field hto17]
  omega

theorem jal_second (b : UInt8) (high : Nat) :
    ((b &&& 0x0f).toNat ||| 2 ^ 4 * high) = b.toNat % 2 ^ 4 + 2 ^ 4 * high := by
  have hlow : (b &&& 0x0f).toNat = b.toNat % 2 ^ 4 :=
    (UInt8.toNat_and b 0x0f).trans (and_ones _ 4)
  rw [hlow, or_field (Nat.mod_lt _ (by decide))]

section

variable (a b : UInt8) (address : Nat)

theorem jalStore_eq :
    jalStore a b address =
      [a, .ofNat (b.toNat % 2 ^ 4 + 2 ^ 4 * (address / 2 ^ 17 % 2 ^ 4)),
        .ofNat (address / 2 ^ 9 % 2 ^ 8), .ofNat (address / 2 % 2 ^ 8)] := by
  have hhigh : address >>> 13 &&& 0xf0 = 2 ^ 4 * (address / 2 ^ 17 % 2 ^ 4) := by
    rw [show 0xf0 = 2 ^ 4 * (2 ^ 4 - 1) from rfl, and_field, Nat.shiftRight_eq_div_pow,
      Nat.div_div_eq_div_mul, ← Nat.pow_add]
  have hbyte : ∀ value, value &&& 0xff = value % 2 ^ 8 := fun value => and_ones value 8
  rw [jalStore, hhigh, jal_second, hbyte, hbyte,
    Nat.shiftRight_eq_div_pow, Nat.shiftRight_eq_div_pow, Nat.pow_one]

theorem jalScatter_eq :
    jalScatter a b address =
      [a, .ofNat (b.toNat % 2 ^ 4 + 2 ^ 4 * (address / 2 ^ 12 % 2 ^ 4)),
        .ofNat (address / 2 ^ 16 % 2 ^ 4 + 2 ^ 4 * (address / 2 ^ 11 % 2) +
          2 ^ 5 * (address / 2 % 2 ^ 3)),
        .ofNat (address / 2 ^ 4 % 2 ^ 7 + 2 ^ 7 * (address / 2 ^ 20 % 2))] := by
  have hsecond : address >>> 8 &&& 0xf0 = 2 ^ 4 * (address / 2 ^ 12 % 2 ^ 4) := by
    rw [show 0xf0 = 2 ^ 4 * (2 ^ 4 - 1) from rfl, and_field, Nat.shiftRight_eq_div_pow,
      Nat.div_div_eq_div_mul, ← Nat.pow_add]
  have hlow : address >>> 16 &&& 0x0f = address / 2 ^ 16 % 2 ^ 4 := by
    rw [Nat.shiftRight_eq_div_pow]
    exact and_ones _ 4
  have hbit : address >>> 7 &&& 0x10 = 2 ^ 4 * (address / 2 ^ 11 % 2) := by
    rw [show 0x10 = 2 ^ 4 * (2 ^ 1 - 1) from rfl, and_field, Nat.shiftRight_eq_div_pow,
      Nat.div_div_eq_div_mul, ← Nat.pow_add, Nat.pow_one]
  have hhigh : wrappingShl address 4 &&& 0xe0 = 2 ^ 5 * (address / 2 % 2 ^ 3) := by
    rw [show 0xe0 = 2 ^ 5 * (2 ^ 3 - 1) from rfl, and_field, wrappingShl, Nat.shiftLeft_eq]
    omega
  have hfourth : address >>> 4 &&& 0x7f = address / 2 ^ 4 % 2 ^ 7 := by
    rw [Nat.shiftRight_eq_div_pow]
    exact and_ones _ 7
  have hlast : address >>> 13 &&& 0x80 = 2 ^ 7 * (address / 2 ^ 20 % 2) := by
    rw [show 0x80 = 2 ^ 7 * (2 ^ 1 - 1) from rfl, and_field, Nat.shiftRight_eq_div_pow,
      Nat.div_div_eq_div_mul, ← Nat.pow_add, Nat.pow_one]
  have hto4 : address / 2 ^ 16 % 2 ^ 4 < 2 ^ 4 := Nat.mod_lt _ (by decide)
  have hto5 : address / 2 ^ 16 % 2 ^ 4 + 2 ^ 4 * (address / 2 ^ 11 % 2) < 2 ^ 5 := by omega
  rw [jalScatter, hsecond, jal_second, hlow, hbit, hhigh, hfourth,
    hlast, or_field hto4, or_field hto5, or_field (Nat.mod_lt _ (by decide))]

theorem jalStore_spec :
    ∃ b' c' d', jalStore a b address = [a, b', c', d'] ∧ b'.toNat % 2 ^ 4 = b.toNat % 2 ^ 4 ∧
      jalLoad b' c' d' = 2 * (address / 2 % 2 ^ 20) := by
  refine ⟨_, _, _, jalStore_eq a b address, ?_, ?_⟩
  · rw [UInt8.toNat_ofNat']
    omega
  · rw [jalLoad_eq, UInt8.toNat_ofNat', UInt8.toNat_ofNat', UInt8.toNat_ofNat']
    omega

end

theorem jal_pieces {address p q r t u v : Nat} (hp : p < 2 ^ 3) (hq : q < 2 ^ 7) (hr : r < 2)
    (ht : t < 2 ^ 4) (hu : u < 2 ^ 4)
    (h : address % 2 ^ 21 = 2 * p + 2 ^ 4 * q + 2 ^ 11 * r + 2 ^ 12 * t + 2 ^ 16 * u + 2 ^ 20 * v) :
    address / 2 % 2 ^ 3 = p ∧ address / 2 ^ 4 % 2 ^ 7 = q ∧ address / 2 ^ 11 % 2 = r ∧
      address / 2 ^ 12 % 2 ^ 4 = t ∧ address / 2 ^ 16 % 2 ^ 4 = u ∧ address / 2 ^ 20 % 2 = v := by
  refine ⟨by omega, by omega, by omega, by omega, by omega, by omega⟩

theorem jalScatter_jalGather {a b b' c d : UInt8} {address : Nat}
    (hlow : b'.toNat % 2 ^ 4 = b.toNat % 2 ^ 4) (h : address % 2 ^ 21 = jalGather b c d) :
    jalScatter a b' address = [a, b, c, d] := by
  have hb := b.toNat_lt
  have hc := c.toNat_lt
  have hd := d.toNat_lt
  rw [jalGather_eq] at h
  obtain ⟨hchigh, hdlow, hcbit, hbhigh, hclow, hdhigh⟩ := jal_pieces (by omega)
    (Nat.mod_lt _ (by decide)) (Nat.mod_lt _ (by decide)) (by omega) (Nat.mod_lt _ (by decide)) h
  have hsecond : b.toNat % 2 ^ 4 + 2 ^ 4 * (b.toNat / 2 ^ 4) = b.toNat := Nat.mod_add_div _ _
  have hthird : c.toNat % 2 ^ 4 + 2 ^ 4 * (c.toNat / 2 ^ 4 % 2) + 2 ^ 5 * (c.toNat / 2 ^ 5) =
      c.toNat := by
    have hfive : c.toNat % (2 ^ 4 * 2) = c.toNat % 2 ^ 4 + 2 ^ 4 * (c.toNat / 2 ^ 4 % 2) :=
      Nat.mod_mul
    rw [← hfive]
    exact Nat.mod_add_div _ _
  have hfourth : d.toNat % 2 ^ 7 + 2 ^ 7 * (d.toNat / 2 ^ 7) = d.toNat := Nat.mod_add_div _ _
  rw [jalScatter_eq, hlow, hchigh, hdlow, hcbit, hbhigh, hclow, hdhigh, hsecond, hthird, hfourth]
  simp only [UInt8.ofNat_toNat]

/-- AUIPC on x2, with the lower bits of the instruction behind it. -/
def escapeWord (second : Nat) : Nat := 0x17 ||| 2 <<< 7 ||| wrappingShl second 12

def auipcWord (register upper : Nat) : Nat :=
  0x17 ||| wrappingShl register 7 ||| (upper &&& 0xfffff000)

/-- The instruction behind AUIPC: the upper bits of the escape form, and the lower
ones of a number. -/
def secondWord (instruction lower : Nat) : Nat := instruction >>> 12 ||| wrappingShl lower 20

def pairOffset (instruction second : Nat) : Nat :=
  wrappingAdd (instruction &&& 0xfffff000) (wrappingSub (second >>> 20) (second >>> 19 &&& 0x1000))

theorem upper_eq (value : Nat) : value &&& 0xfffff000 = 2 ^ 12 * (value / 2 ^ 12 % 2 ^ 20) :=
  and_field value 12 20

theorem escapeWord_eq (second : Nat) : escapeWord second = 0x117 + 2 ^ 12 * (second % 2 ^ 20) := by
  have hshift : wrappingShl second 12 = 2 ^ 12 * (second % 2 ^ 20) := by
    rw [wrappingShl, Nat.shiftLeft_eq]
    omega
  have hlow : 0x17 ||| 2 <<< 7 = 0x117 := by decide
  rw [escapeWord, hshift, hlow, or_field (by decide)]

theorem auipcWord_eq {register : Nat} (h : register < 2 ^ 5) (upper : Nat) :
    auipcWord register upper = 0x17 + 2 ^ 7 * register + 2 ^ 12 * (upper / 2 ^ 12 % 2 ^ 20) := by
  have hshift : wrappingShl register 7 = 2 ^ 7 * register := by
    rw [wrappingShl, Nat.shiftLeft_eq]
    omega
  have hlow : 0x17 + 2 ^ 7 * register < 2 ^ 12 := by omega
  rw [auipcWord, hshift, upper_eq, @or_field 0x17 7 (by decide), or_field hlow]

theorem secondWord_eq {instruction : Nat} (h : instruction < 2 ^ 32) (lower : Nat) :
    secondWord instruction lower = instruction / 2 ^ 12 + 2 ^ 20 * (lower % 2 ^ 12) := by
  have hshift : wrappingShl lower 20 = 2 ^ 20 * (lower % 2 ^ 12) := by
    rw [wrappingShl, Nat.shiftLeft_eq]
    omega
  have hlow : instruction / 2 ^ 12 < 2 ^ 20 := by omega
  rw [secondWord, Nat.shiftRight_eq_div_pow, hshift, or_field hlow]

theorem pairOffset_eq {second : Nat} (h : second < 2 ^ 32) (instruction : Nat) :
    pairOffset instruction second =
      (2 ^ 12 * (instruction / 2 ^ 12 % 2 ^ 20) +
        (second / 2 ^ 20 + 2 ^ 32 - 2 ^ 12 * (second / 2 ^ 31)) % 2 ^ 32) % 2 ^ 32 := by
  have hsign : second >>> 19 &&& 0x1000 = 2 ^ 12 * (second / 2 ^ 31) := by
    rw [show 0x1000 = 2 ^ 12 * (2 ^ 1 - 1) from rfl, and_field, Nat.shiftRight_eq_div_pow]
    omega
  rw [pairOffset, upper_eq, hsign, Nat.shiftRight_eq_div_pow]
  rfl

theorem escapeWord_lt (second : Nat) : escapeWord second < 2 ^ 32 := by
  rw [escapeWord_eq]
  omega

theorem auipcWord_lt {register : Nat} (h : register < 2 ^ 5) (upper : Nat) :
    auipcWord register upper < 2 ^ 32 := by
  rw [auipcWord_eq h]
  omega

theorem secondWord_lt {instruction : Nat} (h : instruction < 2 ^ 32) (lower : Nat) :
    secondWord instruction lower < 2 ^ 32 := by
  rw [secondWord_eq h]
  omega

theorem escapeWord_spec {second : Nat} (hfour : second % 4 = 3) :
    escapeWord second % 2 ^ 14 = 0x3117 ∧ escapeWord second / 2 ^ 27 = sourceOf second ∧
      registerOf (escapeWord second) = 2 := by
  rw [escapeWord_eq, sourceOf, registerOf]
  refine ⟨by omega, by omega, by omega⟩

theorem unpack_pair {instruction second : Nat} (hopcode : instruction % 2 ^ 7 = 0x17)
    (hlt : instruction < 2 ^ 32) (hsecond : second < 2 ^ 32)
    (hregister : sourceOf second = registerOf instruction) :
    auipcWord (escapeWord second / 2 ^ 27) (wrappingAdd (pairOffset instruction second) 0x800) =
        instruction ∧
      secondWord (escapeWord second) (pairOffset instruction second) = second := by
  have hsource : escapeWord second / 2 ^ 27 = sourceOf second := by
    rw [escapeWord_eq, sourceOf]
    omega
  have hupper : escapeWord second / 2 ^ 12 = second % 2 ^ 20 := by
    rw [escapeWord_eq]
    omega
  have hlower : pairOffset instruction second % 2 ^ 12 = second / 2 ^ 20 := by
    rw [pairOffset_eq hsecond]
    omega
  have hfirst : wrappingAdd (pairOffset instruction second) 0x800 / 2 ^ 12 % 2 ^ 20 =
      instruction / 2 ^ 12 := by
    rw [pairOffset_eq hsecond, wrappingAdd]
    omega
  have hparts : instruction = 0x17 + 2 ^ 7 * registerOf instruction +
      2 ^ 12 * (instruction / 2 ^ 12) := by
    unfold registerOf
    omega
  rw [hsource, hregister, auipcWord_eq (registerOf_lt instruction), hfirst,
    secondWord_eq (escapeWord_lt second), hupper, hlower]
  exact ⟨hparts.symm, Nat.mod_add_div _ _⟩

section

variable {instruction : Nat} (hlt : instruction < 2 ^ 32) (hlow : instruction % 2 ^ 14 = 0x3117)
include hlt hlow

theorem auipcWord_spec (number : Nat) :
    auipcWord (instruction / 2 ^ 27) number % 2 ^ 7 = 0x17 ∧
      registerOf (auipcWord (instruction / 2 ^ 27) number) = instruction / 2 ^ 27 ∧
        secondWord instruction number % 4 = 3 ∧
          sourceOf (secondWord instruction number) = instruction / 2 ^ 27 := by
  rw [auipcWord_eq (by omega), secondWord_eq hlt, registerOf, sourceOf]
  refine ⟨by omega, by omega, by omega, by omega⟩

theorem pack_escape {number : Nat} (hnumber : number < 2 ^ 32) :
    escapeWord (secondWord instruction number) = instruction ∧
      wrappingAdd (auipcWord (instruction / 2 ^ 27) number &&& 0xfffff000)
        (secondWord instruction number >>> 20) = number := by
  have hupper : auipcWord (instruction / 2 ^ 27) number / 2 ^ 12 = number / 2 ^ 12 := by
    rw [auipcWord_eq (by omega)]
    omega
  have hsecond : secondWord instruction number / 2 ^ 20 = number % 2 ^ 12 := by
    rw [secondWord_eq hlt]
    omega
  rw [escapeWord_eq, upper_eq, hupper, Nat.shiftRight_eq_div_pow, hsecond, secondWord_eq hlt,
    wrappingAdd]
  refine ⟨by omega, by omega⟩

end

/-- The conversions of a pass.  They are given the address of the instruction. -/
structure RiscvCoder where
  jal : Nat → UInt8 → UInt8 → UInt8 → UInt8 → List UInt8
  pair : Nat → Nat → Nat → List UInt8
  special : Nat → Nat → List UInt8 → List UInt8
  length_jal : ∀ ip a b c d, (jal ip a b c d).length = 4
  length_pair : ∀ ip instruction second, (pair ip instruction second).length = 8
  length_special : ∀ ip instruction last, (special ip instruction last).length = 8

/-- The forward transform: addresses become absolute, and are stored with the
highest byte first. -/
def riscvEncoder : RiscvCoder where
  jal ip a b c d := jalStore a b (wrappingAdd (jalGather b c d) ip)
  pair ip instruction second :=
    toLeBytes 4 (escapeWord second) ++
      toBeBytes 4 (wrappingAdd (pairOffset instruction second) ip)
  special _ instruction last :=
    toLeBytes 4 (auipcWord (instruction >>> 27) (fromLeBytes last)) ++
      toLeBytes 4 (secondWord instruction (fromLeBytes last))
  length_jal _ _ _ _ _ := rfl
  length_pair _ _ _ := by rw [length_append, length_toLeBytes, length_toBeBytes]
  length_special _ _ _ := by rw [length_append, length_toLeBytes, length_toLeBytes]

def riscvDecoder : RiscvCoder where
  jal ip a b c d := jalScatter a b (wrappingSub (jalLoad b c d) ip)
  pair _ instruction second :=
    toLeBytes 4 (escapeWord second) ++
      toLeBytes 4 (wrappingAdd (instruction &&& 0xfffff000) (second >>> 20))
  special ip instruction last :=
    toLeBytes 4 (auipcWord (instruction >>> 27)
      (wrappingAdd (wrappingSub (fromBeBytes last) ip) 0x800)) ++
        toLeBytes 4 (secondWord instruction (wrappingSub (fromBeBytes last) ip))
  length_jal _ _ _ _ _ := rfl
  length_pair _ _ _ := by rw [length_append, length_toLeBytes, length_toLeBytes]
  length_special _ _ _ := by rw [length_append, length_toLeBytes, length_toLeBytes]

section Conversions

variable (ip instruction second : Nat) (last : List UInt8)

theorem riscvEncoder_pair : riscvEncoder.pair ip instruction second =
    toLeBytes 4 (escapeWord second) ++
      toBeBytes 4 (wrappingAdd (pairOffset instruction second) ip) := rfl

theorem riscvEncoder_special : riscvEncoder.special ip instruction last =
    toLeBytes 4 (auipcWord (instruction >>> 27) (fromLeBytes last)) ++
      toLeBytes 4 (secondWord instruction (fromLeBytes last)) := rfl

theorem riscvDecoder_pair : riscvDecoder.pair ip instruction second =
    toLeBytes 4 (escapeWord second) ++
      toLeBytes 4 (wrappingAdd (instruction &&& 0xfffff000) (second >>> 20)) := rfl

theorem riscvDecoder_special : riscvDecoder.special ip instruction last =
    toLeBytes 4 (auipcWord (instruction >>> 27)
      (wrappingAdd (wrappingSub (fromBeBytes last) ip) 0x800)) ++
        toLeBytes 4 (secondWord instruction (wrappingSub (fromBeBytes last) ip)) := rfl

end Conversions

/-- What the next eight bytes are. -/
inductive RiscvKind where
  | skip (count : Nat)
  | jal
  | pair
  | special
  deriving DecidableEq, Repr

def riscvKind (a b c d e f g h : UInt8) : RiscvKind :=
  if a = 0xef then
    if b &&& 0x0d = 0 then .jal else .skip 2
  else if a &&& 0x7f = 0x17 then
    if fromLeBytes [a, b, c, d] &&& 0x0e80 ≠ 0 then
      if isNotAuipcPair (fromLeBytes [a, b, c, d]) (fromLeBytes [e, f, g, h]) then .skip 6
      else .pair
    else if isNotSpecialAuipc (fromLeBytes [a, b, c, d]) (fromLeBytes [a, b, c, d] >>> 27) then
      .skip 4
    else .special
  else .skip 2

def riscvStep (coder : RiscvCoder) : Step Nat UInt8
  | ip, a :: b :: c :: d :: e :: f :: g :: h :: rest =>
    match riscvKind a b c d e f g h with
    | .skip count =>
      some ((a :: b :: c :: d :: e :: f :: g :: h :: rest).take count, wrappingAdd ip count,
        (a :: b :: c :: d :: e :: f :: g :: h :: rest).drop count)
    | .jal => some (coder.jal ip a b c d, wrappingAdd ip 4, e :: f :: g :: h :: rest)
    | .pair =>
      some (coder.pair ip (fromLeBytes [a, b, c, d]) (fromLeBytes [e, f, g, h]),
        wrappingAdd ip 8, rest)
    | .special =>
      some (coder.special ip (fromLeBytes [a, b, c, d]) [e, f, g, h], wrappingAdd ip 8, rest)
  | _, _ => none

theorem fromLeBytes_word_lt (a b c d : UInt8) : fromLeBytes [a, b, c, d] < 2 ^ 32 := by
  have ha := a.toNat_lt
  have hb := b.toNat_lt
  have hc := c.toNat_lt
  have hd := d.toNat_lt
  rw [fromLeBytes_four]
  omega

theorem jal_opcode {b b' : UInt8} (h : b'.toNat % 2 ^ 4 = b.toNat % 2 ^ 4) :
    b' &&& 0x0d = 0 ↔ b &&& 0x0d = 0 := by
  have hmask : ∀ byte : UInt8, byte &&& 0x0d = 0 ↔ byte.toNat % 2 ^ 4 &&& 0x0d = 0 :=
    @forall_byte (fun byte => byte &&& 0x0d = 0 ↔ byte.toNat % 2 ^ 4 &&& 0x0d = 0)
      (by decide +kernel)
  rw [hmask, hmask, h]

theorem auipc_opcode (a : UInt8) : a &&& 0x7f = 0x17 ↔ a.toNat % 2 ^ 7 = 0x17 :=
  @forall_byte (fun a => a &&& 0x7f = 0x17 ↔ a.toNat % 2 ^ 7 = 0x17) (by decide +kernel) a

theorem riscvKind_auipc {a : UInt8} (h : a.toNat % 2 ^ 7 = 0x17) (b c d e f g h' : UInt8) :
    riscvKind a b c d e f g h' =
      if IsEscape (registerOf (fromLeBytes [a, b, c, d])) then
        if fromLeBytes [a, b, c, d] % 2 ^ 14 = 0x3117 ∧
            ¬IsEscape (fromLeBytes [a, b, c, d] / 2 ^ 27) then .special
        else .skip 4
      else if fromLeBytes [e, f, g, h'] % 4 = 3 ∧
          sourceOf (fromLeBytes [e, f, g, h']) = registerOf (fromLeBytes [a, b, c, d]) then .pair
      else .skip 6 := by
  have hjump : a ≠ 0xef := by
    intro heq
    rw [heq] at h
    exact absurd h (by decide)
  have hpair := @isNotAuipcPair_iff (fromLeBytes [a, b, c, d]) _ (fromLeBytes_word_lt e f g h')
  have hspecial := isNotSpecialAuipc_iff (fromLeBytes_word_lt a b c d)
  rw [riscvKind, if_neg hjump, if_pos ((auipc_opcode a).mpr h)]
  by_cases hescape : IsEscape (registerOf (fromLeBytes [a, b, c, d]))
  · rw [if_neg (not_not.mpr ((escape_opcode _).mpr hescape)), if_pos hescape]
    cases htest :
      isNotSpecialAuipc (fromLeBytes [a, b, c, d]) (fromLeBytes [a, b, c, d] >>> 27) with
    | true =>
      have hnot := mt hspecial.mpr (by rw [htest]; decide)
      rw [if_neg hnot]
      rfl
    | false =>
      rw [if_pos (hspecial.mp htest)]
      rfl
  · rw [if_pos (mt (escape_opcode _).mp hescape), if_neg hescape]
    cases htest : isNotAuipcPair (fromLeBytes [a, b, c, d]) (fromLeBytes [e, f, g, h']) with
    | true =>
      have hnot := mt hpair.mpr (by rw [htest]; decide)
      rw [if_neg hnot]
      rfl
    | false =>
      rw [if_pos (hpair.mp htest)]
      rfl

theorem sourceOf_bytes (e f g h : UInt8) :
    sourceOf (fromLeBytes [e, f, g, h]) = f.toNat / 2 ^ 7 + 2 * (g.toNat % 2 ^ 4) := by
  have he := e.toNat_lt
  have hf := f.toNat_lt
  rw [fromLeBytes_four, sourceOf]
  omega

theorem riscvKind_skip {a b c d e f g h : UInt8} {count : Nat}
    (hkind : riscvKind a b c d e f g h = .skip count) :
    (count = 2 ∧ ∀ c' d' e' f' g' h', riscvKind a b c' d' e' f' g' h' = .skip 2) ∨
      (count = 4 ∧ ∀ e' f' g' h', riscvKind a b c d e' f' g' h' = .skip 4) ∨
        (count = 6 ∧ ∀ g' h' : UInt8, g'.toNat % 2 ^ 4 = g.toNat % 2 ^ 4 →
          riscvKind a b c d e f g' h' = .skip 6) := by
  by_cases hjump : a = 0xef
  · have hjal : ¬(b &&& 0x0d = 0) := by
      intro hzero
      rw [riscvKind, if_pos hjump, if_pos hzero] at hkind
      cases hkind
    have hall : ∀ c' d' e' f' g' h', riscvKind a b c' d' e' f' g' h' = .skip 2 := by
      intro c' d' e' f' g' h'
      rw [riscvKind, if_pos hjump, if_neg hjal]
    rw [hall] at hkind
    cases hkind
    exact .inl ⟨rfl, hall⟩
  by_cases hopcode : a.toNat % 2 ^ 7 = 0x17
  · rw [riscvKind_auipc hopcode] at hkind
    by_cases hescape : IsEscape (registerOf (fromLeBytes [a, b, c, d]))
    · rw [if_pos hescape] at hkind
      by_cases hspecial : fromLeBytes [a, b, c, d] % 2 ^ 14 = 0x3117 ∧
          ¬IsEscape (fromLeBytes [a, b, c, d] / 2 ^ 27)
      · rw [if_pos hspecial] at hkind
        cases hkind
      · rw [if_neg hspecial] at hkind
        cases hkind
        refine .inr (.inl ⟨rfl, fun e' f' g' h' => ?_⟩)
        rw [riscvKind_auipc hopcode, if_pos hescape, if_neg hspecial]
    · rw [if_neg hescape] at hkind
      by_cases hpair : fromLeBytes [e, f, g, h] % 4 = 3 ∧
          sourceOf (fromLeBytes [e, f, g, h]) = registerOf (fromLeBytes [a, b, c, d])
      · rw [if_pos hpair] at hkind
        cases hkind
      · rw [if_neg hpair] at hkind
        cases hkind
        refine .inr (.inr ⟨rfl, fun g' h' hnibble => ?_⟩)
        have hsource : sourceOf (fromLeBytes [e, f, g', h']) =
            sourceOf (fromLeBytes [e, f, g, h]) := by
          rw [sourceOf_bytes, sourceOf_bytes, hnibble]
        have hfour : fromLeBytes [e, f, g', h'] % 4 = fromLeBytes [e, f, g, h] % 4 := by
          rw [fromLeBytes_four, fromLeBytes_four]
          omega
        rw [riscvKind_auipc hopcode, if_neg hescape, hsource, hfour, if_neg hpair]
  · have hall : ∀ c' d' e' f' g' h', riscvKind a b c' d' e' f' g' h' = .skip 2 := by
      intro c' d' e' f' g' h'
      rw [riscvKind, if_neg hjump, if_neg (mt (auipc_opcode a).mp hopcode)]
    rw [hall] at hkind
    cases hkind
    exact .inl ⟨rfl, hall⟩

/-! ### Steps -/

variable {bytes piece rest : List UInt8}

theorem riscvStep_none {coder : RiscvCoder} {ip : Nat} :
    riscvStep coder ip bytes = none ↔ bytes.length < 8 := by
  match bytes with
  | [] | [_] | [_, _] | [_, _, _] | [_, _, _, _] | [_, _, _, _, _] | [_, _, _, _, _, _]
  | [_, _, _, _, _, _, _] => simp [riscvStep]
  | a :: b :: c :: d :: e :: f :: g :: h :: rest =>
    rw [riscvStep]
    cases riscvKind a b c d e f g h <;> simp

theorem riscvStep_cases {coder : RiscvCoder} {ip ip' : Nat}
    (hstep : riscvStep coder ip bytes = some (piece, ip', rest)) :
    ∃ a b c d e f g h tail, bytes = a :: b :: c :: d :: e :: f :: g :: h :: tail ∧
      ((∃ count, riscvKind a b c d e f g h = .skip count ∧ piece = bytes.take count ∧
          ip' = wrappingAdd ip count ∧ rest = bytes.drop count) ∨
        (riscvKind a b c d e f g h = .jal ∧ piece = coder.jal ip a b c d ∧
          ip' = wrappingAdd ip 4 ∧ rest = e :: f :: g :: h :: tail) ∨
        (riscvKind a b c d e f g h = .pair ∧
          piece = coder.pair ip (fromLeBytes [a, b, c, d]) (fromLeBytes [e, f, g, h]) ∧
            ip' = wrappingAdd ip 8 ∧ rest = tail) ∨
        (riscvKind a b c d e f g h = .special ∧
          piece = coder.special ip (fromLeBytes [a, b, c, d]) [e, f, g, h] ∧
            ip' = wrappingAdd ip 8 ∧ rest = tail)) := by
  match bytes, hstep with
  | a :: b :: c :: d :: e :: f :: g :: h :: tail, hstep =>
    refine ⟨a, b, c, d, e, f, g, h, tail, rfl, ?_⟩
    rw [riscvStep] at hstep
    cases hkind : riscvKind a b c d e f g h with
    | skip count =>
      rw [hkind] at hstep
      cases hstep
      exact .inl ⟨count, rfl, rfl, rfl, rfl⟩
    | jal =>
      rw [hkind] at hstep
      cases hstep
      exact .inr (.inl ⟨rfl, rfl, rfl, rfl⟩)
    | pair =>
      rw [hkind] at hstep
      cases hstep
      exact .inr (.inr (.inl ⟨rfl, rfl, rfl, rfl⟩))
    | special =>
      rw [hkind] at hstep
      cases hstep
      exact .inr (.inr (.inr ⟨rfl, rfl, rfl, rfl⟩))

theorem riscvKind_skip_count {a b c d e f g h : UInt8} {count : Nat}
    (hkind : riscvKind a b c d e f g h = .skip count) : count = 2 ∨ count = 4 ∨ count = 6 := by
  rcases riscvKind_skip hkind with ⟨hcount, -⟩ | ⟨hcount, -⟩ | ⟨hcount, -⟩
  · exact .inl hcount
  · exact .inr (.inl hcount)
  · exact .inr (.inr hcount)

theorem riscvStep_even {coder : RiscvCoder} {ip ip' : Nat}
    (hstep : riscvStep coder ip bytes = some (piece, ip', rest)) :
    piece.length % 2 = 0 ∧ 0 < piece.length ∧ piece.length + rest.length = bytes.length ∧
      ip' = wrappingAdd ip piece.length := by
  obtain ⟨a, b, c, d, e, f, g, h, tail, rfl, hcases⟩ := riscvStep_cases hstep
  rcases hcases with ⟨count, hkind, rfl, rfl, rfl⟩ | ⟨-, rfl, rfl, rfl⟩ | ⟨-, rfl, rfl, rfl⟩ |
    ⟨-, rfl, rfl, rfl⟩
  · have hlength : ((a :: b :: c :: d :: e :: f :: g :: h :: tail).take count).length = count := by
      rw [List.length_take]
      simp only [length_cons]
      rcases riscvKind_skip_count hkind with rfl | rfl | rfl <;> omega
    have heven : count % 2 = 0 ∧ 0 < count := by
      rcases riscvKind_skip_count hkind with rfl | rfl | rfl <;> decide
    rw [← length_append, List.take_append_drop, hlength]
    exact ⟨heven.1, heven.2, rfl, rfl⟩
  · rw [coder.length_jal]
    exact ⟨rfl, by decide, Nat.add_comm _ _, rfl⟩
  · rw [coder.length_pair]
    exact ⟨rfl, by decide, Nat.add_comm _ _, rfl⟩
  · rw [coder.length_special]
    exact ⟨rfl, by decide, Nat.add_comm _ _, rfl⟩

theorem balanced_riscvStep (coder : RiscvCoder) : Balanced (riscvStep coder) := by
  intro ip bytes piece ip' rest hstep
  obtain ⟨-, hpositive, hcount, -⟩ := riscvStep_even hstep
  exact ⟨hpositive, hcount⟩

theorem riscvKind_other {a b c d e f g h : UInt8} (hopcode : ¬a.toNat % 2 ^ 7 = 0x17) :
    riscvKind a b c d e f g h = .jal ∨ riscvKind a b c d e f g h = .skip 2 := by
  rw [riscvKind, if_neg (mt (auipc_opcode a).mp hopcode)]
  split
  · split
    · exact .inl rfl
    · exact .inr rfl
  · exact .inr rfl

theorem riscvKind_pair_iff {a b c d e f g h : UInt8} :
    riscvKind a b c d e f g h = .pair ↔ a.toNat % 2 ^ 7 = 0x17 ∧
      ¬IsEscape (registerOf (fromLeBytes [a, b, c, d])) ∧ fromLeBytes [e, f, g, h] % 4 = 3 ∧
        sourceOf (fromLeBytes [e, f, g, h]) = registerOf (fromLeBytes [a, b, c, d]) := by
  constructor
  · intro hkind
    by_cases hopcode : a.toNat % 2 ^ 7 = 0x17
    · rw [riscvKind_auipc hopcode] at hkind
      split at hkind
      · split at hkind <;> cases hkind
      · rename_i hescape
        split at hkind
        · rename_i hpair
          exact ⟨hopcode, hescape, hpair⟩
        · cases hkind
    · rcases @riscvKind_other a b c d e f g h hopcode with hother | hother <;>
        (rw [hother] at hkind; cases hkind)
  · intro hpair
    rw [riscvKind_auipc hpair.1, if_neg hpair.2.1, if_pos hpair.2.2]

theorem riscvKind_special_iff {a b c d e f g h : UInt8} :
    riscvKind a b c d e f g h = .special ↔ a.toNat % 2 ^ 7 = 0x17 ∧
      IsEscape (registerOf (fromLeBytes [a, b, c, d])) ∧
        fromLeBytes [a, b, c, d] % 2 ^ 14 = 0x3117 ∧
          ¬IsEscape (fromLeBytes [a, b, c, d] / 2 ^ 27) := by
  constructor
  · intro hkind
    by_cases hopcode : a.toNat % 2 ^ 7 = 0x17
    · rw [riscvKind_auipc hopcode] at hkind
      split at hkind
      · rename_i hescape
        split at hkind
        · rename_i hspecial
          exact ⟨hopcode, hescape, hspecial⟩
        · cases hkind
      · split at hkind <;> cases hkind
    · rcases @riscvKind_other a b c d e f g h hopcode with hother | hother <;>
        (rw [hother] at hkind; cases hkind)
  · intro hspecial
    rw [riscvKind_auipc hspecial.1, if_pos hspecial.2.1, if_pos hspecial.2.2]

theorem riscvKind_jal_iff {a b c d e f g h : UInt8} :
    riscvKind a b c d e f g h = .jal ↔ a = 0xef ∧ b &&& 0x0d = 0 := by
  constructor
  · intro hkind
    rw [riscvKind] at hkind
    split at hkind
    · rename_i hjump
      split at hkind
      · rename_i hjal
        exact ⟨hjump, hjal⟩
      · cases hkind
    · split at hkind
      · split at hkind <;> split at hkind <;> cases hkind
      · cases hkind
  · intro hjal
    rw [riscvKind, if_pos hjal.1, if_pos hjal.2]

/-! ### Undoing -/

theorem pass_riscv_first (ip : Nat) (g : UInt8) (bytes : List UInt8) :
    ∃ g' bytes', pass (riscvStep riscvEncoder) ip (g :: bytes) = g' :: bytes' ∧
      g'.toNat % 2 ^ 4 = g.toNat % 2 ^ 4 := by
  cases hstep : riscvStep riscvEncoder ip (g :: bytes) with
  | none => exact ⟨g, bytes, Rewriting.pass_of_none hstep, rfl⟩
  | some step =>
    obtain ⟨piece, ip', rest⟩ := step
    rw [Rewriting.pass_of_some (balanced_riscvStep _) hstep]
    obtain ⟨a, b, c, d, e, f, g', h, tail, heq, hcases⟩ := riscvStep_cases hstep
    cases heq
    rcases hcases with ⟨count, hkind, rfl, -, -⟩ | ⟨-, rfl, -, -⟩ | ⟨hkind, rfl, -, -⟩ |
      ⟨hkind, rfl, -, -⟩
    · rcases riscvKind_skip_count hkind with rfl | rfl | rfl <;> exact ⟨g, _, rfl, rfl⟩
    · exact ⟨g, _, rfl, rfl⟩
    · obtain ⟨hopcode, -⟩ := riscvKind_pair_iff.mp hkind
      obtain ⟨a', b', c', d', hword, -, hfirst⟩ :=
        toLeBytes_four (escapeWord_lt (fromLeBytes [e, f, g', h]))
      refine ⟨a', _, by rw [riscvEncoder_pair, hword]; rfl, ?_⟩
      rw [hfirst, escapeWord_eq]
      omega
    · obtain ⟨hopcode, -, hlow, -⟩ := riscvKind_special_iff.mp hkind
      have hlt := fromLeBytes_word_lt g b c d
      obtain ⟨hsame, -⟩ := auipcWord_spec hlt hlow (fromLeBytes [e, f, g', h])
      obtain ⟨a', b', c', d', hword, -, hfirst⟩ :=
        toLeBytes_four (@auipcWord_lt (fromLeBytes [g, b, c, d] / 2 ^ 27) (by omega)
          (fromLeBytes [e, f, g', h]))
      refine ⟨a', _, by rw [riscvEncoder_special, Nat.shiftRight_eq_div_pow, hword]; rfl, ?_⟩
      omega

theorem riscvStep_undo {ip ip' : Nat} (hip : Aligned 2 ip)
    (hstep : riscvStep riscvEncoder ip bytes = some (piece, ip', rest)) :
    ∃ original, bytes = original ++ rest ∧
      riscvStep riscvDecoder ip (piece ++ pass (riscvStep riscvEncoder) ip' rest) =
        some (original, ip', pass (riscvStep riscvEncoder) ip' rest) := by
  have hpass := Rewriting.length_pass (balanced_riscvStep riscvEncoder) ip' rest
  obtain ⟨a, b, c, d, e, f, g, h, tail, rfl, hcases⟩ := riscvStep_cases hstep
  obtain ⟨hlt, hmod⟩ := hip
  rcases hcases with ⟨count, hkind, rfl, rfl, rfl⟩ | ⟨hkind, rfl, rfl, rfl⟩ |
    ⟨hkind, rfl, rfl, rfl⟩ | ⟨hkind, rfl, rfl, rfl⟩
  · refine ⟨_, (List.take_append_drop count _).symm, ?_⟩
    rcases riscvKind_skip hkind with ⟨rfl, hsame⟩ | ⟨rfl, hsame⟩ | ⟨rfl, hsame⟩
    · match pass (riscvStep riscvEncoder) (wrappingAdd ip 2)
          (List.drop 2 (a :: b :: c :: d :: e :: f :: g :: h :: tail)), hpass with
      | c' :: d' :: e' :: f' :: g' :: h' :: tail', _ =>
        show riscvStep riscvDecoder ip (a :: b :: c' :: d' :: e' :: f' :: g' :: h' :: tail') = _
        rw [riscvStep, hsame]
        rfl
    · match pass (riscvStep riscvEncoder) (wrappingAdd ip 4)
          (List.drop 4 (a :: b :: c :: d :: e :: f :: g :: h :: tail)), hpass with
      | e' :: f' :: g' :: h' :: tail', _ =>
        show riscvStep riscvDecoder ip (a :: b :: c :: d :: e' :: f' :: g' :: h' :: tail') = _
        rw [riscvStep, hsame]
        rfl
    · obtain ⟨g', bytes', hfirst, hnibble⟩ := pass_riscv_first (wrappingAdd ip 6) g (h :: tail)
      have hdrop : List.drop 6 (a :: b :: c :: d :: e :: f :: g :: h :: tail) = g :: h ::
        tail := rfl
      rw [hdrop, hfirst] at hpass ⊢
      match bytes', hpass with
      | h' :: tail', _ =>
        show riscvStep riscvDecoder ip (a :: b :: c :: d :: e :: f :: g' :: h' :: tail') = _
        rw [riscvStep, hsame g' h' hnibble]
        rfl
  · refine ⟨[a, b, c, d], rfl, ?_⟩
    match pass (riscvStep riscvEncoder) (wrappingAdd ip 4) (e :: f :: g :: h :: tail), hpass with
    | e' :: f' :: g' :: h' :: tail', _ =>
      obtain ⟨hjump, hjal⟩ := riscvKind_jal_iff.mp hkind
      obtain ⟨b', c', d', hstored, hlow, hload⟩ :=
        jalStore_spec a b (wrappingAdd (jalGather b c d) ip)
      have hkind' : riscvKind a b' c' d' e' f' g' h' = .jal :=
        riscvKind_jal_iff.mpr ⟨hjump, (jal_opcode hlow).mpr hjal⟩
      have hback : jalScatter a b' (wrappingSub (jalLoad b' c' d') ip) = [a, b, c, d] := by
        refine jalScatter_jalGather hlow ?_
        have hgather := jalGather_eq b c d
        have hb := b.toNat_lt
        have hc := c.toNat_lt
        have hd := d.toNat_lt
        rw [hload]
        generalize jalGather b c d = address at hgather ⊢
        simp only [wrappingAdd, wrappingSub]
        omega
      show riscvStep riscvDecoder ip
        (jalStore a b (wrappingAdd (jalGather b c d) ip) ++ e' :: f' :: g' :: h' :: tail') = _
      rw [hstored]
      show riscvStep riscvDecoder ip (a :: b' :: c' :: d' :: e' :: f' :: g' :: h' :: tail') = _
      rw [riscvStep, hkind']
      exact congrArg (fun piece => some (piece, _, _)) hback
  · refine ⟨[a, b, c, d, e, f, g, h], rfl, ?_⟩
    obtain ⟨hopcode, hescape, hfour, hregister⟩ := riscvKind_pair_iff.mp hkind
    have hfirst := fromLeBytes_word_lt a b c d
    have hsecond := fromLeBytes_word_lt e f g h
    have hlow : fromLeBytes [a, b, c, d] % 2 ^ 7 = 0x17 := by
      rw [fromLeBytes_four]
      omega
    obtain ⟨hspecial, hsource, htwo⟩ := escapeWord_spec hfour
    obtain ⟨hinstruction, hback⟩ := unpack_pair hlow hfirst hsecond hregister
    obtain ⟨a', b', c', d', hword, hvalue, hbyte⟩ :=
      toLeBytes_four (escapeWord_lt (fromLeBytes [e, f, g, h]))
    obtain ⟨e', f', g', h', haddress, hnumber⟩ := toBeBytes_four (show
      wrappingAdd (pairOffset (fromLeBytes [a, b, c, d]) (fromLeBytes [e, f, g, h])) ip < 2 ^ 32
      from Nat.mod_lt _ (by decide))
    have hkind' : riscvKind a' b' c' d' e' f' g' h' = .special := by
      rw [riscvKind_special_iff, hvalue, hspecial, hsource, htwo, hregister]
      exact ⟨by rw [hbyte]; omega, .inr rfl, rfl, hescape⟩
    have hoffset : wrappingSub (wrappingAdd (pairOffset (fromLeBytes [a, b, c, d])
        (fromLeBytes [e, f, g, h])) ip) ip =
          pairOffset (fromLeBytes [a, b, c, d]) (fromLeBytes [e, f, g, h]) := by
      have hsmall : pairOffset (fromLeBytes [a, b, c, d]) (fromLeBytes [e, f, g, h]) < 2 ^ 32 :=
        Nat.mod_lt _ (by decide)
      generalize pairOffset (fromLeBytes [a, b, c, d]) (fromLeBytes [e, f, g, h]) = offset
        at hsmall ⊢
      simp only [wrappingAdd, wrappingSub]
      omega
    rw [riscvEncoder_pair, hword, haddress]
    show riscvStep riscvDecoder ip (a' :: b' :: c' :: d' :: e' :: f' :: g' :: h' :: _) = _
    rw [riscvStep, hkind']
    refine congrArg (fun piece => some (piece, _, _)) ?_
    rw [riscvDecoder_special, hvalue, hnumber, hoffset, Nat.shiftRight_eq_div_pow, hinstruction,
      hback]
    exact congrArg₂ (· ++ ·) (toLeBytes_fromLeBytes [a, b, c, d])
      (toLeBytes_fromLeBytes [e, f, g, h])
  · refine ⟨[a, b, c, d, e, f, g, h], rfl, ?_⟩
    obtain ⟨hopcode, htwo, hlow, hescape⟩ := riscvKind_special_iff.mp hkind
    have hfirst := fromLeBytes_word_lt a b c d
    have hlast := fromLeBytes_word_lt e f g h
    obtain ⟨hopcode', hregister, hfour, hsource⟩ :=
      auipcWord_spec hfirst hlow (fromLeBytes [e, f, g, h])
    obtain ⟨hinstruction, hnumber⟩ := pack_escape hfirst hlow hlast
    obtain ⟨a', b', c', d', hword, hvalue, hbyte⟩ :=
      toLeBytes_four (@auipcWord_lt (fromLeBytes [a, b, c, d] / 2 ^ 27) (by omega)
        (fromLeBytes [e, f, g, h]))
    obtain ⟨e', f', g', h', hsecond, hsecondValue, -⟩ :=
      toLeBytes_four (secondWord_lt hfirst (fromLeBytes [e, f, g, h]))
    have hkind' : riscvKind a' b' c' d' e' f' g' h' = .pair := by
      rw [riscvKind_pair_iff, hvalue, hsecondValue, hregister, hsource]
      exact ⟨by rw [hbyte]; omega, hescape, hfour, rfl⟩
    rw [riscvEncoder_special, Nat.shiftRight_eq_div_pow, hword, hsecond]
    show riscvStep riscvDecoder ip (a' :: b' :: c' :: d' :: e' :: f' :: g' :: h' :: _) = _
    rw [riscvStep, hkind']
    refine congrArg (fun piece => some (piece, _, _)) ?_
    rw [riscvDecoder_pair, hvalue, hsecondValue, hinstruction, hnumber]
    exact congrArg₂ (· ++ ·) (toLeBytes_fromLeBytes [a, b, c, d])
      (toLeBytes_fromLeBytes [e, f, g, h])

theorem riscvPass_riscvPass {start : Nat} (hstart : Aligned 2 start) (bytes : List UInt8) :
    pass (riscvStep riscvDecoder) start (pass (riscvStep riscvEncoder) start bytes) = bytes := by
  refine Rewriting.pass_pass (balanced_riscvStep _) (balanced_riscvStep _)
    (fun ip _ _ _ _ hip h => ?_) (fun ip bytes _ h => ?_) (fun _ _ _ _ _ hip h => ?_) hstart bytes
  · obtain ⟨heven, -, -, rfl⟩ := riscvStep_even h
    exact aligned_two hip heven
  · exact riscvStep_none.mpr (riscvStep_none.mp h)
  · exact riscvStep_undo hip h

section Place

variable {front tail : List UInt8} {a b c d e f g h : UInt8} (hroom : front.length + 8 < 2 ^ 64)
include hroom

theorem readCompatibilityLe_first :
    readCompatibilityLe (front ++ a :: b :: c :: d :: e :: f :: g :: h :: tail) front.length =
      .ok (fromLeBytes [a, b, c, d]) := by
  have hread := @checkedRange_append front [a, b, c, d] (e :: f :: g :: h :: tail)
    (Nat.lt_of_le_of_lt (Nat.add_le_add_left (show 4 ≤ 8 by decide) _) hroom)
    "compatibility filter word range overflows" "compatibility filter word is truncated"
  rw [readCompatibilityLe]
  exact congrArg (· >>= fun word => pure (fromLeBytes word)) hread

theorem second_word :
    checkedRange (front ++ a :: b :: c :: d :: e :: f :: g :: h :: tail) (front.length + 4) 4
      "compatibility filter word range overflows" "compatibility filter word is truncated" =
        .ok [e, f, g, h] := by
  have hread := @checkedRange_append (front ++ [a, b, c, d]) [e, f, g, h] tail
    (by rw [length_append]; exact hroom) "compatibility filter word range overflows"
    "compatibility filter word is truncated"
  rw [List.append_assoc, length_append] at hread
  exact hread

theorem riscvWritePair_eq (instruction second : Nat) :
    riscvWritePair ⟨front ++ a :: b :: c :: d :: e :: f :: g :: h :: tail, front.length⟩
      instruction second =
        .ok ⟨front ++ (toLeBytes 4 instruction ++ toLeBytes 4 second ++ tail),
          front.length + 8⟩ := by
  have hadd : front.length + 4 < 2 ^ 64 := by omega
  have hfirst := @writeRange_append front [a, b, c, d] (e :: f :: g :: h :: tail) hadd
    "compatibility filter word range overflows" "compatibility filter word is truncated"
    (toLeBytes 4 instruction) (length_toLeBytes 4 _)
  have hsecond := @writeRange_append (front ++ toLeBytes 4 instruction) [e, f, g, h] tail
    (by rw [length_append, length_toLeBytes]; exact hroom)
    "compatibility filter word range overflows" "compatibility filter word is truncated"
    (toLeBytes 4 second) (length_toLeBytes 4 _)
  rw [List.append_assoc, length_append, length_toLeBytes] at hsecond
  simp only [List.cons_append, List.nil_append] at hfirst hsecond
  simp only [riscvWritePair, writeU32Le, hfirst, ok_bind, checkedAdd_of_lt hadd, okOr_some,
    hsecond, riscvAdvance, checkedAdd_of_lt hroom, List.append_assoc]
  rfl

theorem riscvSkip_eq {count : Nat} (hcount : count ≤ 8) :
    riscvSkip ⟨bytes, front.length⟩ count = .ok ⟨bytes, front.length + count⟩ := by
  have hadd : front.length + count < 2 ^ 64 := by omega
  simp only [riscvSkip, riscvAdvance, checkedAdd_of_lt hadd, okOr_some, ok_bind]
  rfl

theorem riscvJal_eq (start : Nat) :
    riscvJal start ⟨front ++ a :: b :: c :: d :: tail, front.length⟩ a b =
      .ok ⟨front ++ (riscvDecoder.jal (wrappingAdd start (lowU32Offset front.length)) a b c d ++
        tail), front.length + 4⟩ := by
  have hadd : front.length + 4 < 2 ^ 64 := by omega
  have hthird := @byteAt_eq front (a :: b :: c :: d :: tail) "RISC-V index overflows"
    "RISC-V JAL is truncated" 2 c rfl (by omega)
  have hfourth := @byteAt_eq front (a :: b :: c :: d :: tail) "RISC-V index overflows"
    "RISC-V JAL is truncated" 3 d rfl (by omega)
  have hwrite := @writeRange_append front [a, b, c, d] tail hadd "RISC-V JAL range overflows"
    "RISC-V JAL is truncated" (jalScatter a b
      (wrappingSub (jalLoad b c d) (wrappingAdd start (lowU32Offset front.length))))
    (riscvDecoder.length_jal (wrappingAdd start (lowU32Offset front.length)) a b c d)
  simp only [List.cons_append, List.nil_append] at hwrite
  simp only [riscvDecoder]
  simp only [jalScatter, jalLoad] at hwrite ⊢
  simp only [riscvJal, hthird, hfourth, ok_bind, hwrite, riscvAdvance,
    checkedAdd_of_lt hadd, okOr_some]
  rfl

theorem riscvConvert_eq (start : Nat) :
    riscvConvert start ⟨front ++ a :: b :: c :: d :: e :: f :: g :: h :: tail, front.length⟩ a =
      .ok (match riscvKind a b c d e f g h with
        | .skip count =>
          ⟨front ++ a :: b :: c :: d :: e :: f :: g :: h :: tail, front.length + count⟩
        | .jal =>
          ⟨front ++ (riscvDecoder.jal (wrappingAdd start (lowU32Offset front.length)) a b c d ++
            e :: f :: g :: h :: tail), front.length + 4⟩
        | .pair =>
          ⟨front ++ (riscvDecoder.pair (wrappingAdd start (lowU32Offset front.length))
            (fromLeBytes [a, b, c, d]) (fromLeBytes [e, f, g, h]) ++ tail), front.length + 8⟩
        | .special =>
          ⟨front ++ (riscvDecoder.special (wrappingAdd start (lowU32Offset front.length))
            (fromLeBytes [a, b, c, d]) [e, f, g, h] ++ tail), front.length + 8⟩) := by
  have hadd : front.length + 4 < 2 ^ 64 := by omega
  have hsecondByte := @byteAt_eq front (a :: b :: c :: d :: e :: f :: g :: h :: tail)
    "RISC-V index overflows" "RISC-V JAL is truncated" 1 b rfl (by omega)
  have hfirst := @readCompatibilityLe_first front tail a b c d e f g h hroom
  have hword := @second_word front tail a b c d e f g h hroom
  rw [riscvConvert, riscvKind]
  by_cases hjump : a = 0xef
  · rw [if_pos hjump, if_pos hjump, hsecondByte, ok_bind]
    by_cases hjal : b &&& 0x0d = 0
    · rw [if_pos hjal, if_pos hjal]
      exact riscvJal_eq hroom start
    · rw [if_neg hjal, if_neg hjal]
      exact riscvSkip_eq hroom (by decide)
  rw [if_neg hjump, if_neg hjump]
  by_cases hopcode : a &&& 0x7f = 0x17
  · rw [if_pos hopcode, if_pos hopcode, riscvAuipc, hfirst, ok_bind]
    by_cases hescape : fromLeBytes [a, b, c, d] &&& 0x0e80 ≠ 0
    · rw [if_pos hescape, if_pos hescape]
      simp only [checkedAdd_of_lt hadd, okOr_some, ok_bind, readCompatibilityLe, hword,
        pure, Except.pure]
      by_cases hpair : isNotAuipcPair (fromLeBytes [a, b, c, d]) (fromLeBytes [e, f, g, h]) = true
      · rw [if_pos hpair, if_pos hpair]
        exact riscvSkip_eq hroom (by decide)
      · rw [if_neg hpair, if_neg hpair]
        exact riscvWritePair_eq hroom _ _
    · rw [if_neg hescape, if_neg hescape]
      by_cases hspecial : isNotSpecialAuipc (fromLeBytes [a, b, c, d])
          (fromLeBytes [a, b, c, d] >>> 27) = true
      · rw [if_pos hspecial, if_pos hspecial]
        exact riscvSkip_eq hroom (by decide)
      · rw [if_neg hspecial, if_neg hspecial]
        simp only [checkedAdd_of_lt hadd, okOr_some, ok_bind, readCompatibilityBe, hword,
          pure, Except.pure]
        exact riscvWritePair_eq hroom _ _
  · rw [if_neg hopcode, if_neg hopcode]
    exact riscvSkip_eq hroom (by decide)

theorem riscvBody_granted {start ip' : Nat} (hstep : riscvStep riscvDecoder
      (wrappingAdd start (lowU32Offset front.length))
      (a :: b :: c :: d :: e :: f :: g :: h :: tail) = some (piece, ip', rest)) :
    (riscvBody start ⟨front ++ a :: b :: c :: d :: e :: f :: g :: h :: tail,
      front.length⟩).granted = .ok ⟨front ++ (piece ++ rest), front.length + piece.length⟩ := by
  have hbyte : (front ++ a :: b :: c :: d :: e :: f :: g :: h :: tail)[front.length]? = some a := by
    rw [List.getElem?_append_right (Nat.le_refl _), Nat.sub_self]
    rfl
  have hconvert := @riscvConvert_eq front tail a b c d e f g h hroom start
  simp only [riscvBody, Prog.granted_bind, checkpoint_granted, Prog.granted_lift, ok_bind,
    hbyte, okOr_some, hconvert]
  rw [riscvStep] at hstep
  cases hkind : riscvKind a b c d e f g h with
  | skip count =>
    rw [hkind] at hstep
    cases hstep
    have hlength : ((a :: b :: c :: d :: e :: f :: g :: h :: tail).take count).length = count := by
      rw [List.length_take]
      simp only [length_cons]
      rcases riscvKind_skip_count hkind with rfl | rfl | rfl <;> omega
    rw [List.take_append_drop, hlength]
  | jal =>
    rw [hkind] at hstep
    cases hstep
    rw [riscvDecoder.length_jal]
  | pair =>
    rw [hkind] at hstep
    cases hstep
    rw [riscvDecoder.length_pair]
  | special =>
    rw [hkind] at hstep
    cases hstep
    rw [riscvDecoder.length_special]

end Place

theorem even_start (position : Nat) (h : position < 2 ^ 32) :
    position &&& 0xfffffffe = position / 2 * 2 ∧ Aligned 2 (position / 2 * 2) := by
  refine ⟨?_, by omega, Nat.mul_mod_left _ _⟩
  rw [show 0xfffffffe = 2 ^ 1 * (2 ^ 31 - 1) from rfl, and_field]
  omega

theorem decodeRiscv_granted {properties : List UInt8} (hlen : bytes.length < 2 ^ 64) {start : Nat}
    (hstart : startingPosition properties = .ok start) :
    (decodeRiscv bytes properties).granted =
      .ok (pass (riscvStep riscvDecoder) (start / 2 * 2) bytes) := by
  rw [decodeRiscv]
  by_cases hshort : bytes.length < 8
  · rw [if_pos hshort, Rewriting.pass_of_none (riscvStep_none.mpr hshort)]
    rfl
  obtain ⟨heven, hlt, -⟩ := even_start start (startingPosition_lt hstart)
  have hbound : checkedSub bytes.length 8 = some (bytes.length - 8) :=
    if_pos (Nat.not_lt.mp hshort)
  rw [if_neg hshort, hstart, hbound]
  simp only [Prog.granted_lift_bind, okOr_some, ok_bind, heven]
  refine scanLoop_granted (balanced_riscvStep riscvDecoder) hlt 1 ?_ ?_
  · intro front rest hroom _ hnone
    have hrest := riscvStep_none.mp hnone
    rw [decide_eq_false_iff_not]
    show ¬front.length ≤ bytes.length - 8
    omega
  · intro front rest piece ip rest' hroom _ hsome
    obtain ⟨-, -, -, hip⟩ := riscvStep_even hsome
    obtain ⟨a, b, c, d, e, f, g, h, tail, rfl, -⟩ := riscvStep_cases hsome
    simp only [length_cons] at hroom
    exact ⟨decide_eq_true (show front.length ≤ bytes.length - 8 by omega), Nat.one_dvd _, hip,
      riscvBody_granted (by omega) hsome⟩

def riscvForward (properties bytes : List UInt8) : List UInt8 :=
  pass (riscvStep riscvEncoder) (fromLeBytes properties / 2 * 2) bytes

theorem length_riscvForward (properties bytes : List UInt8) :
    (riscvForward properties bytes).length = bytes.length :=
  Rewriting.length_pass (balanced_riscvStep _) _ bytes

/-- Decoding gives back what the forward transform was given. -/
theorem decodeRiscv_riscvForward {bytes properties : List UInt8} (hlen : bytes.length < 2 ^ 64)
    (hproperties : properties = [] ∨ properties.length = 4) :
    (decodeRiscv (riscvForward properties bytes) properties).granted = .ok bytes := by
  have hstart : startingPosition properties = .ok (fromLeBytes properties) := by
    rcases hproperties with rfl | hfour
    · rfl
    · exact startingPosition_four hfour
  obtain ⟨-, haligned⟩ := even_start _ (startingPosition_lt hstart)
  rw [decodeRiscv_granted (by rw [length_riscvForward]; exact hlen) hstart, riscvForward,
    riscvPass_riscvPass haligned]

/-- A pair behind a byte pattern of the escape form. -/
theorem decodeRiscv_riscvForward_pair :
    (decodeRiscv (riscvForward [1, 0, 0, 0]
      [0x17, 0x31, 0, 0x08, 1, 2, 3, 4, 0x97, 0, 0, 0, 0xe7, 0x80, 0, 0]) [1, 0, 0, 0]).granted =
        .ok [0x17, 0x31, 0, 0x08, 1, 2, 3, 4, 0x97, 0, 0, 0, 0xe7, 0x80, 0, 0] :=
  decodeRiscv_riscvForward (by decide) (.inr rfl)

end Filter
end Unpackio
