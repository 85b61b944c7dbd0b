/-
The fields of a tar header: numbers in octal or base 256, decimal numbers of pax
records, and strings.  Each is described by what is written and then read back.
-/
import Unpackio.Deb.Tar
import Unpackio.Foundation.Numerals
import Mathlib.Data.Nat.Bitwise

namespace Unpackio
namespace Deb

open Except (ok_bind)

open Numerals

variable {base : Nat}

/-- The digit of a character `0` to `9`. -/
def asciiDigit (byte : UInt8) : Nat := byte.toNat - 0x30

def IsDigit (base : Nat) (byte : UInt8) : Prop := 0x30 ≤ byte.toNat ∧ byte.toNat - 0x30 < base

theorem digitOf_of_isDigit {byte : UInt8} (h : IsDigit base byte) :
    digitOf base byte = some (asciiDigit byte) := by
  rw [digitOf, checkedSub_of_le h.1]
  exact if_pos h.2

def decimalValue (bytes : List UInt8) : Nat := numeral 10 asciiDigit bytes

theorem decimalBytesLoop_eq {bytes : List UInt8} (hdigits : ∀ byte ∈ bytes, IsDigit 10 byte)
    (detail : String) (value : Nat)
    (hlt : value * 10 ^ bytes.length + decimalValue bytes < 2 ^ 64) :
    decimalBytesLoop detail bytes value =
      .ok (value * 10 ^ bytes.length + decimalValue bytes) := by
  induction bytes generalizing value with
  | nil => rw [decimalBytesLoop, decimalValue, numeral_nil, List.length_nil, Nat.pow_zero,
      Nat.mul_one, Nat.add_zero]
  | cons byte bytes ih =>
    obtain ⟨hbyte, hrest⟩ := List.forall_mem_cons.mp hdigits
    have hstep := numeral_step 10 asciiDigit value byte bytes
    have hle : value * 10 + asciiDigit byte ≤
        (value * 10 + asciiDigit byte) * 10 ^ bytes.length :=
      Nat.le_mul_of_pos_right _ (Nat.pow_pos (by decide))
    unfold decimalValue at hlt ih ⊢
    rw [← hstep] at hlt ⊢
    rw [decimalBytesLoop, digitOf_of_isDigit hbyte, okOr_bind, tryFrom_of_lt (by omega), okOr_bind,
      checkedAdd_bind (by omega)]
    exact ih hrest _ hlt

theorem decimalBytes_eq {bytes : List UInt8} (hne : bytes ≠ [])
    (hdigits : ∀ byte ∈ bytes, IsDigit 10 byte) (hlt : decimalValue bytes < 2 ^ 64)
    (detail : String) : decimalBytes bytes detail = .ok (decimalValue bytes) := by
  have hloop := decimalBytesLoop_eq hdigits detail 0 (by omega)
  rw [Nat.zero_mul, Nat.zero_add] at hloop
  rw [decimalBytes, rejectIf_of_not hne, ok_bind, hloop]

abbrev Blank (byte : UInt8) : Prop := byte = 0 ∨ byte = 0x20

def OctalField (field : List UInt8) (value : Nat) : Prop :=
  ∃ lead digits trail, field = lead ++ digits ++ trail ∧ (∀ byte ∈ lead, Blank byte) ∧
    (∀ byte ∈ digits, IsDigit 8 byte) ∧ (∀ byte ∈ trail, Blank byte) ∧
    value = numeral 8 asciiDigit digits

theorem octalLoop_blanks {bytes : List UInt8} (hblank : ∀ byte ∈ bytes, Blank byte)
    (detail : String) (value : Nat) (sawDigit trailing : Bool) :
    octalLoop detail bytes value sawDigit trailing = .ok value := by
  induction bytes generalizing trailing with
  | nil => rfl
  | cons byte bytes ih =>
    obtain ⟨hbyte, hrest⟩ := List.forall_mem_cons.mp hblank
    rw [octalLoop, if_pos hbyte]
    exact ih hrest _

theorem octalLoop_lead {lead : List UInt8} (hblank : ∀ byte ∈ lead, Blank byte)
    (detail : String) (rest : List UInt8) (value : Nat) :
    octalLoop detail (lead ++ rest) value false false =
      octalLoop detail rest value false false := by
  induction lead with
  | nil => rfl
  | cons byte lead ih =>
    obtain ⟨hbyte, hrest⟩ := List.forall_mem_cons.mp hblank
    rw [List.cons_append, octalLoop, if_pos hbyte, if_neg Bool.false_ne_true]
    exact ih hrest

theorem isDigit_not_blank {byte : UInt8} (h : IsDigit 8 byte) : ¬Blank byte := by
  obtain ⟨hlow, -⟩ := h
  rintro (rfl | rfl)
  · exact absurd hlow (by decide)
  · exact absurd hlow (by decide)

theorem octalLoop_digits {digits : List UInt8} (hdigits : ∀ byte ∈ digits, IsDigit 8 byte)
    (detail : String) (trail : List UInt8) (htrail : ∀ byte ∈ trail, Blank byte) (value : Nat)
    (sawDigit : Bool)
    (hlt : value * 8 ^ digits.length + numeral 8 asciiDigit digits < 2 ^ 127) :
    octalLoop detail (digits ++ trail) value sawDigit false =
      .ok (value * 8 ^ digits.length + numeral 8 asciiDigit digits) := by
  induction digits generalizing value sawDigit with
  | nil =>
    rw [List.nil_append, octalLoop_blanks htrail, List.length_nil, Nat.pow_zero, Nat.mul_one,
      numeral_nil, Nat.add_zero]
  | cons byte digits ih =>
    obtain ⟨hbyte, hrest⟩ := List.forall_mem_cons.mp hdigits
    have hstep := numeral_step 8 asciiDigit value byte digits
    have hle : value * 8 + asciiDigit byte ≤ (value * 8 + asciiDigit byte) * 8 ^ digits.length :=
      Nat.le_mul_of_pos_right _ (Nat.pow_pos (by decide))
    rw [← hstep] at hlt ⊢
    rw [List.cons_append, octalLoop, if_neg (isDigit_not_blank hbyte),
      rejectIf_of_not Bool.false_ne_true, ok_bind, digitOf_of_isDigit hbyte, okOr_bind, checkedI128,
      if_pos (by omega), okOr_bind, checkedI128, if_pos (by omega), okOr_bind]
    exact ih hrest _ true hlt

variable {field header : List UInt8} {value : Int} {offset length : Nat}

theorem octalLoop_field {value : Nat} (h : OctalField field value) (hlen : field.length ≤ 42)
    (detail : String) : octalLoop detail field 0 false false = .ok value := by
  obtain ⟨lead, digits, trail, rfl, hlead, hdigits, htrail, rfl⟩ := h
  have hdigitsLt : numeral 8 asciiDigit digits < 8 ^ digits.length :=
    numeral_lt (by decide) digits fun byte h => (hdigits byte h).2
  have hpow : 8 ^ digits.length ≤ 8 ^ 42 := by
    refine Nat.pow_le_pow_right (by decide) ?_
    simp only [List.length_append] at hlen
    omega
  rw [List.append_assoc, octalLoop_lead hlead, octalLoop_digits hdigits detail trail htrail 0 false
    (by omega), Nat.zero_mul, Nat.zero_add]

def bigEndian (bytes : List UInt8) : Nat := numeral 256 UInt8.toNat bytes

/-- A number in two's complement below a set top bit. -/
structure Base256Field (field : List UInt8) (value : Int) : Prop where
  marked : 2 ^ (8 * field.length - 1) ≤ bigEndian field
  low : -2 ^ (8 * field.length - 2) ≤ value
  high : value < 2 ^ (8 * field.length - 2)
  congruent : (bigEndian field - 2 ^ (8 * field.length - 1) : Int) =
    value % 2 ^ (8 * field.length - 1)

theorem bigEndian_lt (bytes : List UInt8) : bigEndian bytes < 256 ^ bytes.length :=
  numeral_lt (by decide) bytes fun byte _ => byte.toNat_lt

theorem base256Loop_eq (bytes : List UInt8) (detail : String) (value : Nat)
    (hlt : value * 256 ^ bytes.length + bigEndian bytes < 2 ^ 127) :
    base256Loop detail bytes value = .ok (value * 256 ^ bytes.length + bigEndian bytes) := by
  induction bytes generalizing value with
  | nil => rw [base256Loop, bigEndian, numeral_nil, List.length_nil, Nat.pow_zero, Nat.mul_one,
      Nat.add_zero]
  | cons byte bytes ih =>
    have hstep := numeral_step 256 UInt8.toNat value byte bytes
    have hle : value * 256 + byte.toNat ≤ (value * 256 + byte.toNat) * 256 ^ bytes.length :=
      Nat.le_mul_of_pos_right _ (Nat.pow_pos (by decide))
    unfold bigEndian at hlt ih ⊢
    rw [← hstep] at hlt ⊢
    rw [base256Loop, checkedI128, if_pos (by omega), okOr_bind, checkedI128, if_pos (by omega),
      okOr_bind]
    exact ih _ hlt

theorem and_two_pow_ne_zero (value shift : Nat) (hlt : value < 2 ^ (shift + 1)) :
    value &&& 2 ^ shift ≠ 0 ↔ 2 ^ shift ≤ value := by
  rw [Nat.and_two_pow]
  constructor
  · intro h
    exact Nat.ge_two_pow_of_testBit (by
      cases hbit : value.testBit shift with
      | true => rfl
      | false => rw [hbit] at h; exact absurd (Nat.zero_mul _) h)
  · intro hle
    rw [Nat.testBit_of_two_pow_le_and_two_pow_add_one_gt hle hlt]
    simp

theorem marker_bits : ∀ n < 256, 128 ≤ n → UInt8.ofNat n &&& 0x80 ≠ 0 ∧
    (UInt8.ofNat n &&& 0x7f).toNat = n - 128 := by decide +kernel

theorem marker_clear : ∀ n < 128, UInt8.ofNat n &&& 0x80 = 0 := by decide +kernel

/-- The sign of a two's complement number with `2 * half` residues. -/
theorem twosComplement (half raw : Nat) (value : Int)
    (hlow : -(half : Int) ≤ value) (hhigh : value < half)
    (hcongruent : (raw : Int) = value % (2 * half : Nat)) :
    value = if half ≤ raw then (raw : Int) - (2 * half : Nat) else raw := by
  by_cases hneg : value < 0
  · have hmod : value % (2 * half : Nat) = value + (2 * half : Nat) := by
      rw [← Int.add_emod_right, Int.emod_eq_of_lt (by omega) (by omega)]
    rw [hmod] at hcongruent
    rw [if_pos (by omega)]
    omega
  · rw [Int.emod_eq_of_lt (by omega) (by omega)] at hcongruent
    rw [if_neg (by omega)]
    exact hcongruent.symm

theorem fieldNumber_base256 (h : Base256Field field value) (hpos : 0 < field.length)
    (hlen : field.length ≤ 12) (detail : String) : fieldNumber field detail = .ok value := by
  obtain ⟨hmarked, hlow, hhigh, hcongruent⟩ := h
  cases field with
  | nil => exact absurd hpos (by decide)
  | cons first rest =>
    rw [List.length_cons] at hlen hmarked hlow hhigh hcongruent
    have hrest := bigEndian_lt rest
    have hfirst := first.toNat_lt
    have hvalue : bigEndian (first :: rest) = first.toNat * 256 ^ rest.length + bigEndian rest :=
      numeral_cons first rest
    have hbits : 8 * (rest.length + 1) - 1 = 8 * rest.length + 7 := by omega
    have hsign : 8 * (rest.length + 1) - 2 = 8 * rest.length + 6 := by omega
    rw [hbits] at hmarked hcongruent
    rw [hsign] at hlow hhigh
    -- The value without its marker bit, in units of the bytes after the first.
    generalize hunit : 256 ^ rest.length = unit at hrest hvalue
    have hpow : 2 ^ (8 * rest.length) = unit := by rw [Nat.pow_mul, ← hunit]
    have hhalf : 2 ^ (8 * rest.length + 6) = 64 * unit := by rw [Nat.pow_add, hpow, Nat.mul_comm]
    have hfull : 2 ^ (8 * rest.length + 7) = 128 * unit := by rw [Nat.pow_add, hpow, Nat.mul_comm]
    have hmark : 128 ≤ first.toNat := by
      refine Nat.le_of_not_lt fun hlt => ?_
      have hle : (first.toNat + 1) * unit ≤ 128 * unit := Nat.mul_le_mul_right _ (by omega)
      rw [Nat.add_mul] at hle
      omega
    obtain ⟨hbit, hseven⟩ := marker_bits first.toNat hfirst hmark
    rw [UInt8.ofNat_toNat] at hbit hseven
    obtain ⟨high, hhigh'⟩ : ∃ high, first.toNat = 128 + high := Nat.exists_eq_add_of_le hmark
    have hraw : bigEndian (first :: rest) = 128 * unit + (high * unit + bigEndian rest) := by
      rw [hvalue, hhigh', Nat.add_mul, Nat.add_assoc]
    have hhighLt : (high + 1) * unit ≤ 128 * unit := Nat.mul_le_mul_right _ (by omega)
    rw [Nat.add_mul, Nat.one_mul] at hhighLt
    have hlarge : 128 * unit ≤ 2 ^ 95 := by
      rw [← hfull]
      exact Nat.pow_le_pow_right (by decide) (by omega)
    have hloop := base256Loop_eq rest detail high (by rw [hunit]; omega)
    rw [hunit] at hloop
    have hfullInt : (2 : Int) ^ (8 * rest.length + 7) = 128 * unit := by exact_mod_cast hfull
    have hmod : ((2 * (64 * unit) : Nat) : Int) = 2 ^ (8 * rest.length + 7) := by
      rw [hfullInt]
      push_cast
      ring
    have htwos := twosComplement (64 * unit) (high * unit + bigEndian rest) value
      (by rw [← hhalf]; exact_mod_cast hlow)
      (by rw [← hhalf]; exact_mod_cast hhigh)
      (by rw [hmod, ← hcongruent, hraw, hfullInt]; push_cast; ring)
    have hshift : (rest.length + 1) * 8 = 8 * rest.length + 7 + 1 := by omega
    rw [fieldNumber, List.head?_cons, okOr_bind, if_pos hbit, List.length_cons, hshift,
      checkedSub_of_le (by omega), okOr_bind, Nat.add_sub_cancel, rejectIf_of_not (by omega),
      ok_bind, List.drop_one, List.tail_cons, hseven, hhigh', Nat.add_sub_cancel_left, hloop,
      ok_bind, checkedSub_of_le (by omega), okOr_bind,
      show 8 * rest.length + 7 - 1 = 8 * rest.length + 6 by omega]
    have hcase := and_two_pow_ne_zero (high * unit + bigEndian rest)
      (8 * rest.length + 6) (by rw [hfull]; omega)
    rw [hhalf] at hcase
    rw [htwos]
    by_cases hnegative : 64 * unit ≤ high * unit + bigEndian rest
    · rw [if_pos hnegative, hhalf, if_pos (hcase.mpr hnegative), hmod]
      rfl
    · rw [if_neg hnegative, hhalf, if_neg fun h => hnegative (hcase.mp h)]
      rfl

/-! ### Numeric fields -/

def NumberField (field : List UInt8) (value : Int) : Prop :=
  (∃ octal : Nat, OctalField field octal ∧ value = octal) ∨ Base256Field field value

theorem octal_first {value : Nat} (h : OctalField field value) {first : UInt8} {rest : List UInt8}
    (hfield : field = first :: rest) : first &&& 0x80 = 0 := by
  obtain ⟨lead, digits, trail, rfl, hlead, hdigits, htrail, -⟩ := h
  have hmem : first ∈ lead ++ digits ++ trail := by rw [hfield]; exact List.mem_cons_self
  have hsmall : first.toNat < 128 := by
    rcases List.mem_append.mp hmem with hmem | hmem
    · rcases List.mem_append.mp hmem with hmem | hmem
      · rcases hlead first hmem with rfl | rfl <;> decide
      · obtain ⟨-, hdigit⟩ := hdigits first hmem
        omega
    · rcases htrail first hmem with rfl | rfl <;> decide
  have hclear := marker_clear first.toNat hsmall
  rwa [UInt8.ofNat_toNat] at hclear

theorem fieldNumber_eq (h : NumberField field value) (hpos : 0 < field.length)
    (hlen : field.length ≤ 12) (detail : String) : fieldNumber field detail = .ok value := by
  rcases h with ⟨octal, hoctal, rfl⟩ | hbase
  · cases field with
    | nil => exact absurd hpos (by decide)
    | cons first rest =>
      rw [fieldNumber, List.head?_cons, okOr_bind, if_neg (not_not.mpr (octal_first hoctal rfl)),
        octalLoop_field hoctal (by omega), ok_bind]
      rfl
  · exact fieldNumber_base256 hbase hpos hlen detail

theorem checkedRange_middle (front middle rest : List UInt8)
    (hlen : (front ++ middle ++ rest).length < 2 ^ 64) (o t : String) :
    checkedRange (front ++ middle ++ rest) front.length middle.length o t = .ok middle := by
  simp only [List.length_append] at hlen
  refine checkedRange_eq_ok.mpr ⟨by omega, by simp only [List.length_append]; omega, ?_⟩
  rw [List.take_left' List.length_append, List.drop_left]

/-- A number in base 256: two's complement below a set top bit. -/
def base256Bytes (width : Nat) (value : Int) : List UInt8 :=
  Numerals.digits 256 UInt8.ofNat width
    (2 ^ (8 * width - 1) + (value % 2 ^ (8 * width - 1)).toNat)

theorem base256Field_bytes {width : Nat} (hpos : 0 < width) (hlow : -2 ^ (8 * width - 2) ≤ value)
    (hhigh : value < 2 ^ (8 * width - 2)) : Base256Field (base256Bytes width value) value := by
  have hlength : (base256Bytes width value).length = width := Numerals.length_digits _ _
  have htop : (0 : Int) < 2 ^ (8 * width - 1) := Int.pow_pos (by decide)
  have hmod : 0 ≤ value % 2 ^ (8 * width - 1) := Int.emod_nonneg _ (by omega)
  have hrest : (value % 2 ^ (8 * width - 1)).toNat < 2 ^ (8 * width - 1) := by
    have hlt := Int.emod_lt_of_pos value htop
    have hcast : ((2 ^ (8 * width - 1) : Nat) : Int) = 2 ^ (8 * width - 1) := by push_cast; rfl
    omega
  have hfull : 256 ^ width = 2 ^ (8 * width - 1) + 2 ^ (8 * width - 1) := by
    rw [show (256 : Nat) = 2 ^ 8 from rfl, ← Nat.pow_mul, ← Nat.two_mul, ← Nat.pow_succ']
    congr 1
    omega
  have hbytes : bigEndian (base256Bytes width value) =
      2 ^ (8 * width - 1) + (value % 2 ^ (8 * width - 1)).toNat := by
    rw [bigEndian, base256Bytes, Numerals.numeral_digits (by decide)
      (fun d hd => by rw [UInt8.toNat_ofNat', Nat.mod_eq_of_lt hd]), Nat.mod_eq_of_lt (by omega)]
  constructor
  · rw [hlength, hbytes]
    exact Nat.le_add_right _ _
  · rwa [hlength]
  · rwa [hlength]
  · rw [hlength, hbytes]
    push_cast
    rw [Int.toNat_of_nonneg hmod]
    ring

def Rendered (field : List UInt8) (value : Int) : Prop :=
  (∃ octal : Nat, OctalField field octal ∧ value = octal) ∨
    -2 ^ (8 * field.length - 2) ≤ value ∧ value < 2 ^ (8 * field.length - 2) ∧
      field = base256Bytes field.length value

theorem Rendered.numberField (h : Rendered field value) (hpos : 0 < field.length) :
    NumberField field value := by
  rcases h with hoctal | ⟨hlow, hhigh, hfield⟩
  · exact .inl hoctal
  · refine .inr ?_
    have hbase := base256Field_bytes hpos hlow hhigh
    rwa [← hfield] at hbase

/-- A numeric field gives its value back, and the narrower readers give it exactly
when it is in their range. -/
theorem tarNumber_rendered {front field rest : List UInt8}
    (hwidth : field.length = 8 ∨ field.length = 12)
    (hlen : (front ++ field ++ rest).length < 2 ^ 64) {value : Int} (h : Rendered field value)
    (detail : String) :
    tarI128 (front ++ field ++ rest) front.length field.length detail = .ok value ∧
    tarU64 (front ++ field ++ rest) front.length field.length detail =
      (if 0 ≤ value ∧ value < 2 ^ 64 then .ok value.toNat else .error (debFormat detail)) ∧
    tarI64 (front ++ field ++ rest) front.length field.length detail =
      if -2 ^ 63 ≤ value ∧ value < 2 ^ 63 then .ok value else .error (debFormat detail) := by
  have hpos : 0 < field.length := by omega
  have hnumber : tarI128 (front ++ field ++ rest) front.length field.length detail = .ok value := by
    rw [tarI128, checkedRange_middle _ _ _ hlen, ok_bind]
    exact fieldNumber_eq (h.numberField hpos) hpos (by omega) detail
  refine ⟨hnumber, ?_, ?_⟩
  · rw [tarU64, hnumber]
    rfl
  · rw [tarI64, hnumber]
    rfl

/-- Minus one in eight bytes, between two others. -/
theorem tarNumber_minus_one :
    tarI128 ([0] ++ base256Bytes 8 (-1) ++ [0]) 1 8 "tar mtime is invalid" = .ok (-1) ∧
    tarU64 ([0] ++ base256Bytes 8 (-1) ++ [0]) 1 8 "tar mtime is invalid" =
      .error (debFormat "tar mtime is invalid") ∧
    tarI64 ([0] ++ base256Bytes 8 (-1) ++ [0]) 1 8 "tar mtime is invalid" = .ok (-1) :=
  tarNumber_rendered (.inl (by decide)) (by decide) (.inr (by decide)) "tar mtime is invalid"

def fieldAt (header : List UInt8) (offset length : Nat) : List UInt8 :=
  (header.take (offset + length)).drop offset

section

variable (hheader : header.length = blockBytes) (hfits : offset + length ≤ blockBytes)
include hheader hfits

theorem checkedRange_field (o t : String) :
    checkedRange header offset length o t = .ok (fieldAt header offset length) := by
  have hblock : blockBytes = 512 := rfl
  exact checkedRange_eq_ok.mpr ⟨by omega, by omega, rfl⟩

theorem length_fieldAt : (fieldAt header offset length).length = length := by
  rw [fieldAt, List.length_drop, List.length_take, Nat.min_eq_left (by omega)]
  omega

theorem tarU64_eq {value : Nat} (hpos : 0 < length) (hlen : length ≤ 12)
    (h : NumberField (fieldAt header offset length) value) (hlt : value < 2 ^ 64)
    (detail : String) :
    tarU64 header offset length detail = .ok value := by
  have hcount := length_fieldAt hheader hfits
  rw [tarU64, tarI128, checkedRange_field hheader hfits, ok_bind,
    fieldNumber_eq h (by omega) (by omega), ok_bind, if_pos (by omega)]
  rfl

theorem tarI64_eq (hpos : 0 < length) (hlen : length ≤ 12)
    (h : NumberField (fieldAt header offset length) value) (hlow : -2 ^ 63 ≤ value)
    (hhigh : value < 2 ^ 63) (detail : String) :
    tarI64 header offset length detail = .ok value := by
  have hcount := length_fieldAt hheader hfits
  rw [tarI64, tarI128, checkedRange_field hheader hfits, ok_bind,
    fieldNumber_eq h (by omega) (by omega), ok_bind, if_pos ⟨hlow, hhigh⟩]
  rfl

end

def StringField (field value : List UInt8) : Prop :=
  0 ∉ value ∧ ∃ count, field = value ++ List.replicate count 0

theorem takeWhile_string {value : List UInt8} (hvalue : 0 ∉ value) (count : Nat) :
    (value ++ List.replicate count 0).takeWhile (fun byte => decide (byte ≠ 0)) = value := by
  induction value with
  | nil =>
    cases count with
    | zero => rfl
    | succ count => rfl
  | cons byte value ih =>
    obtain ⟨hbyte, hrest⟩ := not_or.mp (List.mem_cons.not.mp hvalue)
    rw [List.cons_append, List.takeWhile_cons_of_pos (by simpa using Ne.symm hbyte), ih hrest]

theorem tarString_eq {value : List UInt8} (hheader : header.length = blockBytes)
    (hfits : offset + length ≤ blockBytes) (h : StringField (fieldAt header offset length) value)
    (detail : String) : tarString header offset length detail = .ok value := by
  obtain ⟨hvalue, count, hfield⟩ := h
  rw [tarString, checkedRange_field hheader hfits, ok_bind, hfield]
  simp only [takeWhile_string hvalue, List.drop_left']
  rw [rejectIf_of_not, ok_bind]
  · rfl
  · rintro ⟨byte, hbyte, hne, -⟩
    exact hne (List.eq_of_mem_replicate hbyte)

end Deb
end Unpackio
