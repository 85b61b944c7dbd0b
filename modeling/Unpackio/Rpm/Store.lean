/-
The values of an RPM header as they lie in its store.

A value is stored where its bytes stand at an aligned offset.  Nothing is said
of other values, so they may share bytes, overlap, and stand in any order.
-/
import Unpackio.Rpm.Header

namespace Unpackio
namespace Rpm

open List (append_assoc flatMap_cons length_append length_cons length_drop)
open Prog (granted_bind granted_lift granted_pure)
open Except (ok_bind)
open Numerals (numeral digits numeral_digits)

/-- `to_be_bytes` of a number of this many bytes. -/
def beBytes (width value : Nat) : List UInt8 := digits 256 UInt8.ofNat width value

@[simp] theorem length_beBytes (width value : Nat) : (beBytes width value).length = width :=
  Numerals.length_digits width value

theorem beUint_of_drop {bytes rest : List UInt8} (hlen : bytes.length < 2 ^ 64)
    {offset width value : Nat} (hoffset : offset ≤ bytes.length)
    (hdrop : bytes.drop offset = beBytes width value ++ rest) (hvalue : value < 256 ^ width)
    (detail : String) : beUint width bytes offset detail = .ok value := by
  have hrange := checkedRange_of_drop hlen hoffset hdrop detail detail
  have hsymbol : ∀ d < 256, (UInt8.ofNat d).toNat = d := fun d hd =>
    UInt8.toNat_ofNat_of_lt' hd
  rw [length_beBytes] at hrange
  rw [beUint, hrange, ok_bind, beBytes, numeral_digits (by decide) hsymbol,
    Nat.mod_eq_of_lt hvalue]
  rfl

def numbersBytes (width : Nat) (values : List Nat) : List UInt8 := values.flatMap (beBytes width)

def stringsBytes (strings : List (List UInt8)) : List UInt8 :=
  strings.flatMap fun string => string ++ [0]

@[simp] theorem length_numbersBytes (width : Nat) (values : List Nat) :
    (numbersBytes width values).length = values.length * width := by
  induction values with
  | nil => simp [numbersBytes]
  | cons value values ih =>
    rw [numbersBytes, flatMap_cons, length_append, length_beBytes, ← numbersBytes, ih,
      length_cons, Nat.add_mul, Nat.one_mul, Nat.add_comm]

theorem length_le_stringsBytes (strings : List (List UInt8)) :
    strings.length ≤ (stringsBytes strings).length := by
  induction strings with
  | nil => exact Nat.zero_le _
  | cons string strings ih =>
    rw [stringsBytes, flatMap_cons, length_append, ← stringsBytes, length_append,
      length_cons, List.length_singleton]
    omega

namespace RpmValue

def typeCode : RpmValue → Nat
  | null => 0
  | char _ => 1
  | int8 _ => 2
  | int16 _ => 3
  | int32 _ => 4
  | int64 _ => 5
  | string _ => 6
  | binary _ => 7
  | stringArray _ => 8
  | i18nString _ => 9

/-- How many elements the index record announces. -/
def count : RpmValue → Nat
  | null => 0
  | char value | int8 value | binary value => value.length
  | int16 value | int32 value | int64 value => value.length
  | string _ => 1
  | stringArray value | i18nString value => value.length

def bytes : RpmValue → List UInt8
  | null => []
  | char value | int8 value | binary value => value
  | int16 value => numbersBytes 2 value
  | int32 value => numbersBytes 4 value
  | int64 value => numbersBytes 8 value
  | string value => value ++ [0]
  | stringArray value | i18nString value => stringsBytes value

def alignment : RpmValue → Nat
  | int16 _ => 2
  | int32 _ => 4
  | int64 _ => 8
  | _ => 1

def cost : RpmValue → Nat
  | null => 0
  | char value | int8 value | binary value => value.length
  | int16 value => value.length * 2
  | int32 value => value.length * 4
  | int64 value => value.length * 8
  | string value => value.length
  | stringArray value | i18nString value =>
    value.length * boxedBytesSize + (value.map List.length).sum

def Standard : RpmValue → Prop
  | int16 value => ∀ number ∈ value, number < 2 ^ 16
  | int32 value => ∀ number ∈ value, number < 2 ^ 32
  | int64 value => ∀ number ∈ value, number < 2 ^ 64
  | string value => 0 ∉ value
  | stringArray value | i18nString value => ∀ string ∈ value, 0 ∉ string
  | _ => True

instance (value : RpmValue) : Decidable value.Standard := by
  cases value <;> unfold Standard <;> infer_instance

theorem typeCode_lt (value : RpmValue) : value.typeCode < 10 := by
  cases value <;> simp [typeCode]

theorem count_le_bytes (value : RpmValue) : value.count ≤ value.bytes.length := by
  cases value <;> simp [count, bytes, length_le_stringsBytes] <;> omega

/-- The store has the value at this offset. -/
structure StoredAt (value : RpmValue) (store : List UInt8) (offset : Nat) : Prop where
  standard : value.Standard
  aligned : value.alignment ∣ offset
  inside : value = null ∨ offset ≤ store.length
  present : value.bytes <+: store.drop offset

end RpmValue

namespace ModelAccount

def add (model : ModelAccount) (bytes : Nat) : ModelAccount :=
  { model with retained := model.retained + bytes }

def Room (model : ModelAccount) (bytes : Nat) : Prop :=
  model.retained + bytes ≤ model.maximum ∧ model.maximum < 2 ^ 64

variable {model : ModelAccount}

@[simp] theorem add_zero : model.add 0 = model := rfl

@[simp] theorem add_add (first second : Nat) :
    (model.add first).add second = model.add (first + second) := by
  simp only [add, Nat.add_assoc]

theorem Room.left {first second : Nat} (h : model.Room (first + second)) : model.Room first :=
  ⟨by have := h.1; omega, h.2⟩

theorem Room.right {first second : Nat} (h : model.Room (first + second)) :
    (model.add first).Room second :=
  ⟨by have := h.1; simp only [add]; omega, h.2⟩

theorem charge_of_room {bytes : Nat} (h : model.Room bytes) :
    model.charge bytes = .ok (model.add bytes) := by
  obtain ⟨hfits, hmaximum⟩ := h
  rw [charge, checkedAdd_bind (by omega), checkLimit_of_le hfits]
  rfl

theorem chargeElements_of_room {width count : Nat} (h : model.Room (count * width)) :
    model.chargeElements width count = .ok (model.add (count * width)) := by
  have hlt : count * width < 2 ^ 64 := by
    have := h.1
    have := h.2
    omega
  rw [chargeElements, tryFrom_of_lt hlt, okOr_bind, charge_of_room h]

end ModelAccount

/-! ## Reading a value -/

section

variable {store rest : List UInt8} (hlen : store.length < 2 ^ 64) {offset : Nat}
  (hoffset : offset ≤ store.length) {model : ModelAccount}
include hlen hoffset

theorem copyFixed_of_drop {value : List UInt8} (hdrop : store.drop offset = value ++ rest)
    (hroom : model.Room value.length) :
    (copyFixed store offset value.length 1 model).granted =
      .ok (value, model.add value.length) := by
  have hcount := congrArg List.length hdrop
  rw [length_drop, length_append] at hcount
  simp only [copyFixed, Nat.mul_one, granted_bind, granted_lift,
    tryFrom_of_lt (show value.length < 2 ^ 64 by omega), okOr_some, ok_bind,
    checkedRange_of_drop hlen hoffset hdrop, ModelAccount.charge_of_room hroom, copyBytes_granted,
    granted_pure]

omit hoffset in
theorem intLoop_of_drop {width : Nat} {values : List Nat} (hwidth : 0 < width)
    (hvalues : ∀ value ∈ values, value < 256 ^ width) (name : String) (ordinal : Nat)
    (hend : offset + (ordinal + values.length) * width ≤ store.length)
    (hdrop : store.drop (offset + ordinal * width) = numbersBytes width values ++ rest) :
    intLoop width name store offset ordinal values.length = .ok values := by
  induction values generalizing ordinal with
  | nil => rfl
  | cons value values ih =>
    obtain ⟨hvalue, hvalues⟩ := List.forall_mem_cons.mp hvalues
    have hmul : (ordinal + (values.length + 1)) * width =
        (ordinal + 1 + values.length) * width := by rw [Nat.add_assoc, Nat.add_comm 1]
    have hnext : (ordinal + 1) * width = ordinal * width + width := Nat.succ_mul ordinal width
    have hle : (ordinal + 1) * width ≤ (ordinal + 1 + values.length) * width :=
      Nat.mul_le_mul_right _ (Nat.le_add_right _ _)
    rw [length_cons, hmul] at hend
    rw [numbersBytes, flatMap_cons, append_assoc, ← numbersBytes] at hdrop
    have hrest := drop_of_append hdrop
    rw [length_beBytes, Nat.add_assoc, ← hnext] at hrest
    rw [length_cons, intLoop, tryFrom_of_lt (by omega), okOr_bind, checkedAdd_bind (by omega),
      beUint_of_drop hlen (by omega) hdrop hvalue, ok_bind, ih hvalues (ordinal + 1) hend hrest]
    rfl

theorem parseInt_of_drop {width : Nat} {values : List Nat} (hwidth : 0 < width)
    (hvalues : ∀ value ∈ values, value < 256 ^ width) (name : String)
    (hdrop : store.drop offset = numbersBytes width values ++ rest) :
    parseInt width name store offset values.length = .ok values := by
  have hcount := congrArg List.length hdrop
  rw [length_drop, length_append, length_numbersBytes] at hcount
  have hrange := checkedRange_of_drop hlen hoffset hdrop "numeric header value range overflows"
    "numeric header value is outside the store"
  rw [length_numbersBytes] at hrange
  rw [parseInt, preflightNumeric, tryFrom_of_lt (by omega), okOr_bind, hrange]
  have hend : offset + (0 + values.length) * width ≤ store.length := by
    rw [Nat.zero_add]
    omega
  have hfirst : store.drop (offset + 0 * width) = numbersBytes width values ++ rest := by
    rwa [Nat.zero_mul, Nat.add_zero]
  exact intLoop_of_drop hlen hwidth hvalues name 0 hend hfirst

omit hlen in
theorem parseString_of_drop {value : List UInt8} (hplain : 0 ∉ value)
    (hdrop : store.drop offset = value ++ 0 :: rest) (hroom : model.Room value.length) :
    (parseString store offset model).granted = .ok (value, model.add value.length) := by
  have hremaining : getRange store offset store.length = some (value ++ 0 :: rest) :=
    getRange_eq_some.mpr ⟨hoffset, Nat.le_refl _, by rw [List.take_length, hdrop]⟩
  have hnul :
      (value ++ 0 :: rest).findIdx? (fun byte => decide (byte = 0)) = some value.length := by
    rw [List.findIdx?_append, List.findIdx?_eq_none_iff.mpr, Option.none_or,
      List.findIdx?_cons, if_pos (decide_eq_true rfl), Option.map_some, Nat.zero_add]
    · intro byte hmem
      rw [decide_eq_false_iff_not]
      rintro rfl
      exact hplain hmem
  have hvalue : getRange (value ++ 0 :: rest) 0 value.length = some value :=
    getRange_eq_some.mpr ⟨Nat.zero_le _, by simp, by rw [List.take_left, List.drop_zero]⟩
  simp only [parseString, granted_bind, granted_lift, hremaining, okOr_some,
    ok_bind, hnul, hvalue, ModelAccount.charge_of_room hroom, copyBytes_granted,
    granted_pure]

variable {strings : List (List UInt8)} (hplain : ∀ string ∈ strings, 0 ∉ string)
  (hdrop : store.drop offset = stringsBytes strings ++ rest)
include hplain hdrop

theorem stringsLoop_of_drop (hroom : model.Room (strings.map List.length).sum) :
    (stringsLoop store offset strings.length model).granted =
      .ok (strings, model.add (strings.map List.length).sum) := by
  induction strings generalizing offset model with
  | nil => rfl
  | cons string strings ih =>
    obtain ⟨hstring, hplain⟩ := List.forall_mem_cons.mp hplain
    rw [List.map_cons, List.sum_cons] at hroom ⊢
    rw [stringsBytes, flatMap_cons, append_assoc, ← stringsBytes] at hdrop
    have hrest := drop_of_append hdrop
    have hcount := congrArg List.length hdrop
    rw [length_drop, length_append, length_append, List.length_singleton] at hcount
    rw [length_append, List.length_singleton] at hrest
    rw [append_assoc, List.singleton_append] at hdrop
    rw [length_cons, stringsLoop]
    simp only [granted_bind, granted_lift,
      parseString_of_drop hoffset hstring hdrop hroom.left, ok_bind,
      checkedAdd_of_lt (show string.length + 1 < 2 ^ 64 by omega), okOr_some,
      checkedAdd_of_lt (show offset + (string.length + 1) < 2 ^ 64 by omega),
      ih (show offset + (string.length + 1) ≤ store.length by omega) hplain hrest hroom.right,
      granted_pure, ModelAccount.add_add]

theorem parseStrings_of_drop
    (hroom : model.Room (strings.length * boxedBytesSize + (strings.map List.length).sum)) :
    (parseStrings store offset strings.length model).granted =
      .ok (strings, model.add (strings.length * boxedBytesSize +
        (strings.map List.length).sum)) := by
  have hcount := congrArg List.length hdrop
  have hstrings := length_le_stringsBytes strings
  rw [length_drop, length_append] at hcount
  simp only [parseStrings, granted_bind, granted_lift,
    checkedAdd_of_lt (show offset + strings.length < 2 ^ 64 by omega), okOr_some, ok_bind,
    rejectIf_of_not (show ¬store.length < offset + strings.length by omega),
    ModelAccount.chargeElements_of_room hroom.left,
    stringsLoop_of_drop hlen hoffset hplain hdrop hroom.right, ModelAccount.add_add]

end

theorem requireAlignment_of_dvd {offset alignment : Nat} (h : alignment ∣ offset) :
    requireAlignment offset alignment = .ok () :=
  rejectIf_of_not (fun hne => hne (Nat.mod_eq_zero_of_dvd h)) _

theorem parseValue_storedAt {value : RpmValue} {store : List UInt8} {offset : Nat}
    {model : ModelAccount} (hlen : store.length < 2 ^ 64) (hstored : value.StoredAt store offset)
    (hroom : model.Room value.cost) :
    (parseValue store value.typeCode offset value.count model).granted =
      .ok (value, model.add value.cost) := by
  obtain ⟨hstandard, haligned, hinside, rest, hdrop⟩ := hstored
  cases value with
  | null => rfl
  | char value | int8 value | binary value =>
    have hoffset := hinside.resolve_left (fun h => nomatch h)
    have hdrop : store.drop offset = value ++ rest := hdrop.symm
    have hcopy := copyFixed_of_drop hlen hoffset hdrop hroom
    simp only [RpmValue.typeCode, RpmValue.count, RpmValue.cost, parseValue, granted_bind,
      hcopy, ok_bind, granted_pure]
  | int16 value =>
    have hoffset := hinside.resolve_left (fun h => nomatch h)
    have hdrop : store.drop offset = numbersBytes 2 value ++ rest := hdrop.symm
    have hnumbers : ∀ number ∈ value, number < 256 ^ 2 := hstandard
    have halign : requireAlignment offset 2 = .ok () := requireAlignment_of_dvd haligned
    have hint := parseInt_of_drop hlen hoffset (by decide) hnumbers "INT16" hdrop
    have hcharge := ModelAccount.chargeElements_of_room hroom
    simp only [RpmValue.typeCode, RpmValue.count, RpmValue.cost, parseValue, parseInt16,
      granted_bind, granted_lift, halign, hcharge, hint,
      ok_bind, granted_pure]
  | int32 value =>
    have hoffset := hinside.resolve_left (fun h => nomatch h)
    have hdrop : store.drop offset = numbersBytes 4 value ++ rest := hdrop.symm
    have hnumbers : ∀ number ∈ value, number < 256 ^ 4 := hstandard
    have halign : requireAlignment offset 4 = .ok () := requireAlignment_of_dvd haligned
    have hint := parseInt_of_drop hlen hoffset (by decide) hnumbers "INT32" hdrop
    have hcharge := ModelAccount.chargeElements_of_room hroom
    simp only [RpmValue.typeCode, RpmValue.count, RpmValue.cost, parseValue, parseInt32,
      granted_bind, granted_lift, halign, hcharge, hint,
      ok_bind, granted_pure]
  | int64 value =>
    have hoffset := hinside.resolve_left (fun h => nomatch h)
    have hdrop : store.drop offset = numbersBytes 8 value ++ rest := hdrop.symm
    have hnumbers : ∀ number ∈ value, number < 256 ^ 8 := hstandard
    have halign : requireAlignment offset 8 = .ok () := requireAlignment_of_dvd haligned
    have hint := parseInt_of_drop hlen hoffset (by decide) hnumbers "INT64" hdrop
    have hcharge := ModelAccount.chargeElements_of_room hroom
    simp only [RpmValue.typeCode, RpmValue.count, RpmValue.cost, parseValue, parseInt64,
      granted_bind, granted_lift, halign, hcharge, hint,
      ok_bind, granted_pure]
  | string value =>
    have hoffset := hinside.resolve_left (fun h => nomatch h)
    have hdrop : store.drop offset = value ++ 0 :: rest := by
      rw [← hdrop, RpmValue.bytes, append_assoc, List.singleton_append]
    have hstring := parseString_of_drop hoffset hstandard hdrop hroom
    have hcount : rejectIf ((RpmValue.string value).count ≠ 1)
        (rpmFormat "STRING header value count must be one") = .ok () := rfl
    simp only [RpmValue.typeCode, RpmValue.cost, parseValue, granted_bind,
      granted_lift, hcount, hstring, ok_bind, granted_pure]
  | stringArray value | i18nString value =>
    have hoffset := hinside.resolve_left (fun h => nomatch h)
    have hdrop : store.drop offset = stringsBytes value ++ rest := hdrop.symm
    have hstrings := parseStrings_of_drop hlen hoffset hstandard hdrop hroom
    simp only [RpmValue.typeCode, RpmValue.count, RpmValue.cost, parseValue, granted_bind,
      hstrings, ok_bind, granted_pure]

end Rpm
end Unpackio
