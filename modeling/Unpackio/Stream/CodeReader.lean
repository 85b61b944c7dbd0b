/-
Reading the codes of a group, and the groups that the code writer puts out.

A group starts with the bits of its codes.  The reader at the bit offset of a
code therefore reads that code, and it leaves the group behind the last one.
-/
import Unpackio.Stream.UnixCompress
import Mathlib.Tactic.Ring

namespace Unpackio

open BitPack

theorem fromLeBytes_eq_ofBits (bytes : List UInt8) :
    fromLeBytes bytes = ofBits (bytesToBits bytes) := by
  induction bytes with
  | nil => rfl
  | cons byte bytes ih =>
    have hbyte : byte.toNat % 2 ^ 8 = byte.toNat := Nat.mod_eq_of_lt byte.toNat_lt
    rw [fromLeBytes, bytesToBits_cons, ofBits_append, ofBits_bitsOf, length_bitsOf, ih, hbyte]
    rfl

namespace UnixCompress

theorem maximumCodeForWidth_eq {width maximumWidth : Nat} (h : width < 32) :
    maximumCodeForWidth width maximumWidth = .ok (maximumCode width maximumWidth) := by
  rw [maximumCodeForWidth, checkedShl_one h, okOr_bind, maximumCode]
  split
  · rfl
  · rw [checkedSub_of_le Nat.one_le_two_pow]
    rfl

namespace CodeReader

theorem codeWindow_eq (bytes : List UInt8) (index window : Nat) (hfit : index + bytes.length ≤ 4)
    (hwindow : window < 2 ^ (index * 8)) :
    codeWindow bytes index window = .ok (window + 2 ^ (index * 8) * fromLeBytes bytes) := by
  induction bytes generalizing index window with
  | nil =>
    rw [codeWindow, fromLeBytes, Nat.mul_zero, Nat.add_zero]
    rfl
  | cons byte bytes ih =>
    rw [List.length_cons] at hfit
    have hbyte := byte.toNat_lt
    have hpow : 2 ^ ((index + 1) * 8) = 2 ^ (index * 8) * 256 := by
      rw [Nat.add_mul, Nat.pow_add]
    have hle : 2 ^ ((index + 1) * 8) ≤ 2 ^ 32 := Nat.pow_le_pow_right Nat.two_pos (by omega)
    have hvalue : byte.toNat * 2 ^ (index * 8) < 2 ^ 32 := by
      refine Nat.lt_of_lt_of_le ?_ hle
      rw [hpow, Nat.mul_comm]
      exact Nat.mul_lt_mul_of_pos_left hbyte (Nat.two_pow_pos _)
    have hshift : checkedShl 32 byte.toNat (index * 8) = some (byte.toNat <<< (index * 8)) := by
      rw [checkedShl, if_pos (by omega), Nat.shiftLeft_eq, Nat.mod_eq_of_lt hvalue]
    have hor : window ||| byte.toNat <<< (index * 8) = window + 2 ^ (index * 8) * byte.toNat := by
      rw [Nat.lor_comm, ← Nat.shiftLeft_add_eq_or_of_lt hwindow, Nat.shiftLeft_eq]
      ring
    have hnext : window + 2 ^ (index * 8) * byte.toNat < 2 ^ ((index + 1) * 8) := by
      have hstep : 2 ^ (index * 8) * (byte.toNat + 1) ≤ 2 ^ (index * 8) * 256 :=
        Nat.mul_le_mul_left _ hbyte
      rw [hpow]
      rw [Nat.mul_add, Nat.mul_one] at hstep
      omega
    rw [codeWindow, tryFrom_of_lt (show index * 8 < 2 ^ 32 by omega), okOr_bind, hshift, okOr_bind,
      hor, ih _ _ (by omega) hnext, fromLeBytes, hpow]
    congr 1
    ring

def group (reader : CodeReader) : List UInt8 :=
  (reader.input.drop reader.groupStart).take reader.groupLength

/-- A reader whose group lies in its input, which is a slice. -/
structure InRange (reader : CodeReader) : Prop where
  groupEnd : reader.groupStart + reader.groupLength ≤ reader.input.length
  groupSize : reader.groupLength ≤ 16
  inputSize : reader.input.length < 2 ^ 64

variable {reader : CodeReader}

theorem getRange_group (h : reader.InRange) :
    getRange reader.input reader.groupStart (reader.groupStart + reader.groupLength) =
      some reader.group := by
  rw [getRange_eq_some]
  refine ⟨Nat.le_add_right _ _, h.groupEnd, ?_⟩
  rw [List.drop_take, Nat.add_sub_cancel_left]
  rfl

theorem length_group (h : reader.InRange) : reader.group.length = reader.groupLength := by
  have := h.groupEnd
  rw [group, List.length_take, List.length_drop]
  omega

theorem field_of_bytes (bits : List Bool) {offset width first finish : Nat}
    (hfirst : first = offset / 8) (hfinish : offset + width ≤ 8 * finish) :
    (((bits.take (8 * finish)).drop (8 * first)).drop (offset % 8)).take width =
      (bits.drop offset).take width := by
  rw [List.drop_drop, show 8 * first + offset % 8 = offset by omega, List.drop_take, List.take_take,
    Nat.min_eq_left (by omega)]

theorem readCode_eq (h : reader.InRange) {width : Nat} (hpos : 0 < width) (hwidth : width ≤ 16)
    (hend : reader.bitOffset + width ≤ 8 * reader.groupLength) :
    reader.readCode width =
      .ok (ofBits (((bytesToBits reader.group).drop reader.bitOffset).take width),
        { reader with bitOffset := reader.bitOffset + width }) := by
  have hgroup := length_group h
  have hrange := h.groupEnd
  have hinput := h.inputSize
  have hsize := h.groupSize
  have hfirst : reader.bitOffset / 8 ≤ (reader.bitOffset + width - 1) / 8 + 1 := by omega
  have hfinish : (reader.bitOffset + width - 1) / 8 + 1 ≤ reader.group.length := by omega
  have hencoded : getRange reader.group (reader.bitOffset / 8)
      ((reader.bitOffset + width - 1) / 8 + 1) = some ((reader.group.take
        ((reader.bitOffset + width - 1) / 8 + 1)).drop (reader.bitOffset / 8)) :=
    getRange_eq_some.mpr ⟨hfirst, hfinish, rfl⟩
  set encoded := (reader.group.take ((reader.bitOffset + width - 1) / 8 + 1)).drop
    (reader.bitOffset / 8) with hencodedDef
  have hlength : encoded.length ≤ 4 := by
    rw [hencodedDef, List.length_drop, List.length_take]
    omega
  have hwindow : codeWindow encoded 0 0 = .ok (ofBits (bytesToBits encoded)) := by
    rw [codeWindow_eq encoded 0 0 (by omega) (Nat.two_pow_pos _), fromLeBytes_eq_ofBits,
      Nat.zero_mul, Nat.pow_zero, Nat.one_mul, Nat.zero_add]
  have hbits : bytesToBits encoded = ((bytesToBits reader.group).take
      (8 * ((reader.bitOffset + width - 1) / 8 + 1))).drop (8 * (reader.bitOffset / 8)) := by
    rw [hencodedDef, bytesToBits_drop, bytesToBits_take]
  have hvalue : ofBits (bytesToBits encoded) >>> (reader.bitOffset % 8) &&& (2 ^ width - 1) =
      ofBits (((bytesToBits reader.group).drop reader.bitOffset).take width) := by
    rw [Nat.and_two_pow_sub_one_eq_mod, ← ofBits_field, hbits,
      field_of_bytes _ rfl (by omega)]
  have hcode : ofBits (((bytesToBits reader.group).drop reader.bitOffset).take width) < 2 ^ 16 :=
    (ofBits_lt _).trans_le (Nat.pow_le_pow_right Nat.two_pos
      ((List.length_take_le _ _).trans hwidth))
  have hgroupEnd : checkedAdd reader.groupStart reader.groupLength =
      some (reader.groupStart + reader.groupLength) := checkedAdd_of_lt (by omega)
  have hbitEnd : checkedAdd reader.bitOffset width = some (reader.bitOffset + width) :=
    checkedAdd_of_lt (by omega)
  have hfinalBit : checkedSub (reader.bitOffset + width) 1 = some (reader.bitOffset + width - 1) :=
    checkedSub_of_le (by omega)
  have hencodedEnd : checkedAdd ((reader.bitOffset + width - 1) / 8) 1 =
      some ((reader.bitOffset + width - 1) / 8 + 1) := checkedAdd_of_lt (by omega)
  have hmask : checkedSub (2 ^ width) 1 = some (2 ^ width - 1) :=
    checkedSub_of_le Nat.one_le_two_pow
  simp only [readCode, hgroupEnd, getRange_group h, hbitEnd, Option.bind_some, hfinalBit,
    hencodedEnd, hencoded, hwindow, checkedShl_one (show width < 32 by omega), hmask, hvalue,
    tryFrom_of_lt hcode, okOr_some, Except.ok_bind]
  rfl

def refilled (reader : CodeReader) (width : Nat) : CodeReader :=
  let groupLength := min (reader.input.length - reader.position) width
  { reader with
    groupStart := reader.position
    groupLength := groupLength
    position := reader.position + groupLength
    validBits := groupLength * 8 / width * width
    bitOffset := 0 }

theorem refill_eq (hposition : reader.position < reader.input.length)
    (hinput : reader.input.length < 2 ^ 64) {width : Nat} (hpos : 0 < width) (hwidth : width ≤ 16) :
    reader.refill width =
      .ok (decide ((reader.refilled width).groupLength * 8 / width ≠ 0),
        reader.refilled width) := by
  have hremaining : getRange reader.input reader.position reader.input.length =
      some (reader.input.drop reader.position) := by
    rw [getRange_eq_some, List.take_length]
    exact ⟨hposition.le, le_rfl, rfl⟩
  have hne : reader.input.drop reader.position ≠ [] := by
    rw [ne_eq, List.drop_eq_nil_iff]
    omega
  have hvalid : min (reader.input.length - reader.position) width * 8 / width * width < 2 ^ 64 :=
    (Nat.div_mul_le_self _ _).trans_lt (by omega)
  have hposition' : checkedAdd reader.position (min (reader.input.length - reader.position) width) =
      some (reader.position + min (reader.input.length - reader.position) width) :=
    checkedAdd_of_lt (by omega)
  have hbits : tryFrom 64 (min (reader.input.length - reader.position) width * 8) =
      some (min (reader.input.length - reader.position) width * 8) := tryFrom_of_lt (by omega)
  simp only [refill, hremaining, okOr_some, Except.ok_bind, if_neg hne, List.length_drop,
    hposition', hbits, rejectIf_of_not hpos.ne', tryFrom_of_lt hvalid]
  rfl

theorem refill_end (hposition : reader.position = reader.input.length) (width : Nat) :
    reader.refill width = .ok (false, reader) := by
  have hremaining : getRange reader.input reader.position reader.input.length = some [] := by
    rw [getRange_eq_some, List.take_length, List.drop_eq_nil_of_le hposition.ge]
    exact ⟨hposition.le, le_rfl, rfl⟩
  rw [refill, hremaining, okOr_bind, if_pos rfl]
  rfl

end CodeReader

end UnixCompress
end Unpackio
