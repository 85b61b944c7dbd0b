/-
The multibyte integers of an XZ container.

`writeVli` gives the shortest form.  `readVli` accepts it wherever it stands, and
accepts nothing else.
-/
import Unpackio.Decode.Xz
import Unpackio.Foundation.Runs
import Mathlib.Data.List.Basic

namespace Unpackio
namespace Xz

open List (append_assoc drop_left' length_cons length_take)
open Prog.CanReturn (bind_iff lift_iff of_granted pure_iff)

/-- Seven bits a byte, the low ones first, in at most `left` bytes. -/
def writeVliFrom : Nat → Nat → List UInt8
  | 0, _ => []
  | left + 1, value =>
    if value < 128 then [UInt8.ofNat value]
    else UInt8.ofNat (value % 128 + 128) :: writeVliFrom left (value / 128)

def writeVli (value : Nat) : List UInt8 := writeVliFrom 9 value

/-- The bytes stand at the position and end at `next`. -/
structure StandsAt (bytes : List UInt8) (position next : Nat) (piece : List UInt8) : Prop where
  start : position ≤ bytes.length
  next : next = position + piece.length
  bytes : ∃ rest, bytes.drop position = piece ++ rest

namespace StandsAt

variable {bytes piece rest : List UInt8} {position next : Nat}

theorem le (h : StandsAt bytes position next piece) : next ≤ bytes.length := by
  obtain ⟨rest, hrest⟩ := h.bytes
  have hlength := congrArg List.length hrest
  rw [List.length_drop, List.length_append] at hlength
  have hstart := h.start
  have hnext := h.next
  omega

theorem take_eq (h : StandsAt bytes position next piece) :
    bytes.take next = bytes.take position ++ piece := by
  obtain ⟨rest, hrest⟩ := h.bytes
  rw [h.next, List.take_add, hrest, List.take_left]

theorem of_take (hle : next ≤ bytes.length) (h : bytes.take next = bytes.take position ++ piece)
    (hposition : position ≤ next) : StandsAt bytes position next piece := by
  have hlength := congrArg List.length h
  rw [List.length_append, length_take, length_take] at hlength
  refine ⟨by omega, by omega, bytes.drop next, ?_⟩
  have hfront : (bytes.take position).length = position := by
    rw [length_take]
    omega
  have hbytes : bytes.drop position =
      (bytes.take position ++ (piece ++ bytes.drop next)).drop position := by
    rw [← append_assoc, ← h, List.take_append_drop]
  rw [hbytes, drop_left' hfront]

theorem append {next' : Nat} {piece' : List UInt8} (h : StandsAt bytes position next piece)
    (h' : StandsAt bytes next next' piece') :
    StandsAt bytes position next' (piece ++ piece') := by
  refine .of_take h'.le ?_ (by rw [h'.next, h.next]; omega)
  rw [h'.take_eq, h.take_eq, append_assoc]

section

variable {piece' : List UInt8} (h : StandsAt bytes position next (piece ++ piece'))
include h

theorem left_of_append : StandsAt bytes position (position + piece.length) piece := by
  obtain ⟨rest, hrest⟩ := h.bytes
  exact ⟨h.start, rfl, piece' ++ rest, by rw [hrest, append_assoc]⟩

theorem right_of_append : StandsAt bytes (position + piece.length) next piece' := by
  obtain ⟨rest, hrest⟩ := h.bytes
  refine ⟨h.left_of_append.le, by rw [h.next, List.length_append, Nat.add_assoc], rest, ?_⟩
  rw [← List.drop_drop, hrest, append_assoc, List.drop_left]

end

theorem nil (h : position ≤ bytes.length) : StandsAt bytes position position [] :=
  ⟨h, rfl, _, rfl⟩

theorem eq_of_whole (h : StandsAt bytes 0 next piece) (hnext : next = bytes.length) :
    bytes = piece := by
  have htake := h.take_eq
  rwa [hnext, List.take_length, List.take_zero, List.nil_append] at htake

end StandsAt

theorem getRange_iff {bytes out : List UInt8} {start finish : Nat} :
    getRange bytes start finish = some out ↔ StandsAt bytes start finish out := by
  rw [getRange_eq_some]
  constructor
  · rintro ⟨hle, hend, rfl⟩
    refine .of_take hend ?_ hle
    have hstart : bytes.take start = (bytes.take finish).take start := by
      rw [List.take_take, Nat.min_eq_left hle]
    rw [hstart, List.take_append_drop]
  · intro h
    have hstart := h.start
    have hnext := h.next
    refine ⟨by omega, h.le, ?_⟩
    rw [h.take_eq]
    exact drop_left' (by rw [length_take]; omega)

variable {profile : Profile} {value left : Nat}

theorem range_eq_ok {bytes out : List UInt8} {start length : Nat} {o t : String} :
    profile.range bytes start length o t = .ok out ↔
      start + length < 2 ^ 64 ∧ out.length = length ∧ StandsAt bytes start
        (start + length) out := by
  rw [Profile.range, Except.mapError_eq_ok, checkedRange_eq_ok]
  constructor
  · rintro ⟨hlt, hle, rfl⟩
    have hlength : ((bytes.take (start + length)).drop start).length = length := by
      rw [List.length_drop, length_take]
      omega
    refine ⟨hlt, hlength, by omega, by rw [hlength], bytes.drop (start + length), ?_⟩
    rw [List.drop_take, Nat.add_sub_cancel_left, ← List.drop_drop, List.take_append_drop]
  · rintro ⟨hlt, hlength, h⟩
    refine ⟨hlt, h.le, ?_⟩
    rw [h.take_eq]
    exact drop_left' (by rw [length_take]; have := h.start; omega)

theorem leU32_eq_ok {bytes : List UInt8} {offset : Nat} {detail : String} :
    leU32 bytes offset profile detail = .ok value ↔ ∃ piece, offset + 4 < 2 ^ 64 ∧
      piece.length = 4 ∧ StandsAt bytes offset (offset + 4) piece ∧ fromLeBytes piece = value := by
  rw [leU32, Except.bind_eq_ok]
  constructor
  · rintro ⟨piece, hpiece, hvalue⟩
    obtain ⟨hlt, hlength, hstands⟩ := range_eq_ok.mp hpiece
    exact ⟨piece, hlt, hlength, hstands, Except.ok.inj hvalue⟩
  · rintro ⟨piece, hlt, hlength, hstands, rfl⟩
    exact ⟨piece, range_eq_ok.mpr ⟨hlt, hlength, hstands⟩, rfl⟩

theorem toNat_and_low (byte : UInt8) : (byte &&& 0x7f).toNat = byte.toNat % 128 := by
  rw [UInt8.toNat_and]
  exact Nat.and_two_pow_sub_one_eq_mod byte.toNat 7

theorem and_high_eq_zero (byte : UInt8) : byte &&& 0x80 = 0 ↔ byte.toNat < 128 := by
  have h : ∀ b : Fin 256, (UInt8.ofNat b.val &&& 0x80 = 0 ↔ b.val < 128) := by decide +kernel
  have hb := h ⟨byte.toNat, byte.toNat_lt⟩
  simpa only [UInt8.ofNat_toNat] using hb

theorem checkedShl_low (byte : UInt8) {ordinal : Nat} (h : ordinal ≤ 8) :
    checkedShl 64 (byte &&& 0x7f).toNat (ordinal * 7) =
      some (byte.toNat % 128 * 2 ^ (7 * ordinal)) := by
  have hpow : 2 ^ (7 * ordinal) ≤ 2 ^ 56 := Nat.pow_le_pow_right (by decide) (by omega)
  have hlt : byte.toNat % 128 < 128 := Nat.mod_lt _ (by decide)
  have hvalue : byte.toNat % 128 * 2 ^ (7 * ordinal) < 2 ^ 64 := by
    calc byte.toNat % 128 * 2 ^ (7 * ordinal) ≤ 128 * 2 ^ 56 :=
      Nat.mul_le_mul (Nat.le_of_lt hlt) hpow
      _ < 2 ^ 64 := by decide
  rw [checkedShl, if_pos (by omega), toNat_and_low, Nat.shiftLeft_eq, Nat.mul_comm ordinal 7,
    Nat.mod_eq_of_lt hvalue]

/-- One turn of `readVliFrom` on a byte. -/
theorem readVliFrom_canReturn {bytes : List UInt8} {ordinal position : Nat}
    (hordinal : left + ordinal = 8) (hvalue : value < 2 ^ (7 * ordinal)) {result : Nat × Nat} :
    (readVliFrom bytes profile (left + 1) ordinal value position).CanReturn result ↔
      ∃ byte : UInt8, StandsAt bytes position (position + 1) [byte] ∧ position + 1 < 2 ^ 64 ∧
        ¬(ordinal = 8 ∧ 0x7f < byte) ∧
        if byte.toNat < 128 then
          ¬(ordinal ≠ 0 ∧ byte = 0) ∧
            result = (value + byte.toNat * 2 ^ (7 * ordinal), position + 1)
        else (readVliFrom bytes profile left (ordinal + 1)
          (value + byte.toNat % 128 * 2 ^ (7 * ordinal)) (position + 1)).CanReturn result := by
  have hadd : ∀ byte : UInt8, checkedAdd value (byte.toNat % 128 * 2 ^ (7 * ordinal)) =
      some (value + byte.toNat % 128 * 2 ^ (7 * ordinal)) := by
    intro byte
    have hpow : 2 ^ (7 * ordinal) ≤ 2 ^ 56 := Nat.pow_le_pow_right (by decide) (by omega)
    have hlt : byte.toNat % 128 ≤ 127 := Nat.le_of_lt_succ (Nat.mod_lt _ (by decide))
    have hmul : byte.toNat % 128 * 2 ^ (7 * ordinal) ≤ 127 * 2 ^ 56 := Nat.mul_le_mul hlt hpow
    exact checkedAdd_of_lt (by omega)
  rw [readVliFrom]
  simp only [bind_iff, lift_iff, okOr_eq_ok, range_eq_ok,
    rejectIf_eq_ok]
  constructor
  · rintro ⟨single, ⟨hsize, hlength, hstands⟩, byte, hhead, -, -, -, hdomain, shifted, hshifted,
      value', hvalue', position', hposition', hrest⟩
    obtain ⟨tail, rfl⟩ := List.head?_eq_some_iff.mp hhead
    obtain rfl : tail = [] := List.length_eq_zero_iff.mp (Nat.succ.inj hlength)
    rw [checkedShl_low byte (by omega)] at hshifted
    obtain rfl := Option.some.inj hshifted
    rw [hadd] at hvalue'
    obtain rfl := Option.some.inj hvalue'
    obtain ⟨-, rfl⟩ := checkedAdd_eq_some.mp hposition'
    refine ⟨byte, hstands, hsize, hdomain, ?_⟩
    by_cases hlast : byte.toNat < 128
    · rw [if_pos ((and_high_eq_zero byte).mpr hlast)] at hrest
      rw [if_pos hlast]
      simp only [bind_iff, lift_iff, rejectIf_eq_ok,
        pure_iff] at hrest
      obtain ⟨-, hminimal, rfl⟩ := hrest
      rw [Nat.mod_eq_of_lt hlast]
      exact ⟨hminimal, rfl⟩
    · rw [if_neg fun hzero => hlast ((and_high_eq_zero byte).mp hzero)] at hrest
      rw [if_neg hlast]
      exact hrest
  · rintro ⟨byte, hstands, hsize, hdomain, hrest⟩
    refine ⟨[byte], ⟨hsize, rfl, hstands⟩, byte, rfl, (), ⟨[((1 : Nat), .ok ())], .ask _ _ _
      (.done _)⟩,
      (), hdomain, _, checkedShl_low byte (by omega), _, hadd byte, _,
      checkedAdd_of_lt hsize, ?_⟩
    by_cases hlast : byte.toNat < 128
    · rw [if_pos hlast] at hrest
      rw [if_pos ((and_high_eq_zero byte).mpr hlast)]
      simp only [bind_iff, lift_iff, rejectIf_eq_ok,
        pure_iff]
      refine ⟨(), hrest.1, ?_⟩
      rw [hrest.2, Nat.mod_eq_of_lt hlast]
    · rw [if_neg hlast] at hrest
      rw [if_neg fun hzero => hlast ((and_high_eq_zero byte).mp hzero)]
      exact hrest

theorem writeVliFrom_small (h : value < 128) :
    writeVliFrom (left + 1) value = [UInt8.ofNat value] := if_pos h

theorem writeVliFrom_large (h : 128 ≤ value) :
    writeVliFrom (left + 1) value =
      UInt8.ofNat (value % 128 + 128) :: writeVliFrom left (value / 128) :=
  if_neg (Nat.not_lt.mpr h)

theorem readVliFrom_iff {bytes : List UInt8} (left : Nat) {ordinal position v next : Nat}
    (hordinal : left + ordinal = 9) (hvalue : value < 2 ^ (7 * ordinal)) :
    (readVliFrom bytes profile left ordinal value position).CanReturn (v, next) ↔
      ∃ u, u < 2 ^ (7 * left) ∧ (ordinal ≠ 0 → u ≠ 0) ∧ v = value + u * 2 ^ (7 * ordinal) ∧
        StandsAt bytes position next (writeVliFrom left u) ∧ next < 2 ^ 64 := by
  induction left generalizing ordinal value position with
  | zero =>
    constructor
    · rintro ⟨trace, h⟩
      exact (nomatch (Prog.Runs.done_iff.mp h).2)
    · rintro ⟨u, hu, hne, -⟩
      exact absurd (Nat.lt_one_iff.mp hu) (hne (by omega))
  | succ left ih =>
    have hpow : 2 ^ (7 * (left + 1)) = 2 ^ (7 * left) * 128 := by
      rw [Nat.mul_succ, Nat.pow_add]
    have hpow' : 2 ^ (7 * (ordinal + 1)) = 128 * 2 ^ (7 * ordinal) := by
      rw [Nat.mul_succ, Nat.pow_add, Nat.mul_comm]
    have hcarry : ∀ low, low < 128 → value + low * 2 ^ (7 * ordinal) < 2 ^ (7 * (ordinal + 1)) := by
      intro low hlow
      have hstep : (low + 1) * 2 ^ (7 * ordinal) ≤ 128 * 2 ^ (7 * ordinal) :=
        Nat.mul_le_mul_right _ hlow
      rw [Nat.succ_mul] at hstep
      omega
    have hsplit : ∀ low u, value + low * 2 ^ (7 * ordinal) + u * 2 ^ (7 * (ordinal + 1)) =
        value + (low + 128 * u) * 2 ^ (7 * ordinal) := by
      intro low u
      rw [hpow', Nat.add_mul, ← Nat.mul_assoc, Nat.mul_comm u 128, Nat.add_assoc]
    rw [readVliFrom_canReturn (by omega) hvalue]
    constructor
    · rintro ⟨byte, hstands, hsize, hdomain, hrest⟩
      have hbyte := byte.toNat_lt
      split at hrest
      · next hlast =>
        obtain ⟨hminimal, hresult⟩ := hrest
        obtain ⟨rfl, rfl⟩ := Prod.mk.inj hresult
        have hpos := Nat.two_pow_pos (7 * left)
        refine ⟨byte.toNat, by rw [hpow]; omega, fun hne hzero => hminimal ⟨hne, ?_⟩, rfl,
          ?_, hsize⟩
        · exact UInt8.toNat_inj.mp hzero
        · rw [writeVliFrom_small hlast, UInt8.ofNat_toNat]
          exact hstands
      · next hlast =>
        have hmod : byte.toNat % 128 < 128 := Nat.mod_lt _ (by decide)
        obtain ⟨u, hu, hne, rfl, htail, hnext⟩ := (ih (by omega) (hcarry _ hmod)).mp hrest
        have hu0 := Nat.pos_of_ne_zero (hne (Nat.succ_ne_zero _))
        have hhead : UInt8.ofNat ((byte.toNat % 128 + 128 * u) % 128 + 128) = byte := by
          rw [← UInt8.toNat_inj, UInt8.toNat_ofNat']
          omega
        refine ⟨byte.toNat % 128 + 128 * u, by omega, fun _ => by omega, hsplit _ _, ?_, hnext⟩
        rw [writeVliFrom_large (by omega), hhead,
          show (byte.toNat % 128 + 128 * u) / 128 = u by omega]
        exact hstands.append htail
    · rintro ⟨u, hu, hne, rfl, hstands, hnext⟩
      rcases Nat.lt_or_ge u 128 with hsmall | hlarge
      · have htoNat : (UInt8.ofNat u).toNat = u := by
          rw [UInt8.toNat_ofNat']
          omega
        rw [writeVliFrom_small hsmall] at hstands
        obtain rfl := hstands.next
        refine ⟨UInt8.ofNat u, hstands, hnext, ?_, ?_⟩
        · rintro ⟨-, hlt⟩
          rw [UInt8.lt_iff_toNat_lt, htoNat] at hlt
          exact absurd hlt (by simp; omega)
        · rw [htoNat, if_pos hsmall]
          refine ⟨fun hzero => hne hzero.1 ?_, rfl⟩
          rw [← htoNat, hzero.2]
          rfl
      · have htoNat : (UInt8.ofNat (u % 128 + 128)).toNat = u % 128 + 128 := by
          rw [UInt8.toNat_ofNat']
          omega
        rw [writeVliFrom_large hlarge, ← List.singleton_append] at hstands
        have hleft : left ≠ 0 := by
          rintro rfl
          omega
        have hend := hstands.right_of_append.start
        refine ⟨UInt8.ofNat (u % 128 + 128), hstands.left_of_append, ?_, fun h => by omega, ?_⟩
        · have := hstands.right_of_append.next
          rw [List.length_singleton] at this
          omega
        · rw [htoNat, if_neg (by omega), show (u % 128 + 128) % 128 = u % 128 by omega]
          refine (ih (by omega) (hcarry _ (Nat.mod_lt _ (by decide)))).mpr
            ⟨u / 128, by omega, fun _ => by omega, ?_, hstands.right_of_append, hnext⟩
          rw [hsplit, Nat.mod_add_div]

theorem readVli_canReturn {bytes : List UInt8} {start v next : Nat} :
    (readVli bytes start profile).CanReturn (v, next) ↔
      v < 2 ^ 63 ∧ StandsAt bytes start next (writeVli v) ∧ next < 2 ^ 64 := by
  rw [readVli, readVliFrom_iff 9 rfl (by decide)]
  constructor
  · rintro ⟨u, hu, -, rfl, hstands, hnext⟩
    rw [Nat.mul_zero, Nat.pow_zero, Nat.mul_one, Nat.zero_add]
    exact ⟨hu, hstands, hnext⟩
  · rintro ⟨hv, hstands, hnext⟩
    exact ⟨v, hv, fun h => absurd rfl h, by omega, hstands, hnext⟩

/-! ## The shortest form -/

/-- The number of bytes with seven bits each, the low ones first, of which all but the
last have the high bit. -/
def vliValue : List UInt8 → Option Nat
  | [] => none
  | byte :: bytes =>
    if byte.toNat < 128 then if bytes = [] then some byte.toNat else none
    else (vliValue bytes).map fun rest => byte.toNat - 128 + 128 * rest

theorem vliValue_writeVliFrom (hleft : 1 ≤ left) (h : value < 2 ^ (7 * left)) :
    vliValue (writeVliFrom left value) = some value := by
  induction left generalizing value with
  | zero => exact absurd hleft (Nat.not_succ_le_zero 0)
  | succ left ih =>
    by_cases hsmall : value < 128
    · have hbyte : (UInt8.ofNat value).toNat = value := by
        rw [UInt8.toNat_ofNat']
        omega
      rw [writeVliFrom_small hsmall, vliValue, hbyte, if_pos hsmall, if_pos rfl]
    · have hpow : 2 ^ (7 * (left + 1)) = 2 ^ (7 * left) * 128 := by
        rw [Nat.mul_succ, Nat.pow_add]
      have hpos : 1 ≤ left := Nat.one_le_iff_ne_zero.mpr fun hzero => by
        subst hzero
        omega
      have hbyte : (UInt8.ofNat (value % 128 + 128)).toNat = value % 128 + 128 := by
        rw [UInt8.toNat_ofNat']
        omega
      rw [writeVliFrom_large (Nat.le_of_not_lt hsmall), vliValue, hbyte, if_neg (by omega),
        ih hpos (by omega), Option.map_some, Nat.add_sub_cancel, Nat.mod_add_div]

theorem writeVliFrom_shortest (h : value < 2 ^ (7 * left)) {other : List UInt8}
    (hother : vliValue other = some value) :
    (writeVliFrom left value).length ≤ other.length ∧
      (other.length ≤ (writeVliFrom left value).length → other = writeVliFrom left value) := by
  induction left generalizing value other with
  | zero =>
    refine ⟨Nat.zero_le _, fun hle => ?_⟩
    obtain rfl := List.length_eq_zero_iff.mp (Nat.le_zero.mp hle)
    rfl
  | succ left ih =>
    have hpow : 2 ^ (7 * (left + 1)) = 2 ^ (7 * left) * 128 := by
      rw [Nat.mul_succ, Nat.pow_add]
    cases other with
    | nil => cases hother
    | cons byte bytes =>
      rw [vliValue] at hother
      by_cases hlast : byte.toNat < 128
      · rw [if_pos hlast, Option.ite_none_right_eq_some] at hother
        obtain ⟨rfl, hvalue⟩ := hother
        obtain rfl := Option.some.inj hvalue
        rw [writeVliFrom_small hlast, UInt8.ofNat_toNat]
        exact ⟨Nat.le_refl _, fun _ => rfl⟩
      · rw [if_neg hlast] at hother
        obtain ⟨rest, hrest, rfl⟩ := Option.map_eq_some_iff.mp hother
        have hbyte := byte.toNat_lt
        by_cases hsmall : byte.toNat - 128 + 128 * rest < 128
        · -- A zero behind the last bits.
          rw [writeVliFrom_small hsmall]
          have hpos : 1 ≤ bytes.length := List.length_pos_of_ne_nil fun hnil => by
            subst hnil
            cases hrest
          refine ⟨by rw [List.length_singleton, length_cons]; omega, fun hle => ?_⟩
          rw [List.length_singleton, length_cons] at hle
          omega
        · have hdiv : (byte.toNat - 128 + 128 * rest) / 128 = rest := by omega
          have hhead : UInt8.ofNat ((byte.toNat - 128 + 128 * rest) % 128 + 128) = byte := by
            rw [← UInt8.toNat_inj, UInt8.toNat_ofNat']
            omega
          obtain ⟨hle, hequal⟩ := ih (show rest < 2 ^ (7 * left) by omega) hrest
          rw [writeVliFrom_large (Nat.le_of_not_lt hsmall), hdiv, hhead, length_cons,
            length_cons]
          exact ⟨Nat.succ_le_succ hle, fun hlength =>
            congrArg (byte :: ·) (hequal (Nat.le_of_succ_le_succ hlength))⟩

/-- The shortest form of a number. -/
structure Shortest (piece : List UInt8) (value : Nat) : Prop where
  denotes : vliValue piece = some value
  le : ∀ other, vliValue other = some value → piece.length ≤ other.length
  unique : ∀ other, vliValue other = some value → other.length ≤ piece.length → other = piece

theorem writeVli_shortest (h : value < 2 ^ 63) : Shortest (writeVli value) value where
  denotes := vliValue_writeVliFrom (by decide) h
  le := fun _ hother => (writeVliFrom_shortest h hother).1
  unique := fun _ hother => (writeVliFrom_shortest h hother).2

theorem Shortest.eq {piece other : List UInt8} (h : Shortest piece value)
    (hother : Shortest other value) : other = piece :=
  h.unique other hother.denotes (hother.le piece h.denotes)

theorem readVliFrom_strict (bytes : List UInt8) (profile : Profile)
    (left ordinal value position : Nat) :
    Prog.Strict (readVliFrom bytes profile left ordinal value position) := by
  induction left generalizing ordinal value position with
  | zero => exact .throw _
  | succ left ih =>
    refine .step fun _ => .step fun byte => .bind (.request _) fun _ => ?_
    refine .step fun _ => .step fun shifted => .step fun value => ?_
    refine .step fun position => .ite ?_ (ih (ordinal + 1) value position)
    exact .step fun _ => .pure _

/-- A number is read just where the shortest form of a number below 2^63 stands, and
ends behind it; the control only decides whether it is read.  So two forms that are
read are never of the same number. -/
theorem readVli_canonical {bytes : List UInt8} (hbytes : bytes.length < 2 ^ 64)
    (profile : Profile) :
    (∀ start v next, (readVli bytes start profile).CanReturn (v, next) ↔
      v < 2 ^ 63 ∧ ∃ piece, StandsAt bytes start next piece ∧ Shortest piece v) ∧
    (∀ start result, (readVli bytes start profile).CanReturn result ↔
      (readVli bytes start profile).granted = .ok result) ∧
    ∀ bytes' start start' v next next', (readVli bytes start profile).CanReturn (v, next) →
      (readVli bytes' start' profile).CanReturn (v, next') →
      getRange bytes start next = getRange bytes' start' next' := by
  have hiff : ∀ start v next, (readVli bytes start profile).CanReturn (v, next) ↔
      v < 2 ^ 63 ∧ ∃ piece, StandsAt bytes start next piece ∧ Shortest piece v := by
    intro start v next
    rw [readVli_canReturn]
    constructor
    · rintro ⟨hv, hstands, -⟩
      exact ⟨hv, writeVli v, hstands, writeVli_shortest hv⟩
    · rintro ⟨hv, piece, hstands, hshortest⟩
      obtain rfl := (writeVli_shortest hv).eq hshortest
      exact ⟨hv, hstands, Nat.lt_of_le_of_lt hstands.le hbytes⟩
  refine ⟨hiff, fun start result => ⟨?_, of_granted⟩,
    fun bytes' start start' v next next' h h' => ?_⟩
  · rintro ⟨trace, hruns⟩
    exact (readVliFrom_strict bytes profile 9 0 0 start).granted_of_runs hruns
  · rw [getRange_iff.mpr (readVli_canReturn.mp h).2.1, getRange_iff.mpr
      (readVli_canReturn.mp h').2.1]

/-- Two bytes of 300, in front of another byte. -/
theorem readVli_canonical_two :
    (readVli [0xac, 0x02, 0x00] 0 .packagePayload).CanReturn (300, 2) :=
  ((readVli_canonical (by decide) .packagePayload).2.1 0 (300, 2)).mpr rfl

end Xz
end Unpackio
