/-
What `read_7z_uint` accepts: the forms of a 7z integer, each in full, and
nothing else.
-/
import Unpackio.Bounded

namespace Unpackio

/-- The values of the form with `extra` bytes after the first. -/
def InForm (extra value : Nat) : Prop :=
  extra < 8 ∧ value < 2 ^ (7 * (extra + 1)) ∨ extra = 8 ∧ value < 2 ^ 64

theorem fits7zUint_iff {extra value : Nat} : Fits7zUint extra value ↔ InForm extra value := by
  have hpow : extra < 8 → 256 ^ extra * 2 ^ (7 - extra) = 2 ^ (7 * (extra + 1)) := by
    intro hlt
    rw [show (256 : Nat) = 2 ^ 8 from rfl, ← Nat.pow_mul, ← Nat.pow_add]
    congr 1
    omega
  constructor
  · rintro ⟨hle, hfit⟩
    rcases Nat.lt_or_eq_of_le hle with hlt | rfl
    · refine .inl ⟨hlt, ?_⟩
      rw [← hpow hlt, Nat.mul_comm]
      exact (Nat.div_lt_iff_lt_mul (Nat.pow_pos (by decide))).mp hfit
    · exact .inr ⟨rfl, by omega⟩
  · rintro (⟨hlt, hvalue⟩ | ⟨rfl, hvalue⟩)
    · refine ⟨Nat.le_of_lt hlt, Nat.div_lt_of_lt_mul ?_⟩
      rwa [hpow hlt]
    · exact ⟨Nat.le_refl 8, by omega⟩

@[simp] theorem length_write7zUintForm (extra value : Nat) :
    (write7zUintForm extra value).length = extra + 1 := by
  rw [write7zUintForm, List.length_cons, length_toLeBytes]

theorem exists_first {first : Nat} (h : first < 256) : ∃ extra < 9, ∃ high < 2 ^ (7 - extra),
    first = 256 - 2 ^ (8 - extra) + high := by
  have hform : ∀ extra < 9, 256 - 2 ^ (8 - extra) ≤ first →
      first < 256 - 2 ^ (8 - extra) + 2 ^ (7 - extra) → ∃ extra < 9, ∃ high < 2 ^ (7 - extra),
        first = 256 - 2 ^ (8 - extra) + high := fun extra hextra hge hlt =>
    ⟨extra, hextra, first - (256 - 2 ^ (8 - extra)), by omega, by omega⟩
  by_cases h0 : first < 128
  · exact hform 0 (by decide) (by omega) (by omega)
  by_cases h1 : first < 192
  · exact hform 1 (by decide) (by omega) (by omega)
  by_cases h2 : first < 224
  · exact hform 2 (by decide) (by omega) (by omega)
  by_cases h3 : first < 240
  · exact hform 3 (by decide) (by omega) (by omega)
  by_cases h4 : first < 248
  · exact hform 4 (by decide) (by omega) (by omega)
  by_cases h5 : first < 252
  · exact hform 5 (by decide) (by omega) (by omega)
  by_cases h6 : first < 254
  · exact hform 6 (by decide) (by omega) (by omega)
  by_cases h7 : first < 255
  · exact hform 7 (by decide) (by omega) (by omega)
  · exact hform 8 (by decide) (by omega) (by omega)

theorem write7zUintForm_of_bytes {first : UInt8} {extra high : Nat}
    (hfirst : first.toNat = 256 - 2 ^ (8 - extra) + high) (low : List UInt8)
    (hlow : low.length = extra) :
    first :: low = write7zUintForm extra (fromLeBytes low + 256 ^ extra * high) := by
  have hlt := fromLeBytes_lt low
  rw [hlow] at hlt
  have hdiv : (fromLeBytes low + 256 ^ extra * high) / 256 ^ extra = high := by
    rw [Nat.add_mul_div_left _ _ (Nat.pow_pos (by decide)), Nat.div_eq_of_lt hlt, Nat.zero_add]
  have hbytes : toLeBytes extra (fromLeBytes low + 256 ^ extra * high) = low := by
    have hmod : fromLeBytes (toLeBytes extra (fromLeBytes low + 256 ^ extra * high)) =
        fromLeBytes low := by
      rw [fromLeBytes_toLeBytes, Nat.add_mul_mod_self_left, Nat.mod_eq_of_lt hlt]
    have hback := toLeBytes_fromLeBytes (toLeBytes extra (fromLeBytes low + 256 ^ extra * high))
    rw [length_toLeBytes, hmod] at hback
    rw [← hback, ← hlow]
    exact toLeBytes_fromLeBytes low
  rw [write7zUintForm, hdiv, hbytes, ← hfirst, UInt8.ofNat_toNat]

theorem readU8_nil (front : List UInt8) :
    ∃ e, (BoundedReader.split front []).readU8 = .error e := by
  have hread : ∃ e, (BoundedReader.split front []).readBytes 1 = .error e := by
    unfold BoundedReader.readBytes
    cases hadd : checkedAdd (BoundedReader.split front []).position 1 with
    | none => exact ⟨_, rfl⟩
    | some finish =>
      obtain ⟨-, rfl⟩ := checkedAdd_eq_some.mp hadd
      refine ⟨_, dif_neg ?_⟩
      simp [BoundedReader.split]
  obtain ⟨e, hread⟩ := hread
  exact ⟨e, by rw [BoundedReader.readU8, hread]; rfl⟩

section

variable {extra high : Nat} (hextra : extra < 9) (hhigh : high < 2 ^ (7 - extra))
include hextra hhigh

theorem read7zUintFrom_short (bytes : List UInt8) (done value : Nat) (front : List UInt8)
    (hshort : done + bytes.length < extra) (hlen : (front ++ bytes).length < 2 ^ 64) :
    ∃ e, BoundedReader.read7zUintFrom (256 - 2 ^ (8 - extra) + high)
      ((List.range' done (8 - done)).map (8 * ·)) (0x80 >>> done) value
      (.split front bytes) = .error e := by
  induction bytes generalizing done value front with
  | nil =>
    obtain ⟨e, hread⟩ := readU8_nil front
    have hset := first_marker_ne_zero extra hextra high hhigh done hshort
    refine ⟨e, ?_⟩
    rw [show 8 - done = (7 - done) + 1 by omega, List.range'_succ, List.map_cons,
      BoundedReader.read7zUintFrom, if_neg hset, hread]
    rfl
  | cons byte bytes ih =>
    rw [List.length_cons] at hshort
    have hset := first_marker_ne_zero extra hextra high hhigh done (by omega)
    have hroom : (front ++ [byte] ++ bytes).length < 2 ^ 64 := by
      rwa [List.append_assoc, List.singleton_append]
    obtain ⟨e, hloop⟩ := ih (done + 1) (value ||| byte.toNat <<< (8 * done)) (front ++ [byte])
      (by omega) hroom
    refine ⟨e, ?_⟩
    rw [show 8 - done = (7 - done) + 1 by omega, List.range'_succ, List.map_cons,
      BoundedReader.read7zUintFrom, if_neg hset, BoundedReader.readU8_split hroom, Except.ok_bind,
      ← hloop, ← Nat.shiftRight_add, show 7 - done = 8 - (done + 1) by omega]

theorem read7zUint_short {first : UInt8} (hfirst : first.toNat = 256 - 2 ^ (8 - extra) + high)
    {front bytes : List UInt8} (hshort : bytes.length < extra)
    (hlen : (front ++ first :: bytes).length < 2 ^ 64) :
    ∃ e, (BoundedReader.split front (first :: bytes)).read7zUint = .error e := by
  have hroom : (front ++ [first] ++ bytes).length < 2 ^ 64 := by
    rwa [List.append_assoc, List.singleton_append]
  obtain ⟨e, hloop⟩ := read7zUintFrom_short hextra hhigh bytes 0 0 (front ++ [first])
    (by omega) hroom
  refine ⟨e, ?_⟩
  rw [BoundedReader.read7zUint, BoundedReader.readU8_split hroom, Except.ok_bind]
  show BoundedReader.read7zUintFrom first.toNat _ _ _ _ = _
  rw [hfirst]
  exact hloop

end

/-- `read_7z_uint` reads every form of a value, with any bytes behind it; a form
that is cut it refuses, and what it accepts is a form. -/
theorem read7zUint_forms (front bytes : List UInt8) (hlen : (front ++ bytes).length < 2 ^ 64) :
    (∀ extra value rest, InForm extra value → bytes = write7zUintForm extra value ++ rest →
      (BoundedReader.split front bytes).read7zUint =
        .ok (value, .split (front ++ write7zUintForm extra value) rest)) ∧
    (∀ extra value, InForm extra value → bytes <+: write7zUintForm extra value →
      bytes ≠ write7zUintForm extra value →
      ∃ e, (BoundedReader.split front bytes).read7zUint = .error e) ∧
    ∀ value reader, (BoundedReader.split front bytes).read7zUint = .ok (value, reader) →
      ∃ extra rest, InForm extra value ∧ bytes = write7zUintForm extra value ++ rest ∧
        reader = .split (front ++ write7zUintForm extra value) rest := by
  have hform : ∀ extra value rest, InForm extra value →
      bytes = write7zUintForm extra value ++ rest →
      (BoundedReader.split front bytes).read7zUint =
        .ok (value, .split (front ++ write7zUintForm extra value) rest) := by
    rintro extra value rest hin rfl
    exact Reads.read7zUint_form (fits7zUint_iff.mpr hin) front rest
      (by rwa [List.append_assoc])
  refine ⟨hform, ?_, ?_⟩
  · intro extra value hin hprefix hne
    have hfit := fits7zUint_iff.mpr hin
    cases bytes with
    | nil =>
      obtain ⟨e, hread⟩ := readU8_nil front
      exact ⟨e, by rw [BoundedReader.read7zUint, hread]; rfl⟩
    | cons first bytes =>
      have hlt : (first :: bytes).length < (write7zUintForm extra value).length := by
        refine Nat.lt_of_le_of_ne hprefix.length_le fun heq => hne ?_
        exact hprefix.eq_of_length heq
      rw [length_write7zUintForm, List.length_cons] at hlt
      obtain ⟨hhead, -⟩ := List.cons_prefix_cons.mp hprefix
      refine read7zUint_short (Nat.lt_succ_of_le hfit.1) hfit.2 ?_ (by omega) hlen
      rw [hhead, UInt8.toNat_ofNat', Nat.mod_eq_of_lt (fits7zUint_first_lt hfit)]
  · intro value reader hread
    cases bytes with
    | nil =>
      obtain ⟨e, hnone⟩ := readU8_nil front
      rw [BoundedReader.read7zUint, hnone] at hread
      cases hread
    | cons first bytes =>
      obtain ⟨extra, hextra, high, hhigh, hfirst⟩ := exists_first first.toNat_lt
      by_cases hshort : bytes.length < extra
      · obtain ⟨e, herror⟩ := read7zUint_short hextra hhigh hfirst hshort hlen
        rw [herror] at hread
        cases hread
      · have hlow : (bytes.take extra).length = extra := by
          rw [List.length_take]
          omega
        have hbytes := write7zUintForm_of_bytes hfirst (bytes.take extra) hlow
        have hin : InForm extra (fromLeBytes (bytes.take extra) + 256 ^ extra * high) := by
          refine fits7zUint_iff.mp ⟨Nat.le_of_lt_succ hextra, ?_⟩
          have hlt := fromLeBytes_lt (bytes.take extra)
          rw [hlow] at hlt
          rwa [Nat.add_mul_div_left _ _ (Nat.pow_pos (by decide)), Nat.div_eq_of_lt hlt,
            Nat.zero_add]
        have hsplit : first :: bytes =
            write7zUintForm extra (fromLeBytes (bytes.take extra) + 256 ^ extra * high) ++
              bytes.drop extra := by
          rw [← hbytes, List.cons_append, List.take_append_drop]
        rw [hform extra _ _ hin hsplit] at hread
        cases hread
        exact ⟨extra, bytes.drop extra, hin, hsplit, rfl⟩

/-- The value 300 in its shortest form and in one that is longer. -/
theorem read7zUint_forms_300 :
    (BoundedReader.split [7] [0x81, 0x2c, 9]).read7zUint = .ok (300, .split [7, 0x81, 0x2c] [9]) ∧
      (BoundedReader.split [7] [0xc0, 0x2c, 0x01]).read7zUint =
        .ok (300, .split [7, 0xc0, 0x2c, 0x01] []) :=
  ⟨(read7zUint_forms [7] [0x81, 0x2c, 9] (by decide)).1 1 300 [9] (.inl (by decide)) rfl,
    (read7zUint_forms [7] [0xc0, 0x2c, 0x01] (by decide)).1 2 300 [] (.inl (by decide)) rfl⟩

end Unpackio
