/-
What `parse_pax` accepts is a list of records, and every list of keys and values has
an encoding that it reads back.

The length in front of a record counts its own digits.  Some records can be written
with two lengths, one digit apart, and both are read.
-/
import Unpackio.Deb.Pax

namespace Unpackio
namespace Deb

open Except (bind_eq_ok)
open Numerals

theorem digitOf_ok {base digit : Nat} {byte : UInt8} (h : digitOf base byte = some digit) :
    IsDigit base byte ∧ asciiDigit byte = digit := by
  unfold digitOf at h
  split at h
  · next value hvalue =>
    obtain ⟨hle, rfl⟩ := checkedSub_eq_some.mp hvalue
    split at h
    · next hlt =>
      cases h
      exact ⟨⟨hle, hlt⟩, rfl⟩
    · cases h
  · cases h

theorem decimalBytesLoop_ok {detail : String} {bytes : List UInt8} {value result : Nat}
    (hvalue : value < 2 ^ 64) (h : decimalBytesLoop detail bytes value = .ok result) :
    (∀ byte ∈ bytes, IsDigit 10 byte) ∧ result < 2 ^ 64 ∧
      result = value * 10 ^ bytes.length + decimalValue bytes := by
  induction bytes generalizing value with
  | nil =>
    cases h
    exact ⟨fun _ hmem => (nomatch hmem), hvalue,
      by rw [decimalValue, numeral_nil, List.length_nil, Nat.pow_zero, Nat.mul_one, Nat.add_zero]⟩
  | cons byte bytes ih =>
    rw [decimalBytesLoop, bind_eq_ok] at h
    obtain ⟨digit, hdigit, h⟩ := h
    obtain ⟨hbyte, rfl⟩ := digitOf_ok (okOr_eq_ok.mp hdigit)
    rw [bind_eq_ok] at h
    obtain ⟨scaled, hscaled, h⟩ := h
    obtain ⟨next, hnext, h⟩ := bind_eq_ok.mp h
    obtain ⟨hlt, rfl⟩ := checkedAdd_eq_ok.mp hnext
    obtain ⟨-, rfl⟩ := tryFrom_eq_some.mp (okOr_eq_ok.mp hscaled)
    obtain ⟨hrest, hresult, hsum⟩ := ih hlt h
    refine ⟨List.forall_mem_cons.mpr ⟨hbyte, hrest⟩, hresult, ?_⟩
    rw [hsum]
    exact numeral_step 10 asciiDigit value byte bytes

theorem decimalBytes_ok {bytes : List UInt8} {detail : String} {value : Nat}
    (h : decimalBytes bytes detail = .ok value) :
    DecimalText (2 ^ 64) bytes ∧ value = decimalValue bytes := by
  rw [decimalBytes, bind_eq_ok] at h
  obtain ⟨_, hne, h⟩ := h
  obtain ⟨hdigits, hlt, hvalue⟩ := decimalBytesLoop_ok (by decide) h
  rw [Nat.zero_mul, Nat.zero_add] at hvalue
  exact ⟨⟨rejectIf_eq_ok.mp hne, hdigits, hvalue ▸ hlt⟩, hvalue⟩

theorem positionOf_some {byte : UInt8} {bytes : List UInt8} {position : Nat}
    (h : positionOf byte bytes = some position) :
    ∃ front rest, bytes = front ++ byte :: rest ∧ byte ∉ front ∧ position = front.length := by
  induction bytes generalizing position with
  | nil => cases h
  | cons first bytes ih =>
    rw [positionOf, List.findIdx?_cons] at h
    by_cases hfirst : first = byte
    · rw [if_pos (by simpa using hfirst)] at h
      cases h
      exact ⟨[], bytes, by rw [hfirst, List.nil_append], List.not_mem_nil, rfl⟩
    · rw [if_neg (by simpa using hfirst), Option.map_eq_some_iff] at h
      obtain ⟨found, hfound, rfl⟩ := h
      obtain ⟨front, rest, rfl, hmem, rfl⟩ := ih hfound
      exact ⟨first :: front, rest, rfl,
        fun h => (List.mem_cons.mp h).elim (fun heq => hfirst heq.symm) hmem, rfl⟩

theorem paxRecord_ok {data key value : List UInt8} {offset length : Nat}
    (h : paxRecord data offset = .ok (key, value, length)) :
    ∃ record : PaxShape, length = record.bytes.length ∧
      ∃ rest, data.drop offset = record.bytes ++ rest := by
  unfold paxRecord at h
  obtain ⟨left, hleft, h⟩ := bind_eq_ok.mp h
  obtain ⟨hoffset, rfl⟩ := checkedSub_eq_ok.mp hleft
  obtain ⟨remaining, hremaining, h⟩ := bind_eq_ok.mp h
  obtain ⟨separator, hseparator, h⟩ := bind_eq_ok.mp h
  obtain ⟨recordLength, hlength, h⟩ := bind_eq_ok.mp h
  obtain ⟨-, -, h⟩ := bind_eq_ok.mp h
  obtain ⟨record, hrecord, h⟩ := bind_eq_ok.mp h
  obtain ⟨_, hlast, h⟩ := bind_eq_ok.mp h
  obtain ⟨prefixBytes, hprefix, h⟩ := bind_eq_ok.mp h
  obtain ⟨bodyLength, hbodyLength, h⟩ := bind_eq_ok.mp h
  obtain ⟨body, hbody, h⟩ := bind_eq_ok.mp h
  obtain ⟨equals, hequals, h⟩ := bind_eq_ok.mp h
  obtain ⟨valueStart, -, h⟩ := bind_eq_ok.mp h
  cases h
  -- What is left of the data begins with digits and a space.
  obtain ⟨-, -, hremaining⟩ := checkedRange_eq_ok.mp hremaining
  rw [Nat.add_sub_cancel' hoffset, List.take_length] at hremaining
  obtain ⟨digits, tail, htail, -, rfl⟩ := positionOf_some (okOr_eq_ok.mp hseparator)
  rw [htail, List.take_left] at hlength
  obtain ⟨hdecimal, rfl⟩ := decimalBytes_ok hlength
  -- The record is as long as they say, and its last byte is a newline.
  obtain ⟨-, hfits, hrecord⟩ := checkedRange_eq_ok.mp hrecord
  have htake : (data.drop offset).take (decimalValue digits) = record := by
    rw [← hrecord, List.drop_take, Nat.add_sub_cancel_left]
  have hcount : record.length = decimalValue digits := by
    rw [← htake, List.length_take, List.length_drop]
    omega
  obtain ⟨inner, hinner⟩ : ∃ inner, record = inner ++ [0x0a] :=
    List.getLast?_eq_some_iff.mp (not_not.mp (rejectIf_eq_ok.mp hlast))
  have hinnerCount : record.length = inner.length + 1 := by
    rw [hinner, List.length_append, List.length_singleton]
  -- Between the space and the newline stand the key and the value.
  obtain ⟨-, rfl⟩ := checkedAdd_eq_ok.mp hprefix
  obtain ⟨after, hafter, hrest⟩ := Option.bind_eq_some_iff.mp (okOr_eq_ok.mp hbodyLength)
  obtain ⟨hspace, rfl⟩ := checkedSub_eq_some.mp hafter
  obtain ⟨hnewline, rfl⟩ := checkedSub_eq_some.mp hrest
  obtain ⟨-, -, hbody⟩ := checkedRange_eq_ok.mp hbody
  rw [hinner, List.take_append_of_le_length (by omega), List.take_of_length_le (by omega)] at hbody
  obtain ⟨key, value, hkey, hplain, rfl⟩ := positionOf_some (okOr_eq_ok.mp hequals)
  have hfront : inner.take (digits.length + 1) = digits ++ [0x20] := by
    have hsame : inner.take (digits.length + 1) = record.take (digits.length + 1) := by
      rw [hinner, List.take_append_of_le_length (by omega)]
    rw [hsame, ← htake, List.take_take, Nat.min_eq_left (by omega), hremaining, htail,
      List.append_cons, List.take_left' (by simp)]
  have hshape : record = digits ++ 0x20 :: (key ++ 0x3d :: (value ++ [0x0a])) := by
    rw [hinner, ← List.take_append_drop (digits.length + 1) inner, hfront, hbody, hkey]
    simp only [List.append_assoc, List.cons_append, List.nil_append]
  refine ⟨⟨digits, key, value, hdecimal, by rw [← hshape, hcount], hplain⟩, ?_,
    (data.drop offset).drop (decimalValue digits), ?_⟩
  · rw [PaxShape.bytes, ← hshape, hcount]
  · rw [PaxShape.bytes, ← hshape, ← htake]
    exact (List.take_append_drop _ _).symm

/-- What `parse_pax` accepts from `offset` on is a list of records. -/
theorem parsePaxLoop_ok {data : List UInt8} {limits : Limits} {fuel offset : Nat}
    {values : PaxValues} {totals : ArchiveTotals} {result : PaxValues × ArchiveTotals}
    (h : (parsePaxLoop data limits fuel offset values totals).granted = .ok result) :
    ∃ records, data.drop offset = shapeBytes records := by
  have hend : offset = data.length → ∃ records, data.drop offset = shapeBytes records :=
    fun heq => ⟨[], List.drop_of_length_le (Nat.le_of_eq heq.symm)⟩
  induction fuel generalizing offset values totals with
  | zero =>
    rw [parsePaxLoop, Prog.granted_bind_eq_ok] at h
    obtain ⟨_, hreject, -⟩ := h
    exact hend (not_not.mp (rejectIf_eq_ok.mp hreject))
  | succ fuel ih =>
    rw [parsePaxLoop] at h
    by_cases hmore : offset < data.length
    · rw [if_pos hmore] at h
      obtain ⟨-, -, h⟩ := Prog.granted_bind_eq_ok.mp h
      obtain ⟨properties, -, h⟩ := Prog.granted_bind_eq_ok.mp h
      obtain ⟨-, -, h⟩ := Prog.granted_bind_eq_ok.mp h
      obtain ⟨⟨key, value, length⟩, hrecord, h⟩ := Prog.granted_bind_eq_ok.mp h
      obtain ⟨values, -, h⟩ := Prog.granted_bind_eq_ok.mp h
      obtain ⟨next, hnext, h⟩ := Prog.granted_bind_eq_ok.mp h
      obtain ⟨record, rfl, rest, hrest⟩ := paxRecord_ok (Prog.granted_lift_eq_ok.mp hrecord)
      obtain ⟨-, rfl⟩ := checkedAdd_eq_ok.mp (Prog.granted_lift_eq_ok.mp hnext)
      obtain ⟨records, hrecords⟩ := ih h fun heq => ⟨[], List.drop_of_length_le
        (Nat.le_of_eq heq.symm)⟩
      refine ⟨record :: records, ?_⟩
      rw [shapeBytes_cons, ← hrecords, ← List.drop_drop, hrest, List.drop_left]
    · rw [if_neg hmore] at h
      obtain ⟨_, hreject, -⟩ := Prog.granted_bind_eq_ok.mp h
      exact hend (not_not.mp (rejectIf_eq_ok.mp hreject))

/-- A number in decimal, without leading zeros. -/
def decimalText (value : Nat) : List UInt8 :=
  (Nat.digits 10 value).reverse.map fun digit => .ofNat (0x30 + digit)

theorem asciiDigit_text {digit : Nat} (h : digit < 10) :
    IsDigit 10 (.ofNat (0x30 + digit)) ∧ asciiDigit (.ofNat (0x30 + digit)) = digit := by
  rw [IsDigit, asciiDigit, UInt8.toNat_ofNat', Nat.mod_eq_of_lt (by omega)]
  omega

theorem decimalValue_text (value : Nat) : decimalValue (decimalText value) = value := by
  have hdigits : (decimalText value).map asciiDigit = (Nat.digits 10 value).reverse := by
    rw [decimalText, List.map_map]
    refine (List.map_congr_left fun digit hmem => ?_).trans (List.map_id _)
    exact (asciiDigit_text (Nat.digits_lt_base (by decide) (List.mem_reverse.mp hmem))).2
  rw [decimalValue, numeral, hdigits, List.reverse_reverse, Nat.ofDigits_digits]

theorem decimalText_decimal {value : Nat} (hpos : value ≠ 0) (hlt : value < 2 ^ 64) :
    DecimalText (2 ^ 64) (decimalText value) := by
  refine ⟨fun hnil => hpos ?_, fun byte hmem => ?_, by rwa [decimalValue_text]⟩
  · rw [← decimalValue_text value, hnil]
    rfl
  · obtain ⟨digit, hdigit, rfl⟩ := List.mem_map.mp hmem
    exact (asciiDigit_text (Nat.digits_lt_base (by decide) (List.mem_reverse.mp hdigit))).1

theorem length_decimalText (value : Nat) :
    (decimalText value).length = (Nat.digits 10 value).length := by
  rw [decimalText, List.length_map, List.length_reverse]

/-- `size` counts `rest` bytes and its own digits. -/
theorem exists_selfLength (rest : Nat) :
    ∃ size, size = (decimalText size).length + rest := by
  have hexists : ∃ digits, digits + rest < 10 ^ digits := by
    refine ⟨rest + 1, ?_⟩
    have hlt : rest < 10 ^ rest := Nat.lt_pow_self (by decide)
    have hpow : 10 ^ (rest + 1) = 10 ^ rest * 10 := Nat.pow_succ _ _
    omega
  -- With one digit less the number no longer fits, so it has all of them.
  have hfits := Nat.find_spec hexists
  have hleast : ∀ digits < Nat.find hexists, 10 ^ digits ≤ digits + rest :=
    fun digits hlt => Nat.le_of_not_lt (Nat.find_min hexists hlt)
  generalize Nat.find hexists = digits at hfits hleast
  refine ⟨digits + rest, ?_⟩
  have hle := (Nat.digits_length_le_iff (by decide) (digits + rest)).mpr hfits
  have hge : digits ≤ (Nat.digits 10 (digits + rest)).length := by
    cases digits with
    | zero => exact Nat.zero_le _
    | succ digits =>
      have hlow := hleast digits (Nat.lt_succ_self digits)
      exact (Nat.lt_digits_length_iff (by decide) _).mpr (by omega)
  rw [length_decimalText]
  omega

/-- A key and a value as one record, with its own length in front. -/
def Encoded (pair : List UInt8 × List UInt8) (bytes : List UInt8) : Prop :=
  ∃ size, bytes = decimalText size ++ 0x20 :: (pair.1 ++ 0x3d :: (pair.2 ++ [0x0a])) ∧
    size = bytes.length

theorem exists_encoded (pair : List UInt8 × List UInt8) : ∃ bytes, Encoded pair bytes := by
  obtain ⟨size, hsize⟩ := exists_selfLength (0x20 :: (pair.1 ++ 0x3d :: (pair.2 ++ [0x0a]))).length
  exact ⟨_, size, rfl, by rw [List.length_append]; exact hsize⟩

theorem Encoded.exists_shape {pair : List UInt8 × List UInt8} {bytes : List UInt8}
    (h : Encoded pair bytes) (hplain : 0x3d ∉ pair.1) (hlen : bytes.length < 2 ^ 64) :
    ∃ record : PaxShape, record.bytes = bytes ∧ record.pair = pair := by
  obtain ⟨size, hbytes, rfl⟩ := h
  have hpos : bytes.length ≠ 0 := by
    rw [hbytes, List.length_append, List.length_cons]
    omega
  exact ⟨⟨decimalText bytes.length, pair.1, pair.2, decimalText_decimal hpos hlen,
    by rw [decimalValue_text, ← hbytes], hplain⟩, hbytes.symm, rfl⟩

theorem exists_shapes {pairs : List (List UInt8 × List UInt8)} {records : List (List UInt8)}
    (h : List.Forall₂ Encoded pairs records) (hplain : ∀ pair ∈ pairs, 0x3d ∉ pair.1)
    (hlen : records.flatten.length < 2 ^ 64) :
    ∃ shapes : List PaxShape, shapeBytes shapes = records.flatten ∧
      shapes.map PaxShape.pair = pairs := by
  induction h with
  | nil => exact ⟨[], rfl, rfl⟩
  | @cons pair bytes pairs records hhead _ ih =>
    rw [List.flatten_cons, List.length_append] at hlen
    obtain ⟨hfirst, hrest⟩ := List.forall_mem_cons.mp hplain
    obtain ⟨record, hbytes, hpair⟩ := hhead.exists_shape hfirst (by omega)
    obtain ⟨shapes, hshapes, hpairs⟩ := ih hrest (by omega)
    exact ⟨record :: shapes, by rw [shapeBytes_cons, hbytes, hshapes, List.flatten_cons],
      by rw [List.map_cons, hpair, hpairs]⟩

/-- Every encoding of a list of pairs is read back as the last value of each key, each
list has one, and nothing is accepted but a list of records. -/
theorem parsePax_exact (limits : Limits) (totals : ArchiveTotals) (values : PaxValues) :
    (∀ pairs : List (List UInt8 × List UInt8), (∀ pair ∈ pairs, 0x3d ∉ pair.1) →
      PairsAllowed pairs → PairsWithin limits pairs →
      totals.properties + pairs.length < 2 ^ 64 →
      totals.properties + pairs.length ≤ limits.maxHeaderProperties →
      (∃ records, List.Forall₂ Encoded pairs records) ∧
      ∀ records, List.Forall₂ Encoded pairs records → records.flatten.length < 2 ^ 64 →
        (parsePax records.flatten values limits totals).granted =
          .ok (values.updated pairs, totals.addProperties pairs.length)) ∧
    ∀ data result, (parsePax data values limits totals).granted = .ok result →
      ∃ records : List PaxShape, data = records.flatMap PaxShape.bytes := by
  refine ⟨fun pairs hplain hallowed hwithin hroom hcount => ⟨?_, ?_⟩, ?_⟩
  · clear hplain hallowed hwithin hroom hcount
    induction pairs with
    | nil => exact ⟨[], .nil⟩
    | cons pair pairs ih =>
      obtain ⟨bytes, hbytes⟩ := exists_encoded pair
      obtain ⟨records, hrecords⟩ := ih
      exact ⟨bytes :: records, .cons hbytes hrecords⟩
  · intro records hrecords hlen
    obtain ⟨shapes, hbytes, rfl⟩ := exists_shapes hrecords hplain hlen
    rw [List.length_map] at hroom hcount ⊢
    rw [← hbytes] at hlen ⊢
    rw [parsePax_shapes shapes hlen hallowed hwithin hroom hcount values, PaxValues.setPairs_eq]
  · intro data result h
    obtain ⟨records, hrecords⟩ := parsePaxLoop_ok h
    exact ⟨records, hrecords⟩

/-- A user with one digit. -/
def uidRecord (digit : UInt8) : List UInt8 := [0x38, 0x20] ++ keyUid ++ [0x3d, digit, 0x0a]

/-- Of two users the last counts. -/
theorem parsePax_exact_users :
    (parsePax [uidRecord 0x37, uidRecord 0x39].flatten PaxValues.default Limits.default
      ArchiveTotals.default).granted =
        .ok ({ PaxValues.default with uid := some 9 }, ArchiveTotals.default.addProperties 2) := by
  have hallowed : PairsAllowed [(keyUid, [0x37]), (keyUid, [0x39])] := by
    intro pair hpair
    rcases List.mem_pair.mp hpair with rfl | rfl <;>
      exact ⟨fun h => absurd h (by decide), fun _ => ⟨by decide, List.forall_mem_singleton.mpr
        ⟨by decide, by decide⟩, by decide⟩, fun h => absurd h (by decide)⟩
  have hwithin : PairsWithin Limits.default [(keyUid, [0x37]), (keyUid, [0x39])] :=
    fun pair hpair _ => by rcases List.mem_pair.mp hpair with rfl | rfl <;> decide
  exact ((parsePax_exact .default .default .default).1 _ (by decide) hallowed hwithin
    (by decide) (by decide)).2 _ (.cons ⟨8, by decide, rfl⟩ (.cons ⟨8, by decide, rfl⟩ .nil))
      (by decide)

end Deb
end Unpackio
