/-
Numbers and bytes as lists of bits, the least significant bit first, and bytes as
bits with the most significant bit first.

`packBits` fills bytes from a bit list and pads the last one with zeros.  Reading
a field back from a number is taking bits from the list.
-/
import Mathlib.Data.List.Basic
import Mathlib.Data.Nat.Bitwise

namespace BitPack

/-- The low `width` bits of a number. -/
def bitsOf : Nat → Nat → List Bool
  | 0, _ => []
  | width + 1, value => value.testBit 0 :: bitsOf width (value / 2)

def ofBits : List Bool → Nat
  | [] => 0
  | bit :: bits => bit.toNat + 2 * ofBits bits

def bytesToBits (bytes : List UInt8) : List Bool := bytes.flatMap fun byte => bitsOf 8 byte.toNat

def packBits (bits : List Bool) : List UInt8 :=
  (List.range ((bits.length + 7) / 8)).map fun i =>
    UInt8.ofNat (ofBits ((bits.drop (8 * i)).take 8))

@[simp] theorem length_bitsOf (width value : Nat) : (bitsOf width value).length = width := by
  induction width generalizing value with
  | zero => rfl
  | succ width ih => rw [bitsOf, List.length_cons, ih]

theorem testBit_zero_toNat (value : Nat) : (value.testBit 0).toNat = value % 2 := by
  rw [Nat.testBit_zero]
  rcases Nat.mod_two_eq_zero_or_one value with h | h <;> simp [h]

theorem ofBits_bitsOf (width value : Nat) : ofBits (bitsOf width value) = value % 2 ^ width := by
  induction width generalizing value with
  | zero => rw [Nat.pow_zero, Nat.mod_one]; rfl
  | succ width ih =>
    rw [bitsOf, ofBits, ih, testBit_zero_toNat, Nat.pow_succ', ← Nat.mod_mul]

theorem ofBits_lt (bits : List Bool) : ofBits bits < 2 ^ bits.length := by
  induction bits with
  | nil => exact Nat.one_pos
  | cons bit bits ih =>
    have hbit := Bool.toNat_lt bit
    rw [ofBits, List.length_cons, Nat.pow_succ]
    omega

theorem bitsOf_ofBits (bits : List Bool) : bitsOf bits.length (ofBits bits) = bits := by
  induction bits with
  | nil => rfl
  | cons bit bits ih =>
    have hhead : (ofBits (bit :: bits)).testBit 0 = bit := by
      rw [ofBits, Nat.testBit_zero]
      cases bit <;> simp [Nat.add_mod]
    have htail : ofBits (bit :: bits) / 2 = ofBits bits := by
      have hbit := Bool.toNat_lt bit
      rw [ofBits]
      omega
    rw [List.length_cons, bitsOf, hhead, htail, ih]

theorem ofBits_append (front rest : List Bool) :
    ofBits (front ++ rest) = ofBits front + 2 ^ front.length * ofBits rest := by
  induction front with
  | nil => simp [ofBits]
  | cons bit front ih =>
    rw [List.cons_append, ofBits, ih, ofBits, List.length_cons, Nat.pow_succ', Nat.mul_add,
      Nat.mul_assoc, Nat.add_assoc]

theorem ofBits_replicate_false (n : Nat) : ofBits (List.replicate n false) = 0 := by
  induction n with
  | zero => rfl
  | succ n ih => rw [List.replicate_succ, ofBits, ih]; rfl

theorem ofBits_replicate_true (n : Nat) : ofBits (List.replicate n true) = 2 ^ n - 1 := by
  induction n with
  | zero => rfl
  | succ n ih =>
    have hpos := Nat.two_pow_pos n
    rw [List.replicate_succ, ofBits, ih, Nat.pow_succ, Bool.toNat_true]
    omega

theorem bitsOf_ones (n : Nat) : bitsOf n (2 ^ n - 1) = List.replicate n true := by
  have h := bitsOf_ofBits (List.replicate n true)
  rwa [List.length_replicate, ofBits_replicate_true] at h

theorem ofBits_split (bits : List Bool) (n : Nat) :
    ofBits (bits.take n) < 2 ^ n ∧
      ofBits bits = ofBits (bits.take n) + 2 ^ n * ofBits (bits.drop n) := by
  refine ⟨(ofBits_lt _).trans_le (Nat.pow_le_pow_right Nat.two_pos (List.length_take_le _ _)), ?_⟩
  rcases Nat.le_total n bits.length with h | h
  · have happend := ofBits_append (bits.take n) (bits.drop n)
    rwa [List.take_append_drop, List.length_take, Nat.min_eq_left h] at happend
  · rw [List.take_of_length_le h, List.drop_eq_nil_of_le h]
    rfl

theorem ofBits_drop (bits : List Bool) (n : Nat) : ofBits (bits.drop n) = ofBits bits >>> n := by
  obtain ⟨hlt, hsplit⟩ := ofBits_split bits n
  rw [hsplit, Nat.shiftRight_eq_div_pow, Nat.add_mul_div_left _ _ (Nat.two_pow_pos n),
    Nat.div_eq_of_lt hlt, Nat.zero_add]

theorem ofBits_take (bits : List Bool) (n : Nat) : ofBits (bits.take n) = ofBits bits % 2 ^ n := by
  obtain ⟨hlt, hsplit⟩ := ofBits_split bits n
  rw [hsplit, Nat.add_mul_mod_self_left, Nat.mod_eq_of_lt hlt]

/-- The field of `width` bits from bit `offset`. -/
theorem ofBits_field (bits : List Bool) (offset width : Nat) :
    ofBits ((bits.drop offset).take width) = (ofBits bits >>> offset) % 2 ^ width := by
  rw [ofBits_take, ofBits_drop]

/-! ## Bits in bytes -/

@[simp] theorem bytesToBits_nil : bytesToBits [] = [] := rfl

@[simp] theorem bytesToBits_cons (byte : UInt8) (bytes : List UInt8) :
    bytesToBits (byte :: bytes) = bitsOf 8 byte.toNat ++ bytesToBits bytes := rfl

@[simp] theorem bytesToBits_append (front rest : List UInt8) :
    bytesToBits (front ++ rest) = bytesToBits front ++ bytesToBits rest := List.flatMap_append

@[simp] theorem length_bytesToBits (bytes : List UInt8) :
    (bytesToBits bytes).length = 8 * bytes.length := by
  induction bytes with
  | nil => rfl
  | cons byte bytes ih =>
    rw [bytesToBits_cons, List.length_append, length_bitsOf, ih, List.length_cons]
    omega

theorem bytesToBits_drop (bytes : List UInt8) (n : Nat) :
    bytesToBits (bytes.drop n) = (bytesToBits bytes).drop (8 * n) := by
  induction n generalizing bytes with
  | zero => rfl
  | succ n ih =>
    cases bytes with
    | nil => exact List.drop_nil.symm
    | cons byte bytes =>
      rw [List.drop_succ_cons, ih, bytesToBits_cons, Nat.mul_succ, Nat.add_comm, ← List.drop_drop,
        List.drop_left' (length_bitsOf 8 _)]

theorem bytesToBits_take (bytes : List UInt8) (n : Nat) :
    bytesToBits (bytes.take n) = (bytesToBits bytes).take (8 * n) := by
  have happend := bytesToBits_append (bytes.take n) (bytes.drop n)
  rw [List.take_append_drop, bytesToBits_drop] at happend
  exact (List.append_cancel_right ((List.take_append_drop _ _).trans happend)).symm

@[simp] theorem length_packBits (bits : List Bool) :
    (packBits bits).length = (bits.length + 7) / 8 := by
  rw [packBits, List.length_map, List.length_range]

@[simp] theorem packBits_nil : packBits [] = [] := rfl

theorem packBits_of_ne_nil {bits : List Bool} (h : bits ≠ []) :
    packBits bits = UInt8.ofNat (ofBits (bits.take 8)) :: packBits (bits.drop 8) := by
  have hpos : 0 < bits.length := List.length_pos_iff.mpr h
  have hcount : (bits.length + 7) / 8 = ((bits.drop 8).length + 7) / 8 + 1 := by
    rw [List.length_drop]
    omega
  rw [packBits, hcount, List.range_succ_eq_map, List.map_cons, Nat.mul_zero, List.drop_zero,
    List.map_map, packBits]
  refine congrArg _ (List.map_congr_left fun i _ => ?_)
  simp only [Function.comp_apply, List.drop_drop, Nat.succ_eq_add_one, Nat.mul_add, Nat.mul_one]
  rw [Nat.add_comm]

/-- The zeros that fill the last byte of `n` bits. -/
def padding (n : Nat) : List Bool := List.replicate (8 * ((n + 7) / 8) - n) false

theorem bytesToBits_packBits (bits : List Bool) :
    bytesToBits (packBits bits) = bits ++ padding bits.length := by
  induction hn : bits.length using Nat.strongRecOn generalizing bits with
  | _ n ih =>
    by_cases hne : bits = []
    · subst hne
      subst hn
      rfl
    · have hpos : 0 < bits.length := List.length_pos_iff.mpr hne
      have hlt : ofBits (bits.take 8) < 256 :=
        (ofBits_lt _).trans_le (Nat.pow_le_pow_right Nat.two_pos
          (List.length_take_le 8 bits) |>.trans_eq (by rfl))
      rw [packBits_of_ne_nil hne, bytesToBits_cons, UInt8.toNat_ofNat', Nat.mod_eq_of_lt hlt]
      rcases Nat.le_total 8 bits.length with h8 | h8
      · have hlen : (bits.take 8).length = 8 := by rw [List.length_take, Nat.min_eq_left h8]
        have hbits := bitsOf_ofBits (bits.take 8)
        rw [hlen] at hbits
        have hpad : padding (n - 8) = padding n := by
          rw [padding, padding]
          congr 1
          omega
        rw [hbits, ih _ (by rw [List.length_drop]; omega) (bits.drop 8) rfl, List.length_drop, hn,
          hpad, ← List.append_assoc, List.take_append_drop]
      · have hsplit : bits ++ padding n = bits ++ List.replicate (8 - bits.length) false := by
          rw [padding, hn]
          congr 2
          omega
        have hvalue : ofBits (bits.take 8) =
            ofBits (bits ++ List.replicate (8 - bits.length) false) := by
          rw [List.take_of_length_le h8, ofBits_append, ofBits_replicate_false, Nat.mul_zero,
            Nat.add_zero]
        have hwhole := bitsOf_ofBits (bits ++ List.replicate (8 - bits.length) false)
        rw [List.length_append, List.length_replicate, Nat.add_sub_cancel' h8] at hwhole
        rw [hvalue, hwhole, List.drop_eq_nil_of_le h8, packBits_nil, bytesToBits_nil,
          List.append_nil, hsplit]

/-! ## The most significant bit first -/

def msbBits (bytes : List UInt8) : List Bool :=
  bytes.flatMap fun byte => (bitsOf 8 byte.toNat).reverse

@[simp] theorem msbBits_nil : msbBits [] = [] := rfl

@[simp] theorem msbBits_cons (byte : UInt8) (bytes : List UInt8) :
    msbBits (byte :: bytes) = (bitsOf 8 byte.toNat).reverse ++ msbBits bytes := rfl

@[simp] theorem length_msbBits (bytes : List UInt8) :
    (msbBits bytes).length = 8 * bytes.length := by
  induction bytes with
  | nil => rfl
  | cons byte bytes ih =>
    rw [msbBits_cons, List.length_append, List.length_reverse, length_bitsOf, ih, List.length_cons]
    omega

theorem reverse_bitsOf_drop (value : Nat) {offset : Nat} (h : offset < 8) :
    (bitsOf 8 value).reverse.drop offset =
      value.testBit (7 - offset) :: (bitsOf 8 value).reverse.drop (offset + 1) := by
  have hbits : bitsOf 8 value = [value.testBit 0, value.testBit 1, value.testBit 2,
      value.testBit 3, value.testBit 4, value.testBit 5, value.testBit 6, value.testBit 7] := by
    simp only [bitsOf, Nat.testBit_succ]
  rw [hbits]
  match offset, h with
  | 0, _ | 1, _ | 2, _ | 3, _ | 4, _ | 5, _ | 6, _ | 7, _ => rfl

theorem msbBits_drop {bytes : List UInt8} {place : Nat} (h : place / 8 < bytes.length) :
    (msbBits bytes).drop place =
      (bytes.get ⟨place / 8, h⟩).toNat.testBit (7 - place % 8) ::
        (msbBits bytes).drop (place + 1) := by
  induction bytes generalizing place with
  | nil => exact absurd h (Nat.not_lt_zero _)
  | cons byte bytes ih =>
    have hcount : (bitsOf 8 byte.toNat).reverse.length = 8 := by
      rw [List.length_reverse, length_bitsOf]
    by_cases hfirst : place < 8
    · have hzero : place / 8 = 0 := Nat.div_eq_of_lt hfirst
      have hmod : place % 8 = place := Nat.mod_eq_of_lt hfirst
      rw [msbBits_cons, List.drop_append_of_le_length (by omega),
        List.drop_append_of_le_length (by omega), reverse_bitsOf_drop _ hfirst, hmod,
        List.cons_append]
      congr 2
      simp only [hzero]
      rfl
    · obtain ⟨rest, rfl⟩ : ∃ rest, place = 8 + rest := Nat.exists_eq_add_of_le (by omega)
      have hdiv : (8 + rest) / 8 = rest / 8 + 1 := by omega
      have hmod : (8 + rest) % 8 = rest % 8 := by omega
      have hdrop : ∀ n, (msbBits (byte :: bytes)).drop (8 + n) = (msbBits bytes).drop n := by
        intro n
        rw [msbBits_cons, ← List.drop_drop, List.drop_left' hcount]
      rw [List.length_cons, hdiv] at h
      have hrest := ih (show rest / 8 < bytes.length by omega)
      rw [hdrop, Nat.add_assoc, hdrop, hrest, hmod]
      congr 2
      simp only [hdiv]
      rfl

/-- The bytes of whole groups of eight bits. -/
def octets (bits : List Bool) : List UInt8 :=
  (List.range (bits.length / 8)).map fun i =>
    UInt8.ofNat (ofBits ((bits.drop (8 * i)).take 8).reverse)

/-- The bytes that hold the bits, the last of them filled with zeros. -/
def packMsbBits (bits : List Bool) : List UInt8 := octets (bits ++ padding bits.length)

theorem octets_append {front : List Bool} (hfront : front.length = 8) (bits : List Bool) :
    octets (front ++ bits) = UInt8.ofNat (ofBits front.reverse) :: octets bits := by
  have hcount : (front ++ bits).length / 8 = bits.length / 8 + 1 := by
    rw [List.length_append, hfront]
    omega
  rw [octets, hcount, List.range_succ_eq_map, List.map_cons, Nat.mul_zero, List.drop_zero,
    List.take_left' hfront, List.map_map]
  refine congrArg _ (List.map_congr_left fun i _ => ?_)
  simp only [Function.comp_apply, Nat.succ_eq_add_one]
  rw [Nat.mul_add, Nat.mul_one, Nat.add_comm, ← List.drop_drop, List.drop_left' hfront]

theorem octets_append_of_dvd {front : List Bool} (h : 8 ∣ front.length) (bits : List Bool) :
    octets (front ++ bits) = octets front ++ octets bits := by
  obtain ⟨count, hcount⟩ := h
  induction count generalizing front with
  | zero =>
    rw [List.length_eq_zero_iff.mp hcount]
    rfl
  | succ count ih =>
    have hfirst : (front.take 8).length = 8 := by
      rw [List.length_take]
      omega
    have hrest := ih (show (front.drop 8).length = 8 * count by
      rw [List.length_drop]
      omega)
    conv => lhs; rw [← List.take_append_drop 8 front, List.append_assoc]
    conv => rhs; rw [← List.take_append_drop 8 front]
    rw [octets_append hfirst, octets_append hfirst, hrest, List.cons_append]

theorem octets_of_lt {bits : List Bool} (h : bits.length < 8) : octets bits = [] := by
  rw [octets, Nat.div_eq_of_lt h]
  rfl

/-- The bits behind the last whole byte do not count. -/
theorem octets_take (bits : List Bool) :
    octets (bits.take (8 * (bits.length / 8))) = octets bits := by
  have hwhole : 8 ∣ (bits.take (8 * (bits.length / 8))).length := by
    rw [List.length_take]
    omega
  have hrest : octets (bits.drop (8 * (bits.length / 8))) = [] := by
    refine octets_of_lt ?_
    rw [List.length_drop]
    omega
  have hbits := octets_append_of_dvd hwhole (bits.drop (8 * (bits.length / 8)))
  rw [List.take_append_drop, hrest, List.append_nil] at hbits
  exact hbits.symm

theorem octets_prefix (bits more : List Bool) : octets bits <+: octets (bits ++ more) := by
  have hwhole : 8 ∣ (bits.take (8 * (bits.length / 8))).length := by
    rw [List.length_take]
    omega
  have hmore := octets_append_of_dvd hwhole (bits.drop (8 * (bits.length / 8)) ++ more)
  rw [← List.append_assoc, List.take_append_drop, octets_take] at hmore
  exact ⟨_, hmore.symm⟩

theorem msbBits_octets {bits : List Bool} {count : Nat} (h : bits.length = 8 * count) :
    msbBits (octets bits) = bits := by
  induction count generalizing bits with
  | zero =>
    rw [List.length_eq_zero_iff.mp h]
    rfl
  | succ count ih =>
    have hfront : (bits.take 8).length = 8 := by
      rw [List.length_take]
      omega
    have hlt := ofBits_lt (bits.take 8).reverse
    have hbits := bitsOf_ofBits (bits.take 8).reverse
    rw [List.length_reverse, hfront] at hlt hbits
    have hrest := ih (show (bits.drop 8).length = 8 * count by
      rw [List.length_drop]
      omega)
    conv => lhs; rw [← List.take_append_drop 8 bits]
    rw [octets_append hfront, msbBits_cons, UInt8.toNat_ofNat', Nat.mod_eq_of_lt hlt, hbits,
      List.reverse_reverse, hrest, List.take_append_drop]

theorem msbBits_packMsbBits (bits : List Bool) :
    msbBits (packMsbBits bits) = bits ++ padding bits.length := by
  have hcount : (bits ++ padding bits.length).length = 8 * ((bits.length + 7) / 8) := by
    rw [List.length_append, padding, List.length_replicate]
    omega
  exact msbBits_octets hcount

end BitPack
