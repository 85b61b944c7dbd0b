/-
Bounds-checked reading of a byte slice, from `bounded.rs`, and little-endian
numbers.

`Reads p written a` says that `p` started before the bytes `written` yields `a`
and stops right after them, whatever surrounds them.  It composes along `>>=`,
which is how every round trip of the header syntax is assembled.
-/
import Unpackio.ParseUtil

namespace Unpackio

open List (append_assoc append_nil cons_append nil_append)

def fromLeBytes : List UInt8 → Nat
  | [] => 0
  | byte :: rest => byte.toNat + 256 * fromLeBytes rest

def toLeBytes : Nat → Nat → List UInt8
  | 0, _ => []
  | count + 1, value => UInt8.ofNat value :: toLeBytes count (value / 256)

@[simp] theorem length_toLeBytes (count value : Nat) :
    (toLeBytes count value).length = count := by
  induction count generalizing value with
  | zero => rfl
  | succ count ih => simp [toLeBytes, ih]

theorem fromLeBytes_lt (bytes : List UInt8) : fromLeBytes bytes < 256 ^ bytes.length := by
  induction bytes with
  | nil => exact Nat.one_pos
  | cons byte rest ih =>
    have hbyte := byte.toNat_lt
    rw [fromLeBytes, List.length_cons, Nat.pow_succ]
    omega

theorem fromLeBytes_toLeBytes (count value : Nat) :
    fromLeBytes (toLeBytes count value) = value % 256 ^ count := by
  induction count generalizing value with
  | zero => rw [Nat.pow_zero, Nat.mod_one]; rfl
  | succ count ih =>
    rw [toLeBytes, fromLeBytes, ih, UInt8.toNat_ofNat',
      show 256 ^ (count + 1) = 256 * 256 ^ count from Nat.pow_succ']
    exact (Nat.mod_mul (x := value) (a := 256) (b := 256 ^ count)).symm

theorem toLeBytes_fromLeBytes (bytes : List UInt8) :
    toLeBytes bytes.length (fromLeBytes bytes) = bytes := by
  induction bytes with
  | nil => rfl
  | cons byte rest ih =>
    have hbyte := byte.toNat_lt
    have hlow : UInt8.ofNat (byte.toNat + 256 * fromLeBytes rest) = byte := by
      rw [← UInt8.toNat_inj, UInt8.toNat_ofNat']
      omega
    rw [fromLeBytes, List.length_cons, toLeBytes, hlow,
      show (byte.toNat + 256 * fromLeBytes rest) / 256 = fromLeBytes rest by omega, ih]

theorem bytePow_two : 256 ^ 2 = 2 ^ 16 := rfl

theorem bytePow_four : 256 ^ 4 = 2 ^ 32 := rfl

theorem bytePow_sixteen : 256 ^ 16 = 2 ^ 128 := rfl

/-! ## The reader -/

structure BoundedReader where
  bytes : List UInt8
  position : Nat
  inBounds : position ≤ bytes.length

namespace BoundedReader

def new (bytes : List UInt8) : BoundedReader := ⟨bytes, 0, Nat.zero_le _⟩

def readBytes (reader : BoundedReader) (length : Nat) :
    Except Error (List UInt8 × BoundedReader) :=
  match checkedAdd reader.position length with
  | none => .error (formatError "byte range end overflows this platform")
  | some finish =>
    if h : finish ≤ reader.bytes.length then
      .ok ((reader.bytes.take finish).drop reader.position,
        { reader with position := finish, inBounds := h })
    else .error (formatError "truncated bounded byte range")

def readU8 (reader : BoundedReader) : Except Error (UInt8 × BoundedReader) := do
  let (bytes, reader) ← reader.readBytes 1
  let byte ← okOr bytes.head? (formatError "truncated byte value")
  return (byte, reader)

def readU32Le (reader : BoundedReader) : Except Error (UInt32 × BoundedReader) := do
  let (bytes, reader) ← reader.readBytes 4
  return (UInt32.ofNat (fromLeBytes bytes), reader)

def readU64Le (reader : BoundedReader) : Except Error (Nat × BoundedReader) := do
  let (bytes, reader) ← reader.readBytes 8
  return (fromLeBytes bytes, reader)

/-- The loop of `read_7z_uint` over the shifts that are left. -/
def read7zUintFrom (first : Nat) :
    List Nat → Nat → Nat → BoundedReader → Except Error (Nat × BoundedReader)
  | [], _, value, reader => .ok (value, reader)
  | shift :: shifts, mask, value, reader =>
    if first &&& mask = 0 then do
      let lowMask ← okOr (checkedSub mask 1) (formatError "7z integer mask underflows")
      return (value ||| (first &&& lowMask) <<< shift, reader)
    else do
      let (byte, reader) ← reader.readU8
      read7zUintFrom first shifts (mask >>> 1) (value ||| byte.toNat <<< shift) reader

def read7zUint (reader : BoundedReader) : Except Error (Nat × BoundedReader) := do
  let (first, reader) ← reader.readU8
  read7zUintFrom first.toNat [0, 8, 16, 24, 32, 40, 48, 56] 0x80 0 reader

def finish (reader : BoundedReader) (unconsumedDetail : String) : Except Error Unit :=
  if reader.position = reader.bytes.length then .ok ()
  else .error (formatError unconsumedDetail)

/-- The reader that has passed `front` and has `rest` before it. -/
def split (front rest : List UInt8) : BoundedReader :=
  ⟨front ++ rest, front.length, by rw [List.length_append]; omega⟩

theorem new_eq_split (bytes : List UInt8) : new bytes = split [] bytes := rfl

theorem readBytes_split {front written rest : List UInt8}
    (hlen : (front ++ written ++ rest).length < 2 ^ 64) :
    (split front (written ++ rest)).readBytes written.length =
      .ok (written, split (front ++ written) rest) := by
  simp only [List.length_append] at hlen
  have hadd : checkedAdd front.length written.length =
      some (front.length + written.length) := checkedAdd_of_lt (by omega)
  simp only [readBytes, split, hadd, append_assoc, List.length_append,
    List.take_length_add_append, List.take_left', List.drop_left']
  rw [dif_pos (by omega)]

theorem readU8_split {front rest : List UInt8} {byte : UInt8}
    (hlen : (front ++ [byte] ++ rest).length < 2 ^ 64) :
    (split front (byte :: rest)).readU8 = .ok (byte, split (front ++ [byte]) rest) := by
  have h : (split front ([byte] ++ rest)).readBytes [byte].length = _ := readBytes_split hlen
  simp only [readU8]
  rw [show byte :: rest = [byte] ++ rest from rfl, show (1 : Nat) = [byte].length from rfl, h]
  rfl

theorem finish_split (front rest : List UInt8) (detail : String) :
    (split front rest).finish detail =
      if rest = [] then .ok () else .error (formatError detail) := by
  unfold finish split
  cases rest <;> simp

end BoundedReader

abbrev Reading (α : Type) : Type := StateT BoundedReader (Prog Nat Error) α

def reading {α : Type} (f : BoundedReader → Except Error (α × BoundedReader)) : Reading α :=
  fun reader => .done (f reader)

/-- `p` reads exactly `written` and yields `a`. -/
def Reads {α : Type} (p : Reading α) (written : List UInt8) (a : α) : Prop :=
  ∀ front rest, (front ++ written ++ rest).length < 2 ^ 64 →
    (p (.split front (written ++ rest))).granted = .ok (a, .split (front ++ written) rest)

namespace Reads

variable {α β : Type} {p : Reading α} {f : α → Reading β}

theorem pure (a : α) : Reads (Pure.pure a) [] a := by
  intro front rest _
  rw [append_nil]
  rfl

theorem bind {written₁ written₂ : List UInt8} {a : α} {b : β}
    (hp : Reads p written₁ a) (hf : Reads (f a) written₂ b) :
    Reads (p >>= f) (written₁ ++ written₂) b := by
  intro front rest hlen
  have h₁ := hp front (written₂ ++ rest) (by simpa only [append_assoc] using hlen)
  have h₂ := hf (front ++ written₁) rest (by simpa only [append_assoc] using hlen)
  show ((p _ >>= fun x => f x.1 x.2) : Prog Nat Error _).granted = _
  rw [append_assoc written₁, Prog.granted_bind, h₁, Except.ok_bind, h₂,
    append_assoc front]

theorem seq_nil {written : List UInt8} {a : α} {b : β}
    (hp : Reads p [] a) (hf : Reads (f a) written b) : Reads (p >>= f) written b :=
  bind hp hf

theorem bind_nil {written : List UInt8} {a : α} {b : β}
    (hp : Reads p written a) (hf : Reads (f a) [] b) : Reads (p >>= f) written b := by
  have h := bind hp hf
  rwa [append_nil] at h

theorem lift {m : Prog Nat Error α} {a : α} (h : m.granted = .ok a) :
    Reads (liftM m) [] a := by
  intro front rest _
  show ((m >>= fun x => Pure.pure (x, _)) : Prog Nat Error _).granted = _
  rw [Prog.granted_bind, h, append_nil]
  rfl

theorem liftExcept {m : Except Error α} {a : α} (h : m = .ok a) :
    Reads (liftM m) [] a := by
  subst h
  intro front rest _
  rw [append_nil]
  rfl

theorem readBytes (written : List UInt8) :
    Reads (reading fun reader => reader.readBytes written.length) written written :=
  fun _ _ hlen => BoundedReader.readBytes_split hlen

theorem readU8 (byte : UInt8) : Reads (reading BoundedReader.readU8) [byte] byte :=
  fun _ _ hlen => BoundedReader.readU8_split hlen

theorem readU32Le (value : UInt32) :
    Reads (reading BoundedReader.readU32Le) (toLeBytes 4 value.toNat) value := by
  intro front rest hlen
  have h : BoundedReader.readBytes _ (toLeBytes 4 value.toNat).length = _ :=
    BoundedReader.readBytes_split hlen
  rw [length_toLeBytes] at h
  have hvalue : UInt32.ofNat (fromLeBytes (toLeBytes 4 value.toNat)) = value := by
    rw [fromLeBytes_toLeBytes, bytePow_four, Nat.mod_eq_of_lt value.toNat_lt, UInt32.ofNat_toNat]
  simp only [reading, BoundedReader.readU32Le, Prog.granted_done, h, Except.ok_bind, hvalue]
  rfl

end Reads

/-- The form of a 7z integer with `extra` bytes after the first. -/
def write7zUintForm (extra value : Nat) : List UInt8 :=
  UInt8.ofNat (256 - 2 ^ (8 - extra) + value / 256 ^ extra) :: toLeBytes extra value

/-- A value fits the form with `extra` bytes after the first. -/
def Fits7zUint (extra value : Nat) : Prop :=
  extra ≤ 8 ∧ value / 256 ^ extra < 2 ^ (7 - extra)

theorem fits7zUint_first_lt {extra value : Nat} (h : Fits7zUint extra value) :
    256 - 2 ^ (8 - extra) + value / 256 ^ extra < 256 := by
  obtain ⟨hle, hfit⟩ := h
  have hpow : 2 ^ (8 - extra) ≤ 2 ^ 8 := Nat.pow_le_pow_right (by omega) (by omega)
  have hhalf : 2 ^ (7 - extra) ≤ 2 ^ (8 - extra) := Nat.pow_le_pow_right (by omega) (by omega)
  omega

theorem first_marker_ne_zero : ∀ extra < 9, ∀ high < 2 ^ (7 - extra), ∀ done < extra,
    (256 - 2 ^ (8 - extra) + high) &&& 0x80 >>> done ≠ 0 := by decide

theorem first_high_bits : ∀ extra < 8, ∀ high < 2 ^ (7 - extra),
    1 ≤ 0x80 >>> extra ∧ (256 - 2 ^ (8 - extra) + high) &&& 0x80 >>> extra = 0 ∧
      (256 - 2 ^ (8 - extra) + high) &&& (0x80 >>> extra - 1) = high := by decide

theorem mod_or_shiftLeft (value high done : Nat) :
    value % 256 ^ done ||| high <<< (8 * done) = value % 256 ^ done + 256 ^ done * high := by
  have hpow : 256 ^ done = 2 ^ (8 * done) := by rw [Nat.pow_mul]
  have hlt : value % 256 ^ done < 2 ^ (8 * done) :=
    hpow ▸ Nat.mod_lt _ (Nat.pow_pos (by decide))
  rw [Nat.or_comm, ← Nat.shiftLeft_add_eq_or_of_lt hlt, Nat.shiftLeft_eq, hpow,
    Nat.mul_comm, Nat.add_comm]

/-- What the loop does once `done` of the `extra` bytes are in the value.  The
induction is on the bytes still to come. -/
theorem read7zUintFrom_split {extra value : Nat} (hfit : Fits7zUint extra value)
    (left done : Nat) (hsum : done + left = extra) (front rest : List UInt8)
    (hlen : (front ++ toLeBytes left (value / 256 ^ done) ++ rest).length < 2 ^ 64) :
    BoundedReader.read7zUintFrom (256 - 2 ^ (8 - extra) + value / 256 ^ extra)
        ((List.range' done (8 - done)).map (8 * ·)) (0x80 >>> done) (value % 256 ^ done)
        (.split front (toLeBytes left (value / 256 ^ done) ++ rest)) =
      .ok (value, .split (front ++ toLeBytes left (value / 256 ^ done)) rest) := by
  obtain ⟨hextra, hhigh⟩ := hfit
  induction left generalizing done front with
  | zero =>
    obtain rfl : done = extra := by omega
    simp only [toLeBytes, nil_append, append_nil]
    rcases Nat.lt_or_ge done 8 with hlt | hge
    · obtain ⟨hpos, hclear, hmask⟩ := first_high_bits done hlt _ hhigh
      rw [show 8 - done = (7 - done) + 1 by omega, List.range'_succ, List.map_cons,
        BoundedReader.read7zUintFrom, ← show 8 - done = (7 - done) + 1 by omega, if_pos hclear,
        checkedSub_of_le hpos, okOr_bind, hmask, mod_or_shiftLeft, Nat.mod_add_div]
      rfl
    · obtain rfl : done = 8 := by omega
      have hsmall : value < 256 ^ 8 := by omega
      rw [Nat.mod_eq_of_lt hsmall]
      rfl
  | succ left ih =>
    have hset := first_marker_ne_zero extra (by omega) _ hhigh done (by omega)
    have hbyte : (UInt8.ofNat (value / 256 ^ done)).toNat = value / 256 ^ done % 256 := by
      rw [UInt8.toNat_ofNat']
    have hnext : value / 256 ^ done / 256 = value / 256 ^ (done + 1) := by
      rw [Nat.div_div_eq_div_mul, Nat.pow_succ]
    have hacc : value % 256 ^ done + 256 ^ done * (value / 256 ^ done % 256) =
        value % 256 ^ (done + 1) := by
      rw [Nat.pow_succ, Nat.mod_mul]
    rw [toLeBytes, hnext] at hlen ⊢
    have hroom : (front ++ [UInt8.ofNat (value / 256 ^ done)] ++
        (toLeBytes left (value / 256 ^ (done + 1)) ++ rest)).length < 2 ^ 64 := by
      simpa only [append_assoc, cons_append, nil_append] using hlen
    rw [show 8 - done = (7 - done) + 1 by omega, List.range'_succ, List.map_cons,
      BoundedReader.read7zUintFrom, if_neg hset, cons_append,
      BoundedReader.readU8_split hroom, Except.ok_bind]
    simp only
    rw [hbyte, mod_or_shiftLeft, hacc, ← Nat.shiftRight_add,
      show 7 - done = 8 - (done + 1) by omega,
      ih (done + 1) (by omega) (front ++ [UInt8.ofNat (value / 256 ^ done)])
        (by simpa only [append_assoc] using hroom),
      append_assoc, List.singleton_append]

theorem Reads.read7zUint_form {extra value : Nat} (hfit : Fits7zUint extra value) :
    Reads (reading BoundedReader.read7zUint) (write7zUintForm extra value) value := by
  intro front rest hlen
  have hfirst : (UInt8.ofNat (256 - 2 ^ (8 - extra) + value / 256 ^ extra)).toNat =
      256 - 2 ^ (8 - extra) + value / 256 ^ extra := by
    rw [UInt8.toNat_ofNat', Nat.mod_eq_of_lt (fits7zUint_first_lt hfit)]
  have hroom : (front ++ [UInt8.ofNat (256 - 2 ^ (8 - extra) + value / 256 ^ extra)] ++
      (toLeBytes extra value ++ rest)).length < 2 ^ 64 := by
    simpa only [write7zUintForm, append_assoc, cons_append,
      nil_append] using hlen
  have hloop := read7zUintFrom_split hfit extra 0 (by omega)
    (front ++ [UInt8.ofNat (256 - 2 ^ (8 - extra) + value / 256 ^ extra)]) rest
    (by simpa only [Nat.pow_zero, Nat.div_one, append_assoc] using hroom)
  rw [Nat.pow_zero, Nat.div_one, Nat.mod_one] at hloop
  simp only [reading, Prog.granted_done, BoundedReader.read7zUint, write7zUintForm,
    cons_append]
  rw [BoundedReader.readU8_split hroom, Except.ok_bind]
  simp only [hfirst]
  refine hloop.trans ?_
  rw [append_assoc, List.singleton_append]

/-- The number of bytes after the first in the shortest form. -/
def extra7zUint (value : Nat) : Nat :=
  if value < 2 ^ 7 then 0 else if value < 2 ^ 14 then 1 else if value < 2 ^ 21 then 2
  else if value < 2 ^ 28 then 3 else if value < 2 ^ 35 then 4 else if value < 2 ^ 42 then 5
  else if value < 2 ^ 49 then 6 else if value < 2 ^ 56 then 7 else 8

/-- The shortest form of a 7z integer. -/
def write7zUint (value : Nat) : List UInt8 := write7zUintForm (extra7zUint value) value

theorem fits_extra7zUint {value : Nat} (h : value < 2 ^ 64) :
    Fits7zUint (extra7zUint value) value := by
  unfold extra7zUint Fits7zUint
  repeat' split
  all_goals omega

theorem Reads.read7zUint {value : Nat} (h : value < 2 ^ 64) :
    Reads (reading BoundedReader.read7zUint) (write7zUint value) value :=
  Reads.read7zUint_form (fits_extra7zUint h)

end Unpackio
