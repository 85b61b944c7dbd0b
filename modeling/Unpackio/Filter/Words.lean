/-
What the filters of `decode/filters.rs` and `decode/phase5_filters.rs` share:
words in a buffer, addresses modulo `2 ^ 32`, and the start offset.

The conversion of a slice of the right length into an array cannot fail, and is
left out.
-/
import Unpackio.Bounded

namespace Unpackio
namespace Filter

/-- `wrapping_add` of `u32`. -/
def wrappingAdd (a b : Nat) : Nat := (a + b) % 2 ^ 32

/-- `wrapping_sub` of `u32`. -/
def wrappingSub (a b : Nat) : Nat := (a + 2 ^ 32 - b) % 2 ^ 32

/-- `wrapping_shl` of `u32` by less than 32. -/
def wrappingShl (value shift : Nat) : Nat := value <<< shift % 2 ^ 32

/-- An instruction pointer that is a multiple of `alignment`. -/
def Aligned (alignment ip : Nat) : Prop := ip < 2 ^ 32 ∧ ip % alignment = 0

def fromBeBytes (bytes : List UInt8) : Nat := fromLeBytes bytes.reverse

def toBeBytes (count value : Nat) : List UInt8 := (toLeBytes count value).reverse

def startingPosition (properties : List UInt8) : Except Error Nat :=
  if properties = [] then return 0
  else do
    rejectIf (properties.length ≠ 4)
      (formatError "branch filter properties must be empty or four bytes")
    return fromLeBytes properties

def writeRange (bytes : List UInt8) (offset : Nat) (new : List UInt8)
    (overflowDetail truncatedDetail : String) : Except Error (List UInt8) := do
  let finish ← okOr (checkedAdd offset new.length) (formatError overflowDetail)
  rejectIf (bytes.length < finish) (formatError truncatedDetail)
  return bytes.take offset ++ (new ++ bytes.drop finish)

def readU32Le (bytes : List UInt8) (offset : Nat) : Except Error Nat := do
  let word ← checkedRange bytes offset 4 "filter word range overflows" "filter word is truncated"
  return fromLeBytes word

def readU32Be (bytes : List UInt8) (offset : Nat) : Except Error Nat := do
  let word ← checkedRange bytes offset 4 "filter word range overflows" "filter word is truncated"
  return fromBeBytes word

def writeWord (bytes : List UInt8) (offset : Nat) (word : List UInt8) : Except Error (List UInt8) :=
  writeRange bytes offset word "filter word range overflows" "filter word is truncated"

/-- `bytes.get(offset + distance)`, with the errors of the source; the first one
cannot occur without a distance. -/
def byteAt (bytes : List UInt8) (offset distance : Nat) (overflowDetail truncatedDetail : String) :
    Except Error UInt8 := do
  let index ← okOr (checkedAdd offset distance) (formatError overflowDetail)
  okOr bytes[index]? (formatError truncatedDetail)

/-! ## Bytes -/

theorem forall_byte {p : UInt8 → Prop} (h : ∀ n : Fin 256, p (UInt8.ofNat n.val)) (byte : UInt8) :
    p byte := by
  have hbyte := h ⟨byte.toNat, byte.toNat_lt⟩
  rwa [UInt8.ofNat_toNat] at hbyte

theorem length_fromBeBytes_lt (bytes : List UInt8) : fromBeBytes bytes < 256 ^ bytes.length := by
  have hlt := fromLeBytes_lt bytes.reverse
  rwa [List.length_reverse] at hlt

@[simp] theorem length_toBeBytes (count value : Nat) : (toBeBytes count value).length = count := by
  rw [toBeBytes, List.length_reverse, length_toLeBytes]

theorem fromBeBytes_toBeBytes (count value : Nat) :
    fromBeBytes (toBeBytes count value) = value % 256 ^ count := by
  rw [fromBeBytes, toBeBytes, List.reverse_reverse, fromLeBytes_toLeBytes]

theorem toBeBytes_fromBeBytes (bytes : List UInt8) :
    toBeBytes bytes.length (fromBeBytes bytes) = bytes := by
  have h := toLeBytes_fromLeBytes bytes.reverse
  rw [List.length_reverse] at h
  rw [toBeBytes, fromBeBytes, h, List.reverse_reverse]

theorem fromLeBytes_append (low high : List UInt8) :
    fromLeBytes (low ++ high) = fromLeBytes low + 256 ^ low.length * fromLeBytes high := by
  induction low with
  | nil => simp [fromLeBytes]
  | cons byte low ih =>
    rw [List.cons_append, fromLeBytes, ih, fromLeBytes, List.length_cons, Nat.pow_succ,
      Nat.mul_add, Nat.add_assoc, Nat.mul_comm _ 256, Nat.mul_assoc]

section

variable {count : Nat} (bytes : List UInt8) (h : count ≤ bytes.length)
include h

theorem fromLeBytes_split : fromLeBytes (bytes.take count) < 256 ^ count ∧
    fromLeBytes bytes =
      fromLeBytes (bytes.take count) + 256 ^ count * fromLeBytes (bytes.drop count) := by
  have hlt := fromLeBytes_lt (bytes.take count)
  have happend := fromLeBytes_append (bytes.take count) (bytes.drop count)
  rw [List.length_take_of_le h] at hlt happend
  exact ⟨hlt, by rwa [List.take_append_drop] at happend⟩

theorem fromLeBytes_take : fromLeBytes (bytes.take count) = fromLeBytes bytes % 256 ^ count := by
  obtain ⟨hlt, hsplit⟩ := fromLeBytes_split bytes h
  rw [hsplit, Nat.add_mul_mod_self_left, Nat.mod_eq_of_lt hlt]

theorem fromLeBytes_drop : fromLeBytes (bytes.drop count) = fromLeBytes bytes / 256 ^ count := by
  obtain ⟨hlt, hsplit⟩ := fromLeBytes_split bytes h
  rw [hsplit, Nat.add_mul_div_left _ _ (Nat.pow_pos (by decide)), Nat.div_eq_of_lt hlt,
    Nat.zero_add]

end

theorem fromLeBytes_four (a b c d : UInt8) :
    fromLeBytes [a, b, c, d] =
      a.toNat + 2 ^ 8 * b.toNat + 2 ^ 16 * c.toNat + 2 ^ 24 * d.toNat := by
  simp only [fromLeBytes]
  omega

theorem fromBeBytes_four (a b c d : UInt8) :
    fromBeBytes [a, b, c, d] =
      2 ^ 24 * a.toNat + 2 ^ 16 * b.toNat + 2 ^ 8 * c.toNat + d.toNat := by
  show fromLeBytes [d, c, b, a] = _
  rw [fromLeBytes_four]
  omega

theorem toLeBytes_four {word : Nat} (h : word < 2 ^ 32) :
    ∃ a b c d, toLeBytes 4 word = [a, b, c, d] ∧ fromLeBytes [a, b, c, d] = word ∧
      a.toNat = word % 2 ^ 8 := by
  have hword : fromLeBytes (toLeBytes 4 word) = word :=
    (fromLeBytes_toLeBytes 4 word).trans (Nat.mod_eq_of_lt h)
  exact ⟨_, _, _, _, rfl, hword, UInt8.toNat_ofNat'⟩

theorem toBeBytes_four {word : Nat} (h : word < 2 ^ 32) :
    ∃ a b c d, toBeBytes 4 word = [a, b, c, d] ∧ fromBeBytes [a, b, c, d] = word := by
  have hword : fromBeBytes (toBeBytes 4 word) = word :=
    (fromBeBytes_toBeBytes 4 word).trans (Nat.mod_eq_of_lt h)
  exact ⟨_, _, _, _, rfl, hword⟩

theorem startingPosition_lt {properties : List UInt8} {start : Nat}
    (h : startingPosition properties = .ok start) : start < 2 ^ 32 := by
  unfold startingPosition at h
  split at h
  · cases h
    decide
  · simp only [Except.bind_eq_ok, rejectIf_eq_ok, Decidable.not_not] at h
    obtain ⟨-, hlength, h⟩ := h
    cases h
    exact Nat.lt_of_lt_of_eq (fromLeBytes_lt properties) (by rw [hlength, bytePow_four])

theorem startingPosition_four {properties : List UInt8} (h : properties.length = 4) :
    startingPosition properties = .ok (fromLeBytes properties) := by
  have hne : properties ≠ [] := by
    intro hnil
    rw [hnil] at h
    exact absurd h (by decide)
  rw [startingPosition, if_neg hne, rejectIf_of_not (not_not.mpr h), Except.ok_bind]
  rfl

section Buffer

variable {front old rest : List UInt8} (hlen : front.length + old.length < 2 ^ 64) (o t : String)

theorem byteAt_append (distance : Nat) (hdistance : front.length + distance < 2 ^ 64) :
    byteAt (front ++ rest) front.length distance o t = okOr rest[distance]? (formatError t) := by
  rw [byteAt, checkedAdd_bind hdistance, List.getElem?_append_right (Nat.le_add_right _ _),
    Nat.add_sub_cancel_left]

theorem byteAt_eq {distance : Nat} {byte : UInt8} (hbyte : rest[distance]? = some byte)
    (hdistance : front.length + distance < 2 ^ 64) :
    byteAt (front ++ rest) front.length distance o t = .ok byte := by
  rw [byteAt_append o t distance hdistance, hbyte, okOr_some]

include hlen

theorem checkedRange_append :
    checkedRange (front ++ (old ++ rest)) front.length old.length o t = .ok old := by
  rw [checkedRange_eq_ok]
  refine ⟨hlen, ?_, ?_⟩
  · simp only [List.length_append]
    omega
  · rw [List.take_length_add_append, List.drop_left, List.take_left]

theorem writeRange_append {new : List UInt8} (hnew : new.length = old.length) :
    writeRange (front ++ (old ++ rest)) front.length new o t = .ok (front ++ (new ++ rest)) := by
  rw [writeRange, hnew, checkedAdd_bind hlen, rejectIf_of_not, Except.ok_bind, List.take_left,
    List.drop_length_add_append, List.drop_left]
  · rfl
  · simp only [List.length_append]
    omega

end Buffer

section Word

variable {front rest : List UInt8} {a b c d : UInt8} (hroom : front.length + 4 < 2 ^ 64)
include hroom

theorem readU32Le_append :
    readU32Le (front ++ a :: b :: c :: d :: rest) front.length =
      .ok (fromLeBytes [a, b, c, d]) := by
  have hread := @checkedRange_append front [a, b, c, d] rest hroom
    "filter word range overflows" "filter word is truncated"
  rw [readU32Le]
  exact congrArg (· >>= fun word => pure (fromLeBytes word)) hread

theorem readU32Be_append :
    readU32Be (front ++ a :: b :: c :: d :: rest) front.length =
      .ok (fromBeBytes [a, b, c, d]) := by
  have hread := @checkedRange_append front [a, b, c, d] rest hroom
    "filter word range overflows" "filter word is truncated"
  rw [readU32Be]
  exact congrArg (· >>= fun word => pure (fromBeBytes word)) hread

theorem writeWord_append {word : List UInt8} (hword : word.length = 4) :
    writeWord (front ++ a :: b :: c :: d :: rest) front.length word =
      .ok (front ++ (word ++ rest)) :=
  @writeRange_append front [a, b, c, d] rest hroom _ _ word hword

end Word

theorem and_ones (value width : Nat) : value &&& 2 ^ width - 1 = value % 2 ^ width :=
  Nat.and_two_pow_sub_one_eq_mod value width

theorem or_field {field : Nat} {width : Nat} (hfield : field < 2 ^ width) (high : Nat) :
    field ||| 2 ^ width * high = field + 2 ^ width * high := by
  rw [Nat.or_comm, ← Nat.two_pow_add_eq_or_of_lt hfield, Nat.add_comm]

theorem and_field (value offset width : Nat) :
    value &&& 2 ^ offset * (2 ^ width - 1) = 2 ^ offset * (value / 2 ^ offset % 2 ^ width) := by
  refine Nat.eq_of_testBit_eq fun i => ?_
  rw [Nat.testBit_and, Nat.testBit_two_pow_mul, Nat.testBit_two_pow_mul,
    Nat.testBit_two_pow_sub_one,
    Nat.testBit_mod_two_pow, Nat.testBit_div_two_pow]
  by_cases h : offset ≤ i
  · rw [Nat.sub_add_cancel h]
    simp only [h, decide_true, Bool.true_and]
    exact Bool.and_comm _ _
  · simp only [h, decide_false, Bool.false_and, Bool.and_false]

theorem or_above {field width : Nat} (hfield : field < 2 ^ width) (high more : Nat) :
    field + 2 ^ width * high ||| 2 ^ width * more = field + 2 ^ width * (high ||| more) := by
  have hshift : 2 ^ width * (high ||| more) = 2 ^ width * high ||| 2 ^ width * more := by
    simp only [Nat.mul_comm (2 ^ width), ← Nat.shiftLeft_eq, Nat.shiftLeft_or_distrib]
  rw [← or_field hfield, Nat.or_assoc, ← hshift, or_field hfield]

end Filter
end Unpackio
