/-
The x86 filter as a pass, its forward transform, and why it is undone.

The state has a mask of the last three bytes: a bit is set where one was an
opcode that was left as it is.  Whether an instruction is converted depends on
bytes that are rewritten later.  The decisions are those of the forward transform
because no rewriting makes such a byte all zeros or all ones, or stops it from
being so (`pass_x86_tested`).
-/
import Unpackio.Filter.Thumb

namespace Unpackio
namespace Filter

open Rewriting (Step Balanced pass)

def testedShift (mask : Nat) : Nat := (mask &&& 6) <<< 2

/-- The destination, moved in the direction of `move`.  Where a byte that the mask
points at would look like a high byte, the bits below are turned, and the
destination is moved once more. -/
def x86Moved (move : Nat → Nat → Nat) (value current mask : Nat) : Nat :=
  if mask ≠ 0 then
    if testX86Msb (UInt8.ofNat (move value current >>> testedShift mask &&& 0xff)) then
      move (move value current ^^^ (0x100 <<< testedShift mask - 1)) current
    else move value current
  else move value current

/-- The four bytes behind the opcode. -/
def x86Operand (move : Nat → Nat → Nat) (ip mask : Nat) (operand : List UInt8) : List UInt8 :=
  let value := x86Moved move (fromLeBytes operand) (wrappingAdd ip x86InstructionSize) mask
  toLeBytes 3 value ++ [(0 : UInt8) - (UInt8.ofNat (value >>> 24) &&& 1)]

def pointed (mask : Nat) (b c d : UInt8) : UInt8 :=
  if mask = 1 then b else if mask = 2 then c else d

/-- Does the mask forbid a conversion?  `b`, `c` and `d` follow the opcode. -/
def x86Blocked (mask : Nat) (b c d : UInt8) : Bool :=
  mask ≠ 0 ∧ (4 < mask ∨ mask = 3 ∨ testX86Msb (pointed mask b c d))

def x86Step (move : Nat → Nat → Nat) : Step (Nat × Nat) UInt8
  | (ip, mask), a :: b :: c :: d :: e :: rest =>
    if a &&& 0xfe = 0xe8 then
      if x86Blocked mask b c d = false ∧ testX86Msb e then
        some (a :: x86Operand move ip mask [b, c, d, e], (wrappingAdd ip 5, 0), rest)
      else some ([a], (wrappingAdd ip 1, mask / 2 + 4), b :: c :: d :: e :: rest)
    else some ([a], (wrappingAdd ip 1, mask / 2), b :: c :: d :: e :: rest)
  | _, _ => none

theorem length_x86Operand (move : Nat → Nat → Nat) (ip mask : Nat) (operand : List UInt8) :
    (x86Operand move ip mask operand).length = 4 := rfl

variable {move : Nat → Nat → Nat} {state : Nat × Nat} {bytes piece rest : List UInt8}
  {b c d : UInt8}

theorem x86Step_none : x86Step move state bytes = none ↔ bytes.length < 5 := by
  match bytes with
  | [] | [_] | [_, _] | [_, _, _] | [_, _, _, _] => simp [x86Step]
  | a :: b :: c :: d :: e :: rest =>
    rw [x86Step]
    split
    · split <;> simp
    · simp

theorem x86Step_cases {ip mask : Nat}
    (h : x86Step move (ip, mask) bytes = some (piece, state, rest)) :
    (∃ a b c d e, bytes = a :: b :: c :: d :: e :: rest ∧ a &&& 0xfe = 0xe8 ∧
      x86Blocked mask b c d = false ∧ testX86Msb e = true ∧
        piece = a :: x86Operand move ip mask [b, c, d, e] ∧ state = (wrappingAdd ip 5, 0)) ∨
    ∃ a b c d e tail, bytes = a :: rest ∧ rest = b :: c :: d :: e :: tail ∧ piece = [a] ∧
      ((¬a &&& 0xfe = 0xe8 ∧ state = (wrappingAdd ip 1, mask / 2)) ∨
        (a &&& 0xfe = 0xe8 ∧ ¬(x86Blocked mask b c d = false ∧ testX86Msb e = true) ∧
          state = (wrappingAdd ip 1, mask / 2 + 4))) := by
  match bytes, h with
  | a :: b :: c :: d :: e :: tail, h =>
    rw [x86Step] at h
    split at h
    · rename_i hopcode
      split at h
      · rename_i hconvert
        cases h
        exact .inl ⟨a, b, c, d, e, rfl, hopcode, hconvert.1, hconvert.2, rfl, rfl⟩
      · rename_i hconvert
        cases h
        exact .inr ⟨a, b, c, d, e, tail, rfl, rfl, rfl, .inr ⟨hopcode, hconvert, rfl⟩⟩
    · rename_i hopcode
      cases h
      exact .inr ⟨a, b, c, d, e, tail, rfl, rfl, rfl, .inl ⟨hopcode, rfl⟩⟩

theorem balanced_x86Step (move : Nat → Nat → Nat) : Balanced (x86Step move) := by
  intro state bytes piece state' rest h
  rcases x86Step_cases h with ⟨a, b, c, d, e, rfl, -, -, -, rfl, -⟩ |
    ⟨a, b, c, d, e, tail, rfl, rfl, rfl, -⟩
  · rw [List.length_cons, length_x86Operand]
    refine ⟨by decide, ?_⟩
    simp only [List.length_cons]
    omega
  · refine ⟨Nat.one_pos, ?_⟩
    simp only [List.length_cons, List.length_nil]
    omega

theorem x86Step_mask {ip mask : Nat} (hmask : mask < 8)
    (h : x86Step move (ip, mask) bytes = some (piece, state, rest)) : state.2 < 8 := by
  rcases x86Step_cases h with ⟨_, _, _, _, _, -, -, -, -, -, rfl⟩ |
    ⟨_, _, _, _, _, _, -, -, -, ⟨-, rfl⟩ | ⟨-, -, rfl⟩⟩
  · exact Nat.zero_lt_succ _
  · show mask / 2 < 8
    omega
  · show mask / 2 + 4 < 8
    omega

/-! ## Operands -/

theorem testX86Msb_iff (byte : UInt8) :
    testX86Msb byte = true ↔ byte.toNat = 0 ∨ byte.toNat = 255 :=
  @forall_byte (fun byte => testX86Msb byte = true ↔ byte.toNat = 0 ∨ byte.toNat = 255)
    (by decide +kernel) byte

def testedBits (value shift : Nat) : Prop :=
  value / 2 ^ shift % 2 ^ 8 = 0 ∨ value / 2 ^ shift % 2 ^ 8 = 255

instance (value shift : Nat) : Decidable (testedBits value shift) :=
  inferInstanceAs (Decidable (_ ∨ _))

theorem testX86Msb_shifted (value shift : Nat) :
    testX86Msb (UInt8.ofNat (value >>> shift &&& 0xff)) = true ↔ testedBits value shift := by
  have hlow : value >>> shift &&& 0xff = value / 2 ^ shift % 2 ^ 8 := by
    rw [Nat.shiftRight_eq_div_pow]
    exact and_ones _ 8
  rw [testX86Msb_iff, UInt8.toNat_ofNat', hlow, Nat.mod_mod, testedBits]

theorem xor_ones (value width : Nat) :
    value ^^^ (2 ^ width - 1) =
      2 ^ width * (value / 2 ^ width) + (2 ^ width - (value % 2 ^ width + 1)) := by
  have hlt : value % 2 ^ width < 2 ^ width := Nat.mod_lt _ (Nat.two_pow_pos width)
  refine Nat.eq_of_testBit_eq fun i => ?_
  rw [Nat.testBit_xor, Nat.testBit_two_pow_sub_one,
    Nat.testBit_two_pow_mul_add _ (Nat.sub_lt (Nat.two_pow_pos width) (Nat.succ_pos _)),
    Nat.testBit_two_pow_sub_succ hlt, Nat.testBit_mod_two_pow, Nat.testBit_div_two_pow]
  by_cases hi : i < width
  · simp [hi]
  · simp [hi, Nat.sub_add_cancel (Nat.not_lt.mp hi)]

theorem x86Moved_eq (move : Nat → Nat → Nat) (value current mask : Nat) :
    x86Moved move value current mask =
      if mask ≠ 0 ∧ testedBits (move value current) (testedShift mask) then
        move (move value current ^^^ (2 ^ (testedShift mask + 8) - 1)) current
      else move value current := by
  have hones : 0x100 <<< testedShift mask = 2 ^ (testedShift mask + 8) := by
    rw [Nat.shiftLeft_eq, Nat.add_comm, Nat.pow_add]
  rw [x86Moved, hones]
  by_cases hmask : mask = 0
  · rw [if_neg (not_not.mpr hmask), if_neg (fun h => h.1 hmask)]
  · rw [if_pos hmask]
    by_cases htested : testedBits (move value current) (testedShift mask)
    · rw [if_pos ((testX86Msb_shifted _ _).mpr htested), if_pos ⟨hmask, htested⟩]
    · rw [if_neg (mt (testX86Msb_shifted _ _).mp htested), if_neg (fun h => htested h.2)]

/-- The operand with these 25 bits, the highest of them its sign. -/
def signed25 (value : Nat) : Nat :=
  if value % 2 ^ 25 < 2 ^ 24 then value % 2 ^ 25 else value % 2 ^ 25 + (2 ^ 32 - 2 ^ 25)

theorem signed25_mod (value : Nat) : signed25 value % 2 ^ 25 = value % 2 ^ 25 := by
  unfold signed25
  split <;> omega

theorem signed25_congr {a b : Nat} (h : a % 2 ^ 25 = b % 2 ^ 25) : signed25 a = signed25 b := by
  rw [signed25, signed25, h]

theorem signed25_lt (value : Nat) : signed25 value < 2 ^ 32 := by
  unfold signed25
  split <;> omega

theorem signed25_operand {e : UInt8} (h : testX86Msb e = true) :
    signed25 (fromLeBytes [b, c, d, e]) = fromLeBytes [b, c, d, e] := by
  have hb := b.toNat_lt
  have hc := c.toNat_lt
  have hd := d.toNat_lt
  have he := (testX86Msb_iff e).mp h
  rw [fromLeBytes_four]
  unfold signed25
  rcases he with he | he <;> rw [he] <;> split <;> omega

theorem x86Operand_eq (move : Nat → Nat → Nat) (ip mask : Nat) (operand : List UInt8) :
    x86Operand move ip mask operand =
      toLeBytes 4 (signed25 (x86Moved move (fromLeBytes operand)
        (wrappingAdd ip x86InstructionSize) mask)) := by
  rw [x86Operand]
  generalize x86Moved move (fromLeBytes operand) (wrappingAdd ip x86InstructionSize) mask = value
  have hhigh : ∀ byte : UInt8, (0 : UInt8) - (byte &&& 1) =
      if byte.toNat % 2 = 0 then 0 else 255 :=
    @forall_byte (fun byte => (0 : UInt8) - (byte &&& 1) = if byte.toNat % 2 = 0 then 0 else 255)
      (by decide +kernel)
  have hlow := signed25_mod value
  have hsame : ∀ a b : Nat, a % 2 ^ 8 = b % 2 ^ 8 → UInt8.ofNat a = UInt8.ofNat b := by
    intro a b h
    rw [← UInt8.toNat_inj, UInt8.toNat_ofNat', UInt8.toNat_ofNat', h]
  have hfirst := hsame value (signed25 value) (by omega)
  have hsecond := hsame (value / 256) (signed25 value / 256) (by omega)
  have hthird := hsame (value / 256 / 256) (signed25 value / 256 / 256) (by omega)
  have hfourth : (0 : UInt8) - (UInt8.ofNat (value >>> 24) &&& 1) =
      UInt8.ofNat (signed25 value / 256 / 256 / 256) := by
    rw [hhigh, UInt8.toNat_ofNat', Nat.shiftRight_eq_div_pow, signed25]
    by_cases hsign : value % 2 ^ 25 < 2 ^ 24
    · rw [if_pos hsign, if_pos (by omega), ← UInt8.toNat_inj, UInt8.toNat_ofNat']
      show 0 = _
      omega
    · rw [if_neg hsign, if_neg (by omega), ← UInt8.toNat_inj, UInt8.toNat_ofNat']
      show 255 = _
      omega
  show [UInt8.ofNat value, UInt8.ofNat (value / 256), UInt8.ofNat (value / 256 / 256),
    (0 : UInt8) - (UInt8.ofNat (value >>> 24) &&& 1)] = [UInt8.ofNat (signed25 value),
      UInt8.ofNat (signed25 value / 256), UInt8.ofNat (signed25 value / 256 / 256),
      UInt8.ofNat (signed25 value / 256 / 256 / 256)]
  rw [hfirst, hsecond, hthird, hfourth]

theorem turn_turn {value turned ones width : Nat}
    (h : turned % 2 ^ width = (value ^^^ ones) % 2 ^ width) :
    (turned ^^^ ones) % 2 ^ width = value % 2 ^ width := by
  rw [Nat.xor_mod_two_pow, h, ← Nat.xor_mod_two_pow, Nat.xor_assoc, Nat.xor_self, Nat.xor_zero]

def Points (mask : Nat) : Prop := mask = 1 ∨ mask = 2 ∨ mask = 4

section Moved

variable {value current mask : Nat} (hmask : Points mask)
include hmask

theorem moved_tested (h : ¬testedBits value (testedShift mask)) :
    ¬testedBits (x86Moved wrappingAdd value current mask) (testedShift mask) := by
  rw [x86Moved_eq]
  split
  · rename_i hretry
    rw [xor_ones]
    unfold testedBits at h ⊢
    rcases hmask with rfl | rfl | rfl
    · simp only [show testedShift 1 = 0 from rfl, wrappingAdd] at h hretry ⊢
      omega
    · simp only [show testedShift 2 = 8 from rfl, wrappingAdd] at h hretry ⊢
      omega
    · simp only [show testedShift 4 = 16 from rfl, wrappingAdd] at h hretry ⊢
      omega
  · rename_i hkept
    intro htested
    refine hkept ⟨?_, htested⟩
    rcases hmask with rfl | rfl | rfl <;> decide

theorem testedBits_congr {other : Nat} (h : value % 2 ^ 25 = other % 2 ^ 25) :
    testedBits value (testedShift mask) ↔ testedBits other (testedShift mask) := by
  unfold testedBits
  rcases hmask with rfl | rfl | rfl
  · simp only [show testedShift 1 = 0 from rfl]
    omega
  · simp only [show testedShift 2 = 8 from rfl]
    omega
  · simp only [show testedShift 4 = 16 from rfl]
    omega

theorem points_ne_zero : mask ≠ 0 := by
  rcases hmask with rfl | rfl | rfl <;> decide

theorem testedBits_turned (h : testedBits value (testedShift mask)) :
    testedBits (value ^^^ (2 ^ (testedShift mask + 8) - 1)) (testedShift mask) := by
  rw [xor_ones]
  unfold testedBits at h ⊢
  rcases hmask with rfl | rfl | rfl
  · simp only [show testedShift 1 = 0 from rfl] at h ⊢
    omega
  · simp only [show testedShift 2 = 8 from rfl] at h ⊢
    omega
  · simp only [show testedShift 4 = 16 from rfl] at h ⊢
    omega

theorem moved_back (hcurrent : current < 2 ^ 32) (h : ¬testedBits value (testedShift mask)) :
    x86Moved wrappingSub (signed25 (x86Moved wrappingAdd value current mask)) current mask %
      2 ^ 25 = value % 2 ^ 25 := by
  have hmod := signed25_mod (x86Moved wrappingAdd value current mask)
  rw [x86Moved_eq wrappingAdd] at hmod ⊢
  split at hmod
  · rename_i hretry
    rw [if_pos hretry]
    generalize signed25 _ = stored at hmod ⊢
    have hturned : wrappingSub stored current % 2 ^ 25 = (wrappingAdd value current ^^^
        (2 ^ (testedShift mask + 8) - 1)) % 2 ^ 25 := by
      generalize wrappingAdd value current ^^^ (2 ^ (testedShift mask + 8) - 1) = turned at hmod ⊢
      simp only [wrappingAdd, wrappingSub] at hmod ⊢
      omega
    have htested := (testedBits_congr hmask hturned).mpr (testedBits_turned hmask hretry.2)
    have hback := turn_turn hturned
    rw [x86Moved_eq, if_pos ⟨points_ne_zero hmask, htested⟩]
    generalize wrappingSub stored current ^^^ (2 ^ (testedShift mask + 8) - 1) = turned at hback ⊢
    simp only [wrappingAdd, wrappingSub] at hback ⊢
    omega
  · rename_i hkept
    rw [if_neg hkept]
    generalize signed25 _ = stored at hmod ⊢
    have hback : wrappingSub stored current % 2 ^ 25 = value % 2 ^ 25 := by
      simp only [wrappingAdd, wrappingSub] at hmod ⊢
      omega
    have htested := mt (testedBits_congr hmask hback).mp h
    rw [x86Moved_eq, if_neg (fun hboth => htested hboth.2), hback]

end Moved

theorem moved_back_zero {value current : Nat} (hcurrent : current < 2 ^ 32) :
    x86Moved wrappingSub (signed25 (x86Moved wrappingAdd value current 0)) current 0 % 2 ^ 25 =
      value % 2 ^ 25 := by
  have hmod := signed25_mod (x86Moved wrappingAdd value current 0)
  have hplain : ∀ move value, x86Moved move value current 0 = move value current :=
    fun _ _ => if_neg (not_not.mpr rfl)
  rw [hplain] at hmod ⊢
  rw [hplain]
  generalize signed25 _ = stored at hmod ⊢
  simp only [wrappingAdd, wrappingSub] at hmod ⊢
  omega

/-! ## What the rewriting leaves as it is -/

theorem x86Blocked_false {mask : Nat} (hmask : mask < 8) :
    x86Blocked mask b c d = false ↔
      mask = 0 ∨ Points mask ∧ testX86Msb (pointed mask b c d) = false := by
  rw [x86Blocked, decide_eq_false_iff_not, Points]
  generalize testX86Msb (pointed mask b c d) = flag
  revert flag
  revert mask
  decide

theorem x86Blocked_congr {mask : Nat} {b' c' d' : UInt8}
    (h : Points mask → testX86Msb (pointed mask b' c' d') = testX86Msb (pointed mask b c d))
    (hmask : mask < 8) : x86Blocked mask b' c' d' = x86Blocked mask b c d := by
  rw [Bool.eq_iff_iff, ← not_iff_not, Bool.not_eq_true, Bool.not_eq_true, x86Blocked_false hmask,
    x86Blocked_false hmask]
  refine or_congr_right (and_congr_right fun hpoints => ?_)
  rw [h hpoints]

theorem tested_pointed {mask : Nat} (hmask : Points mask) (b c d e : UInt8) :
    testedBits (fromLeBytes [b, c, d, e]) (testedShift mask) ↔
      testX86Msb (pointed mask b c d) = true := by
  have hb := b.toNat_lt
  have hc := c.toNat_lt
  have hd := d.toNat_lt
  rw [testX86Msb_iff, testedBits, fromLeBytes_four, pointed]
  rcases hmask with rfl | rfl | rfl
  · rw [show testedShift 1 = 0 from rfl, if_pos rfl]
    omega
  · rw [show testedShift 2 = 8 from rfl, if_neg (by decide), if_pos rfl]
    omega
  · rw [show testedShift 4 = 16 from rfl, if_neg (by decide), if_neg (by decide)]
    omega

theorem x86Operand_bytes {ip mask : Nat} {b c d e : UInt8} (hmask : mask < 8)
    (hblocked : x86Blocked mask b c d = false) :
    ∃ b' c' d' e', x86Operand wrappingAdd ip mask [b, c, d, e] = [b', c', d', e'] ∧
      fromLeBytes [b', c', d', e'] = signed25 (x86Moved wrappingAdd (fromLeBytes [b, c, d, e])
        (wrappingAdd ip x86InstructionSize) mask) ∧
      testX86Msb e' = true ∧
        (Points mask → testX86Msb (pointed mask b' c' d') = false) := by
  have hoperand := x86Operand_eq wrappingAdd ip mask [b, c, d, e]
  obtain ⟨b', c', d', e', hbytes, hvalue, -⟩ := toLeBytes_four (signed25_lt (x86Moved wrappingAdd
    (fromLeBytes [b, c, d, e]) (wrappingAdd ip x86InstructionSize) mask))
  refine ⟨b', c', d', e', hoperand.trans hbytes, hvalue, ?_, fun hpoints => ?_⟩
  · have hsigned := signed25_mod (x86Moved wrappingAdd (fromLeBytes [b, c, d, e])
      (wrappingAdd ip x86InstructionSize) mask)
    have hb := b'.toNat_lt
    have hc := c'.toNat_lt
    have hd := d'.toNat_lt
    rw [testX86Msb_iff]
    rw [fromLeBytes_four] at hvalue
    unfold signed25 at hvalue
    split at hvalue <;> omega
  · have hnot : ¬testedBits (fromLeBytes [b, c, d, e]) (testedShift mask) := by
      rw [tested_pointed hpoints]
      rcases (x86Blocked_false hmask).mp hblocked with hzero | ⟨-, hpointed⟩
      · exact absurd hzero (points_ne_zero hpoints)
      · rw [hpointed]
        exact Bool.false_ne_true
    have hmoved := mt (testedBits_congr hpoints (signed25_mod _)).mp
      (@moved_tested _ (wrappingAdd ip x86InstructionSize) mask hpoints hnot)
    rw [← hvalue, tested_pointed hpoints, Bool.not_eq_true] at hmoved
    exact hmoved

theorem pass_x86_first (move : Nat → Nat → Nat) (state : Nat × Nat) (bytes : List UInt8) :
    (pass (x86Step move) state bytes)[0]? = bytes[0]? := by
  cases hstep : x86Step move state bytes with
  | none => rw [Rewriting.pass_of_none hstep]
  | some step =>
    obtain ⟨piece, state', rest⟩ := step
    rw [Rewriting.pass_of_some (balanced_x86Step move) hstep]
    rcases x86Step_cases hstep with ⟨a, b, c, d, e, rfl, -, -, -, rfl, -⟩ |
      ⟨a, b, c, d, e, tail, rfl, rfl, rfl, -⟩
    · rfl
    · rfl

section

variable {mask j : Nat} (hmask : mask < 8) (hj : j < 3) (hbit : mask / 2 ^ j % 2 = 1)
  (hblocked : x86Blocked mask b c d = false)
include hmask hj hbit hblocked

theorem points_of_bit :
    Points mask ∧ testX86Msb (pointed mask b c d) = false ∧
      ∀ b' c' d' e' : UInt8, [b', c', d', e'][j]? = some (pointed mask b' c' d') := by
  rcases (x86Blocked_false hmask).mp hblocked with rfl | ⟨hpoints, htested⟩
  · rw [Nat.zero_div] at hbit
    exact absurd hbit (by decide)
  · refine ⟨hpoints, htested, fun b' c' d' e' => ?_⟩
    have hcases : j = 0 ∨ j = 1 ∨ j = 2 := by omega
    rcases hpoints with rfl | rfl | rfl <;> rcases hcases with rfl | rfl | rfl <;>
      first | rfl | exact absurd hbit (by decide)

theorem converted_tested {ip : Nat} (e : UInt8) (rest more : List UInt8) :
    (x86Operand wrappingAdd ip mask [b, c, d, e] ++ rest)[j]?.map testX86Msb =
      (b :: c :: d :: e :: more)[j]?.map testX86Msb := by
  obtain ⟨hpoints, htested, hbyte⟩ := points_of_bit hmask hj hbit hblocked
  obtain ⟨b', c', d', e', hoperand, -, -, hafter⟩ :=
    @x86Operand_bytes ip mask b c d e hmask hblocked
  have hfront : ∀ (b c d e : UInt8) (rest : List UInt8),
      ([b, c, d, e] ++ rest)[j]? = some (pointed mask b c d) := by
    intro b c d e rest
    rw [List.getElem?_append_left (show j < 4 from Nat.lt_succ_of_lt hj), hbyte]
  have hbefore := hfront b c d e more
  rw [hoperand, hfront, Option.map_some, hafter hpoints]
  refine Eq.trans ?_ (congrArg (Option.map testX86Msb) hbefore.symm)
  rw [Option.map_some, htested]

end

theorem pass_x86_tested (j : Nat) {ip mask : Nat} (hmask : mask < 8) (hj : j < 3)
    (hbit : mask / 2 ^ j % 2 = 1) (bytes : List UInt8) :
    (pass (x86Step wrappingAdd) (ip, mask) bytes)[j + 1]?.map testX86Msb =
      bytes[j + 1]?.map testX86Msb := by
  induction j generalizing ip mask bytes with
  | zero =>
    cases hstep : x86Step wrappingAdd (ip, mask) bytes with
    | none => rw [Rewriting.pass_of_none hstep]
    | some step =>
      obtain ⟨piece, state', rest⟩ := step
      rw [Rewriting.pass_of_some (balanced_x86Step _) hstep]
      rcases x86Step_cases hstep with ⟨a, b, c, d, e, rfl, -, hblocked, -, rfl, -⟩ |
        ⟨a, b, c, d, e, tail, rfl, rfl, rfl, -⟩
      · exact converted_tested hmask hj hbit hblocked e
          (pass (x86Step wrappingAdd) state' rest) rest
      · show (pass (x86Step wrappingAdd) state' (b :: c :: d :: e :: tail))[0]?.map testX86Msb = _
        rw [pass_x86_first]
        rfl
  | succ j ih =>
    cases hstep : x86Step wrappingAdd (ip, mask) bytes with
    | none => rw [Rewriting.pass_of_none hstep]
    | some step =>
      obtain ⟨piece, state', rest⟩ := step
      have hmask' := x86Step_mask hmask hstep
      rw [Rewriting.pass_of_some (balanced_x86Step _) hstep]
      rcases x86Step_cases hstep with ⟨a, b, c, d, e, rfl, -, hblocked, -, rfl, -⟩ |
        ⟨a, b, c, d, e, tail, rfl, rfl, rfl, hstate⟩
      · exact converted_tested hmask hj hbit hblocked e
          (pass (x86Step wrappingAdd) state' rest) rest
      · -- The bit has moved down by one, and the byte is one place nearer.
        have hnext : state'.2 / 2 ^ j % 2 = 1 := by
          have hhalf : mask / 2 ^ (j + 1) = mask / 2 / 2 ^ j := by
            rw [Nat.pow_succ', Nat.div_div_eq_div_mul]
          have hcases : j = 0 ∨ j = 1 := by omega
          rw [hhalf] at hbit
          rcases hstate with ⟨-, rfl⟩ | ⟨-, -, rfl⟩ <;> rcases hcases with rfl | rfl <;>
            simp only at hmask' ⊢ <;> omega
        exact ih hmask' (by omega) hnext (b :: c :: d :: e :: tail)

def X86Good (state : Nat × Nat) : Prop := state.1 < 2 ^ 32 ∧ state.2 < 8

theorem x86Step_good {state' : Nat × Nat} (hstate : X86Good state)
    (h : x86Step move state bytes = some (piece, state', rest)) : X86Good state' := by
  refine ⟨?_, x86Step_mask hstate.2 h⟩
  rcases x86Step_cases h with ⟨_, _, _, _, _, -, -, -, -, -, rfl⟩ |
    ⟨_, _, _, _, _, _, -, -, -, ⟨-, rfl⟩ | ⟨-, -, rfl⟩⟩
  all_goals exact Nat.mod_lt _ (by decide)

theorem x86Operand_back {ip mask : Nat} (hmask : mask < 8) {e b' c' d' e' : UInt8}
    (hblocked : x86Blocked mask b c d = false) (htest : testX86Msb e = true)
    (hvalue : fromLeBytes [b', c', d', e'] = signed25 (x86Moved wrappingAdd
      (fromLeBytes [b, c, d, e]) (wrappingAdd ip x86InstructionSize) mask)) :
    x86Operand wrappingSub ip mask [b', c', d', e'] = [b, c, d, e] := by
  have hcurrent : wrappingAdd ip x86InstructionSize < 2 ^ 32 := Nat.mod_lt _ (by decide)
  have hmoved : x86Moved wrappingSub (fromLeBytes [b', c', d', e'])
      (wrappingAdd ip x86InstructionSize) mask % 2 ^ 25 = fromLeBytes [b, c, d, e] % 2 ^ 25 := by
    rw [hvalue]
    rcases (x86Blocked_false hmask).mp hblocked with rfl | ⟨hpoints, hpointed⟩
    · exact moved_back_zero hcurrent
    · refine moved_back hpoints hcurrent ?_
      rw [tested_pointed hpoints, hpointed]
      exact Bool.false_ne_true
  rw [x86Operand_eq, signed25_congr hmoved, signed25_operand htest]
  exact toLeBytes_fromLeBytes [b, c, d, e]

theorem x86Step_undo {state' : Nat × Nat} (hstate : X86Good state)
    (h : x86Step wrappingAdd state bytes = some (piece, state', rest)) :
    ∃ original, bytes = original ++ rest ∧
      x86Step wrappingSub state (piece ++ pass (x86Step wrappingAdd) state' rest) =
        some (original, state', pass (x86Step wrappingAdd) state' rest) := by
  obtain ⟨ip, mask⟩ := state
  have hpass := Rewriting.length_pass (balanced_x86Step wrappingAdd) state' rest
  have hmask' := x86Step_mask hstate.2 h
  rcases x86Step_cases h with ⟨a, b, c, d, e, rfl, hopcode, hblocked, htest, rfl, rfl⟩ |
    ⟨a, b, c, d, e, tail, rfl, rfl, rfl, hnext⟩
  · obtain ⟨b', c', d', e', hoperand, hvalue, htest', hafter⟩ :=
      @x86Operand_bytes ip mask b c d e hstate.2 hblocked
    have hblocked' : x86Blocked mask b' c' d' = false := by
      rw [x86Blocked_false hstate.2]
      exact ((x86Blocked_false hstate.2).mp hblocked).imp_right
        (fun hpoints => ⟨hpoints.1, hafter hpoints.1⟩)
    refine ⟨[a, b, c, d, e], rfl, ?_⟩
    rw [hoperand]
    show x86Step wrappingSub (ip, mask) (a :: b' :: c' :: d' :: e' :: _) = _
    rw [x86Step, if_pos hopcode, if_pos ⟨hblocked', htest'⟩,
      x86Operand_back hstate.2 hblocked htest hvalue]
    rfl
  · refine ⟨[a], rfl, ?_⟩
    have hfirst := pass_x86_first wrappingAdd state' (b :: c :: d :: e :: tail)
    have htested := fun j hj hbit =>
      @pass_x86_tested j state'.1 state'.2 hmask' hj hbit (b :: c :: d :: e :: tail)
    match hmade : pass (x86Step wrappingAdd) state' (b :: c :: d :: e :: tail), hpass with
    | b' :: c' :: d' :: e' :: tail', _ =>
      rw [hmade] at hfirst htested
      show x86Step wrappingSub (ip, mask) (a :: b' :: c' :: d' :: e' :: tail') = _
      rcases hnext with ⟨hopcode, rfl⟩ | ⟨hopcode, hnot, rfl⟩
      · rw [x86Step, if_neg hopcode]
      · have hlt := hstate.2
        have hhigh : testX86Msb e' = testX86Msb e :=
          Option.some.inj (htested 2 (by decide) (by simp only at hlt ⊢; omega))
        have hpointed : x86Blocked mask b' c' d' = x86Blocked mask b c d :=
          x86Blocked_congr (fun hpoints => by
            rcases hpoints with rfl | rfl | rfl
            · exact congrArg testX86Msb (Option.some.inj hfirst)
            · exact Option.some.inj (htested 0 (by decide) (show (2 / 2 + 4) / 2 ^ 0 % 2 =
                1 by decide))
            · exact Option.some.inj (htested 1 (by decide) (show (4 / 2 + 4) / 2 ^ 1 % 2 = 1 by
                decide))) hlt
        rw [x86Step, if_pos hopcode, hpointed, hhigh, if_neg hnot]

theorem x86Pass_x86Pass (hstate : X86Good state) (bytes : List UInt8) :
    pass (x86Step wrappingSub) state (pass (x86Step wrappingAdd) state bytes) = bytes :=
  Rewriting.pass_pass (balanced_x86Step _) (balanced_x86Step _)
    (fun _ _ _ _ _ hgood h => x86Step_good hgood h)
    (fun _ _ _ h => x86Step_none.mpr (x86Step_none.mp h))
    (fun _ _ _ _ _ hgood h => x86Step_undo hgood h) hstate bytes

end Filter
end Unpackio
