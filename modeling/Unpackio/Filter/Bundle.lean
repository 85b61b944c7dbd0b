/-
The IA-64 filter as a pass over bundles of sixteen bytes, and its forward
transform.

A bundle is a template of five bits and three instructions of 41 bits, of which
none begins at a byte.  As a number it is put together from these parts, and a
conversion replaces one of them.
-/
import Unpackio.Filter.Thumb

namespace Unpackio
namespace Filter

open List (append_assoc length_append length_drop length_take)
open Except (ok_bind)
open Rewriting (Step Balanced pass)

def isIa64Branch (instruction : Nat) : Bool :=
  instruction / 2 ^ 37 % 2 ^ 4 = 5 ∧ instruction / 2 ^ 9 % 2 ^ 3 = 0

def ia64Source (instruction : Nat) : Nat :=
  instruction / 2 ^ 13 % 2 ^ 20 + 2 ^ 20 * (instruction / 2 ^ 36 % 2)

/-- The branch with the bits of `destination` and the rest of `instruction`. -/
def ia64Target (instruction destination : Nat) : Nat :=
  instruction % 2 ^ 13 + 2 ^ 13 * (destination % 2 ^ 20) +
    2 ^ 33 * (instruction / 2 ^ 33 % 2 ^ 3) + 2 ^ 36 * (destination / 2 ^ 20 % 2) +
      2 ^ 37 * (instruction / 2 ^ 37)

def slotUnit (move : Nat → Nat → Nat) (ip instruction : Nat) : Nat :=
  if isIa64Branch instruction then
    ia64Target instruction (move (2 ^ 4 * ia64Source instruction) ip / 2 ^ 4)
  else instruction

theorem ia64Source_lt (instruction : Nat) : ia64Source instruction < 2 ^ 21 := by
  unfold ia64Source
  omega

variable {instruction ip bundle : Nat} {move : Nat → Nat → Nat}

theorem ia64_fields {low address middle sign high : Nat} (hlow : low < 2 ^ 13)
    (haddress : address < 2 ^ 20) (hmiddle : middle < 2 ^ 3) (hsign : sign < 2)
    (h : instruction = low + 2 ^ 13 * address + 2 ^ 33 * middle + 2 ^ 36 * sign + 2 ^ 37 * high) :
    instruction % 2 ^ 13 = low ∧ instruction / 2 ^ 13 % 2 ^ 20 = address ∧
      instruction / 2 ^ 33 % 2 ^ 3 = middle ∧ instruction / 2 ^ 36 % 2 = sign ∧
        instruction / 2 ^ 37 = high := by
  refine ⟨by omega, by omega, by omega, by omega, by omega⟩

theorem ia64Target_fields (instruction destination : Nat) :
    ia64Target instruction destination % 2 ^ 13 = instruction % 2 ^ 13 ∧
      ia64Target instruction destination / 2 ^ 13 % 2 ^ 20 = destination % 2 ^ 20 ∧
        ia64Target instruction destination / 2 ^ 33 % 2 ^ 3 = instruction / 2 ^ 33 % 2 ^ 3 ∧
          ia64Target instruction destination / 2 ^ 36 % 2 = destination / 2 ^ 20 % 2 ∧
            ia64Target instruction destination / 2 ^ 37 = instruction / 2 ^ 37 :=
  ia64_fields (Nat.mod_lt _ (by decide)) (Nat.mod_lt _ (by decide)) (Nat.mod_lt _ (by decide))
    (Nat.mod_lt _ (by decide)) rfl

theorem ia64Target_lt (h : instruction < 2 ^ 41) (destination : Nat) :
    ia64Target instruction destination < 2 ^ 41 := by
  unfold ia64Target
  omega

theorem isIa64Branch_ia64Target (instruction destination : Nat) :
    isIa64Branch (ia64Target instruction destination) = isIa64Branch instruction := by
  obtain ⟨hlow, -, -, -, hhigh⟩ := ia64Target_fields instruction destination
  have hregister : ia64Target instruction destination / 2 ^ 9 % 2 ^ 3 =
      instruction / 2 ^ 9 % 2 ^ 3 := by omega
  rw [isIa64Branch, isIa64Branch, hhigh, hregister]

theorem ia64Source_ia64Target (instruction destination : Nat) :
    ia64Source (ia64Target instruction destination) = destination % 2 ^ 21 := by
  obtain ⟨-, haddress, -, hsign, -⟩ := ia64Target_fields instruction destination
  rw [ia64Source, haddress, hsign]
  omega

theorem ia64Target_ia64Target {back : Nat} (there : Nat)
    (h : back % 2 ^ 21 = ia64Source instruction) :
    ia64Target (ia64Target instruction there) back = instruction := by
  have hparts : ia64Target instruction (ia64Source instruction) = instruction := by
    clear h
    unfold ia64Target ia64Source
    omega
  obtain ⟨hlow, -, hmiddle, -, hhigh⟩ := ia64Target_fields instruction there
  have haddress : back % 2 ^ 20 = ia64Source instruction % 2 ^ 20 := by omega
  have hsign : back / 2 ^ 20 % 2 = ia64Source instruction / 2 ^ 20 % 2 := by omega
  rw [ia64Target, hlow, hmiddle, hhigh, haddress, hsign]
  exact hparts

theorem slotUnit_slotUnit (hip : Aligned 16 ip) (instruction : Nat) :
    slotUnit wrappingSub ip (slotUnit wrappingAdd ip instruction) = instruction := by
  obtain ⟨hlt, hmod⟩ := hip
  by_cases hbranch : isIa64Branch instruction = true
  · have hsource := ia64Source_lt instruction
    rw [slotUnit, slotUnit, if_pos hbranch, isIa64Branch_ia64Target, if_pos hbranch,
      ia64Source_ia64Target]
    refine ia64Target_ia64Target _ ?_
    generalize ia64Source instruction = source at hsource ⊢
    simp only [wrappingAdd, wrappingSub]
    omega
  · have hsame : ∀ move, slotUnit move ip instruction = instruction := fun _ => if_neg hbranch
    rw [hsame, hsame]

theorem slotUnit_lt (move : Nat → Nat → Nat) (ip : Nat) (h : instruction < 2 ^ 41) :
    slotUnit move ip instruction < 2 ^ 41 := by
  rw [slotUnit]
  split
  · exact ia64Target_lt h _
  · exact h

/-! ## Bundles -/

def slotIf (move : Nat → Nat → Nat) (ip mask slot instruction : Nat) : Nat :=
  if mask / 2 ^ slot % 2 = 0 then instruction else slotUnit move ip instruction

theorem slotIf_lt (move : Nat → Nat → Nat) (ip mask slot : Nat) (h : instruction < 2 ^ 41) :
    slotIf move ip mask slot instruction < 2 ^ 41 := by
  rw [slotIf]
  split
  · exact h
  · exact slotUnit_lt move ip h

theorem slotIf_slotIf (hip : Aligned 16 ip) (mask slot instruction : Nat) :
    slotIf wrappingSub ip mask slot (slotIf wrappingAdd ip mask slot instruction) =
      instruction := by
  unfold slotIf
  split
  · rfl
  · exact slotUnit_slotUnit hip instruction

def slotAt (bundle bit : Nat) : Nat := bundle / 2 ^ bit % 2 ^ 41

theorem slotAt_lt (bundle bit : Nat) : slotAt bundle bit < 2 ^ 41 := Nat.mod_lt _ (by decide)

def putSlot (bundle bit instruction : Nat) : Nat :=
  bundle % 2 ^ bit + 2 ^ bit * (instruction + 2 ^ 41 * (bundle / 2 ^ (bit + 41)))

/-- The loop over the slots that are left, the first of them `slot`. -/
def bundleSlots (move : Nat → Nat → Nat) (ip mask : Nat) : Nat → Nat → Nat → Nat
  | 0, _, bundle => bundle
  | left + 1, slot, bundle =>
    bundleSlots move ip mask left (slot + 1)
      (putSlot bundle (5 + 41 * slot) (slotIf move ip mask slot (slotAt bundle (5 + 41 * slot))))

/-- The slots that may hold a branch, by the template. -/
def bundleMask (bundle : Nat) : Nat := ia64BranchTable.getD (bundle % 2 ^ 5) 0

def bundleUnit (move : Nat → Nat → Nat) (ip : Nat) (word : List UInt8) : List UInt8 :=
  toLeBytes 16 (bundleSlots move ip (bundleMask (fromLeBytes word)) 3 0 (fromLeBytes word))

def bundleStep (move : Nat → Nat → Nat) : Step Nat UInt8 := fun ip bytes =>
  if bytes.length < 16 then none
  else some (bundleUnit move ip (bytes.take 16), wrappingAdd ip 16, bytes.drop 16)

def bundleOf (template first second third : Nat) : Nat :=
  template + 2 ^ 5 * first + 2 ^ 46 * second + 2 ^ 87 * third

theorem bundleOf_slots (h : bundle < 2 ^ 128) :
    bundle = bundleOf (bundle % 2 ^ 5) (slotAt bundle 5) (slotAt bundle 46) (slotAt bundle 87) := by
  simp only [bundleOf, slotAt]
  omega

section Parts

variable {template first second third : Nat} (ht : template < 2 ^ 5)
include ht

theorem bundleMask_bundleOf :
    bundleMask (bundleOf template first second third) = ia64BranchTable.getD template 0 := by
  have htemplate : bundleOf template first second third % 2 ^ 5 = template := by
    unfold bundleOf
    omega
  rw [bundleMask, htemplate]

variable (h0 : first < 2 ^ 41) (h1 : second < 2 ^ 41) (h2 : third < 2 ^ 41)
include h0 h1 h2

theorem bundleOf_lt : bundleOf template first second third < 2 ^ 128 := by
  unfold bundleOf
  omega

theorem slotAt_bundleOf :
    slotAt (bundleOf template first second third) 5 = first ∧
      slotAt (bundleOf template first second third) 46 = second ∧
        slotAt (bundleOf template first second third) 87 = third := by
  simp only [slotAt, bundleOf]
  omega

theorem putSlot_bundleOf (instruction : Nat) :
    putSlot (bundleOf template first second third) 5 instruction =
        bundleOf template instruction second third ∧
      putSlot (bundleOf template first second third) 46 instruction =
        bundleOf template first instruction third ∧
      putSlot (bundleOf template first second third) 87 instruction =
        bundleOf template first second instruction := by
  simp only [putSlot, bundleOf]
  omega

end Parts

theorem bundleSlots_bundleOf (move : Nat → Nat → Nat) (ip mask : Nat)
    {template first second third : Nat} (ht : template < 2 ^ 5) (h0 : first < 2 ^ 41)
    (h1 : second < 2 ^ 41) (h2 : third < 2 ^ 41) :
    bundleSlots move ip mask 3 0 (bundleOf template first second third) =
      bundleOf template (slotIf move ip mask 0 first) (slotIf move ip mask 1 second)
        (slotIf move ip mask 2 third) := by
  have hfirst := slotIf_lt move ip mask 0 h0
  have hsecond := slotIf_lt move ip mask 1 h1
  simp only [bundleSlots, Nat.mul_zero, Nat.add_zero, Nat.zero_add, Nat.mul_one]
  rw [(slotAt_bundleOf ht h0 h1 h2).1, (putSlot_bundleOf ht h0 h1 h2 _).1,
    (slotAt_bundleOf ht hfirst h1 h2).2.1, (putSlot_bundleOf ht hfirst h1 h2 _).2.1,
    (slotAt_bundleOf ht hfirst hsecond h2).2.2, (putSlot_bundleOf ht hfirst hsecond h2 _).2.2]

theorem bundleSlots_lt (move : Nat → Nat → Nat) (ip mask : Nat) (h : bundle < 2 ^ 128) :
    bundleSlots move ip mask 3 0 bundle < 2 ^ 128 := by
  have ht : bundle % 2 ^ 5 < 2 ^ 5 := Nat.mod_lt _ (by decide)
  have hslot := slotAt_lt bundle
  rw [bundleOf_slots h, bundleSlots_bundleOf move ip mask ht (hslot 5) (hslot 46) (hslot 87)]
  exact bundleOf_lt ht (slotIf_lt move ip mask 0 (hslot 5)) (slotIf_lt move ip mask 1 (hslot 46))
    (slotIf_lt move ip mask 2 (hslot 87))

theorem bundleSlots_bundleSlots (hip : Aligned 16 ip) (h : bundle < 2 ^ 128) :
    bundleSlots wrappingSub ip (bundleMask (bundleSlots wrappingAdd ip (bundleMask bundle) 3
      0 bundle))
      3 0 (bundleSlots wrappingAdd ip (bundleMask bundle) 3 0 bundle) = bundle := by
  have ht : bundle % 2 ^ 5 < 2 ^ 5 := Nat.mod_lt _ (by decide)
  have hslot := slotAt_lt bundle
  have hmask : bundleMask bundle = ia64BranchTable.getD (bundle % 2 ^ 5) 0 := rfl
  rw [hmask]
  generalize hm : ia64BranchTable.getD (bundle % 2 ^ 5) 0 = mask
  have hforward : bundleSlots wrappingAdd ip mask 3 0 bundle =
      bundleOf (bundle % 2 ^ 5) (slotIf wrappingAdd ip mask 0 (slotAt bundle 5))
        (slotIf wrappingAdd ip mask 1 (slotAt bundle 46))
        (slotIf wrappingAdd ip mask 2 (slotAt bundle 87)) := by
    rw [← bundleSlots_bundleOf wrappingAdd ip mask ht (hslot 5) (hslot 46) (hslot 87),
      ← bundleOf_slots h]
  rw [hforward, bundleMask_bundleOf ht, hm, bundleSlots_bundleOf wrappingSub ip mask ht
    (slotIf_lt _ ip mask 0 (hslot 5)) (slotIf_lt _ ip mask 1 (hslot 46))
    (slotIf_lt _ ip mask 2 (hslot 87)), slotIf_slotIf hip, slotIf_slotIf hip, slotIf_slotIf hip,
    ← bundleOf_slots h]

theorem length_bundleUnit (move : Nat → Nat → Nat) (ip : Nat) (word : List UInt8) :
    (bundleUnit move ip word).length = 16 := length_toLeBytes 16 _

theorem fromLeBytes_sixteen_lt {word : List UInt8} (h : word.length = 16) :
    fromLeBytes word < 2 ^ 128 := by
  refine Nat.lt_of_lt_of_eq (fromLeBytes_lt word) ?_
  rw [h, bytePow_sixteen]

theorem bundleUnit_bundleUnit (hip : Aligned 16 ip) {word : List UInt8} (h : word.length = 16) :
    bundleUnit wrappingSub ip (bundleUnit wrappingAdd ip word) = word := by
  have hlt := fromLeBytes_sixteen_lt h
  have hback := toLeBytes_fromLeBytes word
  rw [h] at hback
  rw [bundleUnit, bundleUnit, fromLeBytes_toLeBytes, bytePow_sixteen,
    Nat.mod_eq_of_lt (bundleSlots_lt _ ip _ hlt), bundleSlots_bundleSlots hip hlt, hback]

theorem bundleStep_some {ip' : Nat} {bytes piece rest : List UInt8}
    (h : bundleStep move ip bytes = some (piece, ip', rest)) :
    ∃ word, word.length = 16 ∧ bytes = word ++ rest ∧ piece = bundleUnit move ip word ∧
      ip' = wrappingAdd ip 16 := by
  unfold bundleStep at h
  split at h
  · cases h
  · rename_i hlength
    cases h
    refine ⟨bytes.take 16, ?_, (List.take_append_drop 16 bytes).symm, rfl, rfl⟩
    rw [length_take]
    omega

theorem bundleStep_none {bytes : List UInt8} :
    bundleStep move ip bytes = none ↔ bytes.length < 16 := by
  unfold bundleStep
  split <;> simp_all

theorem bundleStep_append {word rest : List UInt8} (h : word.length = 16) :
    bundleStep move ip (word ++ rest) = some (bundleUnit move ip word, wrappingAdd ip 16,
      rest) := by
  have hlength : ¬(word ++ rest).length < 16 := by
    rw [length_append, h]
    omega
  rw [bundleStep, if_neg hlength, List.take_left' h, List.drop_left' h]

theorem balanced_bundleStep (move : Nat → Nat → Nat) : Balanced (bundleStep move) := by
  intro ip bytes piece ip' rest h
  obtain ⟨word, hword, rfl, rfl, -⟩ := bundleStep_some h
  rw [length_bundleUnit, length_append, hword]
  exact ⟨by decide, rfl⟩

theorem bundlePass_bundlePass {start : Nat} (hstart : Aligned 16 start) (bytes : List UInt8) :
    pass (bundleStep wrappingSub) start (pass (bundleStep wrappingAdd) start bytes) = bytes := by
  refine Rewriting.pass_pass (balanced_bundleStep _) (balanced_bundleStep _)
    (fun ip _ _ _ _ hip h => ?_) (fun ip bytes _ h => ?_) (fun ip bytes piece ip' rest hip h => ?_)
    hstart bytes
  · obtain ⟨-, -, -, -, rfl⟩ := bundleStep_some h
    obtain ⟨hlt, hmod⟩ := hip
    rw [wrappingAdd]
    exact ⟨Nat.mod_lt _ (by decide), by omega⟩
  · exact bundleStep_none.mpr (bundleStep_none.mp h)
  · obtain ⟨word, hword, rfl, rfl, rfl⟩ := bundleStep_some h
    refine ⟨word, rfl, ?_⟩
    rw [bundleStep_append (length_bundleUnit _ ip word), bundleUnit_bundleUnit hip hword]

/-! ## The filter -/

section Word

variable {front word rest : List UInt8} (hword : word.length = 16) {byte : Nat}
  (hbyte : byte + 6 ≤ 16)
include hword hbyte

theorem bundle_split :
    front ++ (word ++ rest) =
        (front ++ word.take byte) ++ ((word.drop byte).take 6 ++ (word.drop (byte + 6) ++ rest)) ∧
      (front ++ word.take byte).length = front.length + byte ∧
        ((word.drop byte).take 6).length = 6 := by
  refine ⟨?_, ?_, ?_⟩
  · rw [append_assoc, ← append_assoc (List.take 6 _), ← append_assoc (List.take byte _),
      ← List.drop_drop, List.take_append_drop, List.take_append_drop]
  · rw [length_append, length_take, hword]
    omega
  · rw [length_take, length_drop, hword]
    omega

variable (hroom : front.length + 16 < 2 ^ 64)
include hroom

theorem readU48Le_bundle :
    readU48Le (front ++ (word ++ rest)) (front.length + byte) =
      .ok (fromLeBytes word / 256 ^ byte % 256 ^ 6) := by
  obtain ⟨hsplit, hfront, hsix⟩ := @bundle_split front word rest hword byte hbyte
  have hread := @checkedRange_append (front ++ word.take byte) ((word.drop byte).take 6)
    (word.drop (byte + 6) ++ rest) (by rw [hfront, hsix]; omega) "IA64 instruction range overflows"
    "IA64 instruction is truncated"
  rw [← hsplit, hfront, hsix] at hread
  rw [readU48Le, hread, ok_bind, fromLeBytes_take _ (by rw [length_drop, hword]; omega),
    fromLeBytes_drop _ (by omega)]
  rfl

theorem writeU48Le_bundle (value : Nat) :
    writeU48Le (front ++ (word ++ rest)) (front.length + byte) value =
      .ok (front ++ (toLeBytes 16 (fromLeBytes word % 256 ^ byte + 256 ^ byte * (value % 256 ^ 6 +
        256 ^ 6 * (fromLeBytes word / 256 ^ (byte + 6)))) ++ rest)) := by
  obtain ⟨hsplit, hfront, hsix⟩ := @bundle_split front word rest hword byte hbyte
  have hwrite := @writeRange_append (front ++ word.take byte) ((word.drop byte).take 6)
    (word.drop (byte + 6) ++ rest) (by rw [hfront, hsix]; omega) "IA64 instruction range overflows"
    "IA64 instruction is truncated" (toLeBytes 6 value) (by rw [length_toLeBytes, hsix])
  rw [← hsplit, hfront] at hwrite
  have hnumber := toLeBytes_fromLeBytes
    (word.take byte ++ (toLeBytes 6 value ++ word.drop (byte + 6)))
  have hlength : (word.take byte ++ (toLeBytes 6 value ++ word.drop (byte + 6))).length = 16 := by
    simp only [length_append, length_take, length_toLeBytes, length_drop, hword]
    omega
  have htake : (word.take byte).length = byte := by
    rw [length_take, hword]
    omega
  rw [hlength, fromLeBytes_append, fromLeBytes_append, fromLeBytes_toLeBytes, htake,
    length_toLeBytes, fromLeBytes_take _ (by omega), fromLeBytes_drop _ (by omega)] at hnumber
  rw [writeU48Le, hwrite, hnumber]
  simp only [append_assoc]

end Word

theorem ia64_mask {normalized : Nat} (h : normalized < 2 ^ 64) (destination : Nat) :
    (normalized &&& 2 ^ 64 - 1 - 0x008fffff <<< 13 ||| (destination &&& 0x000fffff) <<< 13 |||
      (destination &&& 0x00100000) <<< 16) = ia64Target normalized destination := by
  have hmask : 2 ^ 64 - 1 - 0x008fffff <<< 13 =
      2 ^ 13 - 1 ||| 2 ^ 33 * (2 ^ 3 - 1) ||| 2 ^ 37 * (2 ^ 27 - 1) := by decide
  have haddress : (destination &&& 0x000fffff) <<< 13 = 2 ^ 13 * (destination % 2 ^ 20) := by
    rw [show 0x000fffff = 2 ^ 20 - 1 from rfl, and_ones, Nat.shiftLeft_eq, Nat.mul_comm]
  have hsign : (destination &&& 0x00100000) <<< 16 = 2 ^ 36 * (destination / 2 ^ 20 % 2) := by
    rw [show 0x00100000 = 2 ^ 20 * (2 ^ 1 - 1) from rfl, and_field, Nat.shiftLeft_eq]
    omega
  rw [hmask, Nat.and_or_distrib_left, Nat.and_or_distrib_left, and_ones, and_field, and_field,
    haddress, hsign]
  have hhigh : normalized / 2 ^ 37 % 2 ^ 27 = normalized / 2 ^ 37 := by omega
  have horder : (normalized % 2 ^ 13 ||| 2 ^ 33 * (normalized / 2 ^ 33 % 2 ^ 3) |||
      2 ^ 37 * (normalized / 2 ^ 37) ||| 2 ^ 13 * (destination % 2 ^ 20) |||
        2 ^ 36 * (destination / 2 ^ 20 % 2)) =
      (normalized % 2 ^ 13 ||| 2 ^ 13 * (destination % 2 ^ 20) |||
        2 ^ 33 * (normalized / 2 ^ 33 % 2 ^ 3) ||| 2 ^ 36 * (destination / 2 ^ 20 % 2) |||
          2 ^ 37 * (normalized / 2 ^ 37)) := by ac_rfl
  have hlow : normalized % 2 ^ 13 < 2 ^ 13 := Nat.mod_lt _ (by decide)
  have hto33 : normalized % 2 ^ 13 + 2 ^ 13 * (destination % 2 ^ 20) < 2 ^ 33 := by omega
  have hto36 : normalized % 2 ^ 13 + 2 ^ 13 * (destination % 2 ^ 20) +
      2 ^ 33 * (normalized / 2 ^ 33 % 2 ^ 3) < 2 ^ 36 := by omega
  have hto37 : normalized % 2 ^ 13 + 2 ^ 13 * (destination % 2 ^ 20) +
      2 ^ 33 * (normalized / 2 ^ 33 % 2 ^ 3) + 2 ^ 36 * (destination / 2 ^ 20 % 2) < 2 ^ 37 := by
    omega
  rw [hhigh, horder, or_field hlow, or_field hto33, or_field hto36, or_field hto37]
  rfl

theorem ia64_source (normalized : Nat) :
    wrappingShl (normalized >>> 13 &&& 0x000fffff ||| (normalized >>> 36 &&& 1) <<< 20) 4 =
      2 ^ 4 * ia64Source normalized := by
  have hsource := ia64Source_lt normalized
  rw [show 0x000fffff = 2 ^ 20 - 1 from rfl, show normalized >>> 36 &&& 1 =
    normalized >>> 36 % 2 ^ 1
    from and_ones _ 1, and_ones, Nat.shiftLeft_eq, Nat.mul_comm _ (2 ^ 20),
    or_field (Nat.mod_lt _ (by decide)), Nat.shiftRight_eq_div_pow, Nat.shiftRight_eq_div_pow]
  show wrappingShl (ia64Source normalized) 4 = _
  rw [wrappingShl, Nat.shiftLeft_eq]
  omega

theorem ia64_above (instruction destination : Nat) :
    isIa64Branch instruction = isIa64Branch (instruction % 2 ^ 41) ∧
      ia64Source instruction = ia64Source (instruction % 2 ^ 41) ∧
        ia64Target instruction destination =
          ia64Target (instruction % 2 ^ 41) destination + 2 ^ 41 * (instruction / 2 ^ 41) := by
  have hopcode : instruction % 2 ^ 41 / 2 ^ 37 % 2 ^ 4 = instruction / 2 ^ 37 % 2 ^ 4 := by omega
  have hregister : instruction % 2 ^ 41 / 2 ^ 9 % 2 ^ 3 = instruction / 2 ^ 9 % 2 ^ 3 := by omega
  have haddress : instruction % 2 ^ 41 / 2 ^ 13 % 2 ^ 20 = instruction / 2 ^ 13 % 2 ^ 20 := by omega
  have hsign : instruction % 2 ^ 41 / 2 ^ 36 % 2 = instruction / 2 ^ 36 % 2 := by omega
  have hlow : instruction % 2 ^ 41 % 2 ^ 13 = instruction % 2 ^ 13 := by omega
  have hmiddle : instruction % 2 ^ 41 / 2 ^ 33 % 2 ^ 3 = instruction / 2 ^ 33 % 2 ^ 3 := by omega
  refine ⟨by rw [isIa64Branch, isIa64Branch, hopcode, hregister],
    by rw [ia64Source, ia64Source, haddress, hsign], ?_⟩
  rw [ia64Target, ia64Target, hlow, hmiddle]
  omega

theorem ia64_place {low : Nat} (hlow : low = 5 ∨ low = 6 ∨ low = 7) (h : instruction < 2 ^ 41) :
    (bundle % 2 ^ 48 % 2 ^ low + 2 ^ low *
      (instruction + 2 ^ 41 * (bundle % 2 ^ 48 / 2 ^ low / 2 ^ 41))) % 2 ^ 48 +
        2 ^ 48 * (bundle / 2 ^ 48) =
      bundle % 2 ^ low + 2 ^ low * (instruction + 2 ^ 41 * (bundle / 2 ^ low / 2 ^ 41)) := by
  rcases hlow with rfl | rfl | rfl <;> omega

theorem putSlot_eq (bundle byte low instruction : Nat) :
    putSlot bundle (8 * byte + low) instruction =
      bundle % 256 ^ byte + 256 ^ byte * (bundle / 256 ^ byte % 2 ^ low + 2 ^ low *
        (instruction + 2 ^ 41 * (bundle / 256 ^ byte / 2 ^ low / 2 ^ 41))) := by
  have hpow : 2 ^ (8 * byte + low) = 256 ^ byte * 2 ^ low := by
    rw [Nat.pow_add, Nat.pow_mul]
  rw [putSlot, Nat.pow_add _ (8 * byte + low), hpow, Nat.mod_mul, ← Nat.div_div_eq_div_mul,
    ← Nat.div_div_eq_div_mul, Nat.mul_assoc, Nat.add_assoc, ← Nat.mul_add]

theorem slotAt_eq (bundle byte low : Nat) :
    slotAt bundle (8 * byte + low) = bundle / 256 ^ byte / 2 ^ low % 2 ^ 41 := by
  have hpow : 2 ^ (8 * byte + low) = 256 ^ byte * 2 ^ low := by
    rw [Nat.pow_add, Nat.pow_mul]
  rw [slotAt, hpow, Nat.div_div_eq_div_mul]

theorem convertIa64_at {front word rest : List UInt8} (hword : word.length = 16) {byte low : Nat}
    (hbyte : byte + 6 ≤ 16) (hroom : front.length + 16 < 2 ^ 64)
    (hlow : low = 5 ∨ low = 6 ∨ low = 7) (hshift : (8 * byte + low) >>> 3 = byte)
    (hmask : (8 * byte + low) &&& 7 = low) (start : Nat) :
    convertIa64 start (front ++ (word ++ rest)) front.length (8 * byte + low) =
      .ok (front ++ (toLeBytes 16 (putSlot (fromLeBytes word) (8 * byte + low) (slotUnit wrappingSub
        (wrappingAdd start (lowU32Offset front.length))
          (slotAt (fromLeBytes word) (8 * byte + low)))) ++ rest)) := by
  have hadd : front.length + byte < 2 ^ 64 := by omega
  have hread := @readU48Le_bundle front word rest hword byte hbyte hroom
  have hwrite := @writeU48Le_bundle front word rest hword byte hbyte hroom
  have hlast : 256 ^ (byte + 6) = 256 ^ byte * 2 ^ 48 := Nat.pow_add 256 byte 6
  have hback := toLeBytes_fromLeBytes word
  rw [hword] at hback
  rw [hlast, ← Nat.div_div_eq_div_mul, show 256 ^ 6 = 2 ^ 48 from rfl] at hwrite
  rw [show 256 ^ 6 = 2 ^ 48 from rfl] at hread
  rw [convertIa64, putSlot_eq, slotAt_eq]
  generalize hbundle : fromLeBytes word / 256 ^ byte = bundle at hread hwrite ⊢
  have hslot : bundle % 2 ^ 48 / 2 ^ low % 2 ^ 41 = bundle / 2 ^ low % 2 ^ 41 := by
    rcases hlow with rfl | rfl | rfl <;> omega
  have hsmall : bundle % 2 ^ 48 / 2 ^ low < 2 ^ 64 := by
    rcases hlow with rfl | rfl | rfl <;> omega
  simp only [hshift, hmask, checkedAdd_of_lt hadd, okOr_some, ok_bind, hread,
    Nat.shiftRight_eq_div_pow (bundle % 2 ^ 48)]
  generalize hnormalized : bundle % 2 ^ 48 / 2 ^ low = normalized at hslot hsmall ⊢
  have hopcode : (normalized >>> 37 &&& 0x0f = 5 ∧ normalized >>> 9 &&& 7 = 0) ↔
      isIa64Branch (bundle / 2 ^ low % 2 ^ 41) = true := by
    rw [← hslot, ← (ia64_above normalized 0).1, isIa64Branch, decide_eq_true_iff,
      show normalized >>> 37 &&& 0x0f = normalized >>> 37 % 2 ^ 4 from and_ones _ 4,
      show normalized >>> 9 &&& 7 = normalized >>> 9 % 2 ^ 3 from and_ones _ 3,
      Nat.shiftRight_eq_div_pow, Nat.shiftRight_eq_div_pow]
  simp only [hopcode]
  by_cases hbranch : isIa64Branch (bundle / 2 ^ low % 2 ^ 41) = true
  · refine (if_pos hbranch).trans ?_
    obtain ⟨-, hsource, -⟩ := ia64_above normalized 0
    rw [ia64_source, ia64_mask hsmall, hsource, hslot, Nat.shiftRight_eq_div_pow]
    generalize hdestination : wrappingSub (2 ^ 4 * ia64Source (bundle / 2 ^ low % 2 ^ 41))
      (wrappingAdd start (lowU32Offset front.length)) / 2 ^ 4 = destination
    obtain ⟨-, -, htarget⟩ := ia64_above normalized destination
    have hinstruction := ia64Target_lt (Nat.mod_lt (bundle / 2 ^ low) (show 0 < 2 ^ 41 by decide))
      destination
    rw [hslot] at htarget
    have hlowMask : (checkedShl 64 1 low).bind (fun value => checkedSub value 1) =
        some (2 ^ low - 1) := by
      rcases hlow with rfl | rfl | rfl <;> rfl
    have hshifted : checkedShl 64 (ia64Target normalized destination) low =
        some (2 ^ low * ia64Target normalized destination) := by
      rw [checkedShl, if_pos (by omega), htarget, Nat.shiftLeft_eq, Nat.mul_comm, Nat.mod_eq_of_lt]
      rcases hlow with rfl | rfl | rfl <;> omega
    rw [hlowMask, hshifted, okOr_some, okOr_some, ok_bind, ok_bind, and_ones,
      or_field (Nat.mod_lt _ (Nat.two_pow_pos low)), htarget, hwrite, ← hnormalized,
      ia64_place hlow hinstruction, slotUnit, if_pos hbranch, hdestination]
  · refine (if_neg hbranch).trans ?_
    rw [slotUnit, if_neg hbranch, Nat.mod_add_div, Nat.mod_add_div, ← hbundle, Nat.mod_add_div,
      hback]
    rfl

theorem putSlot_slotAt (bundle bit : Nat) : putSlot bundle bit (slotAt bundle bit) = bundle := by
  rw [putSlot, slotAt, Nat.pow_add, ← Nat.div_div_eq_div_mul, Nat.mod_add_div, Nat.mod_add_div]

theorem putSlot_lt {slot : Nat} (hbundle : bundle < 2 ^ 128) (hslot : slot < 3)
    (h : instruction < 2 ^ 41) : putSlot bundle (5 + 41 * slot) instruction < 2 ^ 128 := by
  have hcases : slot = 0 ∨ slot = 1 ∨ slot = 2 := by omega
  rcases hcases with rfl | rfl | rfl <;> simp only [putSlot] <;> omega

section Slots

variable {front rest : List UInt8} (hroom : front.length + 16 < 2 ^ 64) (start : Nat)
include hroom

theorem convertIa64_eq {word : List UInt8} (hword : word.length = 16) {slot : Nat}
    (hslot : slot < 3) :
    convertIa64 start (front ++ (word ++ rest)) front.length (5 + 41 * slot) =
      .ok (front ++ (toLeBytes 16 (putSlot (fromLeBytes word) (5 + 41 * slot) (slotUnit wrappingSub
        (wrappingAdd start (lowU32Offset front.length))
          (slotAt (fromLeBytes word) (5 + 41 * slot)))) ++ rest)) := by
  have hcases : slot = 0 ∨ slot = 1 ∨ slot = 2 := by omega
  rcases hcases with rfl | rfl | rfl
  · exact @convertIa64_at front word rest hword 0 5 (by decide) hroom (by decide) rfl rfl start
  · exact @convertIa64_at front word rest hword 5 6 (by decide) hroom (by decide) rfl rfl start
  · exact @convertIa64_at front word rest hword 10 7 (by decide) hroom (by decide) rfl rfl start

theorem ia64Slots_granted {mask : Nat} (left : Nat) {slot : Nat} (h : left + slot = 3)
    {word : List UInt8} (hword : word.length = 16) :
    (ia64Slots start mask front.length left slot (5 + 41 * slot)
      (front ++ (word ++ rest))).granted =
      .ok (front ++ (toLeBytes 16 (bundleSlots wrappingSub
        (wrappingAdd start (lowU32Offset front.length)) mask left slot (fromLeBytes word)) ++
          rest)) := by
  induction left generalizing slot word with
  | zero =>
    have hback := toLeBytes_fromLeBytes word
    rw [hword] at hback
    rw [bundleSlots, hback]
    rfl
  | succ left ih =>
    have hslot : slot < 3 := by omega
    have hlt := fromLeBytes_sixteen_lt hword
    have hselected : checkedShl 8 1 slot = some (2 ^ slot) := checkedShl_one (by omega)
    have hadd : 5 + 41 * slot + 41 < 2 ^ 64 := by omega
    have hnext : 5 + 41 * slot + 41 = 5 + 41 * (slot + 1) := by omega
    have htest : mask &&& 2 ^ slot = 0 ↔ mask / 2 ^ slot % 2 = 0 := by
      have hfield := and_field mask slot 1
      rw [show 2 ^ 1 - 1 = 1 from rfl, Nat.mul_one] at hfield
      rw [hfield, Nat.mul_eq_zero, or_iff_right (Nat.ne_of_gt (Nat.two_pow_pos slot)),
        Nat.pow_one]
    have hinstruction := slotIf_lt wrappingSub (wrappingAdd start (lowU32Offset front.length)) mask
      slot (slotAt_lt (fromLeBytes word) (5 + 41 * slot))
    have hsmall := putSlot_lt hlt hslot hinstruction
    have hconvert : (if mask &&& 2 ^ slot = 0 then (pure (front ++ (word ++ rest)) : Metered _)
        else convertIa64 start (front ++ (word ++ rest)) front.length (5 + 41 * slot)).granted =
        .ok (front ++ (toLeBytes 16 (putSlot (fromLeBytes word) (5 + 41 * slot) (slotIf wrappingSub
          (wrappingAdd start (lowU32Offset front.length)) mask slot
            (slotAt (fromLeBytes word) (5 + 41 * slot)))) ++ rest)) := by
      by_cases hmask : mask / 2 ^ slot % 2 = 0
      · have hback := toLeBytes_fromLeBytes word
        rw [hword] at hback
        rw [if_pos (htest.mpr hmask), slotIf, if_pos hmask, putSlot_slotAt, hback]
        rfl
      · rw [if_neg (mt htest.mp hmask), slotIf, if_neg hmask, Prog.granted_lift]
        exact convertIa64_eq hroom start hword hslot
    have hrest := @ih (slot + 1) (by omega)
      (toLeBytes 16 (putSlot (fromLeBytes word) (5 + 41 * slot)
      (slotIf wrappingSub (wrappingAdd start (lowU32Offset front.length)) mask slot
        (slotAt (fromLeBytes word) (5 + 41 * slot))))) (length_toLeBytes 16 _)
    rw [fromLeBytes_toLeBytes, bytePow_sixteen, Nat.mod_eq_of_lt hsmall] at hrest
    rw [ia64Slots, bundleSlots]
    simp only [Prog.granted_bind, checkpoint_granted, Prog.granted_lift, ok_bind, hselected,
      okOr_some, hconvert, checkedAdd_of_lt hadd, hnext, hrest]

theorem ia64Body_granted {word : List UInt8} (hword : word.length = 16) :
    (ia64Body start ⟨front ++ (word ++ rest), front.length⟩).granted =
      .ok ⟨front ++ (bundleUnit wrappingSub (wrappingAdd start (lowU32Offset front.length)) word ++
        rest), front.length + 16⟩ := by
  obtain ⟨first, tail, rfl⟩ : ∃ first tail, word = first :: tail := by
    cases word with
    | nil => cases hword
    | cons first tail => exact ⟨first, tail, rfl⟩
  have hfirst : (front ++ (first :: tail ++ rest))[front.length]? = some first := by
    rw [List.getElem?_append_right (Nat.le_refl _), Nat.sub_self]
    rfl
  have htemplate : (first &&& 0x1f).toNat = fromLeBytes (first :: tail) % 2 ^ 5 := by
    have hmask : (first &&& 0x1f).toNat = first.toNat % 2 ^ 5 :=
      (UInt8.toNat_and first 0x1f).trans (and_ones _ 5)
    rw [hmask, fromLeBytes]
    omega
  have htable : ia64BranchTable[fromLeBytes (first :: tail) % 2 ^ 5]? =
      some (bundleMask (fromLeBytes (first :: tail))) := by
    have hlt : fromLeBytes (first :: tail) % 2 ^ 5 < ia64BranchTable.length :=
      Nat.mod_lt _ (by decide)
    rw [bundleMask, List.getD_eq_getElem?_getD, List.getElem?_eq_getElem hlt]
    rfl
  have hslots := @ia64Slots_granted front rest hroom start
    (bundleMask (fromLeBytes (first :: tail))) 3 0 rfl (first :: tail) hword
  simp only [Nat.mul_zero, Nat.add_zero] at hslots
  simp only [ia64Body, Prog.granted_bind, checkpoint_granted, Prog.granted_lift, ok_bind,
    hfirst, okOr_some, htemplate, htable, hslots, checkedAdd_of_lt hroom, Prog.granted_pure]
  rfl

end Slots

theorem decodeIa64_granted {bytes properties : List UInt8} (hlen : bytes.length < 2 ^ 64)
    {start : Nat} (hstart : startingPosition properties = .ok start) :
    (decodeIa64 bytes properties).granted = .ok (pass (bundleStep wrappingSub) start bytes) := by
  rw [decodeIa64, hstart]
  simp only [Prog.granted_lift_bind, ok_bind]
  refine scanLoop_granted (balanced_bundleStep wrappingSub) (startingPosition_lt hstart) 16 ?_ ?_
  · intro front rest hroom hunit hnone
    have hrest := bundleStep_none.mp hnone
    rw [decide_eq_false_iff_not]
    show ¬front.length < bytes.length / 16 * 16
    omega
  · intro front rest piece ip rest' hroom hunit hsome
    obtain ⟨word, hword, rfl, rfl, rfl⟩ := bundleStep_some hsome
    rw [length_append, hword] at hroom
    rw [length_bundleUnit]
    exact ⟨decide_eq_true (show front.length < bytes.length / 16 * 16 by omega), Nat.dvd_refl 16,
      rfl, ia64Body_granted (by omega) start hword⟩

end Filter
end Unpackio
