/-
The branch filters with four-byte instructions as passes over words, and their
forward transforms.

An instruction set says which words are branches and what a conversion makes of
one, in arithmetic.  The conversions of `decode/filters.rs`, which work on bits,
subtract the address of an instruction, and the forward transforms add it.  A
conversion is undone because its result is again a branch.
-/
import Unpackio.Filter.Branch
import Unpackio.Filter.Phase5

namespace Unpackio
namespace Filter

open Rewriting (Step Balanced pass)

/-! ## Words in a pass -/

section

/-- Replace the next four bytes; the state is the instruction pointer. -/
def wordStep (unit : Nat → List UInt8 → List UInt8) : Step Nat UInt8
  | ip, a :: b :: c :: d :: rest => some (unit ip [a, b, c, d], wrappingAdd ip 4, rest)
  | _, _ => none

def KeepsFour (unit : Nat → List UInt8 → List UInt8) : Prop :=
  ∀ ip word, word.length = 4 → (unit ip word).length = 4

variable {unit : Nat → List UInt8 → List UInt8}

theorem wordStep_some {ip ip' : Nat} {bytes piece rest : List UInt8}
    (h : wordStep unit ip bytes = some (piece, ip', rest)) :
    ∃ a b c d, bytes = [a, b, c, d] ++ rest ∧ piece = unit ip [a, b, c, d] ∧
      ip' = wrappingAdd ip 4 := by
  match bytes, h with
  | a :: b :: c :: d :: _, h =>
    cases h
    exact ⟨a, b, c, d, rfl, rfl, rfl⟩

theorem wordStep_none {ip : Nat} {bytes : List UInt8} :
    wordStep unit ip bytes = none ↔ bytes.length < 4 := by
  match bytes with
  | [] | [_] | [_, _] | [_, _, _] => simp [wordStep]
  | _ :: _ :: _ :: _ :: _ => simp [wordStep]

theorem balanced_wordStep (hunit : KeepsFour unit) : Balanced (wordStep unit) := by
  intro ip bytes piece ip' rest h
  obtain ⟨a, b, c, d, rfl, rfl, -⟩ := wordStep_some h
  rw [hunit ip [a, b, c, d] rfl, List.length_append]
  exact ⟨by decide, rfl⟩

theorem decodeWords_granted (hunit : KeepsFour unit) {name : String}
    {convert : Nat → List UInt8 → Nat → Except Error (List UInt8)}
    (hconvert : ∀ ip front a b c d rest, ip < 2 ^ 32 → front.length + 4 < 2 ^ 64 →
      convert ip (front ++ a :: b :: c :: d :: rest) front.length =
        .ok (front ++ (unit ip [a, b, c, d] ++ rest))) {bytes : List UInt8}
    (hlen : bytes.length < 2 ^ 64) {start : Nat} (hstart : start < 2 ^ 32) :
    (decodeWords name convert bytes start).granted = .ok (pass (wordStep unit) start bytes) := by
  let Stands (state : BranchState) (front : List UInt8) (ip : Nat) (rest : List UInt8) : Prop :=
    state = ⟨front ++ rest, front.length, ip⟩ ∧ front.length + rest.length < 2 ^ 64 ∧ ip < 2 ^ 32
  have hstop : ∀ state front ip rest, Stands state front ip rest → wordStep unit ip rest = none →
      BranchState.hasWord state = false := by
    rintro _ front ip rest ⟨rfl, hroom, -⟩ hnone
    have hshort := wordStep_none.mp hnone
    rw [BranchState.hasWord]
    by_cases hadd : front.length + 4 < 2 ^ 64
    · rw [checkedAdd_of_lt hadd, Option.any_some, decide_eq_false_iff_not, List.length_append]
      omega
    · rw [checkedAdd, if_neg hadd, Option.any_none]
  have hstep : ∀ state front ip rest piece ip' rest', Stands state front ip rest →
      wordStep unit ip rest = some (piece, ip', rest') → BranchState.hasWord state = true ∧
        ∃ state', (wordBody name convert state).granted = .ok state' ∧
          Stands state' (front ++ piece) ip' rest' := by
    rintro _ front ip rest piece ip' rest' ⟨rfl, hroom, hip⟩ hsome
    obtain ⟨a, b, c, d, rfl, rfl, rfl⟩ := wordStep_some hsome
    have hfour := hunit ip [a, b, c, d] rfl
    rw [List.length_append] at hroom
    have hadd : front.length + 4 < 2 ^ 64 := Nat.lt_of_le_of_lt
      (Nat.add_le_add_left (Nat.le_add_right 4 rest'.length) _) hroom
    refine ⟨?_, ⟨front ++ (unit ip [a, b, c, d] ++ rest'), front.length + 4, wrappingAdd ip 4⟩,
      ?_, ?_, ?_, Nat.mod_lt _ (by decide)⟩
    · rw [BranchState.hasWord, checkedAdd_of_lt hadd, Option.any_some, decide_eq_true_iff,
        List.length_append, List.length_append]
      exact Nat.add_le_add_left (Nat.le_add_right 4 _) _
    · simp only [wordBody, List.cons_append, List.nil_append, Prog.granted_bind,
        checkpoint_granted, Prog.granted_lift, hconvert ip front a b c d rest' hip hadd,
        checkedAdd_of_lt hadd, okOr_some, Except.ok_bind, Prog.granted_pure]
    · rw [List.append_assoc, List.length_append, hfour]
    · rw [List.length_append, hfour, Nat.add_assoc]
      exact hroom
  obtain ⟨state', front', ip', rest', hgranted, ⟨rfl, -⟩, heq⟩ :=
    Prog.whileLoop_granted (balanced_wordStep hunit) hstop hstep (Nat.le_refl bytes.length)
      (show Stands ⟨bytes, 0, start⟩ [] start bytes from
        ⟨rfl, (Nat.zero_add bytes.length).symm ▸ hlen, hstart⟩)
  rw [decodeWords, Prog.granted_map, hgranted]
  exact congrArg Except.ok heq

theorem wordPass_wordPass {forward backward : Nat → List UInt8 → List UInt8}
    (hforward : KeepsFour forward) (hbackward : KeepsFour backward) {Good : Nat → Prop}
    (hgood : ∀ ip, Good ip → Good (wrappingAdd ip 4))
    (hundo : ∀ ip word, Good ip → word.length = 4 → backward ip (forward ip word) = word)
    {start : Nat} (hstart : Good start) (bytes : List UInt8) :
    pass (wordStep backward) start (pass (wordStep forward) start bytes) = bytes := by
  refine Rewriting.pass_pass (balanced_wordStep hforward) (balanced_wordStep hbackward)
    (fun ip _ _ _ _ hip h => ?_) (fun ip bytes _ h => ?_) (fun ip bytes piece ip' rest hip h => ?_)
    hstart bytes
  · obtain ⟨-, -, -, -, -, -, rfl⟩ := wordStep_some h
    exact hgood ip hip
  · exact wordStep_none.mpr (wordStep_none.mp h)
  · obtain ⟨a, b, c, d, rfl, rfl, rfl⟩ := wordStep_some h
    refine ⟨[a, b, c, d], rfl, ?_⟩
    have hback := hundo ip [a, b, c, d] hip rfl
    match forward ip [a, b, c, d], hforward ip [a, b, c, d] rfl, hback with
    | [_, _, _, _], _, hback => rw [← hback]; rfl

end

/-! ## Instruction sets -/

open Except (ok_bind)
open Rewriting (pass)

inductive ByteOrder where
  | little
  | big
  deriving DecidableEq, Repr

variable {word : List UInt8} {ip : Nat}

namespace ByteOrder

def read : ByteOrder → List UInt8 → Nat
  | .little => fromLeBytes
  | .big => fromBeBytes

def write : ByteOrder → Nat → List UInt8
  | .little => toLeBytes 4
  | .big => toBeBytes 4

@[simp] theorem length_write (order : ByteOrder) (value : Nat) :
    (order.write value).length = 4 := by
  cases order with
  | little => exact length_toLeBytes 4 value
  | big => exact length_toBeBytes 4 value

theorem read_lt (order : ByteOrder) {word : List UInt8} (h : word.length = 4) :
    order.read word < 2 ^ 32 := by
  have hpow : 256 ^ word.length = 2 ^ 32 := by rw [h, bytePow_four]
  rw [← hpow]
  cases order with
  | little => exact fromLeBytes_lt word
  | big => exact length_fromBeBytes_lt word

theorem read_write (order : ByteOrder) {value : Nat} (h : value < 2 ^ 32) :
    order.read (order.write value) = value := by
  cases order with
  | little => exact (fromLeBytes_toLeBytes 4 value).trans (Nat.mod_eq_of_lt h)
  | big => exact (fromBeBytes_toBeBytes 4 value).trans (Nat.mod_eq_of_lt h)

theorem write_read (order : ByteOrder) (h : word.length = 4) :
    order.write (order.read word) = word := by
  cases order with
  | little =>
    have hword := toLeBytes_fromLeBytes word
    rwa [h] at hword
  | big =>
    have hword := toBeBytes_fromBeBytes word
    rwa [h] at hword

end ByteOrder

/-- The words of an instruction set that are converted, and how.  `convert` is
given the direction, the instruction pointer and the word. -/
structure WordBranch where
  order : ByteOrder
  recognised : Nat → Bool
  convert : (Nat → Nat → Nat) → Nat → Nat → Nat

namespace WordBranch

variable (branch : WordBranch)

def unit (move : Nat → Nat → Nat) (ip : Nat) (word : List UInt8) : List UInt8 :=
  if branch.recognised (branch.order.read word) then
    branch.order.write (branch.convert move ip (branch.order.read word))
  else word

def decode (start : Nat) (bytes : List UInt8) : List UInt8 :=
  pass (wordStep (branch.unit wrappingSub)) start bytes

/-- The forward transform. -/
def encode (start : Nat) (bytes : List UInt8) : List UInt8 :=
  pass (wordStep (branch.unit wrappingAdd)) start bytes

/-- At these instruction pointers a word that is converted in the direction
`there` is recognised again, and converted back. -/
def Closed (there back : Nat → Nat → Nat) (Good : Nat → Prop) : Prop :=
  ∀ ip word, Good ip → word < 2 ^ 32 → branch.recognised word = true →
    branch.convert there ip word < 2 ^ 32 ∧
      branch.recognised (branch.convert there ip word) = true ∧
        branch.convert back ip (branch.convert there ip word) = word

variable {branch}

theorem unit_of_recognised {move : Nat → Nat → Nat}
    (h : branch.recognised (branch.order.read word) = true) :
    branch.unit move ip word = branch.order.write (branch.convert move ip
      (branch.order.read word)) :=
  if_pos h

theorem unit_of_not {move : Nat → Nat → Nat}
    (h : ¬branch.recognised (branch.order.read word) = true) : branch.unit move ip word = word :=
  if_neg h

theorem keepsFour_unit (move : Nat → Nat → Nat) : KeepsFour (branch.unit move) := by
  intro ip word h
  rw [unit]
  split
  · exact branch.order.length_write _
  · exact h

section Undone

variable {there back : Nat → Nat → Nat} {Good : Nat → Prop} (h : branch.Closed there back Good)
include h

theorem unit_unit (hip : Good ip) (hword : word.length = 4) :
    branch.unit back ip (branch.unit there ip word) = word := by
  by_cases hrecognised : branch.recognised (branch.order.read word) = true
  · obtain ⟨hlt, hagain, hback⟩ := h ip _ hip (branch.order.read_lt hword) hrecognised
    rw [unit_of_recognised hrecognised, unit, branch.order.read_write hlt, if_pos hagain, hback,
      branch.order.write_read hword]
  · rw [unit_of_not hrecognised, unit_of_not hrecognised]

theorem pass_unit_pass_unit (hgood : ∀ ip, Good ip → Good (wrappingAdd ip 4)) {start : Nat}
    (hstart : Good start) (bytes : List UInt8) :
    pass (wordStep (branch.unit back)) start (pass (wordStep (branch.unit there)) start bytes) =
      bytes :=
  wordPass_wordPass (keepsFour_unit _) (keepsFour_unit _) hgood
    (fun _ _ hip hword => unit_unit h hip hword) hstart bytes

end Undone

theorem decode_word (h : word.length = 4) (start : Nat) :
    branch.decode start word = branch.unit wrappingSub start word := by
  match word, h with
  | [a, b, c, d], _ =>
    have hstep : wordStep (branch.unit wrappingSub) start [a, b, c, d] =
        some (branch.unit wrappingSub start [a, b, c, d], wrappingAdd start 4, []) := rfl
    rw [decode, Rewriting.pass_of_some (balanced_wordStep (keepsFour_unit _)) hstep]
    exact List.append_nil _

end WordBranch

theorem aligned_wrappingAdd (h : Aligned 4 ip) : Aligned 4 (wrappingAdd ip 4) := by
  obtain ⟨hlt, hmod⟩ := h
  rw [wrappingAdd]
  exact ⟨Nat.mod_lt _ (by decide), by omega⟩

def ppc : WordBranch where
  order := .big
  recognised word := word / 2 ^ 26 = 0x12 ∧ word % 4 = 1
  convert move ip word := move word ip % 2 ^ 26 + 0x12 * 2 ^ 26

theorem closed_ppc : ppc.Closed wrappingAdd wrappingSub (Aligned 4) := by
  intro ip word hip hword hrecognised
  obtain ⟨hlt, hmod⟩ := hip
  simp only [ppc, decide_eq_true_eq, wrappingAdd, wrappingSub] at hrecognised ⊢
  omega

theorem closed_ppc_back : ppc.Closed wrappingSub wrappingAdd (Aligned 4) := by
  intro ip word hip hword hrecognised
  obtain ⟨hlt, hmod⟩ := hip
  simp only [ppc, decide_eq_true_eq, wrappingAdd, wrappingSub] at hrecognised ⊢
  omega

theorem convertPpc_eq (front : List UInt8) (a b c d : UInt8) (rest : List UInt8)
    (hroom : front.length + 4 < 2 ^ 64) :
    convertPpc ip (front ++ a :: b :: c :: d :: rest) front.length =
      .ok (front ++ (ppc.unit wrappingSub ip [a, b, c, d] ++ rest)) := by
  have hfirst := @byteAt_eq front (a :: b :: c :: d :: rest) "PPC index overflows"
    "PPC opcode is truncated" 0 a rfl (by omega)
  have hfourth := @byteAt_eq front (a :: b :: c :: d :: rest) "PPC index overflows"
    "PPC opcode is truncated" 3 d rfl (by omega)
  have hopcode : (a &&& 0xfc = 0x48 ∧ d &&& 3 = 1) ↔
      ppc.recognised (fromBeBytes [a, b, c, d]) = true := by
    have hopcode : a &&& 0xfc = 0x48 ↔ a.toNat / 4 = 0x12 :=
      @forall_byte (fun a => a &&& 0xfc = 0x48 ↔ a.toNat / 4 = 0x12) (by decide +kernel) a
    have hflags : d &&& 3 = 1 ↔ d.toNat % 4 = 1 :=
      @forall_byte (fun d => d &&& 3 = 1 ↔ d.toNat % 4 = 1) (by decide +kernel) d
    have hb := b.toNat_lt
    have hc := c.toNat_lt
    have hd := d.toNat_lt
    simp only [ppc, decide_eq_true_eq, hopcode, hflags, fromBeBytes_four]
    omega
  have hvalue : ∀ value, value &&& 0x03ffffff ||| 0x48000000 = value % 2 ^ 26 + 0x12 * 2 ^ 26 := by
    intro value
    rw [show 0x03ffffff = 2 ^ 26 - 1 from rfl, and_ones]
    exact or_field (Nat.mod_lt value (by decide)) 0x12
  simp only [convertPpc, hfirst, hfourth, readU32Be_append hroom, ok_bind, hvalue, hopcode]
  by_cases h : ppc.recognised (ppc.order.read [a, b, c, d]) = true
  · rw [WordBranch.unit_of_recognised h]
    exact (if_pos h).trans (writeWord_append hroom (length_toBeBytes 4 _))
  · rw [WordBranch.unit_of_not h]
    exact if_neg h

def arm : WordBranch where
  order := .little
  recognised word := word / 2 ^ 24 = 0xeb
  convert move ip word := move word (wrappingAdd ip 4 / 4) % 2 ^ 24 + 0xeb * 2 ^ 24

theorem closed_arm : arm.Closed wrappingAdd wrappingSub (Aligned 4) := by
  intro ip word hip hword hrecognised
  obtain ⟨hlt, -⟩ := hip
  simp only [arm, decide_eq_true_eq, wrappingAdd, wrappingSub] at hrecognised ⊢
  omega

theorem convertArm_eq (front : List UInt8) (a b c d : UInt8) (rest : List UInt8)
    (hroom : front.length + 4 < 2 ^ 64) :
    convertArm ip (front ++ a :: b :: c :: d :: rest) front.length =
      .ok (front ++ (arm.unit wrappingSub ip [a, b, c, d] ++ rest)) := by
  have hfourth := @byteAt_eq front (a :: b :: c :: d :: rest) "ARM index overflows"
    "ARM opcode is truncated" 3 d rfl (by omega)
  have hopcode : d = 0xeb ↔ arm.recognised (fromLeBytes [a, b, c, d]) = true := by
    have ha := a.toNat_lt
    have hb := b.toNat_lt
    have hc := c.toNat_lt
    rw [← UInt8.toNat_inj]
    simp only [arm, decide_eq_true_eq, fromLeBytes_four, UInt8.reduceToNat]
    omega
  have hvalue : ∀ value, value &&& 0x00ffffff ||| 0xeb000000 = value % 2 ^ 24 + 0xeb * 2 ^ 24 := by
    intro value
    rw [show 0x00ffffff = 2 ^ 24 - 1 from rfl, and_ones]
    exact or_field (Nat.mod_lt value (by decide)) 0xeb
  simp only [convertArm, hfourth, ok_bind, hvalue, hopcode]
  by_cases h : arm.recognised (arm.order.read [a, b, c, d]) = true
  · rw [WordBranch.unit_of_recognised h]
    refine (if_pos h).trans ?_
    rw [readU32Le_append hroom, ok_bind, Nat.shiftRight_eq_div_pow]
    exact writeWord_append hroom (length_toLeBytes 4 _)
  · rw [WordBranch.unit_of_not h]
    exact if_neg h

def sparcWord (displacement : Nat) : Nat :=
  if displacement < 2 ^ 22 then 0x100 * 2 ^ 22 + displacement
  else 0x1fe * 2 ^ 22 + displacement

def sparc : WordBranch where
  order := .big
  recognised word := word / 2 ^ 22 = 0x100 ∨ word / 2 ^ 22 = 0x1ff
  convert move ip word := sparcWord (move (4 * word % 2 ^ 32) ip % 2 ^ 25 / 4)

theorem sparcWord_spec {displacement : Nat} (h : displacement < 2 ^ 23) :
    sparcWord displacement < 2 ^ 32 ∧
      (sparcWord displacement / 2 ^ 22 = 0x100 ∨ sparcWord displacement / 2 ^ 22 = 0x1ff) ∧
        sparcWord displacement % 2 ^ 23 = displacement := by
  unfold sparcWord
  split <;> omega

theorem sparcWord_mod {word : Nat} (h : word / 2 ^ 22 = 0x100 ∨ word / 2 ^ 22 = 0x1ff) :
    sparcWord (word % 2 ^ 23) = word := by
  unfold sparcWord
  split <;> omega

theorem closed_sparc : sparc.Closed wrappingAdd wrappingSub (Aligned 4) := by
  intro ip word hip hword hrecognised
  obtain ⟨hlt, hmod⟩ := hip
  have hrecognised := of_decide_eq_true hrecognised
  obtain ⟨hresult, hagain, hback⟩ := @sparcWord_spec
    (wrappingAdd (4 * word % 2 ^ 32) ip % 2 ^ 25 / 4) (by omega)
  refine ⟨hresult, decide_eq_true hagain, ?_⟩
  refine Eq.trans (congrArg sparcWord ?_) (sparcWord_mod hrecognised)
  show wrappingSub (4 * sparcWord (wrappingAdd (4 * word % 2 ^ 32) ip % 2 ^ 25 / 4) % 2 ^ 32) ip %
    2 ^ 25 / 4 = word % 2 ^ 23
  generalize sparcWord (wrappingAdd (4 * word % 2 ^ 32) ip % 2 ^ 25 / 4) = result at hback hresult ⊢
  simp only [wrappingAdd, wrappingSub] at hback ⊢
  omega

theorem sparc_sign {value : Nat} (h : value < 2 ^ 25) :
    (wrappingSub value (1 <<< 24) ^^^ 0xff000000) >>> 2 ||| 0x40000000 =
      sparcWord (value / 4) := by
  have hxor : ∀ high low : Nat, low < 2 ^ 24 →
      (low + 2 ^ 24 * high) ^^^ 0xff000000 = low + 2 ^ 24 * (high ^^^ 0xff) := by
    intro high low hlow
    refine Nat.eq_of_testBit_eq fun i => ?_
    rw [show 0xff000000 = 2 ^ 24 * 0xff from rfl, Nat.testBit_xor, Nat.add_comm low,
      Nat.add_comm low, Nat.testBit_two_pow_mul_add _ hlow, Nat.testBit_two_pow_mul_add _ hlow,
      Nat.testBit_two_pow_mul]
    by_cases hi : i < 24
    · simp [hi, Nat.not_le.mpr hi]
    · simp [hi, Nat.not_lt.mp hi, Nat.testBit_xor]
  have hor : ∀ low : Nat, low < 2 ^ 30 → low ||| 0x40000000 = low + 2 ^ 30 := by
    intro low hlow
    exact (or_field hlow 1).trans (by rw [Nat.mul_one])
  rw [sparcWord, wrappingSub, Nat.shiftRight_eq_div_pow, Nat.one_shiftLeft]
  by_cases hsign : value < 2 ^ 24
  · have hvalue : (value + 2 ^ 32 - 2 ^ 24) % 2 ^ 32 = value + 2 ^ 24 * 0xff := by omega
    rw [hvalue, hxor 0xff value hsign, if_pos (by omega)]
    show (value + 2 ^ 24 * 0) / 2 ^ 2 ||| 0x40000000 = _
    rw [hor _ (by omega)]
    omega
  · have hvalue : (value + 2 ^ 32 - 2 ^ 24) % 2 ^ 32 = value - 2 ^ 24 + 2 ^ 24 * 0 := by omega
    rw [hvalue, hxor 0 (value - 2 ^ 24) (by omega), if_neg (by omega)]
    show (value - 2 ^ 24 + 2 ^ 24 * 0xff) / 2 ^ 2 ||| 0x40000000 = _
    rw [hor _ (by omega)]
    omega

theorem convertSparc_eq (front : List UInt8) (a b c d : UInt8) (rest : List UInt8)
    (hroom : front.length + 4 < 2 ^ 64) :
    convertSparc ip (front ++ a :: b :: c :: d :: rest) front.length =
      .ok (front ++ (sparc.unit wrappingSub ip [a, b, c, d] ++ rest)) := by
  have hfirst := @byteAt_eq front (a :: b :: c :: d :: rest) "SPARC index overflows"
    "SPARC opcode is truncated" 0 a rfl (by omega)
  have hsecond := @byteAt_eq front (a :: b :: c :: d :: rest) "SPARC index overflows"
    "SPARC opcode is truncated" 1 b rfl (by omega)
  have hopcode : ((a = 0x40 ∧ b &&& 0xc0 = 0) ∨ (a = 0x7f ∧ b ≥ 0xc0)) ↔
      sparc.recognised (fromBeBytes [a, b, c, d]) = true := by
    have hforward : b &&& 0xc0 = 0 ↔ b.toNat / 64 = 0 :=
      @forall_byte (fun b => b &&& 0xc0 = 0 ↔ b.toNat / 64 = 0) (by decide +kernel) b
    have hbackward : b ≥ 0xc0 ↔ 0xc0 ≤ b.toNat := UInt8.le_iff_toNat_le
    have hb := b.toNat_lt
    have hc := c.toNat_lt
    have hd := d.toNat_lt
    rw [hforward, hbackward, ← UInt8.toNat_inj, ← UInt8.toNat_inj]
    simp only [sparc, decide_eq_true_eq, fromBeBytes_four, UInt8.reduceToNat]
    omega
  have hvalue : ∀ value, value &&& 0x01ffffff = value % 2 ^ 25 := fun value => and_ones value 25
  simp only [convertSparc, hfirst, hsecond, ok_bind, hvalue, hopcode]
  by_cases h : sparc.recognised (sparc.order.read [a, b, c, d]) = true
  · rw [WordBranch.unit_of_recognised h]
    refine (if_pos h).trans ?_
    rw [readU32Be_append hroom, ok_bind, sparc_sign (Nat.mod_lt _ (by decide)), wrappingShl,
      Nat.shiftLeft_eq, Nat.mul_comm]
    exact writeWord_append hroom (length_toBeBytes 4 _)
  · rw [WordBranch.unit_of_not h]
    exact if_neg h

/-! ## ARM64 -/

/-- An ADRP instruction whose page lies within the range that is converted; the
range is moved by half its size, so that one comparison is enough. -/
def isAdrp (word : Nat) : Prop :=
  word / 2 ^ 31 = 1 ∧ word / 2 ^ 24 % 2 ^ 5 = 0x10 ∧ (word + 2 ^ 20) % 2 ^ 24 < 2 ^ 21

instance (word : Nat) : Decidable (isAdrp word) := inferInstanceAs (Decidable (_ ∧ _))

def adrpPage (word : Nat) : Nat :=
  (word + 2 ^ 20) % 2 ^ 24 / 2 ^ 5 * 2 ^ 5 + word / 2 ^ 29 % 4 * 2 ^ 3

/-- The ADRP instruction with this page and the register of `word`. -/
def adrpWord (page word : Nat) : Nat :=
  word % 2 ^ 5 + (page + 2 ^ 24 - 2 ^ 20) % 2 ^ 24 / 2 ^ 5 * 2 ^ 5 + 2 ^ 28 * 9 +
    2 ^ 29 * (page / 2 ^ 3 % 4)

def arm64 : WordBranch where
  order := .little
  recognised word := word / 2 ^ 26 = 0x25 ∨ isAdrp word
  convert move ip word :=
    if word / 2 ^ 26 = 0x25 then move word (ip / 4) % 2 ^ 26 + 0x25 * 2 ^ 26
    else adrpWord (move (adrpPage word) (ip / 2 ^ 12 * 2 ^ 3) % 2 ^ 21) word

theorem adrp_fields {register low field : Nat} (hregister : register < 2 ^ 5) (hlow : low < 2 ^ 19)
    (hfield : field < 4) {word : Nat}
    (hword : word = register + low * 2 ^ 5 + 2 ^ 28 * 9 + 2 ^ 29 * field) :
    word / 2 ^ 24 = 144 + 32 * field ∧ word / 2 ^ 29 % 4 = field ∧ word % 2 ^ 5 = register ∧
      (word + 2 ^ 20) % 2 ^ 24 = register + (low + 2 ^ 15) % 2 ^ 19 * 2 ^ 5 := by
  subst hword
  have hopcode : (register + low * 2 ^ 5 + 2 ^ 28 * 9 + 2 ^ 29 * field) / 2 ^ 24 =
      144 + 32 * field := by omega
  refine ⟨hopcode, by omega, by omega, ?_⟩
  clear hopcode
  omega

theorem adrpWord_spec {page word : Nat} (hpage : page < 2 ^ 21) (hmod : page % 2 ^ 3 = 0) :
    adrpWord page word < 2 ^ 32 ∧ isAdrp (adrpWord page word) ∧
      ¬adrpWord page word / 2 ^ 26 = 0x25 ∧ adrpPage (adrpWord page word) = page ∧
        adrpWord page word % 2 ^ 5 = word % 2 ^ 5 := by
  have hlow : (page + 2 ^ 24 - 2 ^ 20) % 2 ^ 24 / 2 ^ 5 < 2 ^ 19 := by omega
  have hback : ((page + 2 ^ 24 - 2 ^ 20) % 2 ^ 24 / 2 ^ 5 + 2 ^ 15) % 2 ^ 19 = page / 2 ^ 5 := by
    omega
  have hfield : page / 2 ^ 3 % 4 < 4 := Nat.mod_lt _ (by decide)
  have hregister : word % 2 ^ 5 < 2 ^ 5 := Nat.mod_lt _ (by decide)
  obtain ⟨hopcode, hfields, hsame, hrange⟩ := adrp_fields hregister hlow hfield
    (@rfl _ (adrpWord page word))
  rw [hback] at hrange
  clear hlow hback
  generalize adrpWord page word = result at hopcode hfields hsame hrange ⊢
  refine ⟨by omega, ⟨by omega, by omega, by omega⟩, by omega, ?_, hsame⟩
  rw [adrpPage, hrange, hfields]
  omega

theorem adrpWord_adrpPage {word : Nat} (h : isAdrp word) :
    adrpWord (adrpPage word) word = word := by
  obtain ⟨htop, hopcode, hrange⟩ := h
  have hword : word = word % 2 ^ 5 + 2 ^ 5 * (word / 2 ^ 5 % 2 ^ 19) + 2 ^ 28 * 9 +
      2 ^ 29 * (word / 2 ^ 29 % 4) := by omega
  have hlow : (word + 2 ^ 20) % 2 ^ 24 / 2 ^ 5 = (word / 2 ^ 5 % 2 ^ 19 + 2 ^ 15) % 2 ^ 19 := by
    omega
  have hfield : word / 2 ^ 29 % 4 < 4 := Nat.mod_lt _ (by decide)
  have hback : ((word / 2 ^ 5 % 2 ^ 19 + 2 ^ 15) % 2 ^ 19 + (2 ^ 19 - 2 ^ 15)) % 2 ^ 19 =
      word / 2 ^ 5 % 2 ^ 19 := by omega
  have hpage : (adrpPage word + 2 ^ 24 - 2 ^ 20) % 2 ^ 24 / 2 ^ 5 = word / 2 ^ 5 % 2 ^ 19 := by
    rw [adrpPage, hlow, ← hback]
    generalize (word / 2 ^ 5 % 2 ^ 19 + 2 ^ 15) % 2 ^ 19 = page
    omega
  have hfields : adrpPage word / 2 ^ 3 % 4 = word / 2 ^ 29 % 4 := by
    rw [adrpPage]
    omega
  rw [adrpWord, hpage, hfields, Nat.mul_comm _ (2 ^ 5)]
  exact hword.symm

theorem closed_arm64 : arm64.Closed wrappingAdd wrappingSub (Aligned 4) := by
  intro ip word hip hword hrecognised
  obtain ⟨hlt, -⟩ := hip
  have hrecognised := of_decide_eq_true hrecognised
  by_cases hbl : word / 2 ^ 26 = 0x25
  · have hforward : arm64.convert wrappingAdd ip word =
      wrappingAdd word (ip / 4) % 2 ^ 26 + 0x25 * 2 ^ 26 := if_pos hbl
    have hagain : arm64.convert wrappingAdd ip word / 2 ^ 26 = 0x25 := by
      rw [hforward]
      omega
    refine ⟨by rw [hforward]; omega, decide_eq_true (.inl hagain), (if_pos hagain).trans ?_⟩
    rw [hforward]
    simp only [wrappingAdd, wrappingSub]
    omega
  · have hadrp := hrecognised.resolve_left hbl
    have hforward : arm64.convert wrappingAdd ip word =
      adrpWord (wrappingAdd (adrpPage word) (ip / 2 ^ 12 * 2 ^ 3) % 2 ^ 21) word := if_neg hbl
    have hmod : wrappingAdd (adrpPage word) (ip / 2 ^ 12 * 2 ^ 3) % 2 ^ 21 % 2 ^ 3 = 0 := by
      rw [wrappingAdd, adrpPage]
      omega
    obtain ⟨hresult, hagain, hother, hpage, hregister⟩ :=
      @adrpWord_spec _ word (Nat.mod_lt _ (by decide)) hmod
    rw [← hforward] at hresult hagain hother hpage hregister
    refine ⟨hresult, decide_eq_true (.inr hagain), (if_neg hother).trans ?_⟩
    have hback : wrappingSub (adrpPage (arm64.convert wrappingAdd ip word)) (ip / 2 ^ 12 * 2 ^ 3) %
        2 ^ 21 = adrpPage word := by
      have hsmall : adrpPage word < 2 ^ 21 := by
        unfold isAdrp at hadrp
        rw [adrpPage]
        omega
      rw [hpage, wrappingSub, wrappingAdd]
      omega
    rw [hback, adrpWord, hregister]
    exact adrpWord_adrpPage hadrp

theorem arm64_opcode {word : Nat} (h : word < 2 ^ 32) :
    (wrappingSub word 0x94000000 &&& 0xfc000000 = 0 ↔ word / 2 ^ 26 = 0x25) ∧
      (wrappingSub word 0x90000000 &&& 0x9f000000 = 0 ↔
        word / 2 ^ 31 = 1 ∧ word / 2 ^ 24 % 2 ^ 5 = 0x10) := by
  have hhigh : 0x9f000000 = 2 ^ 31 * (2 ^ 1 - 1) ||| 2 ^ 24 * (2 ^ 5 - 1) := by decide
  constructor
  · rw [show 0xfc000000 = 2 ^ 26 * (2 ^ 6 - 1) from rfl, and_field, wrappingSub]
    omega
  · rw [hhigh, Nat.and_or_distrib_left, Nat.or_eq_zero_iff, and_field, and_field, wrappingSub]
    omega

theorem arm64_page {word : Nat} (h : word < 2 ^ 32) (hhigh : word / 2 ^ 31 = 1)
    (hopcode : word / 2 ^ 24 % 2 ^ 5 = 0x10) :
    (wrappingAdd (wrappingSub word 0x90000000) arm64Flag &&& arm64Mask = 0 ↔
      (word + 2 ^ 20) % 2 ^ 24 < 2 ^ 21) ∧
    (wrappingAdd (wrappingSub word 0x90000000) arm64Flag &&& 0xffffffe0 |||
      wrappingAdd (wrappingSub word 0x90000000) arm64Flag >>> 26) % 2 ^ 21 =
        adrpPage word % 2 ^ 21 ∧
    wrappingAdd (wrappingSub word 0x90000000) arm64Flag &&& 0x1f = word % 2 ^ 5 := by
  have hflag : arm64Flag = 2 ^ 20 := rfl
  have hword : word = word % 2 ^ 24 + 2 ^ 28 * 9 + 2 ^ 29 * (word / 2 ^ 29 % 4) := by omega
  have hfield : word / 2 ^ 29 % 4 < 4 := Nat.mod_lt _ (by decide)
  have hlow : word % 2 ^ 24 < 2 ^ 24 := Nat.mod_lt _ (by decide)
  have hvalue : wrappingAdd (wrappingSub word 0x90000000) arm64Flag =
      word % 2 ^ 24 + 2 ^ 20 + 2 ^ 29 * (word / 2 ^ 29 % 4) := by
    rw [hflag, wrappingAdd, wrappingSub]
    omega
  have hmoved : (word + 2 ^ 20) % 2 ^ 24 = (word % 2 ^ 24 + 2 ^ 20) % 2 ^ 24 := by omega
  have hregister : word % 2 ^ 24 % 2 ^ 5 = word % 2 ^ 5 := by omega
  rw [hvalue, adrpPage, hmoved, ← hregister]
  clear hvalue hmoved hregister hword hopcode hhigh h
  generalize word / 2 ^ 29 % 4 = field at hfield ⊢
  generalize word % 2 ^ 24 = low at hlow ⊢
  refine ⟨?_, ?_, ?_⟩
  · rw [show arm64Mask = 2 ^ 21 * (2 ^ 3 - 1) from rfl, and_field]
    omega
  · have hshift : (low + 2 ^ 20 + 2 ^ 29 * field) / 2 ^ 26 = 8 * field := by omega
    rw [show 0xffffffe0 = 2 ^ 5 * (2 ^ 27 - 1) from rfl, and_field, Nat.shiftRight_eq_div_pow,
      hshift, Nat.or_comm, or_field (by omega)]
    omega
  · rw [show 0x1f = 2 ^ 5 - 1 from rfl, and_ones]
    omega

theorem arm64_word {register page : Nat} (hregister : register < 2 ^ 5) (hmod : page % 2 ^ 3 = 0) :
    (register ||| 0x90000000 ||| wrappingShl page 26 |||
      0x00ffffe0 &&& wrappingSub (page &&& arm64Flag <<< 1 - 1) arm64Flag) =
        adrpWord (page % 2 ^ 21) register := by
  have hflag : arm64Flag = 2 ^ 20 := rfl
  have hmiddle : 0x00ffffe0 &&& wrappingSub (page &&& arm64Flag <<< 1 - 1) arm64Flag =
      2 ^ 5 * ((page % 2 ^ 21 + 2 ^ 24 - 2 ^ 20) % 2 ^ 24 / 2 ^ 5) := by
    have hones : arm64Flag <<< 1 - 1 = 2 ^ 21 - 1 := rfl
    rw [hones, and_ones, Nat.and_comm,
      show 0x00ffffe0 = 2 ^ 5 * (2 ^ 19 - 1) from rfl, and_field, hflag, wrappingSub]
    omega
  have hpage : wrappingShl page 26 = 2 ^ 29 * (page / 2 ^ 3 % 8) := by
    rw [wrappingShl, Nat.shiftLeft_eq]
    omega
  have htop : 4 ||| page / 2 ^ 3 % 8 = 4 + page / 2 ^ 3 % 4 := by
    have hcases : page / 2 ^ 3 % 4 = page / 2 ^ 3 % 8 % 4 := by omega
    have hlt : page / 2 ^ 3 % 8 < 8 := Nat.mod_lt _ (by decide)
    rw [hcases]
    generalize page / 2 ^ 3 % 8 = field at hlt ⊢
    revert field
    decide
  have hopcode : register ||| 0x90000000 = register + 2 ^ 28 + 2 ^ 29 * 4 := by
    have hlt : register < 2 ^ 28 := Nat.lt_trans hregister (by decide)
    exact (or_field hlt 9).trans (by omega)
  rw [hopcode, hpage, or_above (by omega), htop, hmiddle, adrpWord]
  have hlow : register + 2 ^ 28 + 2 ^ 29 * (4 + page / 2 ^ 3 % 4) =
      register ||| 2 ^ 28 * (1 + 2 * (4 + page / 2 ^ 3 % 4)) := by
    rw [or_field (Nat.lt_trans hregister (by decide))]
    omega
  have hfields : 2 ^ 28 * (1 + 2 * (4 + page / 2 ^ 3 % 4)) |||
      2 ^ 5 * ((page % 2 ^ 21 + 2 ^ 24 - 2 ^ 20) % 2 ^ 24 / 2 ^ 5) =
        2 ^ 5 * ((page % 2 ^ 21 + 2 ^ 24 - 2 ^ 20) % 2 ^ 24 / 2 ^ 5 +
          2 ^ 23 * (1 + 2 * (4 + page / 2 ^ 3 % 4))) := by
    rw [Nat.or_comm, or_field (by omega)]
    omega
  rw [hlow, Nat.or_assoc, hfields, or_field hregister, Nat.mod_eq_of_lt hregister]
  omega

theorem arm64_address (h : ip < 2 ^ 32) : ip >>> 9 &&& 0xfffffff8 = ip / 2 ^ 12 * 2 ^ 3 := by
  rw [show 0xfffffff8 = 2 ^ 3 * (2 ^ 29 - 1) from rfl, and_field, Nat.shiftRight_eq_div_pow]
  omega

theorem convertArm64_eq (hip : ip < 2 ^ 32) (front : List UInt8) (a b c d : UInt8)
    (rest : List UInt8) (hroom : front.length + 4 < 2 ^ 64) :
    convertArm64 ip (front ++ a :: b :: c :: d :: rest) front.length =
      .ok (front ++ (arm64.unit wrappingSub ip [a, b, c, d] ++ rest)) := by
  have hlt : fromLeBytes [a, b, c, d] < 2 ^ 32 := @ByteOrder.read_lt .little [a, b, c, d] rfl
  obtain ⟨hbl, hadrp⟩ := arm64_opcode hlt
  have hwrite : ∀ value, writeWord (front ++ a :: b :: c :: d :: rest) front.length
      (toLeBytes 4 value) = .ok (front ++ (toLeBytes 4 value ++ rest)) :=
    fun value => writeWord_append hroom (length_toLeBytes 4 value)
  rw [convertArm64, readU32Le_append hroom, ok_bind]
  by_cases hbranch : fromLeBytes [a, b, c, d] / 2 ^ 26 = 0x25
  · have hrecognised : arm64.recognised (arm64.order.read [a, b, c, d]) = true :=
      decide_eq_true (.inl hbranch)
    have hconvert : arm64.convert wrappingSub ip (arm64.order.read [a, b, c, d]) =
      wrappingSub (fromLeBytes [a, b, c, d]) (ip / 4) % 2 ^ 26 + 0x25 * 2 ^ 26 := if_pos hbranch
    rw [if_pos (hbl.mpr hbranch), hwrite, WordBranch.unit_of_recognised hrecognised, hconvert,
      show 0x03ffffff = 2 ^ 26 - 1 from rfl, and_ones, Nat.shiftRight_eq_div_pow]
    have hvalue := or_field (Nat.mod_lt (wrappingSub (fromLeBytes [a, b, c, d]) (ip / 4))
      (show 0 < 2 ^ 26 by decide)) 0x25
    exact congrArg (fun value => Except.ok (front ++ (toLeBytes 4 value ++ rest))) hvalue
  · rw [if_neg (mt hbl.mp hbranch)]
    by_cases hopcode : fromLeBytes [a, b, c, d] / 2 ^ 31 = 1 ∧
        fromLeBytes [a, b, c, d] / 2 ^ 24 % 2 ^ 5 = 0x10
    · obtain ⟨hrange, hpage, hregister⟩ := arm64_page hlt hopcode.1 hopcode.2
      rw [if_pos (hadrp.mpr hopcode)]
      by_cases hinside : (fromLeBytes [a, b, c, d] + 2 ^ 20) % 2 ^ 24 < 2 ^ 21
      · have hrecognised : arm64.recognised (arm64.order.read [a, b, c, d]) = true :=
          decide_eq_true (.inr ⟨hopcode.1, hopcode.2, hinside⟩)
        have hconvert : arm64.convert wrappingSub ip (arm64.order.read [a, b, c, d]) =
          adrpWord (wrappingSub (adrpPage (fromLeBytes [a, b, c, d])) (ip / 2 ^ 12 * 2 ^ 3) %
            2 ^ 21) (fromLeBytes [a, b, c, d]) := if_neg hbranch
        rw [if_pos (hrange.mpr hinside), hwrite, WordBranch.unit_of_recognised hrecognised,
          hconvert, hregister, arm64_address hip]
        generalize (wrappingAdd (wrappingSub (fromLeBytes [a, b, c, d]) 0x90000000) arm64Flag &&&
          0xffffffe0 ||| wrappingAdd (wrappingSub (fromLeBytes [a, b, c, d]) 0x90000000) arm64Flag
            >>> 26) = page at hpage ⊢
        have hmod : wrappingSub page (ip / 2 ^ 12 * 2 ^ 3) % 2 ^ 3 = 0 := by
          have height : adrpPage (fromLeBytes [a, b, c, d]) % 2 ^ 3 = 0 := by
            rw [adrpPage]
            omega
          rw [wrappingSub]
          omega
        have hsame : wrappingSub page (ip / 2 ^ 12 * 2 ^ 3) % 2 ^ 21 =
            wrappingSub (adrpPage (fromLeBytes [a, b, c, d])) (ip / 2 ^ 12 * 2 ^ 3) % 2 ^ 21 := by
          simp only [wrappingSub]
          omega
        have hvalue := arm64_word (Nat.mod_lt (fromLeBytes [a, b, c, d]) (by decide)) hmod
        rw [hsame] at hvalue
        refine (congrArg (fun value => Except.ok (front ++ (toLeBytes 4 value ++ rest)))
          hvalue).trans ?_
        rw [adrpWord, adrpWord, Nat.mod_mod]
        rfl
      · have hnot : ¬arm64.recognised (arm64.order.read [a, b, c, d]) = true := by
          intro hrecognised
          rcases of_decide_eq_true hrecognised with hword | hword
          · exact hbranch hword
          · exact hinside hword.2.2
        rw [if_neg (mt hrange.mp hinside), WordBranch.unit_of_not hnot]
        rfl
    · have hnot : ¬arm64.recognised (arm64.order.read [a, b, c, d]) = true := by
        intro hrecognised
        rcases of_decide_eq_true hrecognised with hword | hword
        · exact hbranch hword
        · exact hopcode ⟨hword.1, hword.2.1⟩
      rw [if_neg (mt hadrp.mp hopcode), WordBranch.unit_of_not hnot]
      rfl

section Filters

variable {bytes properties : List UInt8} (hlen : bytes.length < 2 ^ 64) {start : Nat}
  (hstart : startingPosition properties = .ok start)
include hlen hstart

theorem decodePpc_granted :
    (decodePpc bytes properties).granted = .ok (ppc.decode start bytes) := by
  rw [decodePpc, hstart, Prog.granted_lift_bind, ok_bind]
  exact decodeWords_granted (WordBranch.keepsFour_unit _)
    (fun _ front a b c d rest _ hroom => convertPpc_eq front a b c d rest hroom) hlen
    (startingPosition_lt hstart)

theorem decodeArm_granted :
    (decodeArm bytes properties).granted = .ok (arm.decode (wrappingAdd start 4) bytes) := by
  rw [decodeArm, hstart, Prog.granted_lift_bind, ok_bind]
  exact decodeWords_granted (WordBranch.keepsFour_unit _)
    (fun _ front a b c d rest _ hroom => convertArm_eq front a b c d rest hroom) hlen
    (Nat.mod_lt _ (by decide))

theorem decodeSparc_granted :
    (decodeSparc bytes properties).granted = .ok (sparc.decode start bytes) := by
  rw [decodeSparc, hstart, Prog.granted_lift_bind, ok_bind]
  exact decodeWords_granted (WordBranch.keepsFour_unit _)
    (fun _ front a b c d rest _ hroom => convertSparc_eq front a b c d rest hroom) hlen
    (startingPosition_lt hstart)

theorem decodeArm64_granted :
    (decodeArm64 bytes properties).granted = .ok (arm64.decode start bytes) := by
  rw [decodeArm64, hstart, Prog.granted_lift_bind, ok_bind]
  exact decodeWords_granted (WordBranch.keepsFour_unit _)
    (fun _ front a b c d rest hip hroom => convertArm64_eq hip front a b c d rest hroom) hlen
    (startingPosition_lt hstart)

end Filters

theorem ppc_collision {start : Nat} (hstart : start < 2 ^ 32) (hmod : ¬start % 4 = 0) :
    ∃ s t : List UInt8, s.length = 4 ∧ t.length = 4 ∧ s ≠ t ∧
      ppc.decode start s = ppc.decode start t := by
  have hbranch : ppc.recognised (0x12 * 2 ^ 26 + 1) = true := by decide
  have himage : ppc.convert wrappingSub start (0x12 * 2 ^ 26 + 1) < 2 ^ 32 ∧
      ¬ppc.convert wrappingSub start (0x12 * 2 ^ 26 + 1) % 4 = 1 := by
    simp only [ppc, wrappingSub]
    omega
  have hs : ppc.order.read (ppc.order.write (0x12 * 2 ^ 26 + 1)) = 0x12 * 2 ^ 26 + 1 :=
    ppc.order.read_write (by decide)
  have ht := ppc.order.read_write himage.1
  have hnot : ¬ppc.recognised
      (ppc.order.read (ppc.order.write (ppc.convert wrappingSub start (0x12 * 2 ^ 26 + 1)))) =
        true := by
    rw [ht]
    intro h
    exact himage.2 (of_decide_eq_true h).2
  refine ⟨ppc.order.write (0x12 * 2 ^ 26 + 1),
    ppc.order.write (ppc.convert wrappingSub start (0x12 * 2 ^ 26 + 1)),
    ppc.order.length_write _, ppc.order.length_write _, ?_, ?_⟩
  · intro heq
    rw [← heq, hs] at ht
    refine himage.2 ?_
    rw [← ht]
    rfl
  · rw [WordBranch.decode_word (ppc.order.length_write _),
      WordBranch.decode_word (ppc.order.length_write _), WordBranch.unit_of_not hnot,
      WordBranch.unit_of_recognised (by rw [hs]; exact hbranch), hs]

/-- With a coder that is registered for the PPC filter and has a start offset, the
filter loses nothing exactly where the offset is a multiple of four. -/
theorem decodePpc_injective_iff (coder : Coder) (hmethod : coder.methodId = methodPpc)
    (_ : validateCoderRegistration coder = .ok ()) (hfour : coder.properties.length = 4) :
    (∀ s t : List UInt8, s.length < 2 ^ 64 → s.length = t.length →
      (decodeFilterInPlace coder.methodId coder.properties s).granted =
        (decodeFilterInPlace coder.methodId coder.properties t).granted → s = t) ↔
      fromLeBytes coder.properties % 4 = 0 := by
  have hstart := startingPosition_four hfour
  have hfilter : ∀ bytes : List UInt8, bytes.length < 2 ^ 64 →
      (decodeFilterInPlace coder.methodId coder.properties bytes).granted =
        .ok (ppc.decode (fromLeBytes coder.properties) bytes) := by
    intro bytes hlen
    rw [hmethod]
    exact decodePpc_granted hlen hstart
  constructor
  · intro hinjective
    refine Decidable.byContradiction fun hmod => ?_
    obtain ⟨s, t, hs, ht, hne, heq⟩ := ppc_collision (startingPosition_lt hstart) hmod
    refine hne (hinjective s t (by rw [hs]; decide) (hs.trans ht.symm) ?_)
    rw [hfilter s (by rw [hs]; decide), hfilter t (by rw [ht]; decide), heq]
  · intro hmod s t hs hlen heq
    rw [hfilter s hs, hfilter t (hlen ▸ hs)] at heq
    have hback := fun bytes => WordBranch.pass_unit_pass_unit closed_ppc_back
      (fun _ => aligned_wrappingAdd) ⟨startingPosition_lt hstart, hmod⟩ bytes
    have hsame : ppc.decode (fromLeBytes coder.properties) s =
        ppc.decode (fromLeBytes coder.properties) t := Except.ok.inj heq
    calc s = pass (wordStep (ppc.unit wrappingAdd)) (fromLeBytes coder.properties)
          (ppc.decode (fromLeBytes coder.properties) s) := (hback s).symm
      _ = t := by rw [hsame]; exact hback t

/-- A registered coder whose start offset is one. -/
def unalignedPpcCoder : Coder where
  methodId := methodPpc
  inputStart := 0
  inputCount := 1
  outputStart := 0
  outputCount := 1
  properties := [1, 0, 0, 0]
  dictionaryBytes := none

theorem decodePpc_injective_iff_unaligned :
    (∀ s t : List UInt8, s.length < 2 ^ 64 → s.length = t.length →
      (decodeFilterInPlace unalignedPpcCoder.methodId unalignedPpcCoder.properties s).granted =
        (decodeFilterInPlace unalignedPpcCoder.methodId unalignedPpcCoder.properties t).granted →
          s = t) ↔ fromLeBytes unalignedPpcCoder.properties % 4 = 0 :=
  decodePpc_injective_iff unalignedPpcCoder rfl rfl rfl

/-- A branch and a word that is none, with one image. -/
theorem ppc_images_collide :
    ¬∀ (coder : Coder) (s t : List UInt8), coder.methodId = methodPpc →
      validateCoderRegistration coder = .ok () → coder.properties.length = 4 →
        s.length = t.length →
          (decodeFilterInPlace coder.methodId coder.properties s).granted =
            (decodeFilterInPlace coder.methodId coder.properties t).granted → s = t := by
  intro hclaim
  have hfilter : ∀ word : List UInt8, word.length = 4 →
      (decodeFilterInPlace unalignedPpcCoder.methodId unalignedPpcCoder.properties word).granted =
        .ok (ppc.unit wrappingSub 1 word) := by
    intro word hword
    rw [← WordBranch.decode_word hword]
    exact decodePpc_granted (by rw [hword]; decide) rfl
  have hequal := hclaim unalignedPpcCoder [0x48, 0, 0, 1] [0x48, 0, 0, 0] rfl rfl rfl rfl
    (by rw [hfilter _ rfl, hfilter _ rfl]; rfl)
  exact absurd hequal (by decide)

end Filter
end Unpackio
