/-
Tokens of ARJ method 4: their codes, what they stand for, and that the decoder makes
this of them.
-/
import Unpackio.Arj.Fastest
import Unpackio.Foundation.Cursor
import Unpackio.Foundation.BitPack
import Unpackio.Foundation.Lz77
import Mathlib.Tactic.Ring

namespace Unpackio
namespace Arj

open Except (bind_eq_ok ok_bind)
open BitPack Cursor Lz77

def medium : Medium MsbBits Error where
  place input start := ⟨input, start / 8, start % 8⟩
  bits := msbBits
  cut := arjFormat "compressed bitstream is truncated"
  bound := 2 ^ 64

theorem next_place {input : List UInt8} {start : Nat} (h : start / 8 < 2 ^ 64 - 1) :
    (medium.place input start).next = .ok (medium.place input (start + 1)) := by
  have hoffset : start % 8 < 255 := by omega
  unfold MsbBits.next medium
  simp only
  rw [if_pos hoffset, okOr_bind]
  by_cases hlast : start % 8 + 1 = 8
  · have hdiv : (start + 1) / 8 = start / 8 + 1 := by omega
    have hmod : (start + 1) % 8 = 0 := by omega
    rw [if_pos hlast, checkedAdd_bind (by omega), hdiv, hmod]
    rfl
  · have hdiv : (start + 1) / 8 = start / 8 := by omega
    have hmod : (start + 1) % 8 = start % 8 + 1 := by omega
    rw [if_neg hlast, hdiv, hmod]
    rfl

theorem testBit_and_one (value shift : Nat) :
    (value >>> shift) &&& 1 = (value.testBit shift).toNat := by
  rw [Nat.and_one_is_mod, Nat.toNat_testBit, Nat.shiftRight_eq_div_pow]

theorem readBit_reads {value : Nat} {bit : Bool} (h : value * 2 + bit.toNat < 2 ^ 16)
    (start : Nat) :
    Cursor.Reads medium (MsbBits.readBit value) start [bit] (value * 2 + bit.toNat) := by
  intro input hinput hbits
  have hinside : start / 8 < input.length := by
    refine Nat.lt_of_not_le fun hle => ?_
    have hempty : (msbBits input).drop start = [] := by
      refine List.drop_of_length_le ?_
      rw [length_msbBits]
      omega
    have hlength := hbits.length_le
    rw [show medium.bits input = msbBits input from rfl, hempty] at hlength
    exact absurd hlength (Nat.not_succ_le_zero 0)
  have hbit : bit = (input.get ⟨start / 8, hinside⟩).toNat.testBit (7 - start % 8) := by
    obtain ⟨rest, hrest⟩ := hbits
    rw [show medium.bits input = msbBits input from rfl, msbBits_drop hinside] at hrest
    exact (List.cons.inj hrest).1
  have hbound : medium.bound = 2 ^ 64 := rfl
  have hbyte : input[start / 8]? = some (input.get ⟨start / 8, hinside⟩) :=
    List.getElem?_eq_getElem hinside
  have hnext : (medium.place input start).next = .ok (medium.place input (start + 1)) :=
    next_place (by omega)
  have hvalue : value * 2 < 2 ^ 16 := by omega
  have hshift : start % 8 ≤ 7 := by omega
  rw [show medium.place input start = ⟨input, start / 8, start % 8⟩ from rfl] at hnext ⊢
  simp only [MsbBits.readBit, granted_bind, granted_get, granted_except, granted_set,
    granted_pure, ok_bind, hbyte, okOr_some, checkedSub_of_le hshift, testBit_and_one,
    ← hbit, tryFrom_of_lt hvalue, Option.bind_some, tryFrom_of_lt h, hnext]
  rfl

theorem readLoop_reads (bits : List Bool) {value : Nat}
    (h : value * 2 ^ bits.length + ofBits bits.reverse < 2 ^ 16) (start : Nat) :
    Cursor.Reads medium (MsbBits.readLoop bits.length value) start bits
      (value * 2 ^ bits.length + ofBits bits.reverse) := by
  induction bits generalizing value start with
  | nil =>
    rw [List.length_nil, Nat.pow_zero, Nat.mul_one, List.reverse_nil]
    exact .pure _ _
  | cons bit bits ih =>
    have hsum : value * 2 ^ (bit :: bits).length + ofBits (bit :: bits).reverse =
        (value * 2 + bit.toNat) * 2 ^ bits.length + ofBits bits.reverse := by
      rw [List.reverse_cons, ofBits_append, List.length_reverse, List.length_cons, Nat.pow_succ]
      simp only [ofBits, Nat.mul_zero, Nat.add_zero]
      ring
    have hpos : 0 < 2 ^ bits.length := Nat.two_pow_pos _
    have hle : value * 2 + bit.toNat ≤ (value * 2 + bit.toNat) * 2 ^ bits.length :=
      Nat.le_mul_of_pos_right _ hpos
    rw [hsum] at h ⊢
    exact .bind (readBit_reads (by omega) start) (ih h _)

def numberBits (width value : Nat) : List Bool := (bitsOf width value).reverse

theorem length_numberBits (width value : Nat) : (numberBits width value).length = width := by
  rw [numberBits, List.length_reverse, length_bitsOf]

theorem read_reads {width value : Nat} (hwidth : width ≤ 16) (hvalue : value < 2 ^ width)
    (start : Nat) :
    Cursor.Reads medium (MsbBits.read width) start (numberBits width value) value := by
  have hbits : ofBits (numberBits width value).reverse = value := by
    rw [numberBits, List.reverse_reverse, ofBits_bitsOf, Nat.mod_eq_of_lt hvalue]
  have hpow : 2 ^ width ≤ 2 ^ 16 := Nat.pow_le_pow_right (by decide) hwidth
  have hloop : Cursor.Reads medium (MsbBits.readLoop (numberBits width value).length 0) start
      (numberBits width value)
      (0 * 2 ^ (numberBits width value).length + ofBits (numberBits width value).reverse) :=
    readLoop_reads _ (by rw [hbits]; omega) start
  rw [hbits, length_numberBits, Nat.zero_mul, Nat.zero_add] at hloop
  have hcheck : (liftM (rejectIf (16 < width) (arjFormat "bit read is too wide")) :
      Metered Unit).granted = .ok () := by
    rw [rejectIf_of_not (by omega)]
    rfl
  exact .bind_left (.lift hcheck start) hloop

theorem read_one (bit : Bool) (start : Nat) :
    Cursor.Reads medium (MsbBits.read 1) start [bit] bit.toNat := by
  cases bit with
  | false => exact read_reads (show 1 ≤ 16 by decide) (show 0 < 2 ^ 1 by decide) start
  | true => exact read_reads (show 1 ≤ 16 by decide) (show 1 < 2 ^ 1 by decide) start

/-! ## Variable codes -/

/-- The width of the suffix of a value: the one whose values begin at `2 ^ width`, all of
them being `2 ^ first` too large. -/
def suffixWidth (first value : Nat) : Nat := Nat.log2 (value + 2 ^ first)

/-- A one for every wider suffix, a zero where a wider one could follow, and the suffix. -/
def variableBits (first last value : Nat) : List Bool :=
  List.replicate (suffixWidth first value - first) true ++
    ((if suffixWidth first value < last then [false] else []) ++
      numberBits (suffixWidth first value) (value + 2 ^ first - 2 ^ suffixWidth first value))

theorem suffixWidth_spec (first value : Nat) :
    first ≤ suffixWidth first value ∧ 2 ^ suffixWidth first value ≤ value + 2 ^ first ∧
      value + 2 ^ first < 2 ^ (suffixWidth first value + 1) := by
  have hpos : 0 < 2 ^ first := Nat.two_pow_pos first
  have hne : value + 2 ^ first ≠ 0 := by omega
  exact ⟨(Nat.le_log2 hne).mpr (Nat.le_add_left _ _), Nat.log2_self_le hne, Nat.lt_log2_self⟩

theorem variableLoop_reads {first last width : Nat} (hlast : last ≤ 15) {ones additional : Nat}
    (hones : width + ones ≤ last) (hadditional : additional + 2 ^ first = 2 ^ width)
    (start : Nat) :
    Cursor.Reads medium (variableLoop last (last - width) width additional (2 ^ width)) start
      (List.replicate ones true ++ if width + ones < last then [false] else [])
      (width + ones, 2 ^ (width + ones) - 2 ^ first) := by
  induction ones generalizing width additional start with
  | zero =>
    have hadd : additional = 2 ^ width - 2 ^ first := by omega
    rw [Nat.add_zero] at hones ⊢
    rw [List.replicate_zero, List.nil_append, ← hadd]
    by_cases hmore : width < last
    · obtain ⟨fuel, hfuel⟩ : ∃ fuel, last - width = fuel + 1 :=
        ⟨last - width - 1, by omega⟩
      rw [if_pos hmore, hfuel, variableLoop, if_pos hmore]
      exact .bind_right (read_one false start) (.pure _ _)
    · rw [if_neg hmore, show last - width = 0 by omega]
      exact .pure _ _
  | succ ones ih =>
    have hmore : width < last := by omega
    have hpos : 0 < 2 ^ first := Nat.two_pow_pos first
    have hwidth : 2 ^ (width + 1) ≤ 2 ^ 15 := Nat.pow_le_pow_right (by decide) (by omega)
    have hexponent : 2 ^ width * 2 = 2 ^ (width + 1) := (Nat.pow_succ 2 width).symm
    have hnext : additional + 2 ^ width + 2 ^ first = 2 ^ (width + 1) := by omega
    have hrest := ih (by omega) hnext (start + 1)
    rw [show width + 1 + ones = width + (ones + 1) by omega] at hrest
    obtain ⟨fuel, hfuel⟩ : ∃ fuel, last - width = fuel + 1 := ⟨last - width - 1, by omega⟩
    rw [hfuel, variableLoop, if_pos hmore, List.replicate_succ, List.cons_append]
    rw [show last - (width + 1) = fuel by omega] at hrest
    refine .bind (read_one true start) ?_
    rw [if_neg (by decide)]
    refine .bind_left (.lift (a := additional + 2 ^ width) ?_ _) ?_
    · rw [tryFrom_of_lt (by omega)]
      rfl
    refine .bind_left (.lift (a := 2 ^ (width + 1)) ?_ _) ?_
    · rw [hexponent, tryFrom_of_lt (by omega)]
      rfl
    refine .bind_left (.lift (a := width + 1) ?_ _) hrest
    rw [tryFrom_of_lt (by omega)]
    rfl

theorem decodeVariable_reads {first last value : Nat} (hlast : last ≤ 15)
    (hfirst : first ≤ last) (hvalue : value + 2 ^ first < 2 ^ (last + 1)) (start : Nat) :
    Cursor.Reads medium (decodeVariable first last) start (variableBits first last value)
      value := by
  obtain ⟨hwidth, hlow, hhigh⟩ := suffixWidth_spec first value
  have hwide : suffixWidth first value ≤ last := by
    have hlt : 2 ^ suffixWidth first value < 2 ^ (last + 1) := by omega
    exact Nat.le_of_lt_succ ((Nat.pow_lt_pow_iff_right (by decide)).mp hlt)
  have hbound : 2 ^ (last + 1) ≤ 2 ^ 16 := Nat.pow_le_pow_right (by decide) (by omega)
  have hpos : 0 < 2 ^ first := Nat.two_pow_pos first
  have hpower : 2 ^ first ≤ 2 ^ suffixWidth first value :=
    Nat.pow_le_pow_right (by decide) hwidth
  have hsucc : 2 ^ (suffixWidth first value + 1) = 2 ^ suffixWidth first value * 2 :=
    Nat.pow_succ 2 _
  have hones : first + (suffixWidth first value - first) = suffixWidth first value := by omega
  have hloop := variableLoop_reads hlast (hones ▸ hwide)
    (show 0 + 2 ^ first = 2 ^ first by omega) start
  rw [hones] at hloop
  have hsuffix : ∀ place, Cursor.Reads medium (if suffixWidth first value = 0 then pure 0
      else MsbBits.read (suffixWidth first value)) place
      (numberBits (suffixWidth first value) (value + 2 ^ first - 2 ^ suffixWidth first value))
      (value + 2 ^ first - 2 ^ suffixWidth first value) := by
    intro place
    by_cases hzero : suffixWidth first value = 0
    · have hnone : value + 2 ^ first - 2 ^ 0 = 0 := by
        rw [hzero] at hhigh
        omega
      rw [if_pos hzero, hzero, hnone]
      exact .pure _ _
    · rw [if_neg hzero]
      exact read_reads (by omega) (by omega) place
  refine .bind_left (.lift (a := 2 ^ first) ?_ _) ?_
  · rw [if_pos (by omega)]
    rfl
  refine .of_eq (.bind hloop
    (.bind_right (hsuffix _) (.lift ?_ _)))
    (by rw [variableBits, List.append_assoc])
  rw [show value + 2 ^ first - 2 ^ suffixWidth first value +
    (2 ^ suffixWidth first value - 2 ^ first) = value by omega, tryFrom_of_lt (by omega)]
  rfl

inductive Token where
  | literal (value : UInt8)
  | copy (length distance : Nat)
  deriving DecidableEq, Repr

namespace Token

def Fits (output : List UInt8) : Token → Prop
  | literal _ => True
  | copy length distance =>
    3 ≤ length ∧ length ≤ 256 ∧ 1 ≤ distance ∧ distance ≤ 15872 ∧ distance ≤ output.length

instance (output : List UInt8) (token : Token) : Decidable (token.Fits output) := by
  cases token <;> unfold Fits <;> infer_instance

def bytes (output : List UInt8) : Token → List UInt8
  | literal value => [value]
  | copy length distance => copied output distance length

def bits : Token → List Bool
  | literal value => variableBits 0 7 0 ++ numberBits 8 value.toNat
  | copy length distance => variableBits 0 7 (length - 2) ++ variableBits 9 13 (distance - 1)

end Token

def expand (output : List UInt8) (tokens : List Token) : List UInt8 :=
  tokens.foldl (fun output token => output ++ token.bytes output) output

def Valid (output : List UInt8) : List Token → Prop
  | [] => True
  | token :: tokens => token.Fits output ∧ Valid (output ++ token.bytes output) tokens

def encode (tokens : List Token) : List UInt8 := packMsbBits (tokens.flatMap Token.bits)

@[simp] theorem expand_cons (output : List UInt8) (token : Token) (tokens : List Token) :
    expand output (token :: tokens) = expand (output ++ token.bytes output) tokens := rfl

variable {output : List UInt8}

theorem copyLoop_copied {distance : Nat} (hpos : 1 ≤ distance) (hle : distance ≤ output.length)
    (count : Nat) :
    (copyLoop distance count output).granted = .ok (output ++ copied output distance count) := by
  refine loop_copied (f := fun count output => (copyLoop distance count output).granted)
    (g := .ok) (fun _ => rfl) (fun count output byte hdistance hbyte => ?_) hpos hle count
  simp only [copyLoop, Prog.granted_bind, checkpoint_granted, ok_bind, Prog.granted_lift,
    checkedSub_of_le hdistance, okOr_some, hbyte]

theorem decodeMatch_reads {outputSize length distance : Nat}
    (hfits : (Token.copy length distance).Fits output) (hsize : output.length + length ≤ outputSize)
    (start : Nat) :
    Cursor.Reads medium (decodeMatch outputSize (length - 2) output) start
      (variableBits 9 13 (distance - 1)) (output ++ copied output distance length) := by
  obtain ⟨hleast, hmost, hpos, hfar, hinside⟩ := hfits
  have hcopy := copyLoop_copied hpos hinside length
  refine .bind_left (.lift (a := length) ?_ _) ?_
  · rw [checkedAdd_of_lt (by omega), Nat.sub_add_cancel (by omega)]
    rfl
  refine .bind_left (.lift (a := outputSize - output.length) ?_ _) ?_
  · rw [checkedSub_of_le (by omega)]
    rfl
  refine .bind_left (.lift (a := ()) ?_ _) ?_
  · rw [rejectIf_of_not (by omega)]
    rfl
  refine .bind_right (decodeVariable_reads (by decide) (by decide) (by omega) start) ?_
  refine .bind_left (.lift (a := distance) ?_ _) ?_
  · rw [checkedAdd_of_lt (by omega), Nat.sub_add_cancel hpos]
    rfl
  refine .bind_left (.lift (a := ()) ?_ _) (.lift hcopy _)
  rw [rejectIf_of_not (by omega)]
  rfl

theorem Token.Fits.length_pos {token : Token} (h : token.Fits output) :
    0 < (token.bytes output).length := by
  cases token with
  | literal value => exact Nat.one_pos
  | copy length distance =>
    have hleast : 3 ≤ length := h.1
    rw [bytes, length_copied]
    omega

theorem length_le_expand (output : List UInt8) (tokens : List Token) :
    output.length ≤ (expand output tokens).length := by
  induction tokens generalizing output with
  | nil => exact Nat.le_refl _
  | cons token tokens ih =>
    have hrest := ih (output ++ token.bytes output)
    rw [List.length_append] at hrest
    rw [expand_cons]
    omega

theorem fastestLoop_reads {tokens : List Token} {fuel : Nat} (hvalid : Valid output tokens)
    (hfuel : (expand output tokens).length ≤ output.length + fuel) (start : Nat) :
    Cursor.Reads medium (fastestLoop (expand output tokens).length fuel output) start
      (tokens.flatMap Token.bits) (expand output tokens) := by
  induction tokens generalizing output fuel start with
  | nil =>
    have hstop : ¬output.length < (expand output []).length := Nat.lt_irrefl _
    cases fuel with
    | zero => exact .pure _ _
    | succ fuel =>
      rw [fastestLoop, if_neg hstop]
      exact .pure _ _
  | cons token tokens ih =>
    obtain ⟨hfits, hvalid⟩ := hvalid
    have hpos := hfits.length_pos
    have hgrows := length_le_expand (output ++ token.bytes output) tokens
    rw [expand_cons] at hfuel ⊢
    rw [List.length_append] at hgrows
    obtain ⟨fuel, rfl⟩ : ∃ least, fuel = least + 1 := ⟨fuel - 1, by omega⟩
    have hroom : (expand (output ++ token.bytes output) tokens).length ≤
        (output ++ token.bytes output).length + fuel := by
      rw [List.length_append]
      omega
    have hrest := fun place => ih hvalid hroom place
    rw [fastestLoop, if_pos (by omega), List.flatMap_cons]
    refine .bind_left (.lift (checkpoint_granted 1) _) ?_
    cases token with
    | literal value =>
      rw [Token.bits, List.append_assoc]
      refine .bind (decodeVariable_reads (by decide) (by decide) (by decide) start) ?_
      rw [if_pos rfl]
      refine .bind (read_reads (by decide) value.toNat_lt _) ?_
      refine .bind_left (.lift (a := value.toNat) ?_ _) ?_
      · rw [tryFrom_of_lt value.toNat_lt]
        rfl
      rw [UInt8.ofNat_toNat]
      exact hrest _
    | copy length distance =>
      have hlength : 3 ≤ length ∧ length ≤ 256 := ⟨hfits.1, hfits.2.1⟩
      have hsize : output.length + length ≤
          (expand (output ++ copied output distance length) tokens).length := by
        rwa [Token.bytes, length_copied] at hgrows
      rw [Token.bits, List.append_assoc]
      refine .bind (decodeVariable_reads (by decide) (by decide) (by omega) start) ?_
      rw [if_neg (by omega)]
      exact .bind (decodeMatch_reads hfits hsize _) (hrest _)

theorem copyLoop_length {distance count : Nat} {result : List UInt8}
    (h : (copyLoop distance count output).granted = .ok result) :
    result.length = output.length + count := by
  induction count generalizing output with
  | zero =>
    cases h
    rfl
  | succ count ih =>
    rw [copyLoop, checkpoint_bind, Prog.granted_bind] at h
    obtain ⟨source, _, h⟩ := bind_eq_ok.mp h
    rw [Prog.granted_bind] at h
    obtain ⟨byte, _, h⟩ := bind_eq_ok.mp h
    rw [ih h, List.length_append, List.length_singleton]
    omega

theorem decodeMatch_length {outputSize lengthCode : Nat} {result : List UInt8} {bits next : MsbBits}
    (h : (decodeMatch outputSize lengthCode output bits).granted = .ok (result, next)) :
    output.length < result.length ∧ result.length ≤ outputSize := by
  simp only [decodeMatch, granted_bind, granted_except, granted_lift, bind_assoc,
    ok_bind] at h
  obtain ⟨count, hcount, h⟩ := bind_eq_ok.mp h
  obtain ⟨remaining, hremaining, h⟩ := bind_eq_ok.mp h
  obtain ⟨_, hroom, h⟩ := bind_eq_ok.mp h
  obtain ⟨backPointer, _, h⟩ := bind_eq_ok.mp h
  obtain ⟨distance, _, h⟩ := bind_eq_ok.mp h
  obtain ⟨_, _, h⟩ := bind_eq_ok.mp h
  obtain ⟨copy, hcopy, h⟩ := bind_eq_ok.mp h
  cases h
  have hlength := copyLoop_length hcopy
  have hsum := (checkedAdd_eq_ok.mp hcount).2
  have hless := checkedSub_eq_ok.mp hremaining
  have hfits := rejectIf_eq_ok.mp hroom
  omega

theorem fastestLoop_length {outputSize fuel : Nat} {result : List UInt8} {bits next : MsbBits}
    (hle : output.length ≤ outputSize) (hfuel : outputSize ≤ output.length + fuel)
    (h : (fastestLoop outputSize fuel output bits).granted = .ok (result, next)) :
    result.length = outputSize := by
  induction fuel generalizing output bits with
  | zero =>
    cases h
    exact Nat.le_antisymm hle hfuel
  | succ fuel ih =>
    rw [fastestLoop] at h
    by_cases hmore : output.length < outputSize
    · rw [if_pos hmore, granted_bind, granted_lift, checkpoint_granted, ok_bind, ok_bind,
        granted_bind] at h
      obtain ⟨⟨lengthCode, bits⟩, _, h⟩ := bind_eq_ok.mp h
      by_cases hliteral : lengthCode = 0
      · rw [if_pos hliteral, granted_bind] at h
        obtain ⟨⟨value, bits⟩, _, h⟩ := bind_eq_ok.mp h
        rw [granted_bind] at h
        obtain ⟨⟨literal, bits⟩, _, h⟩ := bind_eq_ok.mp h
        have hlength : (output ++ [UInt8.ofNat literal]).length = output.length + 1 :=
          List.length_append
        exact ih (hlength ▸ hmore) (hlength ▸ by omega) h
      · rw [if_neg hliteral, granted_bind] at h
        obtain ⟨⟨longer, bits⟩, hmatch, h⟩ := bind_eq_ok.mp h
        obtain ⟨hgrows, hroom⟩ := decodeMatch_length hmatch
        exact ih hroom (by omega) h
    · rw [if_neg hmore] at h
      cases h
      exact Nat.le_antisymm hle (Nat.le_of_not_lt hmore)

theorem decodeFastest_granted (compressed : List UInt8) (originalSize : Nat) (limits : Limits) :
    (decodeFastest compressed originalSize limits).granted = (do
      checkLimit fastestDictionaryBytes limits.maxDictionaryBytes .dictionaryBytes
      let result ← (fastestLoop originalSize originalSize [] (MsbBits.new compressed)).granted
      return result.1) := by
  rw [decodeFastest, Prog.granted_lift_bind]
  congr 1
  funext _
  rw [Prog.granted_bind, consumeBytes_granted, ok_bind, Prog.granted_bind]
  rfl

theorem decodeFastest_of_bits {tokens : List Token} {compressed : List UInt8} {limits : Limits}
    (hvalid : Valid [] tokens) (hcompressed : compressed.length < 2 ^ 64)
    (hbits : tokens.flatMap Token.bits <+: msbBits compressed)
    (hlimit : fastestDictionaryBytes ≤ limits.maxDictionaryBytes) :
    (decodeFastest compressed (expand [] tokens).length limits).granted =
      .ok (expand [] tokens) := by
  have hloop := fastestLoop_reads hvalid (Nat.le_add_left _ _) 0 compressed hcompressed hbits
  rw [decodeFastest_granted, checkLimit_of_le hlimit, ok_bind,
    show MsbBits.new compressed = medium.place compressed 0 from rfl, hloop]
  rfl

/-- What the encoder writes for tokens, decoded with the size of their expansion, is this
expansion.  Whatever the input is, the decoder fails or returns as many bytes as declared. -/
theorem decodeFastest_exact :
    (∀ (tokens : List Token) (limits : Limits), Valid [] tokens →
      (encode tokens).length < 2 ^ 64 → fastestDictionaryBytes ≤ limits.maxDictionaryBytes →
        (decodeFastest (encode tokens) (expand [] tokens).length limits).granted =
          .ok (expand [] tokens)) ∧
      ∀ (compressed : List UInt8) (originalSize : Nat) (limits : Limits) (output : List UInt8),
        (decodeFastest compressed originalSize limits).granted = .ok output →
          output.length = originalSize := by
  refine ⟨?_, ?_⟩
  · intro tokens limits hvalid hlength hlimit
    have hbits : tokens.flatMap Token.bits <+: msbBits (encode tokens) :=
      ⟨_, (msbBits_packMsbBits _).symm⟩
    exact decodeFastest_of_bits hvalid hlength hbits hlimit
  · intro compressed originalSize limits output h
    rw [decodeFastest_granted] at h
    obtain ⟨_, _, h⟩ := bind_eq_ok.mp h
    obtain ⟨result, hloop, h⟩ := bind_eq_ok.mp h
    cases h
    exact fastestLoop_length (Nat.zero_le _) (Nat.le_add_left _ _) hloop

/-- A literal, and a match that overlaps what it writes. -/
theorem decodeFastest_exact_overlap :
    (decodeFastest (encode [.literal 97, .copy 5 1]) 6 Limits.default).granted =
      .ok [97, 97, 97, 97, 97, 97] :=
  decodeFastest_exact.1 [.literal 97, .copy 5 1] Limits.default
    ⟨trivial, by decide, trivial⟩ (by decide) (by decide)

end Arj
end Unpackio
