/-
What the writer of JPEG scans appends: bits, packed into bytes with a zero behind
each byte of ones.
-/
import Unpackio.Foundation.JpegEntropy
import Unpackio.Jpeg.Scan

namespace Unpackio
namespace Jpeg

open List (append_assoc append_nil length_append length_reverse)
open BitPack
open Prog (Ends lift_ok_bind)

/-- The writers differ in no more than their bits and bytes. -/
structure ScanWriter.Alike (first second : ScanWriter) : Prop where
  expected : second.expected = first.expected
  maximum : second.maximum = first.maximum
  predicted : second.predicted = first.predicted
  mcuCounter : second.mcuCounter = first.mcuCounter
  restartMarkerIndex : second.restartMarkerIndex = first.restartMarkerIndex

namespace ScanWriter

theorem Alike.rfl {writer : ScanWriter} :
    Alike writer writer := ⟨.refl _, .refl _, .refl _, .refl _, .refl _⟩

theorem Alike.trans {first second third : ScanWriter} (h : Alike first second)
    (h' : Alike second third) : Alike first third :=
  ⟨h'.expected.trans h.expected, h'.maximum.trans h.maximum, h'.predicted.trans h.predicted,
    h'.mcuCounter.trans h.mcuCounter, h'.restartMarkerIndex.trans h.restartMarkerIndex⟩

section

variable (writer : ScanWriter)

theorem appendByte_alike (value : UInt8) :
    Ends (fun _ => True) (Alike writer) (writer.appendByte value) := by
  refine .skip fun _ => .skip fun _ => .skip fun _ => .request (.pure ?_)
  exact ⟨.refl _, .refl _, .refl _, .refl _, .refl _⟩

theorem emitScanByte_alike (value : UInt8) :
    Ends (fun _ => True) (Alike writer) (writer.emitScanByte value) := by
  refine .bind (appendByte_alike writer value) fun next hnext => .ite (fun _ => ?_) fun _ => ?_
  · exact (appendByte_alike next 0).mono fun _ h => hnext.trans h
  · exact .pure hnext

theorem flushByte_alike : Ends (fun _ => True) (Alike writer) writer.flushByte := by
  refine .skip fun _ => .skip fun _ => .bind (emitScanByte_alike writer _) fun next hnext => ?_
  refine .skip fun _ => .pure ?_
  exact ⟨hnext.expected, hnext.maximum, hnext.predicted, hnext.mcuCounter,
    hnext.restartMarkerIndex⟩

theorem flushLoop_alike (rounds : Nat) :
    Ends (fun _ => True) (Alike writer) (flushLoop rounds writer) := by
  induction rounds generalizing writer with
  | zero => exact .pure .rfl
  | succ rounds ih =>
    refine .ite (fun _ => ?_) fun _ => .pure .rfl
    refine .bind (flushByte_alike writer) fun next hnext => ?_
    exact (ih next).mono fun _ h => hnext.trans h

theorem pushBits_alike (bits length : Nat) :
    Ends (fun _ => True) (Alike writer) (writer.pushBits bits length) := by
  refine .ite (fun _ => .pure .rfl) fun _ => ?_
  refine .skip fun _ => .skip fun _ => .skip fun _ => .skip fun _ => ?_
  refine (flushLoop_alike _ _).mono fun next h => ?_
  exact ⟨h.expected, h.maximum, h.predicted, h.mcuCounter, h.restartMarkerIndex⟩

theorem pushHuffman_alike (table : HuffTable) (symbol : Nat) :
    Ends (fun _ => True) (Alike writer) (writer.pushHuffman table symbol) :=
  .skip fun _ => .skip fun _ => pushBits_alike writer _ _

theorem pushEncodedValue_alike (table : HuffTable) (value : Int) (highBits : Nat) :
    Ends (fun _ => True) (Alike writer) (writer.pushEncodedValue table value highBits) := by
  refine .skip fun _ => .skip fun _ => .skip fun _ => .skip fun _ => .skip fun _ =>
    .skip fun _ => ?_
  refine .bind (pushHuffman_alike writer table _) fun next hnext => ?_
  exact (pushBits_alike next _ _).mono fun _ h => hnext.trans h

theorem padWithOnes_alike : Ends (fun _ => True) (Alike writer) writer.padWithOnes :=
  .ite (fun _ => .pure .rfl) fun _ => .skip fun _ => .skip fun _ => pushBits_alike writer _ _

theorem restart_counter :
    Ends (fun _ => True) (fun next => next.mcuCounter = 0) writer.restart := by
  refine .bind (padWithOnes_alike writer) fun padded _ => ?_
  refine .bind (appendByte_alike padded _) fun first _ => .skip fun _ => ?_
  exact .bind (appendByte_alike first _) fun second _ => .skip fun _ => .pure rfl

end

end ScanWriter

section

variable (writer : ScanWriter)

theorem encodeRun_alike (acTable : HuffTable) (block : Block) (first : Nat) :
    Ends (fun _ => True) (fun next => ScanWriter.Alike writer next.1)
      (encodeRun acTable block writer first) := by
  refine .skip fun _ => .skip fun _ => .skip fun _ => .skip fun _ => ?_
  refine .bind (ScanWriter.pushEncodedValue_alike writer acTable _ _) fun next hnext => ?_
  exact .skip fun _ => .pure hnext

theorem encodeRuns_alike (acTable : HuffTable) (block : Block) (rounds index : Nat) :
    Ends (fun _ => True) (ScanWriter.Alike writer)
      (encodeRuns acTable block rounds writer index) := by
  induction rounds generalizing writer index with
  | zero => exact .pure .rfl
  | succ rounds ih =>
    refine .ite (fun _ => ?_) fun _ => .pure .rfl
    refine .bind (encodeRun_alike writer acTable block index) fun next hnext => ?_
    exact (ih next.1 next.2).mono fun _ h => hnext.trans h

theorem encodeBlock_counter (dcTable acTable : HuffTable) (scanIndex : Nat) (block : Block) :
    Ends (fun _ => True) (fun next => next.mcuCounter = writer.mcuCounter)
      (encodeBlock dcTable acTable scanIndex block writer) := by
  have hdc : Ends (fun _ => True) (fun next => next.mcuCounter = writer.mcuCounter)
      (encodeDc dcTable scanIndex block writer) := by
    refine .skip fun _ => .skip fun _ => .skip fun _ => ?_
    refine .bind (ScanWriter.pushEncodedValue_alike writer dcTable _ _) fun next hnext => ?_
    exact .skip fun _ => .pure hnext.mcuCounter
  refine .bind hdc fun next hnext => .bind (encodeRuns_alike next acTable block _ _)
    fun last hlast => ?_
  refine .ite (fun _ => ?_) fun _ => .pure (hlast.mcuCounter.trans hnext)
  exact (ScanWriter.pushHuffman_alike last acTable 0).mono fun _ h =>
    h.mcuCounter.trans (hlast.mcuCounter.trans hnext)

end

/-! ## The bits of a writer -/

open JpegEntropy (acBits coded endBits entropyBytes fill predict stuffed)

/-- Where the output would have the size in the end, a size on the way is past one of
its limits. -/
inductive OutputFull (limits : Nat × Nat) (size : Nat) : Error → Prop
  | overflows : 2 ^ 64 ≤ size →
      OutputFull limits size (formatError "WinZip JPEG output size overflows")
  | declared : limits.1 < size →
      OutputFull limits size (formatError "WinZip JPEG output exceeds its ZIP declaration")
  | limited {reached : Nat} : limits.2 < reached → reached ≤ size →
      OutputFull limits size (.limitExceeded .totalOutputBytes reached limits.2)

theorem OutputFull.mono {limits : Nat × Nat} {size larger : Nat} {e : Error}
    (h : OutputFull limits size e) (hle : size ≤ larger) : OutputFull limits larger e := by
  cases h with
  | overflows h => exact .overflows (Nat.le_trans h hle)
  | declared h => exact .declared (Nat.lt_of_lt_of_le h hle)
  | limited h hreached => exact .limited h (Nat.le_trans hreached hle)

/-- There is room for an output of the size. -/
def Room (limits : Nat × Nat) (size : Nat) : Prop :=
  size ≤ limits.1 ∧ size ≤ limits.2 ∧ size < 2 ^ 64

theorem Room.not_outputFull {limits : Nat × Nat} {size : Nat} {e : Error} (h : Room limits size) :
    ¬OutputFull limits size e := by
  obtain ⟨hdeclared, hmaximum, hsize⟩ := h
  rintro (hfull | hfull | ⟨hfull, hreached⟩) <;> omega

theorem upTo {α : Type} {limits : Nat × Nat} {size larger : Nat} {post : α → Prop} {p : Metered α}
    (h : Ends (OutputFull limits size) post p) (hle : size ≤ larger) :
    Ends (OutputFull limits larger) post p :=
  h.widen fun _ he => he.mono hle

/-- The bytes behind which the writer has whole bytes of the bits. -/
def written (base : List UInt8) (bits : List Bool) : List UInt8 := base ++ stuffed (octets bits)

theorem written_append (base : List UInt8) (bits more : List Bool) :
    (written base bits).length ≤ (written base (bits ++ more)).length := by
  obtain ⟨rest, hrest⟩ := octets_prefix bits more
  rw [written, written, ← hrest, JpegEntropy.stuffed_append, length_append, length_append,
    length_append]
  omega

theorem written_le_entropyBytes (base : List UInt8) (bits more : List Bool) (tail : List UInt8) :
    (written base bits).length ≤ (base ++ entropyBytes (bits ++ more) ++ tail).length := by
  refine Nat.le_trans ?_ (List.prefix_append _ tail).length_le
  rw [entropyBytes, append_assoc bits]
  exact written_append base bits _

namespace ScanWriter

def limits (writer : ScanWriter) : Nat × Nat := (writer.expected, writer.maximum)

theorem Alike.limits {first second : ScanWriter} (h : Alike first second) :
    second.limits = first.limits := by
  rw [ScanWriter.limits, h.expected, h.maximum]
  rfl

def filled (writer : ScanWriter) (bytes : List UInt8) (bits : List Bool) : ScanWriter :=
  { writer with
    output := writer.output ++ bytes, bitLength := bits.length, bitString := ofBits bits.reverse }

/-- The writer has written the whole bytes of the bits, and keeps the others. -/
def Has (writer : ScanWriter) (base : List UInt8) (bits : List Bool) : Prop :=
  ∃ whole rest, bits = whole ++ rest ∧ 8 ∣ whole.length ∧ rest.length < 8 ∧
    writer.output = base ++ stuffed (octets whole) ∧ writer.bitLength = rest.length ∧
    writer.bitString = ofBits rest.reverse

theorem okOr_ends {α : Type} {own : Error → Prop} {o : Option α} {e : Error}
    (h : o = none → own e) : Ends own (fun a => o = some a) (liftM (okOr o e) : Metered α) := by
  cases o with
  | none => exact .lift (fun _ ha => (nomatch ha)) fun _ he => Except.error.inj he ▸ h rfl
  | some a => exact .lift (fun _ ha => congrArg some (Except.ok.inj ha)) fun _ he => (nomatch he)

theorem rejectIf_ends {own : Error → Prop} {c : Prop} [Decidable c] {e : Error} (h : c → own e) :
    Ends own (fun _ => ¬c) (liftM (rejectIf c e) : Metered Unit) := by
  by_cases hc : c
  · rw [rejectIf, if_pos hc]
    exact .lift (fun _ ha => (nomatch ha)) fun _ he => Except.error.inj he ▸ h hc
  · rw [rejectIf_of_not hc]
    exact .pure hc

theorem appendByte_ends (writer : ScanWriter) (value : UInt8) :
    Ends (OutputFull writer.limits (writer.output.length + 1))
      (fun next => next = { writer with output := writer.output ++ [value] })
      (writer.appendByte value) := by
  refine .bind (okOr_ends fun hnone => .overflows ?_) fun size hsize => ?_
  · rw [checkedAdd] at hnone
    by_contra hlt
    rw [if_pos (Nat.lt_of_not_le hlt)] at hnone
    cases hnone
  obtain ⟨-, rfl⟩ := checkedAdd_eq_some.mp hsize
  refine .bind (rejectIf_ends fun hdeclared => .declared hdeclared) fun _ _ => ?_
  refine .bind (rejectIf_ends fun hmaximum => .limited hmaximum (Nat.le_refl _)) fun _ _ => ?_
  exact .request (.pure rfl)

theorem emitScanByte_ends (writer : ScanWriter) (value : UInt8) :
    Ends (OutputFull writer.limits (writer.output ++ stuffed [value]).length)
      (fun next => next = { writer with output := writer.output ++ stuffed [value] })
      (writer.emitScanByte value) := by
  have hfirst : writer.output.length + 1 ≤ (writer.output ++ stuffed [value]).length := by
    rw [length_append, stuffed, List.flatMap_singleton]
    split
    · exact Nat.add_le_add_left (Nat.le_succ 1) _
    · exact Nat.le_refl _
  refine .bind (upTo (appendByte_ends writer value) hfirst) fun next hnext => ?_
  subst hnext
  by_cases h : value = 0xff
  · rw [if_pos h]
    subst h
    have hsecond := appendByte_ends { writer with output := writer.output ++ [0xff] } 0
    refine (upTo hsecond ?_).mono fun next hnext => ?_
    · rw [length_append, length_append]
      exact Nat.le_refl _
    · rw [hnext, append_assoc]
      rfl
  · rw [if_neg h]
    refine .pure ?_
    rw [stuffed, List.flatMap_singleton, if_neg h]

theorem onesMask_eq {size length : Nat} (h : length < size) (detail : String) :
    onesMask size length detail = .ok (2 ^ length - 1) := by
  rw [onesMask, checkedShl_one h, Option.bind_some, checkedSub_of_le (Nat.one_le_two_pow)]
  rfl

theorem flushByte_ends {writer : ScanWriter} {octet rest : List Bool} (hoctet : octet.length = 8)
    (hrest : rest.length < 64) (hlength : writer.bitLength = (octet ++ rest).length)
    (hstring : writer.bitString = ofBits (octet ++ rest).reverse) :
    Ends (OutputFull writer.limits
        (writer.output ++ stuffed [UInt8.ofNat (ofBits octet.reverse)]).length)
      (fun next => next = writer.filled (stuffed [UInt8.ofNat (ofBits octet.reverse)]) rest)
      writer.flushByte := by
  have hremaining : checkedSub writer.bitLength 8 = some rest.length := by
    rw [hlength, length_append, hoctet, checkedSub_of_le (by omega), Nat.add_sub_cancel_left]
  have hlt := ofBits_lt octet.reverse
  rw [length_reverse, hoctet] at hlt
  have hlow : ofBits rest.reverse < 2 ^ rest.length := by
    have h := ofBits_lt rest.reverse
    rwa [length_reverse] at h
  rw [List.reverse_append, ofBits_append, length_reverse] at hstring
  have hhigh : writer.bitString >>> rest.length &&& 0xff = ofBits octet.reverse := by
    rw [hstring, Nat.shiftRight_eq_div_pow, Nat.add_mul_div_left _ _ (Nat.two_pow_pos _),
      Nat.div_eq_of_lt hlow, Nat.zero_add]
    exact (Nat.and_two_pow_sub_one_eq_mod _ 8).trans (Nat.mod_eq_of_lt hlt)
  have hmask : residualMask rest.length = .ok (2 ^ rest.length - 1) := by
    rw [residualMask]
    split
    · rename_i hzero
      rw [hzero]
      rfl
    · exact onesMask_eq hrest _
  rw [flushByte, hremaining, okOr_some, lift_ok_bind, hhigh, tryFrom_of_lt hlt, okOr_some,
    lift_ok_bind]
  refine .bind (emitScanByte_ends writer _) fun next hnext => ?_
  subst hnext
  rw [hmask, lift_ok_bind]
  refine .pure ?_
  dsimp only
  rw [Nat.and_two_pow_sub_one_eq_mod, hstring, Nat.add_mul_mod_self_left, Nat.mod_eq_of_lt hlow]
  rfl

theorem flushLoop_ends (writer : ScanWriter) {bits : List Bool} {rounds : Nat}
    (hrounds : bits.length / 8 = rounds) (hsmall : bits.length < 64)
    (hlength : writer.bitLength = bits.length) (hstring : writer.bitString = ofBits bits.reverse) :
    Ends (OutputFull writer.limits
        (writer.output ++ stuffed (octets (bits.take (8 * rounds)))).length)
      (fun next => next = writer.filled (stuffed (octets (bits.take (8 * rounds))))
        (bits.drop (8 * rounds)))
      (flushLoop rounds writer) := by
  induction rounds generalizing writer bits with
  | zero =>
    refine .pure ?_
    rw [filled, Nat.mul_zero, List.take_zero, List.drop_zero, ← hlength, ← hstring]
    exact congrArg (fun output => { writer with output := output }) (append_nil _).symm
  | succ rounds ih =>
    have hoctet : (bits.take 8).length = 8 := by
      rw [List.length_take]
      omega
    have hrest : (bits.drop 8).length = bits.length - 8 := List.length_drop
    have hsplit := List.take_append_drop 8 bits
    have htake : bits.take (8 * (rounds + 1)) = bits.take 8 ++ (bits.drop 8).take (8 * rounds) := by
      rw [Nat.mul_succ, Nat.add_comm, List.take_add]
    have hstuffed : stuffed (octets (bits.take (8 * (rounds + 1)))) =
        stuffed [UInt8.ofNat (ofBits (bits.take 8).reverse)] ++
          stuffed (octets ((bits.drop 8).take (8 * rounds))) := by
      rw [htake, octets_append hoctet, ← JpegEntropy.stuffed_append]
      rfl
    rw [flushLoop, if_pos (by omega), hstuffed, ← append_assoc]
    have hfirst := flushByte_ends hoctet (show (bits.drop 8).length < 64 by omega)
      (hsplit.symm ▸ hlength) (hsplit.symm ▸ hstring)
    refine .bind (upTo hfirst (List.prefix_append _ _).length_le) fun next hnext => ?_
    subst hnext
    refine (ih (writer.filled _ _) (show (bits.drop 8).length / 8 = rounds by omega) (by omega) rfl
      rfl).mono fun next hnext => ?_
    rw [hnext, filled, filled, filled, List.drop_drop, Nat.mul_succ, Nat.add_comm (8 * rounds),
      append_assoc]

theorem pushMask_eq {length : Nat} (h : length ≤ 32) : pushMask length = .ok (2 ^ length - 1) := by
  rw [pushMask]
  split
  · rename_i heq
    rw [heq]
    rfl
  · exact onesMask_eq (by omega) _

section

variable {writer : ScanWriter} {base : List UInt8} {bits : List Bool} (h : writer.Has base bits)
include h

theorem pushBits_ends (value : Nat) {length : Nat} (hlength : length ≤ 32) :
    Ends (OutputFull writer.limits (written base (bits ++ (bitsOf length value).reverse)).length)
      (fun next => next.Has base (bits ++ (bitsOf length value).reverse) ∧ Alike writer next)
      (writer.pushBits value length) := by
  rw [pushBits]
  by_cases hzero : length = 0
  · subst hzero
    rw [if_pos rfl]
    refine .pure ⟨?_, .rfl⟩
    rwa [bitsOf, List.reverse_nil, append_nil]
  obtain ⟨whole, rest, rfl, hwhole, hrest, houtput, hbitLength, hbitString⟩ := h
  have hlow : ofBits rest.reverse < 2 ^ 7 := by
    have hlt := ofBits_lt rest.reverse
    rw [length_reverse] at hlt
    exact Nat.lt_of_lt_of_le hlt (Nat.pow_le_pow_right (by decide) (by omega))
  have hpow : 2 ^ length ≤ 2 ^ 32 := Nat.pow_le_pow_right (by decide) hlength
  have hproduct : ofBits rest.reverse * 2 ^ length ≤ 2 ^ 7 * 2 ^ 32 :=
    Nat.mul_le_mul (Nat.le_of_lt hlow) hpow
  have hmod : value % 2 ^ length < 2 ^ length := Nat.mod_lt _ (Nat.two_pow_pos _)
  have hshift :
      checkedShl 64 writer.bitString length = some (ofBits rest.reverse * 2 ^ length) := by
    rw [checkedShl, if_pos (by omega), hbitString, Nat.shiftLeft_eq, Nat.mod_eq_of_lt (by omega)]
  have hstring : ofBits rest.reverse * 2 ^ length + value % 2 ^ length =
      ofBits (rest ++ (bitsOf length value).reverse).reverse := by
    rw [List.reverse_append, List.reverse_reverse, ofBits_append, length_bitsOf, ofBits_bitsOf,
      Nat.mul_comm, Nat.add_comm]
  have hcount : (rest ++ (bitsOf length value).reverse).length = rest.length + length := by
    rw [length_append, length_reverse, length_bitsOf]
  rw [if_neg hzero, rejectIf_of_not (by omega), lift_ok_bind, pushMask_eq hlength,
    lift_ok_bind, hshift, Option.bind_some, Nat.and_two_pow_sub_one_eq_mod,
    checkedAdd_of_lt (by omega), okOr_some, lift_ok_bind, hbitLength,
    tryFrom_of_lt (by omega), okOr_some, lift_ok_bind, hstring, ← hcount]
  rw [append_assoc]
  have hsmall : (rest ++ (bitsOf length value).reverse).length < 64 := by omega
  generalize rest ++ (bitsOf length value).reverse = field at *
  have htaken : (field.take (8 * (field.length / 8))).length = 8 * (field.length / 8) := by
    rw [List.length_take]
    omega
  have hwritten : writer.output ++ stuffed (octets (field.take (8 * (field.length / 8)))) =
      written base (whole ++ field) := by
    rw [written, octets_append_of_dvd hwhole, JpegEntropy.stuffed_append, ← append_assoc,
      ← houtput, octets_take]
  rw [← hwritten]
  have hends := flushLoop_ends
    { writer with bitString := ofBits field.reverse, bitLength := field.length } rfl hsmall rfl rfl
  refine hends.mono fun next hnext => ?_
  subst hnext
  refine ⟨?_, ⟨.refl _, .refl _, .refl _, .refl _, .refl _⟩⟩
  refine ⟨whole ++ field.take (8 * (field.length / 8)), field.drop (8 * (field.length / 8)),
    ?_, ?_, ?_, ?_, rfl, rfl⟩
  · rw [append_assoc, List.take_append_drop]
  · rw [length_append, htaken]
    omega
  · rw [List.length_drop]
    omega
  · rw [octets_append_of_dvd hwhole, JpegEntropy.stuffed_append, ← append_assoc, ← houtput]
    rfl

theorem Has.bitLength_eq : writer.bitLength = bits.length % 8 := by
  obtain ⟨whole, rest, rfl, hwhole, hrest, -, hbitLength, -⟩ := h
  rw [hbitLength, length_append]
  omega

theorem Has.flush (hbits : 8 ∣ bits.length) :
    writer.output = base ++ stuffed (octets bits) ∧ writer.bitLength = 0 ∧
      writer.bitString = 0 := by
  obtain ⟨whole, rest, rfl, hwhole, hrest, houtput, hbitLength, hbitString⟩ := h
  rw [length_append] at hbits
  have hnil : rest = [] := List.length_eq_zero_iff.mp (by omega)
  subst hnil
  rw [append_nil]
  exact ⟨houtput, hbitLength, hbitString⟩

theorem padWithOnes_ends :
    Ends (OutputFull writer.limits (base ++ entropyBytes bits).length)
      (fun next => next.output = base ++ entropyBytes bits ∧ next.bitLength = 0 ∧
        next.bitString = 0 ∧ Alike writer next)
      writer.padWithOnes := by
  have hlength := h.bitLength_eq
  have hwhole : 8 ∣ (bits ++ fill bits.length).length := by
    rw [length_append, fill, List.length_replicate]
    omega
  rw [padWithOnes]
  by_cases hzero : writer.bitLength = 0
  · rw [if_pos hzero]
    have hfill : fill bits.length = [] := by
      rw [fill, ← hlength, hzero]
      rfl
    rw [hfill, append_nil] at hwhole
    obtain ⟨houtput, hbitLength, hbitString⟩ := h.flush hwhole
    refine .pure ⟨?_, hbitLength, hbitString, .rfl⟩
    rw [houtput, entropyBytes, hfill, append_nil]
  · have hones : fill bits.length =
        (bitsOf (8 - writer.bitLength) (2 ^ (8 - writer.bitLength) - 1)).reverse := by
      have hcount : (8 - bits.length % 8) % 8 = 8 - writer.bitLength := by omega
      rw [fill, hcount, bitsOf_ones, List.reverse_replicate]
    rw [if_neg hzero, checkedSub_of_le (by omega), okOr_some, lift_ok_bind,
      onesMask_eq (by omega), lift_ok_bind]
    have hends := pushBits_ends h (2 ^ (8 - writer.bitLength) - 1)
      (show 8 - writer.bitLength ≤ 32 by omega)
    rw [← hones] at hends
    refine hends.mono fun next hnext => ?_
    obtain ⟨houtput, hbitLength, hbitString⟩ := hnext.1.flush hwhole
    exact ⟨houtput, hbitLength, hbitString, hnext.2⟩

end

theorem has_nil {writer : ScanWriter} (hlength : writer.bitLength = 0)
    (hstring : writer.bitString = 0) :
    writer.Has writer.output [] :=
  ⟨[], [], rfl, ⟨0, rfl⟩, by decide, (append_nil _).symm, hlength, hstring⟩

theorem restart_ends {writer : ScanWriter} {base : List UInt8} {bits : List Bool}
    (h : writer.Has base bits) {number : Nat} (hnumber : number < 8)
    (hindex : writer.restartMarkerIndex = number) :
    Ends (OutputFull writer.limits (base ++ entropyBytes bits ++
        [0xff, UInt8.ofNat (0xd0 + number)]).length)
      (fun next => next.Has
          (base ++ entropyBytes bits ++ [0xff, UInt8.ofNat (0xd0 + number)]) [] ∧
        next.predicted = Vector.replicate 4 0 ∧ next.restartMarkerIndex = (number + 1) % 8 ∧
        next.limits = writer.limits)
      writer.restart := by
  refine .bind (upTo (padWithOnes_ends h) (List.prefix_append _ _).length_le)
    fun padded hpadded => ?_
  obtain ⟨houtput, hbitLength, hbitString, halike⟩ := hpadded
  rw [← houtput, ← halike.limits]
  refine .bind (upTo (appendByte_ends padded 0xff) ?_) fun first hfirst => ?_
  · rw [length_append]
    exact Nat.le_succ _
  subst hfirst
  dsimp only
  rw [halike.restartMarkerIndex, hindex, tryFrom_of_lt (by omega), okOr_some, lift_ok_bind]
  have hmarker := appendByte_ends
    { padded with output := padded.output ++ [0xff], restartMarkerIndex := number }
    (UInt8.ofNat (0xd0 + number))
  refine .bind (upTo hmarker ?_) fun second hsecond => ?_
  · rw [length_append, length_append]
    exact Nat.le_refl _
  subst hsecond
  dsimp only
  rw [tryFrom_of_lt (by omega), okOr_some, lift_ok_bind]
  refine .pure ⟨?_, rfl, ?_, rfl⟩
  · have hbase : padded.output ++ [0xff] ++ [UInt8.ofNat (0xd0 + number)] =
        padded.output ++ [0xff, UInt8.ofNat (0xd0 + number)] := append_assoc _ _ _
    rw [← hbase]
    exact has_nil hbitLength hbitString
  · exact Nat.and_two_pow_sub_one_eq_mod (number + 1) 3

end ScanWriter

/-- The code of a symbol, unless it has none. -/
def HuffTable.codeOf (table : HuffTable) (symbol : Nat) : Option (List Bool) :=
  table[symbol]?.bind fun code =>
    if code.length = 0 then none else some (bitsOf code.length code.code).reverse

/-- No code is longer than a code of the format. -/
def HuffTable.Short (table : HuffTable) : Prop :=
  ∀ (symbol : Nat) (code : HuffCode), table[symbol]? = some code → code.length ≤ 16

theorem category_eq {value : Nat} (h : value < 2 ^ 64) : category value = .ok value.size := by
  rw [category]
  by_cases hzero : value = 0
  · rw [if_pos hzero, hzero]
    rfl
  · have hpos : 0 < value := Nat.pos_of_ne_zero hzero
    have hlog : Nat.log 2 value < 64 := Nat.log_lt_of_lt_pow hzero h
    have hsize : value.size = Nat.log 2 value + 1 := by
      refine Nat.le_antisymm (Nat.size_le.mpr (Nat.lt_pow_succ_log_self (by decide) value)) ?_
      exact Nat.lt_size.mpr (Nat.pow_log_le_self 2 hzero)
    have hbits : 64 - leadingZeros value = value.size := by
      rw [leadingZeros, if_neg hzero]
      omega
    rw [if_neg hzero, hbits, tryFrom_of_lt (by omega)]
    rfl

variable {code : List Bool}

namespace ScanWriter

section

variable {writer : ScanWriter} {base : List UInt8} {bits : List Bool} (h : writer.Has base bits)
  {table : HuffTable} (htable : table.Short)

include h htable

theorem pushHuffman_ends {symbol : Nat} (hcode : table.codeOf symbol =
    some code) :
    Ends (OutputFull writer.limits (written base (bits ++ code)).length)
      (fun next => next.Has base (bits ++ code) ∧ Alike writer next)
      (writer.pushHuffman table symbol) := by
  obtain ⟨entry, hentry, hcode⟩ := Option.bind_eq_some_iff.mp hcode
  have hshort := htable symbol entry hentry
  rw [pushHuffman, hentry, okOr_some, lift_ok_bind]
  by_cases hzero : entry.length = 0
  · rw [if_pos hzero] at hcode
    cases hcode
  · rw [if_neg hzero] at hcode
    cases hcode
    rw [rejectIf_of_not hzero, lift_ok_bind]
    exact pushBits_ends h _ (by omega)

end

end ScanWriter

theorem valueBits_eq {value : Int} (h : JpegEntropy.category value ≤ 15) :
    ∃ number, ScanWriter.valueBits value (JpegEntropy.category value) = .ok number ∧
      (bitsOf (JpegEntropy.category value) number).reverse =
        JpegEntropy.valueBits (JpegEntropy.category value) value := by
  have hupper : value.natAbs < 2 ^ JpegEntropy.category value := Nat.lt_size_self _
  have hmask : ScanWriter.valueMask (JpegEntropy.category value) =
      .ok (2 ^ JpegEntropy.category value - 1) := by
    rw [ScanWriter.valueMask]
    split
    · rename_i hzero
      rw [hzero]
      rfl
    · exact ScanWriter.onesMask_eq (by omega) _
  have hpow : 2 ^ JpegEntropy.category value ≤ 2 ^ 15 := Nat.pow_le_pow_right (by decide) h
  rw [ScanWriter.valueBits, hmask, Except.ok_bind, JpegEntropy.valueBits]
  by_cases hsign : 0 ≤ value
  · have hlt : value.toNat < 2 ^ JpegEntropy.category value := by omega
    rw [if_pos hsign, if_pos hsign, unsigned, if_pos hsign, Option.bind_some,
      tryFrom_of_lt (by omega), okOr_bind, Nat.and_two_pow_sub_one_eq_mod, Nat.mod_eq_of_lt hlt]
    exact ⟨_, rfl, rfl⟩
  · rw [if_neg hsign, if_neg hsign, tryFrom_of_lt (by omega), okOr_bind,
      checkedSub_of_le (by omega)]
    refine ⟨_, rfl, ?_⟩
    generalize 2 ^ JpegEntropy.category value = power at *
    have hnumber : (value + (power - 1 : Nat)).toNat = power - 1 - value.natAbs := by omega
    rw [hnumber]

namespace ScanWriter

section

variable {writer : ScanWriter} {base : List UInt8} {bits : List Bool} (h : writer.Has base bits)
  {table : HuffTable} (htable : table.Short)

include h htable

theorem pushEncodedValue_ends {value : Int} {zeros : Nat} (hzeros : zeros ≤ 15)
    (hcode : coded table.codeOf zeros value = some code) :
    Ends (OutputFull writer.limits (written base (bits ++ code)).length)
      (fun next => next.Has base (bits ++ code) ∧ Alike writer next)
      (writer.pushEncodedValue table value zeros) := by
  obtain ⟨hsize, front, hfront, rfl⟩ := JpegEntropy.coded_eq_some.mp hcode
  obtain ⟨number, hnumber, hbits⟩ := valueBits_eq hsize
  have hpow : 2 ^ JpegEntropy.category value ≤ 2 ^ 15 := Nat.pow_le_pow_right (by decide) hsize
  have hupper : value.natAbs < 2 ^ JpegEntropy.category value := Nat.lt_size_self _
  have hmagnitude : signed 64 value.natAbs = some (value.natAbs : Int) :=
    if_pos ⟨by omega, by omega⟩
  have hcategory : category value.natAbs = .ok (JpegEntropy.category value) :=
    category_eq (by omega)
  rw [pushEncodedValue, hmagnitude, okOr_some, lift_ok_bind, unsigned,
    if_pos (Int.natCast_nonneg _), Int.toNat_natCast, okOr_some, lift_ok_bind, hcategory,
    lift_ok_bind, rejectIf_of_not (by omega), lift_ok_bind, hnumber, lift_ok_bind,
    checkedMul_of_lt (by omega), Option.bind_some, checkedAdd_of_lt (by omega), okOr_some,
    lift_ok_bind]
  rw [← append_assoc, ← hbits]
  refine .bind (upTo (pushHuffman_ends h htable hfront) (written_append _ _ _)) fun next hnext => ?_
  rw [← hnext.2.limits]
  refine (pushBits_ends hnext.1 number (by omega)).mono fun last hlast => ?_
  exact ⟨hlast.1, hnext.2.trans hlast.2⟩

end

end ScanWriter

/-! ### Blocks -/

def Block.values (block : Block) : Vector Int 64 := block.coefficients.map (·.toInt)

theorem Block.values_get (block : Block) (index : Nat) :
    block.values[index]?.getD 0 = (block.coefficients[index]?.map (·.toInt)).getD 0 := by
  rw [Block.values, Vector.getElem?_map]

theorem skipZeros_eq (block : Block) {runEnd rounds index : Nat} (hindex : index ≤ 63)
    (hrounds : index + rounds = runEnd) :
    skipZeros block runEnd rounds index =
      .ok (JpegEntropy.skipZeros block.values rounds index) := by
  induction rounds generalizing index with
  | zero => rfl
  | succ rounds ih =>
    rw [skipZeros, JpegEntropy.skipZeros, block.values_get]
    by_cases hlt : index < 63
    · have hget : block.coefficients[index]? = some block.coefficients[index] :=
        Vector.getElem?_eq_getElem (by omega)
      rw [if_pos ⟨hlt, by omega⟩, hget, okOr_bind, Option.map_some, Option.getD_some]
      by_cases hzero : block.coefficients[index] = 0
      · rw [if_pos hzero, if_pos ⟨hlt, by rw [hzero]; rfl⟩, checkedAdd_bind (by omega)]
        exact ih (by omega) (by omega)
      · rw [if_neg hzero, if_neg fun h => hzero (Int16.toInt_inj.mp h.2)]
        rfl
    · rw [if_neg fun h => hlt h.1, if_neg fun h => hlt h.1]
      rfl

section

variable {writer : ScanWriter} {base : List UInt8} {bits : List Bool} (h : writer.Has base bits)
  {table : HuffTable} (htable : table.Short) {block : Block}

include h htable

theorem encodeRun_ends {index : Nat} (hindex : index ≤ 63)
    (hcode : coded table.codeOf (JpegEntropy.skipZeros block.values 15 index - index)
      (block.values[JpegEntropy.skipZeros block.values 15 index]?.getD 0) = some code) :
    Ends (OutputFull writer.limits (written base (bits ++ code)).length)
      (fun result => result.1.Has base (bits ++ code) ∧ ScanWriter.Alike writer result.1 ∧
        result.2 = JpegEntropy.skipZeros block.values 15 index + 1)
      (encodeRun table block writer index) := by
  obtain ⟨hle, hmost, hend, -, -⟩ := JpegEntropy.skipZeros_spec block.values 15 hindex
  rw [encodeRun, checkedAdd_of_lt (by omega), okOr_some, lift_ok_bind,
    skipZeros_eq block hindex rfl, lift_ok_bind, checkedSub_of_le hle, okOr_some,
    lift_ok_bind]
  generalize JpegEntropy.skipZeros block.values 15 index = next at *
  have hget : block.coefficients[next]? = some block.coefficients[next] :=
    Vector.getElem?_eq_getElem (by omega)
  rw [block.values_get, hget, Option.map_some, Option.getD_some] at hcode
  rw [hget, okOr_some, lift_ok_bind]
  refine .bind (ScanWriter.pushEncodedValue_ends h htable (by omega) hcode) fun last hlast => ?_
  rw [checkedAdd_of_lt (by omega), okOr_some, lift_ok_bind]
  exact .pure ⟨hlast.1, hlast.2, rfl⟩

theorem encodeRuns_ends {index rounds : Nat} (hlast : block.eob ≤ 63)
    (hcode : acBits table.codeOf block.values block.eob rounds index = some code) :
    Ends (OutputFull writer.limits (written base (bits ++ code)).length)
      (fun next => next.Has base (bits ++ code) ∧ ScanWriter.Alike writer next)
      (encodeRuns table block rounds writer index) := by
  induction rounds generalizing writer bits index code with
  | zero =>
    cases hcode
    refine .pure ⟨?_, .rfl⟩
    rwa [append_nil]
  | succ rounds ih =>
    rw [acBits] at hcode
    rw [encodeRuns]
    by_cases hle : index ≤ block.eob
    · rw [if_pos hle] at hcode ⊢
      obtain ⟨front, hfront, hcode⟩ := Option.bind_eq_some_iff.mp hcode
      obtain ⟨rest, hrest, hcode⟩ := Option.bind_eq_some_iff.mp hcode
      cases hcode
      rw [← append_assoc]
      refine .bind (upTo (encodeRun_ends h htable (by omega) hfront) (written_append _ _ _)) ?_
      rintro ⟨next, index'⟩ ⟨hnext, halike, hindex⟩
      dsimp only at hnext halike hindex ⊢
      subst hindex
      rw [← halike.limits]
      refine (ih hnext hrest).mono fun last hlast => ?_
      exact ⟨hlast.1, halike.trans hlast.2⟩
    · rw [if_neg hle] at hcode ⊢
      cases hcode
      refine .pure ⟨?_, .rfl⟩
      rwa [append_nil]

end

def ScanWriter.Predicts (writer : ScanWriter) (predicted : Nat → Int) : Prop :=
  ∀ component (h : component < 4), writer.predicted[component].toInt = predicted component

theorem ScanWriter.Alike.predicts {writer next : ScanWriter} (h : ScanWriter.Alike writer next)
    {predicted : Nat → Int} (hpredicted : writer.Predicts predicted) : next.Predicts predicted := by
  intro component hcomponent
  rw [← hpredicted component hcomponent]
  exact congrArg (fun predictions => Int16.toInt predictions[component]) h.predicted

section

variable {writer : ScanWriter} {base : List UInt8} {bits : List Bool} (h : writer.Has base bits)
  {predicted : Nat → Int} (hpredicted : writer.Predicts predicted) {dcTable : HuffTable}
  (hdc : dcTable.Short) {scanIndex : Nat} (hindex : scanIndex < 4) {block : Block}

include h hpredicted hdc hindex

theorem encodeDc_ends (hcode : coded dcTable.codeOf 0
      (getElem block.values 0 Block.first_lt - predicted scanIndex) = some code) :
    Ends (OutputFull writer.limits (written base (bits ++ code)).length)
      (fun next => next.Has base (bits ++ code) ∧
        next.Predicts
          (predict predicted scanIndex (getElem block.values 0 Block.first_lt)) ∧
        next.restartMarkerIndex = writer.restartMarkerIndex ∧ next.limits = writer.limits)
      (encodeDc dcTable scanIndex block writer) := by
  have hfirst : block.values[0] = block.coefficients[0].toInt := Vector.getElem_map _ _
  have hprediction := hpredicted scanIndex hindex
  have hlow := Int16.le_toInt block.coefficients[0]
  have hhigh := Int16.toInt_lt block.coefficients[0]
  have hlow' := Int16.le_toInt writer.predicted[scanIndex]
  have hhigh' := Int16.toInt_lt writer.predicted[scanIndex]
  have hdifference : signed 32 (block.coefficients[0].toInt - writer.predicted[scanIndex].toInt) =
      some (block.values[0] - predicted scanIndex) := by
    rw [hfirst, ← hprediction]
    exact if_pos ⟨by omega, by omega⟩
  rw [encodeDc, Vector.getElem?_eq_getElem (by decide), okOr_some, lift_ok_bind,
    Vector.getElem?_eq_getElem hindex, okOr_some, lift_ok_bind, hdifference, okOr_some,
    lift_ok_bind]
  refine .bind (ScanWriter.pushEncodedValue_ends h hdc (by decide) hcode) fun next hnext => ?_
  obtain ⟨hhas, halike⟩ := hnext
  rw [setAt, dif_pos hindex, okOr_some, lift_ok_bind]
  refine .pure ⟨hhas, fun component hcomponent => ?_, halike.restartMarkerIndex, halike.limits⟩
  dsimp only
  rw [predict, Vector.getElem_set]
  by_cases heq : scanIndex = component
  · rw [if_pos heq, if_pos heq.symm, hfirst]
  · rw [if_neg heq, if_neg fun hne => heq hne.symm]
    exact halike.predicts hpredicted component hcomponent

theorem encodeBlock_ends {acTable : HuffTable} (hac : acTable.Short) (hlast : block.eob ≤ 63)
    (hcode : JpegEntropy.blockBits ⟨dcTable.codeOf, acTable.codeOf⟩ (predicted scanIndex)
      block.values block.eob = some code) :
    Ends (OutputFull writer.limits (written base (bits ++ code)).length)
      (fun next => next.Has base (bits ++ code) ∧
        next.Predicts
          (predict predicted scanIndex (getElem block.values 0 Block.first_lt)) ∧
        next.restartMarkerIndex = writer.restartMarkerIndex ∧ next.limits = writer.limits)
      (encodeBlock dcTable acTable scanIndex block writer) := by
  obtain ⟨first, hfirst, hcode⟩ := Option.bind_eq_some_iff.mp hcode
  obtain ⟨rest, hrest, hcode⟩ := Option.bind_eq_some_iff.mp hcode
  obtain ⟨close, hclose, hcode⟩ := Option.bind_eq_some_iff.mp hcode
  cases hcode
  refine .bind (upTo (encodeDc_ends h hpredicted hdc hindex hfirst) ?_) fun next hnext => ?_
  · rw [← append_assoc]
    exact written_append _ _ _
  obtain ⟨hhas, hpredicts, hmarker, hlimits⟩ := hnext
  rw [← hlimits, ← append_assoc, ← append_assoc]
  refine .bind (upTo (encodeRuns_ends hhas hac hlast hrest) (written_append _ _ _))
    fun last hlast => ?_
  obtain ⟨hhas, halike⟩ := hlast
  have hpredicts := halike.predicts hpredicts
  have hmarker := halike.restartMarkerIndex.trans hmarker
  rw [endBits] at hclose
  rw [← halike.limits]
  by_cases hend : block.eob ≠ 63
  · rw [if_pos hend] at hclose ⊢
    refine (ScanWriter.pushHuffman_ends hhas hac hclose).mono fun final hfinal => ?_
    obtain ⟨hwhole, halike'⟩ := hfinal
    exact ⟨hwhole, halike'.predicts hpredicts, halike'.restartMarkerIndex.trans hmarker,
      halike'.limits⟩
  · rw [if_neg hend] at hclose ⊢
    cases hclose
    rw [append_nil]
    exact .pure ⟨hhas, hpredicts, hmarker, rfl⟩

end

end Jpeg
end Unpackio
