/-
The decoding of a block of WinZip JPEG keeps the coder inside its numbers, and
leaves a coefficient that is not zero where it says that the last one is.
-/
import Unpackio.Jpeg.Block
import Unpackio.Jpeg.ContextBounds

namespace Unpackio
namespace Jpeg

open Prog (Ends Keeps)

def BlockError (e : Error) : Prop :=
  CoderError e ∨ e = formatError "WinZip JPEG DC coefficient is out of range"

/-- What the coder is between two bits. -/
structure Coder.Valid (coder : Coder) : Prop where
  decoder : coder.decoder.Valid
  models : coder.models.length = modelCount
  bins : ∀ bin ∈ coder.models, bin.Valid
  fixed : coder.fixed.Valid

theorem newModels_valid : ∀ bin ∈ newModels, bin.Valid := fun _ hmem =>
  List.eq_of_mem_replicate hmem ▸ Bin.adaptive_valid

section

variable (tables : LogTables)

abbrev Codes {α : Type} (post : α → Prop) (p : Coding α) : Prop :=
  Keeps BlockError Coder.Valid post p

variable {index : Nat} {absoluteValue : Int}

theorem decodeModel_codes (h : index < modelCount) : Codes (· ≤ 1) (decodeModel tables index) := by
  intro coder hcoder
  have hlow : index < coder.models.length := hcoder.models ▸ h
  show Ends _ _ (liftM (okOr coder.models[index]? _) >>= _)
  rw [List.getElem?_eq_getElem hlow]
  have hbin := hcoder.bins _ (List.getElem_mem hlow)
  refine .bind (.gives (.ok rfl)) ?_
  rintro bin rfl
  refine .bind ((ArithmeticDecoder.decodeBit_ends tables hcoder.decoder hbin).widen
    fun _ => .inl) ?_
  rintro ⟨bit, next, decoder⟩ ⟨hbit, hnext, hdecoder⟩
  refine .pure ⟨hbit, hdecoder, ?_, fun other hother => ?_, hcoder.fixed⟩
  · show (coder.models.set index next).length = modelCount
    rw [List.length_set]
    exact hcoder.models
  · obtain hmem | heq := List.mem_or_eq_of_mem_set hother
    · exact hcoder.bins other hmem
    · exact heq ▸ hnext

theorem decodeFixed_codes : Codes (· ≤ 1) (decodeFixed tables) := by
  intro coder hcoder
  refine .bind ((ArithmeticDecoder.decodeBit_ends tables hcoder.decoder hcoder.fixed).widen
    fun _ => .inl) ?_
  rintro ⟨bit, next, decoder⟩ ⟨hbit, hnext, hdecoder⟩
  exact .pure ⟨hbit, hdecoder, hcoder.models, hcoder.bins, hnext⟩

theorem decodeAt_codes {index : Except Error Nat} (h : index.Gives (· < modelCount)) :
    Codes (· ≤ 1) (decodeAt tables index) :=
  .bind (.gives h) fun _ hindex => decodeModel_codes tables hindex

theorem countOnes_codes {index : Nat → Except Error Nat} {maximum : Nat} (overflow : Error)
    (hindex : ∀ context ≤ maximum, (index context).Gives (· < modelCount)) {left ones : Nat}
    (hones : ones + left < 2 ^ 64) :
    Codes (· ≤ ones + left) (countOnes tables index maximum overflow left ones) := by
  induction left generalizing ones with
  | zero => exact .pure (Nat.le_refl _)
  | succ left ih =>
    refine .bind (decodeAt_codes tables (hindex _ (Nat.min_le_right _ _))) fun bit _ => ?_
    refine .ite (fun _ => .pure (Nat.le_add_right _ _)) fun _ => ?_
    have hadd : (okOr (checkedAdd ones 1) overflow).Gives (· = ones + 1) := by
      rw [checkedAdd_of_lt (by omega)]
      exact .ok rfl
    refine .bind (.gives hadd) ?_
    rintro next rfl
    exact (ih (by omega)).mono fun _ hle => by omega

theorem remainderLoop_codes {index : Nat → Except Error Nat} {width bitIndex value : Nat}
    (hindex : ∀ bit < bitIndex, (index bit).Gives (· < modelCount)) (hbits : bitIndex ≤ width)
    (hwidth : width ≤ 16) (hvalue : value < 2 ^ width) :
    Codes (· < 2 ^ width) (remainderLoop tables index bitIndex value) := by
  induction bitIndex generalizing value with
  | zero => exact .pure hvalue
  | succ bitIndex ih =>
    refine .bind (decodeAt_codes tables (hindex bitIndex (Nat.lt_succ_self _))) fun bit hbit => ?_
    have hposition : (okOr (tryFrom 32 bitIndex)
        (formatError "WinZip JPEG remainder position is not representable")).Gives
          (· = bitIndex) := by
      rw [tryFrom_of_lt (by omega)]
      exact .ok rfl
    refine .bind (.gives hposition) ?_
    rintro position rfl
    have hshifted : bit <<< position % 2 ^ 32 < 2 ^ width := by
      refine Nat.lt_of_le_of_lt (Nat.mod_le _ _) ?_
      rw [Nat.shiftLeft_eq]
      calc bit * 2 ^ position ≤ 1 * 2 ^ position := Nat.mul_le_mul_right _ hbit
        _ = 2 ^ position := Nat.one_mul _
        _ < 2 ^ width := Nat.pow_lt_pow_right (by decide) hbits
    have hshl : (okOr (checkedShl 32 bit position)
        (formatError "WinZip JPEG remainder overflows")).Gives (· < 2 ^ width) := by
      rw [checkedShl, if_pos (by omega)]
      exact .ok hshifted
    refine .bind (.gives hshl) fun shifted hlow => ?_
    exact ih (fun other hother => hindex other (Nat.lt_succ_of_lt hother)) (by omega)
      (Nat.or_lt_two_pow hvalue hlow)

theorem decodeRemainder_codes {index : Nat → Except Error Nat} {ones maximumBit : Nat}
    (hindex : ∀ bit < maximumBit, (index bit).Gives (· < modelCount))
    (hones : ones ≤ maximumBit + 1) (hmaximum : maximumBit ≤ 14) :
    Codes (fun value => 0 ≤ value ∧ value < 2 ^ (maximumBit + 1))
      (decodeRemainder tables ones maximumBit index) := by
  have hone : (1 : Int) < 2 ^ (maximumBit + 1) := by
    have hpow : (2 : Nat) ^ 1 ≤ 2 ^ (maximumBit + 1) := Nat.pow_le_pow_right (by decide) (by omega)
    exact_mod_cast hpow
  refine .ite (fun _ => .pure ⟨Int.le_refl 0, by omega⟩) fun _ =>
    .ite (fun _ => .pure ⟨by decide, hone⟩) fun _ => ?_
  have hsub : (okOr (checkedSub ones 1)
      (formatError "WinZip JPEG binarization width underflows")).Gives (· = ones - 1) := by
    rw [checkedSub_of_le (by omega)]
    exact .ok rfl
  refine .bind (.gives hsub) ?_
  rintro bits rfl
  have hreject : (rejectIf (maximumBit < ones - 1)
      (formatError "WinZip JPEG binarization is too wide")).Gives fun _ => True := by
    rw [rejectIf_of_not (by omega)]
    exact .ok trivial
  refine .bind (.gives hreject) fun _ _ => ?_
  have hwidth : (okOr (tryFrom 32 (ones - 1))
      (formatError "WinZip JPEG binarization width is not representable")).Gives
        (· = ones - 1) := by
    rw [tryFrom_of_lt (by omega)]
    exact .ok rfl
  refine .bind (.gives hwidth) ?_
  rintro width rfl
  have hshl : (okOr (checkedShl 32 1 (ones - 1))
      (formatError "WinZip JPEG binarization overflows")).Gives (· = 2 ^ (ones - 1)) := by
    rw [checkedShl_one (by omega)]
    exact .ok rfl
  refine .bind (.gives hshl) ?_
  rintro value rfl
  have hstart : 2 ^ (ones - 1) < 2 ^ ones := Nat.pow_lt_pow_right (by decide) (by omega)
  refine .bind (remainderLoop_codes tables (fun bit hbit => hindex bit (by omega)) (Nat.sub_le _ _)
    (by omega) hstart) fun value hvalue => ?_
  have hsmall : 2 ^ ones ≤ 2 ^ (maximumBit + 1) := Nat.pow_le_pow_right (by decide) hones
  have hsmall' : 2 ^ (maximumBit + 1) ≤ 2 ^ 15 := Nat.pow_le_pow_right (by decide) (by omega)
  refine .gives ((signed_gives (by omega) _).mono ?_)
  rintro result rfl
  exact ⟨Int.natCast_nonneg _, by exact_mod_cast Nat.lt_of_lt_of_le hvalue hsmall⟩

theorem decodeAcBinarization_codes {component kind first second position : Nat}
    (hcomponent : component < 4) (hkind : kind < 3) (hfirst : first ≤ 8) (hsecond : second ≤ 8)
    (hposition : position < 7) :
    Codes (UpTo 16383) (decodeAcBinarization tables component kind first second position) := by
  refine .bind (countOnes_codes tables _ (fun context hcontext => ?_) (by decide))
    fun ones hones => ?_
  · exact acMagnitudeIndex_gives hcomponent hkind (by omega) (by omega) (by omega)
  · refine (decodeRemainder_codes tables (fun bit hbit => ?_) (by omega) (by decide)).mono
      fun value hvalue => ⟨hvalue.1, by have := hvalue.2; omega⟩
    exact acRemainderIndex_gives hcomponent hkind hposition hbit

theorem decodeDcBinarization_codes {component valueContext : Nat} (hcomponent : component < 4)
    (hvalue : valueContext ≤ 12) :
    Codes (UpTo 32767) (decodeDcBinarization tables component valueContext) := by
  refine .bind (countOnes_codes tables _ (fun context hcontext => ?_) (by decide))
    fun ones hones => ?_
  · exact dcMagnitudeIndex_gives hcomponent (by omega) (by omega)
  · refine (decodeRemainder_codes tables (fun bit hbit => ?_) (by omega) (by decide)).mono
      fun value hvalue => ⟨hvalue.1, by have := hvalue.2; omega⟩
    exact dcRemainderIndex_gives hcomponent (by omega) hbit

/-! ## Coefficients -/

theorem toInt16_gives {value : Int} (h : Within 16385 value) (e : Error) :
    (okOr (toInt16 value) e).Gives (·.toInt = value) := by
  have hlow := h.1
  have hhigh := h.2
  rw [toInt16, signed_of_mem (by show -2 ^ 15 ≤ value; omega) (by show value < 2 ^ 15; omega)]
  exact .ok (Int16.toInt_ofInt_of_le (by omega) (by omega))

theorem signMagnitude_gives (h : 0 ≤ absoluteValue) : (signMagnitude absoluteValue).Gives (· < 3) :=
  .bind (unsigned_gives h _) fun value _ => .bind (category_gives value) fun _ _ =>
    .pure (Nat.lt_succ_of_le (Nat.min_le_right _ _))

/-- Where a coefficient is decoded: the models of a component, the contexts of the
signs, and a table of steps that are not zero. -/
structure Placed (signContexts : Vector Nat 64) (component : Nat) (quant : QuantTable) : Prop where
  contexts : ∀ context ∈ signContexts, context < 27
  component : component < 4
  quant : quant.NonZero

variable {signContexts : Vector Nat 64} {component : Nat} {quant : QuantTable}
  (h : Placed signContexts component quant)

include h

theorem decodeAcSign_codes (current north west : Block) (hindex : index < 64)
    (hvalue : 0 ≤ absoluteValue) :
    Codes (fun _ => True) (decodeAcSign tables signContexts component index absoluteValue current
      north west quant) := by
  refine .bind (.gives (predictedSign_gives h.quant current north west hindex))
    fun predicted hsign => ?_
  cases predicted with
  | none => exact (decodeFixed_codes tables).mono fun _ _ => trivial
  | some predicted =>
    have hcontext : (okOr signContexts[index]?
        (formatError "WinZip JPEG sign context is out of range")).Gives (· < 27) := by
      rw [Vector.getElem?_eq_getElem hindex]
      exact .ok (h.contexts _ (Vector.getElem_mem hindex))
    refine .bind (.gives hcontext) fun context hlow => ?_
    refine .bind (.gives (signMagnitude_gives hvalue)) fun magnitude hmagnitude => ?_
    exact (decodeAt_codes tables (acSignIndex_gives h.component hlow hmagnitude
      (hsign predicted rfl))).mono fun _ _ => trivial

theorem acFirstValue_gives (row column : Nat) (current north west : Block) (hindex : index < 64) :
    (acFirstValue row column index current north west quant).Gives (0 ≤ ·) := by
  refine .ite (fun _ => ?_) fun _ => average_gives h.quant north west hindex
  refine .bind (boundaryDifference_gives h.quant north west current hindex)
    fun difference hdifference => ?_
  have habs : UpTo (2 ^ 33) difference.natAbs := hdifference.natAbs
  refine (signed64_gives habs.within (by decide) _).mono ?_
  rintro value rfl
  exact habs.1

theorem acContextValues_gives (current north west : Block) (hindex : index < 64) :
    (acContextValues index current north west quant).Gives fun values =>
      0 ≤ values.1 ∧ 0 ≤ values.2 := by
  refine .bind (rowOf_gives hindex) fun row _ => .bind (columnOf_gives hindex) fun column _ => ?_
  refine .bind (acFirstValue_gives h row column current north west hindex) fun first hfirst => ?_
  exact .bind (current.sumFrom_gives hindex) fun second hsecond => .pure ⟨hfirst, hsecond.1⟩

theorem decodeNonzero_codes {canBeZero : Bool} {context : Nat} {first second : Int}
    (hcontext : canBeZero = true → context < 62) (hfirst : 0 ≤ first) (hsecond : 0 ≤ second) :
    Codes (fun nonzero => canBeZero = false → nonzero ≠ 0)
      (decodeNonzero tables canBeZero component context first second) := by
  cases canBeZero with
  | false => exact .pure fun _ => Nat.one_ne_zero
  | true =>
    refine .bind (.gives (categoryUpTo_gives hfirst 2 _)) fun firstContext hfirst' => ?_
    refine .bind (.gives (categoryUpTo_gives hsecond 5 _)) fun secondContext hsecond' => ?_
    exact (decodeAt_codes tables (zeroIndex_gives h.component (hcontext rfl) (by omega)
      (by omega))).mono fun _ _ heq => nomatch heq

omit h in
theorem acKind_gives (hpos : 0 < index) (hindex : index < 64) :
    (acKind index).Gives fun kind => kind.1 < 3 ∧ kind.2 < 7 := by
  obtain ⟨row, hrow, hrowLe⟩ := rowOf_gives hindex
  obtain ⟨column, hcolumn, hcolumnLe⟩ := columnOf_gives hindex
  have hcorner := first_of_corner hpos hindex hrow hcolumn
  rw [acKind, hrow, hcolumn, Except.ok_bind, Except.ok_bind]
  refine .ite (fun _ => ?_) fun hrow' => .ite (fun _ => ?_) fun hcolumn' => ?_
  · rw [checkedSub_of_le (by omega)]
    exact .ok ⟨by show 0 < 3; decide, by show column - 1 < 7; omega⟩
  · rw [checkedSub_of_le (by omega)]
    exact .ok ⟨by show 1 < 3; decide, by show row - 1 < 7; omega⟩
  · have hle := inside_le hindex hrow hcolumn hrow' hcolumn'
    rw [checkedSub_of_le hle, okOr_bind]
    refine .bind (category_gives (index - 4)) fun position hposition => ?_
    exact .ok ⟨by show 2 < 3; decide, Nat.lt_succ_of_le (hposition.2 (by omega))⟩

theorem decodeAcMagnitude_codes {first second : Int} (hpos : 0 < index) (hindex : index < 64)
    (hfirst : 0 ≤ first) (hsecond : 0 ≤ second) :
    Codes (fun value => 1 ≤ value ∧ value ≤ 16385)
      (decodeAcMagnitude tables component index (index - 1) first second) := by
  refine .bind (.gives (categoryUpTo_gives hfirst 4 _)) fun firstContext hfirst' => ?_
  refine .bind (.gives (categoryUpTo_gives hsecond 6 _)) fun secondContext hsecond' => ?_
  refine .bind (decodeAt_codes tables (pivotIndex_gives h.component (by omega) (by omega)
    (by omega))) fun pivot _ => ?_
  refine .ite (fun _ => .pure ⟨by decide, by decide⟩) fun _ => ?_
  refine .bind (.gives (acKind_gives hpos hindex)) ?_
  rintro ⟨kind, position⟩ ⟨hkind, hposition⟩
  refine .bind (.gives (categoryUpTo_gives hfirst 8 _)) fun magnitudeFirst hfirst'' => ?_
  refine .bind (.gives (categoryUpTo_gives hsecond 8 _)) fun magnitudeSecond hsecond'' => ?_
  refine .bind (decodeAcBinarization_codes tables h.component hkind hfirst'' hsecond'' hposition)
    fun value hvalue => ?_
  have hlow := hvalue.1
  have hhigh := hvalue.2
  refine .gives ((signed_gives (by omega) _).mono ?_)
  rintro result rfl
  exact ⟨by omega, by omega⟩

theorem decodeAcComponent_codes {canBeZero : Bool} (current : Block) (north west : Option Block)
    (hpos : 0 < index) (hindex : index < 64) (hzero : canBeZero = true → index < 63) :
    Codes (fun value => Within 16385 value.toInt ∧ (canBeZero = false → value ≠ 0))
      (decodeAcComponent tables signContexts component index canBeZero current north west
        quant) := by
  have hcontext : (okOr (checkedSub index 1)
      (formatError "WinZip JPEG AC coefficient context underflows")).Gives (· = index - 1) := by
    rw [checkedSub_of_le hpos]
    exact .ok rfl
  refine .bind (.gives hcontext) ?_
  rintro context rfl
  refine .bind (.gives (acContextValues_gives h current _ _ hindex)) ?_
  rintro ⟨first, second⟩ ⟨hfirst, hsecond⟩
  refine .bind (decodeNonzero_codes tables h (fun heq => by have := hzero heq; omega)
    hfirst hsecond)
    fun nonzero hnonzero => ?_
  refine .ite (fun heq => .pure ⟨by constructor <;> decide, fun hno => absurd heq (hnonzero hno)⟩)
    fun _ => ?_
  refine .bind (decodeAcMagnitude_codes tables h hpos hindex hfirst hsecond)
    fun magnitude hmagnitude => ?_
  obtain ⟨hlow, hhigh⟩ := hmagnitude
  refine .bind (decodeAcSign_codes tables h current _ _ hindex (by omega)) fun sign _ => ?_
  have hvalue : (okOr (if sign = 0 then some magnitude else signed 32 (-magnitude))
      (formatError "WinZip JPEG AC coefficient overflows")).Gives
        fun value => value = magnitude ∨ value = -magnitude := by
    by_cases hsign : sign = 0
    · rw [if_pos hsign]
      exact .ok (.inl rfl)
    · rw [if_neg hsign]
      exact (signed_gives (by omega) _).mono fun _ => .inr
  refine .bind (.gives hvalue) fun value hsigned => ?_
  have hwithin : Within 16385 value := by constructor <;> omega
  refine .gives ((toInt16_gives hwithin _).mono fun result hresult => ?_)
  refine ⟨hresult ▸ hwithin, fun _ hzeroResult => ?_⟩
  rw [hzeroResult] at hresult
  have hvalueZero : (0 : Int) = value := hresult
  omega

theorem decodeDcValue_codes {predicted : Int} (north west : Option Block)
    (hpredicted : Within (2 ^ 31 * predictionBound + predictionBound) predicted)
    (hvalue : UpTo 32767 absoluteValue) :
    Codes (fun _ => True) (decodeDcValue tables component predicted absoluteValue north west) := by
  refine .ite (fun _ => .pure trivial) fun _ => ?_
  refine .bind (.gives ((north.getD Block.zero).coefficient_gives (by decide)))
    fun northValue _ => ?_
  refine .bind (.gives ((west.getD Block.zero).coefficient_gives (by decide)))
    fun westValue _ => ?_
  have hbit : ∀ (c : Prop) [Decidable c], (if c then 1 else 0) < 2 := fun c _ => by
    split_ifs <;> decide
  refine .bind (decodeAt_codes tables (dcSignIndex_gives h.component (hbit _) (hbit _) (hbit _)))
    fun sign _ => ?_
  have hsigned : Within (2 ^ 31 * predictionBound + predictionBound + 32767)
      (if sign = 0 then predicted + absoluteValue else predicted - absoluteValue) := by
    split_ifs
    · exact hpredicted.add hvalue.within
    · exact hpredicted.sub hvalue.within
  exact .gives ((signed64_gives hsigned (by decide) _).mono fun _ _ => trivial)

theorem decodeDcComponent_codes {current : Block} (north west : Option Block)
    (hcurrent : current.Decoded) :
    Codes (fun _ => True) (decodeDcComponent tables component current north west quant) := by
  refine .bind (.gives (dcPrediction_gives h.quant north west hcurrent))
    fun predicted hpredicted => ?_
  refine .bind (.gives (current.sumFrom_gives (by decide))) fun sum hsum => ?_
  refine .bind (.gives (categoryUpTo_gives hsum.1 12 _)) fun valueContext hcontext => ?_
  refine .bind (decodeDcBinarization_codes tables h.component hcontext)
    fun absoluteValue hvalue => ?_
  refine .bind (decodeDcValue_codes tables h north west hpredicted hvalue) fun value _ => ?_
  refine .lift (fun _ _ => trivial) fun e herror => .inr ?_
  cases hfit : toInt16 value with
  | none =>
    rw [hfit] at herror
    exact (Except.error.inj herror).symm
  | some result =>
    rw [hfit] at herror
    cases herror

theorem eobLoop_codes {context rounds count bitString : Nat} (hcontext : context ≤ 12)
    (hrounds : count + rounds = 6) (hlow : 2 ^ count ≤ bitString)
    (hhigh : bitString < 2 ^ (count + 1)) :
    Codes (fun _ => True) (eobLoop tables component context rounds bitString) := by
  induction rounds generalizing count bitString with
  | zero => exact .pure trivial
  | succ rounds ih =>
    have hpos : 1 ≤ 2 ^ count := Nat.one_le_two_pow
    have hpow : 2 ^ (count + 1) ≤ 2 ^ 6 := Nat.pow_le_pow_right (by decide) (by omega)
    have hnode : (okOr (checkedSub bitString 1)
        (formatError "WinZip JPEG EOB node underflows")).Gives (· < 63) := by
      rw [checkedSub_of_le (by omega)]
      exact .ok (by omega)
    refine .bind (.gives hnode) fun node hnode => ?_
    refine .bind (decodeAt_codes tables (eobIndex_gives h.component (by omega) hnode))
      fun bit hbit => ?_
    have hnext : (okOr ((checkedMul bitString 2).bind fun value => checkedAdd value bit)
        (formatError "WinZip JPEG EOB value overflows")).Gives (· = bitString * 2 + bit) := by
      have hmul : checkedMul bitString 2 = some (bitString * 2) := if_pos (by omega)
      rw [hmul, Option.bind_some, checkedAdd_of_lt (by omega)]
      exact .ok rfl
    refine .bind (.gives hnext) ?_
    rintro next rfl
    have hlow' : 2 ^ (count + 1) ≤ bitString * 2 + bit := by
      rw [Nat.pow_succ]
      omega
    have hhigh' : bitString * 2 + bit < 2 ^ (count + 1 + 1) := by
      rw [Nat.pow_succ]
      omega
    exact ih (by omega) hlow' hhigh'

/-- The coefficients behind an index are decoded, and the last one is not zero. -/
structure Filled (eob index : Nat) (block : Block) : Prop where
  decoded : block.Decoded
  eob_eq : block.eob = eob
  last : index < eob → ∀ value ∈ block.coefficients[eob]?, value ≠ 0

omit h in
theorem Filled.set {eob : Nat} {block : Block} {value : Int16}
    (hfilled : Filled eob (index + 1) block) (hlow : index + 1 < 64)
    (hvalue : Within 16385 value.toInt) (hlast : index + 1 = eob → value ≠ 0) :
    Filled eob index { block with coefficients := block.coefficients.set (index + 1) value } := by
  refine ⟨fun other hother => ?_, hfilled.eob_eq, fun hlt other hother => ?_⟩
  · have hset : other ∈ block.coefficients.set (index + 1) value hlow := hother
    obtain hmem | heq := Vector.mem_or_eq_of_mem_set hset
    · exact hfilled.decoded other hmem
    · exact heq ▸ hvalue
  · rw [Option.mem_def, Vector.getElem?_set] at hother
    by_cases heq : index + 1 = eob
    · rw [if_pos heq] at hother
      cases hother
      exact hlast heq
    · rw [if_neg heq] at hother
      exact hfilled.last (by omega) other hother

theorem acLoop_codes {eob : Nat} (north west : Option Block) {current : Block} (heob : eob < 64)
    (hindex : index ≤ eob) (hcurrent : Filled eob index current) :
    Codes (Filled eob 0)
      (acLoop tables signContexts component eob north west quant index current) := by
  induction index generalizing current with
  | zero => exact .pure hcurrent
  | succ index ih =>
    have hzero : decide (index + 1 ≠ eob) = true → index + 1 < 63 := fun hne => by
      have := of_decide_eq_true hne
      omega
    refine .bind (decodeAcComponent_codes tables h current north west (Nat.succ_pos _) (by omega)
      hzero) ?_
    rintro value ⟨hvalue, hnonzero⟩
    have hset : (current.setCoefficient (index + 1) value).Gives (Filled eob index) := by
      rw [Block.setCoefficient, dif_pos (by omega)]
      exact .ok (hcurrent.set (by omega) hvalue fun heq =>
        hnonzero (decide_eq_false (not_not_intro heq)))
    exact .bind (.gives hset) fun next hnext => ih (Nat.le_of_succ_le hindex) hnext

omit h in
theorem zero_filled {eob : Nat} :
    Filled eob eob { coefficients := Vector.replicate 64 0, eob := eob } := by
  refine ⟨fun value hvalue => ?_, rfl, fun hlt => absurd hlt (Nat.lt_irrefl _)⟩
  rw [(Vector.mem_replicate.mp hvalue).2]
  constructor <;> decide

/-- What a decoded block is. -/
structure Block.Whole (block : Block) : Prop where
  eob_lt : block.eob < 64
  coefficients : ∀ index (h : index < 64), 0 < index →
    Within 16385 block.coefficients[index].toInt
  last : 0 < block.eob → ∀ h : block.eob < 64, block.coefficients[block.eob] ≠ 0

omit h in
theorem Filled.whole {eob : Nat} {block : Block} (hfilled : Filled eob 0 block) (heob : eob < 64)
    (first : Int16) :
    Block.Whole { block with coefficients := block.coefficients.set 0 first } := by
  obtain ⟨hdecoded, rfl, hlast⟩ := hfilled
  refine ⟨heob, fun index hindex hpos => ?_, fun hpos hlow => ?_⟩
  · show Within 16385 ((block.coefficients.set 0 first)[index]).toInt
    rw [Vector.getElem_set_ne _ hindex (by omega)]
    exact hdecoded _ (Vector.getElem_mem hindex)
  · show (block.coefficients.set 0 first)[block.eob] ≠ 0
    rw [Vector.getElem_set_ne _ heob (Nat.ne_of_lt hpos)]
    exact hlast hpos _ (Vector.getElem?_eq_getElem heob)

theorem decodeBlock_codes (north west : Option Block) :
    Codes Block.Whole (decodeBlock tables signContexts component north west quant) := by
  refine .bind (.gives (eobAverage_gives north west)) fun averageValue haverage => ?_
  refine .bind (.gives (categoryUpTo_gives haverage 12 _)) fun context hcontext => ?_
  refine .bind (eobLoop_codes tables h hcontext (rfl : 0 + 6 = 6) (by decide) (by decide))
    fun bitString _ => ?_
  have heob : bitString &&& 0x3f < 64 := Nat.lt_succ_of_le Nat.and_le_right
  have hfit : (okOr (tryFrom 8 (bitString &&& 0x3f))
      (formatError "WinZip JPEG EOB is not representable")).Gives (· < 64) := by
    rw [tryFrom_of_lt (by omega)]
    exact .ok heob
  refine .bind (.gives hfit) fun eob hlow => ?_
  refine .bind (acLoop_codes tables h north west hlow (Nat.le_refl eob) zero_filled)
    fun current hcurrent => ?_
  refine .bind (decodeDcComponent_codes tables h north west hcurrent.decoded) fun first _ => ?_
  exact .pure (hcurrent.whole hlow first)

end

end Jpeg
end Unpackio
