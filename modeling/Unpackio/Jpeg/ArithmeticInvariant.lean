/-
The arithmetic decoder of WinZip JPEG stays inside its numbers: it fails only on
truncated input or where the code is below what its range needs.
-/
import Unpackio.Jpeg.Arithmetic

namespace Unpackio
namespace Jpeg

open Prog (Ends Yields FailsWith)
open Except (ok_bind)

theorem signed_of_mem {size : Nat} {value : Int} (hlow : -2 ^ (size - 1) ≤ value)
    (hhigh : value < 2 ^ (size - 1)) : signed size value = some value := if_pos ⟨hlow, hhigh⟩

theorem signed_gives {value : Int} (h : -2 ^ 31 ≤ value ∧ value < 2 ^ 31) (e : Error) :
    (okOr (signed 32 value) e).Gives (· = value) := by
  rw [signed_of_mem h.1 h.2]
  exact .ok rfl

theorem getElem_gives {α : Type} {list : List α} {index : Nat} (h : index < list.length)
    (e : Error) : (okOr list[index]? e).Gives (· ∈ list) := by
  rw [List.getElem?_eq_getElem h]
  exact .ok (List.getElem_mem h)

theorem vector_gives {α : Type} {size : Nat} {vector : Vector α size} {index : Nat}
    (h : index < size) (e : Error) : (okOr vector[index]? e).Gives fun _ => True := by
  rw [Vector.getElem?_eq_getElem h]
  exact .ok trivial

def CoderError (e : Error) : Prop :=
  e = formatError "truncated WinZip JPEG stream" ∨
    e = formatError "invalid WinZip JPEG arithmetic code state"

section

variable (tables : LogTables)

theorem wholeLog_gives {high : Nat} (hpos : high ≠ 0) :
    (wholeLog high).Gives fun whole => 0 ≤ whole ∧ whole ≤ 8 := by
  refine .ite (fun hlow => ?_) fun _ => .ok ⟨Int.le_refl 0, by decide⟩
  have hlog : Nat.log 2 high ≤ 8 :=
    Nat.le_of_lt_succ (Nat.log_lt_of_lt_pow hpos (Nat.lt_of_lt_of_eq hlow rfl))
  have hsub : checkedSub 31 (31 - Nat.log 2 high) = some (Nat.log 2 high) := by
    rw [checkedSub_of_le (Nat.sub_le _ _)]
    exact congrArg some (by omega)
  rw [hsub, okOr_bind]
  refine .bind (signed_gives (by omega) _) ?_
  rintro floorLog rfl
  exact (signed_gives (by omega) _).mono fun whole hwhole => by omega

theorem logX_gives (value : Nat) : (logX tables value).Gives fun _ => True := by
  refine .ite (fun _ => .ok trivial) fun hhigh => ?_
  refine .bind (wholeLog_gives hhigh) fun whole hwhole => ?_
  refine .bind (signed_gives (by omega) _) ?_
  rintro shift rfl
  have hindex : (if 0 ≤ 8 - whole then value >>> (8 - whole).toNat
      else Filter.wrappingShl value (8 - whole).natAbs) &&& 0xfff < 4096 :=
    Nat.lt_succ_of_le Nat.and_le_right
  refine .bind (vector_gives hindex _) fun fraction _ => ?_
  have hfraction := fraction.toNat_lt
  exact (signed_gives (by omega) _).mono fun _ _ => trivial

theorem antilogX_gives {lr : Int} (hlow : 0 ≤ lr) (hhigh : lr < 2 ^ 15) :
    (antilogX tables lr).Gives fun _ => True := by
  have hindex : (lr % 2 ^ 10).toNat < 1024 := by omega
  refine .bind (vector_gives hindex _) fun value _ => ?_
  refine .bind (signed_gives (by omega) _) ?_
  rintro shift rfl
  refine .ite (fun hshift => ?_) fun _ => .ok trivial
  rw [checkedShl, if_pos (by omega)]
  exact .ok trivial

end

/-- What every bin is between two bits. -/
structure Bin.Valid (bin : Bin) : Prop where
  index : bin.index ≤ 48
  near : 0 ≤ bin.dlrm
  far : bin.dlrm ≤ 21860
  mps : bin.mps ≤ 1
  k : bin.k ≤ 10

theorem Bin.adaptive_valid : Bin.adaptive.Valid := by constructor <;> decide

theorem Bin.fixed_valid : Bin.fixed.Valid := by constructor <;> decide

theorem logP_bounds : ∀ value ∈ logP, 0 ≤ value ∧ value ≤ 1024 := by decide

theorem logQp_bounds : ∀ value ∈ logQp, 0 ≤ value ∧ value ≤ 11689 := by decide

theorem nMaxLp_bounds : ∀ value ∈ nMaxLp, 0 ≤ value ∧ value ≤ 21860 := by decide

theorem tableI32_gives {table : List Int} (hlength : table.length = 49) {maximum : Int}
    (h : ∀ value ∈ table, 0 ≤ value ∧ value ≤ maximum) {index : Nat} (hindex : index ≤ 48) :
    (tableI32 table index).Gives fun value => 0 ≤ value ∧ value ≤ maximum :=
  (getElem_gives (by omega) _).mono h

namespace Bin

theorem skipAhead_gives {bin : Bin} {index : Nat} (hindex : index ≤ 47) :
    (bin.skipAhead index).Gives (· ≤ 47) := by
  have hhalf : ∀ index ≤ 47, ∃ half, halfI[index]? = some half ∧ index + half ≤ 47 := by
    intro index hle
    have hall : ∀ index < 48, ∃ half ∈ halfI[index]?, index + half ≤ 47 := by decide
    exact hall index (by omega)
  have hstep : ∀ index ≤ 47, (halfIndex index).Gives (· ≤ 47) := by
    intro index hle
    obtain ⟨half, hget, hsum⟩ := hhalf index hle
    rw [halfIndex, hget, okOr_bind, checkedAdd_of_lt (by omega)]
    exact .ok hsum
  refine .ite (fun _ => ?_) fun _ => .ok hindex
  refine .bind (hstep index hindex) fun next hnext => ?_
  exact .ite (fun _ => hstep next hnext) fun _ => .ok hnext

theorem qSmaller_gives {bin : Bin} (h : bin.index ≤ 48) :
    bin.qSmaller.Gives fun next => next.index ≤ 48 ∧ next.mps = bin.mps := by
  refine .ite (fun _ => .ok ⟨h, rfl⟩) fun hlow => ?_
  rw [checkedAdd_bind (by omega)]
  refine .bind (skipAhead_gives (by omega)) fun index hindex => ?_
  rw [rejectIf_of_not (by omega), ok_bind]
  exact .ok ⟨by show index ≤ 48; omega, rfl⟩

theorem decrementIndex_gives {index saved : Nat} (hindex : index ≤ 47) (hsaved : saved ≤ 1) :
    (decrementIndex index saved).Gives fun next => next.1 ≤ 47 ∧ next.2 ≤ saved + 1 := by
  refine .ite (fun hpos => ?_) fun _ => ?_
  · rw [checkedSub_of_le hpos, okOr_bind]
    exact .ok ⟨by show index - 1 ≤ 47; omega, Nat.le_succ _⟩
  · rw [checkedAdd_bind (by omega)]
    exact .ok ⟨hindex, Nat.le_refl _⟩

theorem doubleIndex_gives {index saved : Nat} (hindex : index ≤ 47) (hsaved : saved ≤ 1) :
    (doubleIndex index saved).Gives fun next => next.1 ≤ 47 ∧ next.2 ≤ saved + 1 := by
  have hall : ∀ index < 48, ∃ delta ∈ dblI[index]?, delta ≤ index := by decide
  obtain ⟨delta, hget, hdelta⟩ := hall index (by omega)
  rw [doubleIndex, Option.mem_def.mp hget, okOr_bind]
  refine .ite (fun _ => ?_) fun hzero => ?_
  · rw [checkedSub_of_le hdelta, okOr_bind]
    exact .ok ⟨by show index - delta ≤ 47; omega, Nat.le_succ _⟩
  · rw [checkedAdd_bind (by omega)]
    exact .ok ⟨hindex, by show saved + delta ≤ saved + 1; omega⟩

theorem stepIf_gives {condition : Prop} [Decidable condition]
    {step : Nat → Nat → Except Error (Nat × Nat)} {index : Nat}
    (hstep : (step index 0).Gives fun next => next.1 ≤ 47 ∧ next.2 ≤ 0 + 1) (hindex : index ≤ 47) :
    (stepIf condition step index 0).Gives fun next => next.1 ≤ 47 ∧ next.2 ≤ 1 :=
  .ite (fun _ => hstep) fun _ => .ok ⟨hindex, Nat.zero_le 1⟩

theorem enlarge_gives {maximum dlrm : Int} {index : Nat}
    (hmaximum : 0 ≤ maximum ∧ maximum ≤ 21860) (hdlrm : -1024 ≤ dlrm ∧ dlrm ≤ 21860)
    (hindex : index ≤ 47) :
    (enlarge maximum dlrm index).Gives fun result =>
      (-21860 ≤ result.1 ∧ result.1 ≤ 22884) ∧ result.2.1 ≤ 47 ∧ result.2.2 ≤ 2 := by
  refine .ite (fun _ => ?_) fun _ => ?_
  · refine .bind (signed_gives (by omega) _) ?_
    rintro distance rfl
    refine .bind (stepIf_gives (doubleIndex_gives hindex (Nat.zero_le 1)) hindex) ?_
    rintro ⟨next, saved⟩ ⟨hnext, hsaved⟩
    refine .bind (doubleIndex_gives hnext hsaved) ?_
    rintro ⟨last, saved'⟩ ⟨hlast, hsaved'⟩
    exact .ok ⟨⟨by show -21860 ≤ maximum - dlrm; omega, by show maximum - dlrm ≤ 22884; omega⟩,
      hlast, Nat.le_trans hsaved' (Nat.succ_le_succ hsaved)⟩
  · refine .bind (stepIf_gives (decrementIndex_gives hindex (Nat.zero_le 1)) hindex) ?_
    rintro ⟨next, saved⟩ ⟨hnext, hsaved⟩
    refine .bind (decrementIndex_gives hnext hsaved) ?_
    rintro ⟨last, saved'⟩ ⟨hlast, hsaved'⟩
    exact .ok ⟨⟨by show -21860 ≤ dlrm; omega, by show dlrm ≤ 22884; omega⟩,
      hlast, Nat.le_trans hsaved' (Nat.succ_le_succ hsaved)⟩

end Bin

/-! ## The decoder -/

/-- What the input is between two bytes. -/
structure Input.Valid (input : Input) : Prop where
  position : input.position ≤ input.bytes.length
  length : input.bytes.length < 2 ^ 64

theorem Input.readByte_ends {input : Input} (h : input.Valid) :
    Ends CoderError (fun result => result.2.Valid) input.readByte := by
  refine .request ?_
  cases hget : input.bytes[input.position]? with
  | none =>
    exact .lift (fun _ hok => nomatch hok) fun _ herror => .inl (Except.error.inj herror).symm
  | some value =>
    have hlow : input.position < input.bytes.length := (List.getElem?_eq_some_iff.mp hget).1
    have hlength := h.length
    refine .bind (.gives (.ok (rfl : value = value))) fun _ _ => ?_
    rw [checkedAdd_of_lt (by omega)]
    exact .pure ⟨hlow, hlength⟩

namespace ArithmeticDecoder

/-- What the decoder is between two bits. -/
structure Valid (decoder : ArithmeticDecoder) : Prop where
  input : decoder.input.Valid
  low : 0 ≤ decoder.lr
  high : decoder.lr ≤ 19880

/-- The range went down by a distance, and the model range with it. -/
structure Shifted (before : ArithmeticDecoder) (distance : Int) (after : ArithmeticDecoder) :
    Prop where
  input : after.input.Valid
  lr : after.lr = before.lr - distance
  lrm : after.lrm = before.lrm - distance

section

variable {decoder : ArithmeticDecoder}

theorem byteIn_ends (h : decoder.input.Valid) :
    Ends CoderError (fun result => decoder.Shifted 0 result.2) decoder.byteIn :=
  .bind (Input.readByte_ends h) fun _ hnext =>
    .pure ⟨hnext, (Int.sub_zero _).symm, (Int.sub_zero _).symm⟩

theorem carryIn_ends (h : decoder.input.Valid) :
    Ends CoderError (decoder.Shifted 0) decoder.carryIn := by
  refine .ite (fun _ => ?_) fun _ => .pure ⟨h, (Int.sub_zero _).symm, (Int.sub_zero _).symm⟩
  refine .bind (byteIn_ends h) ?_
  rintro ⟨byte, next⟩ ⟨hinput, hlr, hlrm⟩
  exact .pure ⟨hinput, hlr, hlrm⟩

/-- The range is far from where a signed number ends. -/
def Near (decoder : ArithmeticDecoder) : Prop :=
  (0 ≤ decoder.lr ∧ decoder.lr ≤ 2 ^ 20) ∧
    (-2 ^ 20 ≤ decoder.lrm - decoder.lr ∧ decoder.lrm - decoder.lr ≤ 2 ^ 20)

theorem shiftIn_ends (h : decoder.input.Valid) (hnear : decoder.Near) :
    Ends CoderError (decoder.Shifted 0x2000) decoder.shiftIn := by
  obtain ⟨hlr, hlrm⟩ := hnear
  refine .bind (carryIn_ends h) fun carried hcarried => ?_
  refine .bind (byteIn_ends hcarried.input) ?_
  rintro ⟨byte, next⟩ hnext
  have hcarriedLr := hcarried.lr
  have hcarriedLrm := hcarried.lrm
  refine .bind (.gives (signed_gives (by omega) _)) fun lr heqLr => ?_
  refine .bind (.gives (signed_gives (by omega) _)) fun lrm heqLrm => ?_
  exact .pure ⟨hnext.input, by show lr = _; omega, by show lrm = _; omega⟩

/-- The range is below the bound, and the model range as far from it as before. -/
structure Renewed (before after : ArithmeticDecoder) : Prop where
  input : after.input.Valid
  low : 0 ≤ after.lr
  high : after.lr ≤ 0x1fff
  distance : after.lrm - after.lr = before.lrm - before.lr

theorem shiftLoop_ends {rounds : Nat} (h : decoder.input.Valid) (hnear : decoder.Near)
    (hrounds : decoder.lr ≤ 0x1fff + 0x2000 * rounds) :
    Ends CoderError decoder.Renewed (shiftLoop rounds decoder) := by
  induction rounds generalizing decoder with
  | zero => exact .pure ⟨h, hnear.1.1, by omega, rfl⟩
  | succ rounds ih =>
    refine .ite (fun hlow => ?_) fun hhigh => .pure ⟨h, hnear.1.1, by omega, rfl⟩
    refine .bind (shiftIn_ends h hnear) fun next hnext => ?_
    have hlr := hnext.lr
    have hlrm := hnext.lrm
    obtain ⟨hbounds, hdistance⟩ := hnear
    have hnext' : next.Near := ⟨⟨by omega, by omega⟩, by omega, by omega⟩
    refine (ih hnext.input hnext' (by omega)).mono fun after hafter => ?_
    have heq := hafter.distance
    exact ⟨hafter.input, hafter.low, hafter.high, by omega⟩

end

section

variable (tables : LogTables) {decoder : ArithmeticDecoder}

theorem renormalize_ends (h : decoder.input.Valid) (hnear : decoder.Near) :
    Ends CoderError decoder.Renewed (decoder.renormalize tables) := by
  have hlow := hnear.1.1
  refine .bind (shiftLoop_ends h hnear (by omega)) fun next hnext => ?_
  refine .bind (.gives (logX_gives tables next.x)) fun lx _ => ?_
  exact .pure ⟨hnext.input, hnext.low, hnext.high, hnext.distance⟩

theorem lrmBig_ends (h : decoder.input.Valid) (hnear : decoder.Near)
    (hahead : decoder.lr ≤ decoder.lrm) :
    Ends CoderError decoder.Renewed (decoder.lrmBig tables) :=
  .ite (fun _ => renormalize_ends tables h hnear) fun hlow =>
    .pure ⟨h, hnear.1.1, by omega, rfl⟩

/-- What the two are when a bit is known. -/
structure Settled (bin : Bin) (decoder : ArithmeticDecoder) : Prop where
  index : bin.index ≤ 48
  mps : bin.mps ≤ 1
  k : bin.k ≤ 10
  valid : decoder.Valid
  near : decoder.lr ≤ decoder.lrm
  far : decoder.lrm - decoder.lr ≤ 21860

theorem updateMps_ends {bin : Bin} (h : decoder.Valid) (hindex : bin.index ≤ 48)
    (hmps : bin.mps ≤ 1) :
    Ends CoderError (fun result => Settled result.1 result.2) (decoder.updateMps tables bin) := by
  have hadapt : (adaptMps bin).Gives fun next => next.index ≤ 48 ∧ next.mps = bin.mps :=
    .ite (fun _ => Bin.qSmaller_gives hindex) fun _ => .ok ⟨hindex, rfl⟩
  obtain ⟨hinput, hlow, hhigh⟩ := h
  refine .bind (.gives hadapt) fun next ⟨hindex', hmps'⟩ => ?_
  refine .bind (.gives (tableI32_gives rfl nMaxLp_bounds hindex')) fun maximum hmaximum => ?_
  refine .bind (.gives (signed_gives (by omega) _)) ?_
  rintro lrm rfl
  have hnear : Near { decoder with lrm := decoder.lr + maximum } :=
    ⟨⟨hlow, by show decoder.lr ≤ 2 ^ 20; omega⟩,
      by show -2 ^ 20 ≤ decoder.lr + maximum - decoder.lr; omega,
      by show decoder.lr + maximum - decoder.lr ≤ 2 ^ 20; omega⟩
  have hahead : decoder.lr ≤ decoder.lr + maximum := by omega
  refine .bind (lrmBig_ends tables hinput hnear hahead) fun last hlast => ?_
  have hdistance : last.lrm - last.lr = decoder.lr + maximum - decoder.lr := hlast.distance
  have hlast' := hlast.high
  exact .pure ⟨hindex', hmps'.trans_le hmps, Nat.zero_le _,
    ⟨hlast.input, hlast.low, by show last.lr ≤ 19880; omega⟩,
    by show last.lr ≤ last.lrm; omega, by show last.lrm - last.lr ≤ 21860; omega⟩

end

section

variable {decoder : ArithmeticDecoder} {bin : Bin}

theorem xor_one_le {mps : Nat} (h : mps ≤ 1) : mps ^^^ 1 ≤ 1 := by
  obtain rfl | rfl : mps = 0 ∨ mps = 1 := by omega
  all_goals decide

/-- The distance before a bit: a step of the range may pass the model range. -/
def Apart (decoder : ArithmeticDecoder) : Prop :=
  -1024 ≤ decoder.lrm - decoder.lr ∧ decoder.lrm - decoder.lr ≤ 21860

theorem qBigger_gives (h : decoder.Valid) (hapart : decoder.Apart) (hindex : bin.index ≤ 48)
    (hmps : bin.mps ≤ 1) :
    (decoder.qBigger bin).Gives fun result =>
      result.1.Valid ∧ result.1.lr = decoder.lr ∧ result.2.index ≤ 48 ∧ result.2.mps ≤ 1 := by
  refine .ite (fun _ => .ok ⟨h, rfl, hindex, hmps⟩) fun hlow => ?_
  refine .bind (tableI32_gives rfl nMaxLp_bounds hindex) fun maximum hmaximum => ?_
  obtain ⟨hnear, hfar⟩ := hapart
  refine .bind (signed_gives (by omega) _) ?_
  rintro dlrm rfl
  refine .bind (Bin.enlarge_gives hmaximum ⟨hnear, hfar⟩ (by omega)) ?_
  rintro ⟨distance, index, saved⟩ ⟨hdistance, hindex', hsaved⟩
  obtain ⟨hinput, hpos, hbound⟩ := h
  dsimp only at hdistance hindex' hsaved ⊢
  generalize hnext : (if index = 0 then { bin with index := saved, mps := bin.mps ^^^ 1 }
    else { bin with index := index } : Bin) = next
  have hkind : next.index ≤ 47 ∧ next.mps ≤ 1 := by
    rw [← hnext]
    split
    · exact ⟨by show saved ≤ 47; omega, xor_one_le hmps⟩
    · exact ⟨hindex', hmps⟩
  rw [rejectIf_of_not (by omega), ok_bind]
  refine .bind (signed_gives (by omega) _) ?_
  rintro lrm rfl
  exact .ok ⟨⟨hinput, hpos, hbound⟩, rfl, by show next.index ≤ 48; omega, hkind.2⟩

theorem updateLps_gives (h : decoder.input.Valid) (hlr : 0 ≤ decoder.lr ∧ decoder.lr ≤ 0x1fff)
    (hapart : decoder.Apart) (hindex : bin.index ≤ 48) (hmps : bin.mps ≤ 1) (hk : bin.k ≤ 11) :
    (decoder.updateLps bin).Gives fun result => Settled result.1 result.2 := by
  obtain ⟨hnear, hfar⟩ := hapart
  refine .bind (tableI32_gives rfl logQp_bounds hindex) fun increment hincrement => ?_
  refine .bind (signed_gives (by omega) _) ?_
  rintro lr rfl
  refine .bind (signed_gives (by omega) _) ?_
  rintro lrm rfl
  have hvalid :
      Valid { decoder with lr := decoder.lr + increment, lrm := decoder.lrm + increment } :=
    ⟨h, by show 0 ≤ decoder.lr + increment; omega, by show decoder.lr + increment ≤ 19880; omega⟩
  refine .ite (fun _ => ?_) fun hfew => .ite (fun hbehind => ?_) fun hahead => ?_
  · have hapart' :
        Apart { decoder with lr := decoder.lr + increment, lrm := decoder.lrm + increment } :=
      ⟨by show -1024 ≤ decoder.lrm + increment - (decoder.lr + increment); omega,
        by show decoder.lrm + increment - (decoder.lr + increment) ≤ 21860; omega⟩
    refine .bind (qBigger_gives hvalid hapart' hindex hmps) ?_
    rintro ⟨next, bin'⟩ ⟨hnext, hlrNext, hindex', hmps'⟩
    refine .bind (tableI32_gives rfl nMaxLp_bounds hindex') fun maximum hmaximum => ?_
    have hlow := hnext.low
    have hhigh := hnext.high
    dsimp only at hlow hhigh
    refine .bind (signed_gives (by omega) _) ?_
    rintro lrm rfl
    exact .ok ⟨hindex', hmps', Nat.zero_le _, ⟨hnext.input, hlow, hhigh⟩,
      by show next.lr ≤ next.lr + maximum; omega,
      by show next.lr + maximum - next.lr ≤ 21860; omega⟩
  · have hk' : bin.k ≤ 10 := by omega
    refine .ok ⟨hindex, hmps, hk', ⟨h, hvalid.low, hvalid.high⟩, Int.le_refl _, ?_⟩
    show decoder.lr + increment - (decoder.lr + increment) ≤ 21860
    omega
  · have hk' : bin.k ≤ 10 := by omega
    refine .ok ⟨hindex, hmps, hk', hvalid, Int.not_lt.mp hahead, ?_⟩
    show decoder.lrm + increment - (decoder.lr + increment) ≤ 21860
    omega

end

section

variable (tables : LogTables) {decoder : ArithmeticDecoder} {bin : Bin}

theorem takeLps_ends (h : decoder.input.Valid) (hlr : 0 ≤ decoder.lr ∧ decoder.lr ≤ 0x1fff)
    (hapart : decoder.Apart) (hbin : bin.Valid) :
    Ends CoderError (fun result => Settled result.1 result.2)
      (liftM (decoder.takeLps tables bin) : Metered _) := by
  have hk := hbin.k
  rw [takeLps, tryFrom_of_lt (by omega), okOr_bind]
  obtain ⟨below, heq, -⟩ := antilogX_gives tables hlr.1 (by omega)
  rw [heq, ok_bind]
  cases hsub : checkedSub decoder.x below with
  | none =>
    exact .lift (fun _ hok => nomatch hok) fun _ herror => .inr (Except.error.inj herror).symm
  | some x =>
    rw [okOr_bind]
    refine .gives (.bind (logX_gives tables x) fun lx _ => ?_)
    exact updateLps_gives h hlr hapart hbin.index hbin.mps (Nat.succ_le_succ hk)

theorem exchange_ends (h : decoder.Valid) (hapart : decoder.Apart) (hbin : bin.Valid) :
    Ends CoderError (fun result => result.1 ≤ 1 ∧ Settled result.2.1 result.2.2)
      (decoder.exchange tables bin) := by
  refine .ite (fun _ => ?_) fun _ => ?_
  · exact .bind (updateMps_ends tables h hbin.index hbin.mps) fun _ hnext => .pure ⟨hbin.mps, hnext⟩
  obtain ⟨hnear, hfar⟩ := hapart
  obtain ⟨hinput, hlow, hhigh⟩ := h
  refine .bind (renormalize_ends tables hinput ⟨⟨hlow, by omega⟩, by omega, by omega⟩)
    fun next hnext => ?_
  have hdistance := hnext.distance
  have hnext' := hnext.high
  have hvalid : next.Valid := ⟨hnext.input, hnext.low, by omega⟩
  refine .ite (fun _ => .ite (fun _ => ?_) fun hahead => ?_) fun _ => ?_
  · exact .bind (updateMps_ends tables hvalid hbin.index hbin.mps) fun _ hlast =>
      .pure ⟨hbin.mps, hlast⟩
  · exact .pure ⟨hbin.mps, hbin.index, hbin.mps, hbin.k, hvalid,
      by show next.lr ≤ next.lrm; omega, by show next.lrm - next.lr ≤ 21860; omega⟩
  · have hapart' : next.Apart := ⟨by omega, by omega⟩
    exact .bind (takeLps_ends tables hnext.input ⟨hnext.low, hnext.high⟩ hapart' hbin)
      fun _ hlast => .pure ⟨xor_one_le hbin.mps, hlast⟩

theorem settle_ends (h : decoder.Valid) (hapart : decoder.Apart) (hbin : bin.Valid) :
    Ends CoderError (fun result => result.1 ≤ 1 ∧ Settled result.2.1 result.2.2)
      (decoder.settle tables bin) := by
  refine .ite (fun _ => exchange_ends tables h hapart hbin) fun hbelow => ?_
  have hahead : decoder.lr < decoder.lrm := by omega
  exact .pure ⟨hbin.mps, hbin.index, hbin.mps, hbin.k, h, Int.le_of_lt hahead, hapart.2⟩

theorem decodeBit_ends (h : decoder.Valid) (hbin : bin.Valid) :
    Ends CoderError (fun result => result.1 ≤ 1 ∧ result.2.1.Valid ∧ result.2.2.Valid)
      (decoder.decodeBit tables bin) := by
  obtain ⟨hinput, hlow, hhigh⟩ := h
  have hnear := hbin.near
  have hfar := hbin.far
  refine .request (.bind (.gives (signed_gives (by omega) _)) ?_)
  rintro lrm rfl
  have hstart : Near { decoder with lrm := decoder.lr + bin.dlrm } :=
    ⟨⟨hlow, by show decoder.lr ≤ 2 ^ 20; omega⟩,
      by show -2 ^ 20 ≤ decoder.lr + bin.dlrm - decoder.lr; omega,
      by show decoder.lr + bin.dlrm - decoder.lr ≤ 2 ^ 20; omega⟩
  have hahead : decoder.lr ≤ decoder.lr + bin.dlrm := by omega
  refine .bind (lrmBig_ends tables hinput hstart hahead) fun next hnext => ?_
  refine .bind (.gives (tableI32_gives rfl logP_bounds hbin.index)) fun step hstep => ?_
  have hlowNext := hnext.low
  have hhighNext := hnext.high
  have hdistance : next.lrm - next.lr = decoder.lr + bin.dlrm - decoder.lr := hnext.distance
  refine .bind (.gives (signed_gives (by omega) _)) ?_
  rintro lr rfl
  have hvalid : Valid { next with lr := next.lr + step } :=
    ⟨hnext.input, by show 0 ≤ next.lr + step; omega, by show next.lr + step ≤ 19880; omega⟩
  have hapart : Apart { next with lr := next.lr + step } :=
    ⟨by show -1024 ≤ next.lrm - (next.lr + step); omega,
      by show next.lrm - (next.lr + step) ≤ 21860; omega⟩
  refine .bind (settle_ends tables hvalid hapart hbin) ?_
  rintro ⟨bit, bin', last⟩ ⟨hbit, hsettled⟩
  have hlast := hsettled.near
  have hlast' := hsettled.far
  dsimp only at hlast hlast'
  refine .bind (.gives (signed_gives (by omega) _)) ?_
  rintro dlrm rfl
  exact .pure ⟨hbit, ⟨hsettled.index, by show 0 ≤ last.lrm - last.lr; omega, hlast', hsettled.mps,
    hsettled.k⟩, hsettled.valid⟩

theorem new_ends {input : Input} (h : input.Valid) :
    Ends CoderError Valid (ArithmeticDecoder.new tables input) := by
  refine .bind (byteIn_ends h) ?_
  rintro ⟨first, decoder⟩ ⟨hinput, hlr, -⟩
  refine .bind (byteIn_ends hinput) ?_
  rintro ⟨second, next⟩ ⟨hinput', hlr', -⟩
  refine .bind (.gives (logX_gives tables _)) fun lx _ => ?_
  have hstart : next.lr = 0x1001 := by
    rw [hlr', Int.sub_zero, hlr, Int.sub_zero]
  have hvalid : ∀ lx x, Valid { next with x := x, lx := lx } := fun lx x =>
    ⟨hinput', by show 0 ≤ next.lr; omega, by show next.lr ≤ 19880; omega⟩
  refine .ite (fun _ => ?_) fun _ => .pure (hvalid _ _)
  refine .bind (byteIn_ends (hvalid _ _).input) ?_
  rintro ⟨third, last⟩ ⟨hinput'', hlr'', -⟩
  have hlast : last.lr = next.lr - 0 := hlr''
  exact .pure ⟨hinput'', by show 0 ≤ last.lr; omega, by show last.lr ≤ 19880; omega⟩

end

end ArithmeticDecoder

/-! ## Runs -/

/-- A bin stays adaptive, or it stays the fixed one. -/
structure Bin.Alike (bin next : Bin) : Prop where
  adaptive : bin.index ≤ 47 → next.index ≤ 47
  fixed : bin.index = 48 → next.index = 48

theorem Bin.Alike.of_eq {bin next : Bin} (h : next.index = bin.index) : bin.Alike next :=
  ⟨fun hle => h.trans_le hle, fun heq => h.trans heq⟩

theorem Bin.qSmaller_alike (bin : Bin) : bin.qSmaller.Ensures bin.Alike := by
  refine .ite (fun _ => .pure (.of_eq rfl)) fun hlow => ?_
  refine .skip fun _ => .skip fun index => ?_
  refine .bind (.self _) fun _ hok => ?_
  have hindex : index ≤ 47 := Nat.not_lt.mp (rejectIf_eq_ok.mp hok)
  exact .pure ⟨fun _ => hindex, fun heq => by omega⟩

namespace ArithmeticDecoder

theorem qBigger_alike (decoder : ArithmeticDecoder) (bin : Bin) :
    (decoder.qBigger bin).Ensures fun result => bin.Alike result.2 := by
  refine .ite (fun _ => .pure (.of_eq rfl)) fun hlow => ?_
  refine .skip fun _ => .skip fun _ => .skip fun ⟨distance, index, saved⟩ => ?_
  dsimp only
  generalize (if index = 0 then { bin with index := saved, mps := bin.mps ^^^ 1 }
    else { bin with index := index } : Bin) = next
  refine .bind (.self _) fun _ hok => ?_
  have hindex : next.index ≤ 47 := Nat.le_of_lt_succ (Nat.not_le.mp (rejectIf_eq_ok.mp hok))
  exact .skip fun _ => .pure ⟨fun _ => hindex, fun heq => by omega⟩

theorem updateLps_alike (decoder : ArithmeticDecoder) (bin : Bin) :
    (decoder.updateLps bin).Ensures fun result => bin.Alike result.1 := by
  refine .skip fun _ => .skip fun _ => .skip fun _ => ?_
  refine .ite (fun _ => ?_) fun _ => .ite (fun _ => .pure (.of_eq rfl)) fun _ => .pure (.of_eq rfl)
  refine .bind (qBigger_alike _ bin) fun ⟨_, next⟩ hnext => ?_
  exact .skip fun _ => .skip fun _ => .pure ⟨hnext.adaptive, hnext.fixed⟩

section

variable (tables : LogTables) (decoder : ArithmeticDecoder) (bin : Bin)

theorem takeLps_alike : (decoder.takeLps tables bin).Ensures fun result => bin.Alike result.1 := by
  refine .skip fun k => .skip fun _ => .skip fun x => .skip fun lx => ?_
  exact (updateLps_alike _ _).mono fun _ hnext => ⟨hnext.adaptive, hnext.fixed⟩

theorem updateMps_alike :
    Yields (fun _ => True) (fun result => bin.Alike result.1) (decoder.updateMps tables bin) := by
  have hadapt : (adaptMps bin).Ensures bin.Alike :=
    .ite (fun _ => Bin.qSmaller_alike bin) fun _ => .pure (.of_eq rfl)
  refine .bind (.lift hadapt fun _ _ => trivial) fun next hnext => ?_
  exact .skip fun _ => .skip fun _ => .skip fun _ => .pure ⟨hnext.adaptive, hnext.fixed⟩

theorem exchange_alike :
    Yields (fun _ => True) (fun result => bin.Alike result.2.1)
      (decoder.exchange tables bin) := by
  refine .ite (fun _ => ?_) fun _ => .skip fun renewed => ?_
  · exact .bind (updateMps_alike tables decoder bin) fun _ hnext => .pure hnext
  refine .ite (fun _ => .ite (fun _ => ?_) fun _ => .pure (.of_eq rfl)) fun _ => ?_
  · exact .bind (updateMps_alike tables renewed bin) fun _ hnext => .pure hnext
  · exact .bind (.lift (takeLps_alike tables renewed bin) fun _ _ => trivial) fun _ hnext =>
      .pure hnext

theorem decodeBit_alike :
    Yields (fun _ => True) (fun result => bin.Alike result.2.1)
      (decoder.decodeBit tables bin) := by
  refine .skip fun _ => .skip fun _ => .skip fun next => .skip fun _ => .skip fun lr => ?_
  have hsettle : Yields (fun _ => True) (fun result => bin.Alike result.2.1)
      (settle tables { next with lr := lr } bin) :=
    .ite (fun _ => exchange_alike tables _ bin) fun _ => .pure (.of_eq rfl)
  refine .bind hsettle fun _ hlast => ?_
  exact .skip fun _ => .pure ⟨hlast.adaptive, hlast.fixed⟩

end

end ArithmeticDecoder

section

variable {ι : Type} [DecidableEq ι]

def Bin.initial (fixed : Bool) : Bin := if fixed then .fixed else .adaptive

/-- The states of a decoder and its bins between two bits.  A slice starts a new decoder
and keeps its bins or sets them back. -/
inductive Reached (tables : LogTables) (fixed : ι → Bool) : ArithmeticDecoder → (ι → Bin) → Prop
  | start {input : Input} {decoder : ArithmeticDecoder} : input.Valid →
      (ArithmeticDecoder.new tables input).CanReturn decoder →
      Reached tables fixed decoder fun i => .initial (fixed i)
  | renew {decoder next : ArithmeticDecoder} {bins : ι → Bin} {input : Input} :
      Reached tables fixed decoder bins → input.Valid →
      (ArithmeticDecoder.new tables input).CanReturn next → Reached tables fixed next bins
  | reset {decoder : ArithmeticDecoder} {bins : ι → Bin} (i : ι) :
      Reached tables fixed decoder bins →
      Reached tables fixed decoder (Function.update bins i (.initial (fixed i)))
  | decode {decoder next : ArithmeticDecoder} {bins : ι → Bin} {i : ι} {bit : Nat} {bin : Bin} :
      Reached tables fixed decoder bins →
      (decoder.decodeBit tables (bins i)).CanReturn (bit, bin, next) →
      Reached tables fixed next (Function.update bins i bin)

/-- What a bin of either kind is between two bits. -/
structure Bin.Sound (fixed : Bool) (bin : Bin) : Prop where
  valid : bin.Valid
  adaptive_index : fixed = false → bin.index ≤ 47
  fixed_index : fixed = true → bin.index = 48

theorem Bin.initial_sound (fixed : Bool) : (initial fixed).Sound fixed := by
  cases fixed with
  | false => exact ⟨Bin.adaptive_valid, fun _ => by decide, fun h => nomatch h⟩
  | true => exact ⟨Bin.fixed_valid, (fun h => nomatch h), fun _ => rfl⟩

theorem Bin.Sound.next {fixed : Bool} {bin next : Bin} (h : bin.Sound fixed) (hvalid : next.Valid)
    (halike : bin.Alike next) : next.Sound fixed :=
  ⟨hvalid, fun hfixed => halike.adaptive (h.adaptive_index hfixed), fun hfixed =>
    halike.fixed (h.fixed_index hfixed)⟩

theorem forall_update {P : ι → Bin → Prop} {bins : ι → Bin} (h : ∀ j, P j (bins j)) {i : ι}
    {bin : Bin} (hbin : P i bin) (j : ι) : P j (Function.update bins i bin j) := by
  by_cases heq : j = i
  · subst heq
    rwa [Function.update_self]
  · rw [Function.update_of_ne heq]
    exact h j

variable {tables : LogTables} {fixed : ι → Bool} {decoder : ArithmeticDecoder} {bins : ι → Bin}

theorem reached_sound (h : Reached tables fixed decoder bins) :
    decoder.Valid ∧ ∀ i, (bins i).Sound (fixed i) := by
  have hnew : ∀ {input : Input} {decoder : ArithmeticDecoder}, input.Valid →
      (ArithmeticDecoder.new tables input).CanReturn decoder → decoder.Valid := by
    intro input decoder hinput hrun
    have hends := ArithmeticDecoder.new_ends tables hinput
    exact hends.yields.1 _ (hends.passes.granted_of_canReturn hrun)
  induction h with
  | start hinput hrun => exact ⟨hnew hinput hrun, fun i => Bin.initial_sound (fixed i)⟩
  | renew _ hinput hrun ih => exact ⟨hnew hinput hrun, ih.2⟩
  | reset i _ ih => exact ⟨ih.1, forall_update ih.2 (Bin.initial_sound (fixed i))⟩
  | @decode decoder next bins i bit bin _ hrun ih =>
    have hends := ArithmeticDecoder.decodeBit_ends tables ih.1 (ih.2 i).valid
    have hgranted := hends.passes.granted_of_canReturn hrun
    obtain ⟨-, hbin, hnext⟩ := hends.yields.1 _ hgranted
    have halike := (ArithmeticDecoder.decodeBit_alike tables decoder (bins i)).1 _ hgranted
    exact ⟨hnext, forall_update ih.2 ((ih.2 i).next hbin halike)⟩

/-- Whatever bits were decoded with whichever bins, an adaptive bin has an adaptive index and
the fixed bin its own, and the next bit fails only where the input ends or the code is below
what its range needs. -/
theorem reached_bins (h : Reached tables fixed decoder bins) (i : ι) :
    (fixed i = false → (bins i).index ≤ 47) ∧ (fixed i = true → (bins i).index = 48) ∧
      (bins i).k ≤ 11 ∧ FailsWith CoderError (decoder.decodeBit tables (bins i)) := by
  obtain ⟨hdecoder, hbins⟩ := reached_sound h
  have hends := ArithmeticDecoder.decodeBit_ends tables hdecoder (hbins i).valid
  exact ⟨(hbins i).adaptive_index, (hbins i).fixed_index, (hbins i).valid.k.trans (by decide),
    hends.yields.failsWith hends.passes⟩

end

/-- A bit of an adaptive bin, beside the fixed one. -/
theorem reached_bins_first :
    ∃ (decoder : ArithmeticDecoder) (bins : Bool → Bin),
      Reached ⟨Vector.replicate 1024 0, Vector.replicate 4096 0⟩ (fun i => i) decoder bins ∧
        (bins false).index ≤ 47 ∧ (bins true).index = 48 := by
  have hstart := @Reached.start Bool _ ⟨Vector.replicate 1024 0, Vector.replicate 4096 0⟩
    (fun i => i) ⟨[0, 0], 0⟩ _ ⟨by decide, by decide⟩ (.of_granted rfl)
  have hdecode := hstart.decode (i := false) (.of_granted rfl)
  exact ⟨_, _, hdecode, (reached_bins hdecode false).1 rfl, (reached_bins hdecode true).2.1 rfl⟩

end Jpeg
end Unpackio
