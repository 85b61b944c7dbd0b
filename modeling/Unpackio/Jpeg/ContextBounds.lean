/-
The contexts of WinZip JPEG coefficients stay inside the tables, whatever the
blocks beside hold.
-/
import Unpackio.Jpeg.Contexts
import Unpackio.Jpeg.ArithmeticInvariant

namespace Unpackio
namespace Jpeg

open Except (ok_bind)

def Within (bound value : Int) : Prop := -bound ≤ value ∧ value ≤ bound

variable {value a x y : Int} {coordinates dimensions : List Nat} {component context : Nat}

theorem Within.mono {bound larger : Int} (h : Within bound value) (hle : bound ≤ larger) :
    Within larger value := ⟨by have := h.1; omega, by have := h.2; omega⟩

theorem Within.add {b : Int} (hx : Within a x) (hy : Within b y) : Within (a + b) (x + y) :=
  ⟨by have := hx.1; have := hy.1; omega, by have := hx.2; have := hy.2; omega⟩

theorem Within.sub {b : Int} (hx : Within a x) (hy : Within b y) : Within (a + b) (x - y) :=
  ⟨by have := hx.1; have := hy.2; omega, by have := hx.2; have := hy.1; omega⟩

theorem Within.natAbs (hx : Within a x) : 0 ≤ (x.natAbs : Int) ∧ (x.natAbs : Int) ≤ a :=
  ⟨by omega, by have := hx.1; have := hx.2; omega⟩

theorem within_iff : Within a x ↔ (x.natAbs : Int) ≤ a :=
  ⟨fun h => h.natAbs.2, fun h => ⟨by omega, by omega⟩⟩

theorem Within.mul {b : Int} (hx : Within a x) (hy : Within b y) : Within (a * b) (x * y) := by
  rw [within_iff] at *
  rw [Int.natAbs_mul, Int.natCast_mul]
  exact Int.mul_le_mul hx hy (by omega) (by omega)

theorem Within.tdiv (hx : Within a x) (y : Int) : Within a (x.tdiv y) := by
  rw [within_iff] at *
  have hle : (x.tdiv y).natAbs ≤ x.natAbs := Int.natAbs_tdiv_le_natAbs x y
  omega

theorem signed64_gives {bound : Int} (h : Within bound value) (hbound : bound < 2 ^ 63)
    (e : Error) :
    (okOr (signed 64 value) e).Gives (· = value) := by
  have hlow := h.1
  have hhigh := h.2
  rw [signed_of_mem (by show -2 ^ 63 ≤ value; omega) (by show value < 2 ^ 63; omega)]
  exact .ok rfl

theorem coordinateStep_gives {index bound : Nat} {axis : Nat × Nat} (hindex : index < bound)
    (haxis : axis.1 < axis.2) (hsize : bound * axis.2 ≤ 2 ^ 63) :
    (coordinateStep index axis).Gives (· < bound * axis.2) := by
  have hnext : index * axis.2 + axis.1 < bound * axis.2 := by
    calc index * axis.2 + axis.1 < index * axis.2 + axis.2 := Nat.add_lt_add_left haxis _
      _ = (index + 1) * axis.2 := (Nat.succ_mul index axis.2).symm
      _ ≤ bound * axis.2 := Nat.mul_le_mul_right _ hindex
  have hmul : checkedMul index axis.2 = some (index * axis.2) := if_pos (by omega)
  rw [coordinateStep, rejectIf_of_not (by omega), ok_bind, hmul, Option.bind_some,
    checkedAdd_of_lt (by omega)]
  exact .ok hnext

def Inside : List Nat → List Nat → Prop
  | [], [] => True
  | coordinate :: coordinates, dimension :: dimensions =>
    coordinate < dimension ∧ Inside coordinates dimensions
  | _, _ => False

theorem Inside.length_eq (h : Inside coordinates dimensions) :
    coordinates.length = dimensions.length := by
  induction coordinates generalizing dimensions with
  | nil =>
    cases dimensions with
    | nil => rfl
    | cons => exact h.elim
  | cons coordinate coordinates ih =>
    cases dimensions with
    | nil => exact h.elim
    | cons dimension dimensions => exact congrArg Nat.succ (ih h.2)

theorem Inside.prod_pos (h : Inside coordinates dimensions) : 0 < dimensions.prod := by
  induction coordinates generalizing dimensions with
  | nil =>
    cases dimensions with
    | nil => exact Nat.one_pos
    | cons => exact h.elim
  | cons coordinate coordinates ih =>
    cases dimensions with
    | nil => exact h.elim
    | cons dimension dimensions =>
      rw [List.prod_cons]
      exact Nat.mul_pos (Nat.zero_lt_of_lt h.1) (ih h.2)

theorem coordinates_gives {index bound : Nat} (h : Inside coordinates dimensions)
    (hindex : index < bound) (hsize : bound * dimensions.prod ≤ 2 ^ 63) :
    ((coordinates.zip dimensions).foldlM coordinateStep index).Gives
      (· < bound * dimensions.prod) := by
  induction coordinates generalizing dimensions index bound with
  | nil =>
    cases dimensions with
    | nil => exact .pure (by rw [List.prod_nil, Nat.mul_one]; exact hindex)
    | cons => exact h.elim
  | cons coordinate coordinates ih =>
    cases dimensions with
    | nil => exact h.elim
    | cons dimension dimensions =>
      rw [List.prod_cons, ← Nat.mul_assoc] at hsize ⊢
      rw [List.zip_cons_cons, List.foldlM_cons]
      have hstep : bound * dimension ≤ 2 ^ 63 :=
        Nat.le_trans (Nat.le_mul_of_pos_right _ h.2.prod_pos) hsize
      exact .bind (coordinateStep_gives hindex h.1 hstep) fun next hnext => ih h.2 hnext hsize

theorem modelIndex_gives {offset : Nat} (h : Inside coordinates dimensions)
    (hsize : offset + dimensions.prod ≤ modelCount) :
    (modelIndex offset coordinates dimensions).Gives (· < modelCount) := by
  have hcount : modelCount = 28328 := rfl
  rw [modelIndex, rejectIf_of_not (fun hne => hne h.length_eq), ok_bind]
  refine .bind (coordinates_gives h Nat.one_pos (by omega)) fun index hindex => ?_
  rw [Nat.one_mul] at hindex
  have hlt : offset + index < modelCount := by omega
  rw [checkedAdd_of_lt (by omega), Option.filter_some, if_pos (decide_eq_true hlt)]
  exact .ok hlt

section

variable (hcomponent : component < 4)
include hcomponent

theorem eobIndex_gives {node : Nat} (hcontext : context < 13) (hnode : node < 63) :
    (eobIndex component context node).Gives (· < modelCount) :=
  modelIndex_gives ⟨hcomponent, hcontext, hnode, trivial⟩ (by decide)

theorem zeroIndex_gives {coefficient first second : Nat} (hcoefficient : coefficient < 62)
    (hfirst : first < 3) (hsecond : second < 6) :
    (zeroIndex component coefficient first second).Gives (· < modelCount) :=
  modelIndex_gives ⟨hcomponent, hcoefficient, hfirst, hsecond, trivial⟩ (by decide)

theorem pivotIndex_gives {coefficient first second : Nat} (hcoefficient : coefficient < 63)
    (hfirst : first < 5) (hsecond : second < 7) :
    (pivotIndex component coefficient first second).Gives (· < modelCount) :=
  modelIndex_gives ⟨hcomponent, hcoefficient, hfirst, hsecond, trivial⟩ (by decide)

theorem acMagnitudeIndex_gives {kind first second : Nat} (hkind : kind < 3) (hfirst : first < 9)
    (hsecond : second < 9) (hcontext : context < 9) :
    (acMagnitudeIndex component kind first second context).Gives (· < modelCount) :=
  modelIndex_gives ⟨hcomponent, hkind, hfirst, hsecond, hcontext, trivial⟩ (by decide)

theorem acRemainderIndex_gives {kind position bit : Nat} (hkind : kind < 3)
    (hposition : position < 7) (hbit : bit < 13) :
    (acRemainderIndex component kind position bit).Gives (· < modelCount) :=
  modelIndex_gives ⟨hcomponent, hkind, hposition, hbit, trivial⟩ (by decide)

theorem acSignIndex_gives {magnitude sign : Nat} (hcontext : context < 27)
    (hmagnitude : magnitude < 3) (hsign : sign < 2) :
    (acSignIndex component context magnitude sign).Gives (· < modelCount) :=
  modelIndex_gives ⟨hcomponent, hcontext, hmagnitude, hsign, trivial⟩ (by decide)

theorem dcMagnitudeIndex_gives {valueContext : Nat} (hvalue : valueContext < 13)
    (hcontext : context < 10) :
    (dcMagnitudeIndex component valueContext context).Gives (· < modelCount) :=
  modelIndex_gives ⟨hcomponent, hvalue, hcontext, trivial⟩ (by decide)

theorem dcRemainderIndex_gives {valueContext bit : Nat} (hvalue : valueContext < 13)
    (hbit : bit < 14) : (dcRemainderIndex component valueContext bit).Gives (· < modelCount) :=
  modelIndex_gives ⟨hcomponent, hvalue, hbit, trivial⟩ (by decide)

theorem dcSignIndex_gives {north west predicted : Nat} (hnorth : north < 2) (hwest : west < 2)
    (hpredicted : predicted < 2) :
    (dcSignIndex component north west predicted).Gives (· < modelCount) :=
  modelIndex_gives ⟨hcomponent, hnorth, hwest, hpredicted, trivial⟩ (by decide)

end

theorem rows_bound : ∀ row ∈ rows, row ≤ 7 := by decide

theorem columns_bound : ∀ column ∈ columns, column ≤ 7 := by decide

theorem rowOf_gives {index : Nat} (h : index < 64) : (rowOf index).Gives (· ≤ 7) :=
  (getElem_gives h _).mono rows_bound

theorem columnOf_gives {index : Nat} (h : index < 64) : (columnOf index).Gives (· ≤ 7) :=
  (getElem_gives h _).mono columns_bound

theorem zigzag_bound : ∀ values ∈ zigzag, values.length = 8 ∧ ∀ value ∈ values, value < 64 := by
  decide

theorem zigzagAt_gives {row column : Nat} (hrow : row ≤ 7) (hcolumn : column ≤ 7) :
    (zigzagAt row column).Gives (· < 64) := by
  have hlow : row < zigzag.length := Nat.lt_succ_of_le hrow
  obtain ⟨hlength, hbound⟩ := zigzag_bound zigzag[row] (List.getElem_mem hlow)
  rw [zigzagAt, List.getElem?_eq_getElem hlow, Option.bind_some]
  exact (getElem_gives (by omega) _).mono hbound

theorem first_of_corner {index row column : Nat} (hpos : 0 < index) (hindex : index < 64)
    (hrow : rowOf index = .ok row) (hcolumn : columnOf index = .ok column) :
    row ≠ 0 ∨ column ≠ 0 := by
  have hall : ∀ index < 64, 0 < index → rows[index]? = some 0 → columns[index]? ≠ some 0 := by
    decide
  by_contra hcorner
  obtain ⟨rfl, rfl⟩ : row = 0 ∧ column = 0 := by omega
  exact hall index hindex hpos (okOr_eq_ok.mp hrow) (okOr_eq_ok.mp hcolumn)

theorem inside_le {index row column : Nat} (hindex : index < 64) (hrow : rowOf index = .ok row)
    (hcolumn : columnOf index = .ok column) (hrow' : row ≠ 0) (hcolumn' : column ≠ 0) :
    4 ≤ index := by
  have hall : ∀ index < 4, rows[index]? = some 0 ∨ columns[index]? = some 0 := by decide
  by_contra hlow
  obtain h | h := hall index (by omega)
  · rw [okOr_eq_ok.mp hrow] at h
    exact hrow' (Option.some.inj h)
  · rw [okOr_eq_ok.mp hcolumn] at h
    exact hcolumn' (Option.some.inj h)

section

variable {index row column : Nat} (hrow : rowOf index = .ok row)
  (hcolumn : columnOf index = .ok column)

include hrow hcolumn

section

variable (hrowLe : row ≤ 7) (hcolumnLe : column ≤ 7)
include hrowLe hcolumnLe

theorem leftOf_gives (hpos : column ≠ 0) : (leftOf index).Gives (· < 64) := by
  rw [leftOf, hcolumn, hrow, ok_bind, ok_bind, checkedSub_of_le (by omega)]
  exact zigzagAt_gives hrowLe (by omega)

theorem upOf_gives (hpos : row ≠ 0) : (upOf index).Gives (· < 64) := by
  rw [upOf, hcolumn, hrow, ok_bind, checkedSub_of_le (by omega)]
  exact zigzagAt_gives (by omega) hcolumnLe

theorem upLeftOf_gives (hup : row ≠ 0) (hleft : column ≠ 0) : (upLeftOf index).Gives (· < 64) := by
  rw [upLeftOf, hcolumn, hrow, ok_bind, ok_bind, checkedSub_of_le (by omega),
    checkedSub_of_le (by omega)]
  exact zigzagAt_gives (by omega) (by omega)

end

theorem rightOf_gives (hrowLe : row ≤ 7) (hedge : column = 0) :
    (rightOf index).Gives (· < 64) := by
  rw [rightOf, hcolumn, hrow, ok_bind, ok_bind, checkedAdd_of_lt (by omega)]
  exact zigzagAt_gives hrowLe (by omega)

theorem downOf_gives (hcolumnLe : column ≤ 7) (hedge : row = 0) :
    (downOf index).Gives (· < 64) := by
  rw [downOf, hcolumn, hrow, ok_bind, checkedAdd_of_lt (by omega)]
  exact zigzagAt_gives (by omega) hcolumnLe

end

/-! ## Coefficients -/

theorem Block.coefficient_gives (block : Block) {index : Nat} (h : index < 64) :
    (block.coefficient index).Gives (Within 32768) := by
  refine .bind (vector_gives h _) fun value _ => .pure ?_
  have hlow := value.le_toInt
  have hhigh := value.toInt_lt
  exact ⟨by omega, by omega⟩

def UpTo (bound value : Int) : Prop := 0 ≤ value ∧ value ≤ bound

theorem UpTo.within {bound : Int} (h : UpTo bound value) : Within bound value :=
  ⟨by have := h.1; have := h.2; omega, h.2⟩

theorem UpTo.add {b : Int} (hx : UpTo a x) (hy : UpTo b y) : UpTo (a + b) (x + y) :=
  ⟨Int.add_nonneg hx.1 hy.1, Int.add_le_add hx.2 hy.2⟩

theorem UpTo.mul {b : Int} (hx : UpTo a x) (hy : UpTo b y) : UpTo (a * b) (x * y) :=
  ⟨Int.mul_nonneg hx.1 hy.1, (hx.within.mul hy.within).2⟩

theorem UpTo.tdiv (hx : UpTo a x) (hy : 0 ≤ y) : UpTo a (x.tdiv y) :=
  ⟨Int.tdiv_nonneg hx.1 hy, (hx.within.tdiv y).2⟩

theorem Block.absoluteCoefficient_gives (block : Block) {index : Nat} (h : index < 64) :
    (block.absoluteCoefficient index).Gives (UpTo 32768) := by
  refine .bind (block.coefficient_gives h) fun value hvalue => ?_
  have habs : UpTo 32768 value.natAbs := hvalue.natAbs
  refine (signed64_gives habs.within (by decide) _).mono ?_
  rintro magnitude rfl
  exact habs

def SumOf (count : Nat) (sum : Int) : Prop := UpTo (count * 32768) sum

theorem Block.sumStep_gives (block : Block) {coefficientIndex row column index count : Nat}
    {sum : Int} (h : index < 64) (hcount : count < 64) (hsum : SumOf count sum) :
    (block.sumStep coefficientIndex row column sum index).Gives (SumOf (count + 1)) := by
  have hsize : ((count + 1 : Nat) : Int) * 32768 = count * 32768 + 32768 := by omega
  refine .bind (rowOf_gives h) fun _ _ => .bind (columnOf_gives h) fun _ _ => ?_
  refine .ite (fun _ => ?_) fun _ => .pure ⟨hsum.1, by have := hsum.2; omega⟩
  refine .bind (block.absoluteCoefficient_gives h) fun magnitude hmagnitude => ?_
  have hnext : UpTo (count * 32768 + 32768) (sum + magnitude) := hsum.add hmagnitude
  refine (signed64_gives hnext.within (by omega) _).mono ?_
  rintro next rfl
  rw [SumOf, hsize]
  exact hnext

theorem Block.sumFrom_gives (block : Block) {index : Nat} (h : index < 64) :
    (block.sumFrom index).Gives (UpTo (2 ^ 21)) := by
  refine .bind (rowOf_gives h) fun row _ => .bind (columnOf_gives h) fun column _ => ?_
  have hfold : ((List.range 64).foldlM (block.sumStep index row column) 0).Gives (SumOf 64) := by
    refine .foldlM (Nat.zero_add _) (fun other hother count hcount sum hsum => ?_)
      ⟨Int.le_refl 0, Int.le_refl 0⟩
    exact block.sumStep_gives (List.mem_range.mp hother) hcount hsum
  exact hfold

/-- A table that `parse_dqt` accepts. -/
def QuantTable.NonZero (quant : QuantTable) : Prop := ∀ value ∈ quant, value ≠ 0

variable {quant : QuantTable} (hquant : quant.NonZero)

include hquant

theorem quantValue_gives {index : Nat} (h : index < 64) :
    (quantValue quant index).Gives fun value => 0 < value ∧ value ≤ 65535 := by
  rw [quantValue, Vector.getElem?_eq_getElem h, okOr_bind]
  have hne : quant[index] ≠ 0 := hquant _ (Vector.getElem_mem h)
  have hpos : quant[index].toNat ≠ 0 := fun hzero => hne (UInt16.toNat_inj.mp hzero)
  have hlt := quant[index].toNat_lt
  rw [rejectIf_of_not hne, ok_bind]
  exact .pure ⟨by omega, by omega⟩

theorem scaleNeighbours_gives (north west : Block) {index target : Nat} (hindex : index < 64)
    (htarget : target < 64) :
    (scaleNeighbours north west index target quant).Gives (UpTo (2 ^ 32)) := by
  refine .bind (north.absoluteCoefficient_gives hindex) fun northMagnitude hnorth => ?_
  refine .bind (west.absoluteCoefficient_gives hindex) fun westMagnitude hwest => ?_
  have hsum := hnorth.add hwest
  refine .bind (signed64_gives hsum.within (by decide) _) ?_
  rintro magnitude rfl
  refine .bind (quantValue_gives hquant hindex) fun step hstep => ?_
  have hproduct := hsum.mul ⟨Int.le_of_lt hstep.1, hstep.2⟩
  refine .bind (signed64_gives hproduct.within (by decide) _) ?_
  rintro numerator rfl
  refine .bind (quantValue_gives hquant htarget) fun divisor hdivisor => ?_
  have hresult := hproduct.tdiv (Int.le_of_lt hdivisor.1)
  exact .pure ⟨hresult.1, Int.le_trans hresult.2 (by decide)⟩

omit hquant in
theorem averageNeighbours_gives {index : Nat} (h : index < 64) (hpast : 2 < index) :
    (averageNeighbours index).Gives fun result =>
      (result.1.length ≤ 3 ∧ ∀ neighbour ∈ result.1, neighbour < 64) ∧ UpTo 8 result.2 := by
  obtain ⟨row, hrow, hrowLe⟩ := rowOf_gives h
  obtain ⟨column, hcolumn, hcolumnLe⟩ := columnOf_gives h
  have hcorner := first_of_corner (by omega) h hrow hcolumn
  have hfour : UpTo 8 4 := ⟨by decide, by decide⟩
  have hsix : UpTo 8 6 := ⟨by decide, by decide⟩
  have height : UpTo 8 8 := ⟨by decide, by decide⟩
  rw [averageNeighbours, hrow, hcolumn, ok_bind, ok_bind]
  refine .ite (fun hedge => ?_) fun hrow' => .ite (fun hedge => ?_) fun hcolumn' =>
    .ite (fun _ => ?_) fun _ => ?_
  · have hcolumn' : column ≠ 0 := by omega
    refine .bind (leftOf_gives hrow hcolumn hrowLe hcolumnLe hcolumn') fun left hleft => ?_
    exact .pure ⟨⟨(by decide : 1 ≤ 3), by simpa using hleft⟩, hfour⟩
  · refine .bind (upOf_gives hrow hcolumn hrowLe hcolumnLe hrow') fun up hup => ?_
    exact .pure ⟨⟨(by decide : 1 ≤ 3), by simpa using hup⟩, hfour⟩
  · refine .bind (upOf_gives hrow hcolumn hrowLe hcolumnLe hrow') fun up hup => ?_
    refine .bind (leftOf_gives hrow hcolumn hrowLe hcolumnLe hcolumn') fun left hleft => ?_
    exact .pure ⟨⟨(by decide : 2 ≤ 3), by simp [hup, hleft]⟩, hsix⟩
  · refine .bind (upOf_gives hrow hcolumn hrowLe hcolumnLe hrow') fun up hup => ?_
    refine .bind (leftOf_gives hrow hcolumn hrowLe hcolumnLe hcolumn') fun left hleft => ?_
    refine .bind (upLeftOf_gives hrow hcolumn hrowLe hcolumnLe hrow' hcolumn')
      fun upLeft hupLeft => ?_
    exact .pure ⟨⟨Nat.le_refl 3, by simp [hup, hleft, hupLeft]⟩, height⟩

def TotalOf (count : Nat) (total : Int) : Prop := UpTo (65536 + count * 2 ^ 32) total

theorem average_gives (north west : Block) {index : Nat} (h : index < 64) :
    (average north west index quant).Gives (0 ≤ ·) := by
  refine .bind (north.absoluteCoefficient_gives h) fun northMagnitude hnorth => ?_
  refine .bind (west.absoluteCoefficient_gives h) fun westMagnitude hwest => ?_
  have hsum := hnorth.add hwest
  refine .bind (signed64_gives hsum.within (by decide) _) ?_
  rintro direct rfl
  refine .ite (fun _ => ?_) fun hpast => ?_
  · have hnext := hsum.add (⟨by decide, Int.le_refl 1⟩ : UpTo 1 1)
    refine .bind (signed64_gives hnext.within (by decide) _) ?_
    rintro value rfl
    exact .pure (hnext.tdiv (by decide)).1
  refine .bind (averageNeighbours_gives h (by omega)) ?_
  rintro ⟨neighbours, divisor⟩ ⟨⟨hlength, hneighbours⟩, hdivisor⟩
  have hfold : (neighbours.foldlM (averageStep north west index quant)
      (northMagnitude + westMagnitude)).Gives (TotalOf neighbours.length) := by
    refine .foldlM (Nat.zero_add _) (fun neighbour hmem count hcount total htotal => ?_)
      ⟨hsum.1, by have := hsum.2; omega⟩
    refine .bind (scaleNeighbours_gives hquant north west (hneighbours neighbour hmem) h)
      fun scaled hscaled => ?_
    have hnext := UpTo.add htotal hscaled
    dsimp only at hlength
    refine (signed64_gives hnext.within (by omega) _).mono ?_
    rintro next rfl
    exact ⟨hnext.1, by have := hnext.2; omega⟩
  refine .bind hfold fun total htotal => ?_
  have hhalf : UpTo 8 (divisor.tdiv 2) := hdivisor.tdiv (by decide)
  have hlast := UpTo.add htotal hhalf
  dsimp only at hlength
  refine .bind (signed64_gives hlast.within (by omega) _) ?_
  rintro total rfl
  exact .pure (hlast.tdiv hdivisor.1).1

theorem besideDifference_gives (neighbour current : Block) {index beside : Nat} (h : index < 64)
    (hbeside : beside < 64) :
    (besideDifference neighbour current index beside quant).Gives (Within (2 ^ 33)) := by
  refine .bind (neighbour.coefficient_gives hbeside) fun neighbourValue hneighbour => ?_
  refine .bind (current.coefficient_gives hbeside) fun currentValue hcurrent => ?_
  have hsum := hneighbour.add hcurrent
  refine .bind (signed64_gives hsum (by decide) _) ?_
  rintro sum rfl
  refine .bind (quantValue_gives hquant hbeside) fun step hstep => ?_
  have hproduct := hsum.mul (UpTo.within ⟨Int.le_of_lt hstep.1, hstep.2⟩)
  refine .bind (signed64_gives hproduct (by decide) _) ?_
  rintro product rfl
  refine .bind (quantValue_gives hquant h) fun divisor _ => ?_
  refine .bind (neighbour.coefficient_gives h) fun value hvalue => ?_
  have hresult := hvalue.sub (hproduct.tdiv divisor)
  refine (signed64_gives hresult (by decide) _).mono ?_
  rintro difference rfl
  exact hresult.mono (by decide)

theorem boundaryDifference_gives (north west current : Block) {index : Nat} (h : index < 64) :
    (boundaryDifference north west index current quant).Gives (Within (2 ^ 33)) := by
  obtain ⟨row, hrow, hrowLe⟩ := rowOf_gives h
  obtain ⟨column, hcolumn, hcolumnLe⟩ := columnOf_gives h
  rw [boundaryDifference, hrow, hcolumn, ok_bind, ok_bind]
  refine .ite (fun hedge => ?_) fun _ => .ite (fun hedge => ?_) fun _ => ?_
  · refine .bind (downOf_gives hrow hcolumn hcolumnLe hedge) fun down hdown => ?_
    exact besideDifference_gives hquant north current h hdown
  · refine .bind (rightOf_gives hrow hcolumn hrowLe hedge) fun right hright => ?_
    exact besideDifference_gives hquant west current h hright
  · exact .pure ⟨by decide, by decide⟩

omit hquant

theorem category_gives (value : Nat) :
    (category value).Gives fun bits => bits ≤ 64 ∧ (value < 64 → bits ≤ 6) := by
  refine .ite (fun _ => .pure ⟨Nat.zero_le _, fun _ => Nat.zero_le _⟩) fun hne => ?_
  rw [leadingZeros, if_neg hne, tryFrom_of_lt (by omega)]
  refine .ok ⟨by omega, fun hlow => ?_⟩
  have hlog : Nat.log 2 value < 6 := Nat.log_lt_of_lt_pow hne (Nat.lt_of_lt_of_eq hlow rfl)
  omega

theorem unsigned_gives (h : 0 ≤ value) (e : Error) :
    (okOr (unsigned value) e).Gives (· = value.toNat) := by
  rw [unsigned, if_pos h]
  exact .ok rfl

theorem categoryUpTo_gives (h : 0 ≤ value) (maximum : Nat) (negative : String) :
    (categoryUpTo maximum value negative).Gives (· ≤ maximum) :=
  .bind (unsigned_gives h _) fun value _ => .bind (category_gives value) fun _ _ =>
    .pure (Nat.min_le_right _ _)

/-- The contexts that `sign_contexts` makes. -/
theorem signContexts_gives :
    signContexts.Gives fun contexts => ∀ context ∈ contexts, context < 27 := by
  have hcheck : (match signContexts with
      | .ok contexts => contexts.toList.all (· < 27)
      | .error _ => false) = true := by decide +kernel
  cases hrun : signContexts with
  | error e =>
    rw [hrun] at hcheck
    cases hcheck
  | ok contexts =>
    rw [hrun] at hcheck
    refine ⟨contexts, rfl, fun context hmem => ?_⟩
    exact of_decide_eq_true (List.all_eq_true.mp hcheck context (Vector.mem_toList_iff.mpr hmem))

theorem signOf_lt {sign : Nat} (h : signOf value = some sign) : sign < 2 := by
  unfold signOf at h
  split_ifs at h <;> cases h <;> decide

include hquant in
theorem predictedSign_gives (current north west : Block) {index : Nat} (h : index < 64) :
    (predictedSign index current north west quant).Gives fun predicted =>
      ∀ sign ∈ predicted, sign < 2 := by
  have hsign : ∀ value : Int, ∀ sign ∈ signOf value, sign < 2 := fun _ _ hmem => signOf_lt hmem
  obtain ⟨row, hrow, -⟩ := rowOf_gives h
  obtain ⟨column, hcolumn, -⟩ := columnOf_gives h
  rw [predictedSign, hrow, hcolumn, ok_bind, ok_bind]
  refine .ite (fun _ => ?_) fun _ => .ite (fun _ => ?_) fun _ => .ite (fun _ => ?_) fun _ =>
    .ite (fun _ => ?_) fun _ => .pure fun _ hmem => nomatch hmem
  · exact .bind (boundaryDifference_gives hquant north west current h) fun difference _ =>
      .pure (hsign difference)
  · refine .bind (north.coefficient_gives h) fun northValue _ => ?_
    refine .bind (west.coefficient_gives h) fun westValue _ => ?_
    have hone : ∀ value : Int, Within 1 value.sign := fun value => by
      rcases Int.sign_trichotomy value with hs | hs | hs <;> rw [hs] <;> constructor <;> decide
    refine .bind (signed64_gives ((hone northValue).add (hone westValue)) (by decide) _) ?_
    rintro sum rfl
    exact .pure (hsign _)
  · exact .bind (north.coefficient_gives h) fun value _ => .pure (hsign value)
  · exact .bind (west.coefficient_gives h) fun value _ => .pure (hsign value)

/-! ## The first coefficient -/

theorem Within.tdiv_ten_thousand (h : Within a x) : Within (a / 10000) (x.tdiv 10000) := by
  rw [within_iff] at *
  rw [Int.natAbs_tdiv]
  show ((x.natAbs / 10000 : Nat) : Int) ≤ a / 10000
  omega

theorem roundedPrediction_gives {bound : Int} (h : Within bound value) (hbound : bound < 2 ^ 62) :
    (roundedPrediction value).Gives (Within ((bound + 5000) / 10000)) := by
  have hadjusted : Within (bound + 5000) (if value < 0 then value - 5000 else value + 5000) := by
    have hlow := h.1
    have hhigh := h.2
    split_ifs <;> constructor <;> omega
  refine .bind (signed64_gives hadjusted (by omega) _) ?_
  rintro adjusted rfl
  exact .pure hadjusted.tdiv_ten_thousand

def Block.Decoded (block : Block) : Prop := ∀ value ∈ block.coefficients, Within 16385 value.toInt

theorem Block.Decoded.coefficient_gives {block : Block} (h : block.Decoded) {index : Nat}
    (hindex : index < 64) : (block.coefficient index).Gives (Within 16385) := by
  rw [coefficient, Vector.getElem?_eq_getElem hindex]
  exact .pure (h _ (Vector.getElem_mem hindex))

/-- How far the prediction of one neighbour goes. -/
def predictionBound : Int := 3555700000

include hquant in
theorem directionalPrediction_gives (neighbour : Block) {current : Block} {index : Nat}
    (hcurrent : current.Decoded) (hindex : index < 64) :
    (directionalPrediction neighbour current index quant).Gives (Within predictionBound) := by
  refine .bind (neighbour.coefficient_gives (by decide)) fun first hfirst => ?_
  have hbase := hfirst.mul (⟨by decide, Int.le_refl _⟩ : Within 10000 10000)
  refine .bind (signed64_gives hbase (by decide) _) ?_
  rintro base rfl
  refine .bind (neighbour.coefficient_gives hindex) fun neighbourValue hneighbour => ?_
  refine .bind (hcurrent.coefficient_gives hindex) fun currentValue hvalue => ?_
  have hsum := hneighbour.add hvalue
  refine .bind (signed64_gives hsum (by decide) _) ?_
  rintro sum rfl
  refine .bind (quantValue_gives hquant hindex) fun step hstep => ?_
  have hscaled := UpTo.mul (⟨by decide, Int.le_refl _⟩ : UpTo 11038 11038)
    ⟨Int.le_of_lt hstep.1, hstep.2⟩
  refine .bind (signed64_gives hscaled.within (by decide) _) ?_
  rintro scaled rfl
  have hproduct := hscaled.within.mul hsum
  refine .bind (signed64_gives hproduct (by decide) _) ?_
  rintro product rfl
  refine .bind (quantValue_gives hquant (by decide)) fun divisor _ => ?_
  have hdifference := hbase.sub (hproduct.tdiv divisor)
  refine .bind (signed64_gives hdifference (by decide) _) ?_
  rintro value rfl
  exact (roundedPrediction_gives hdifference (by decide)).mono fun _ h => h.mono (by decide)

theorem differenceStep_gives (neighbour current : Block) {index count : Nat} {total : Int}
    (hindex : index < 64) (hcount : count < 7) (htotal : UpTo (count * 65536) total) :
    (differenceStep neighbour current index total).Gives (UpTo ((count + 1 : Nat) * 65536)) := by
  refine .bind (neighbour.coefficient_gives hindex) fun neighbourValue hneighbour => ?_
  refine .bind (current.coefficient_gives hindex) fun currentValue hcurrent => ?_
  have hdifference := hneighbour.sub hcurrent
  have habs : UpTo 65536 (neighbourValue - currentValue).natAbs := hdifference.natAbs
  obtain ⟨difference, heq, rfl⟩ := signed64_gives hdifference (by decide) (formatError "")
  rw [okOr_eq_ok.mp heq, Option.bind_some]
  refine .bind (signed64_gives habs.within (by decide) _) ?_
  rintro distance rfl
  have hnext := UpTo.add htotal habs
  refine (signed64_gives hnext.within (by omega) _).mono ?_
  rintro next rfl
  exact ⟨hnext.1, by have := hnext.2; omega⟩

def DistancesOf (count : Nat) (totals : Int × Int) : Prop :=
  UpTo (count * 65536) totals.1 ∧ UpTo (count * 65536) totals.2

theorem distances_gives (current north west : Block) :
    ((List.range' 1 7).foldlM (differencesStep current north west) (0, 0)).Gives
      (DistancesOf 7) := by
  refine .foldlM (Nat.zero_add _) (fun coordinate hmem count hcount totals htotals => ?_)
    ⟨⟨Int.le_refl 0, Int.le_refl 0⟩, Int.le_refl 0, Int.le_refl 0⟩
  have hcoordinate : coordinate ≤ 7 := by
    have hrange := List.mem_range'_1.mp hmem
    omega
  refine .bind (zigzagAt_gives hcoordinate (Nat.zero_le _)) fun vertical hvertical => ?_
  refine .bind (zigzagAt_gives (Nat.zero_le _) hcoordinate) fun horizontal hhorizontal => ?_
  refine .bind (differenceStep_gives north current hvertical hcount htotals.1) fun _ hnorth => ?_
  refine .bind (differenceStep_gives west current hhorizontal hcount htotals.2) fun _ hwest => ?_
  exact .pure ⟨hnorth, hwest⟩

theorem weightedPrediction_gives {weighted other difference : Int}
    (hweighted : Within predictionBound weighted) (hother : Within predictionBound other)
    (hdifference : 0 ≤ difference) :
    (weightedPrediction weighted other difference).Gives
      (Within (2 ^ 31 * predictionBound + predictionBound)) := by
  have hshift : (min difference 31).toNat ≤ 31 := by omega
  have hunsigned : unsigned (min difference 31) = some (min difference 31).toNat :=
    if_pos (by omega)
  rw [weightedPrediction, hunsigned, Option.bind_some, tryFrom_of_lt (by omega), okOr_bind]
  have hweight : UpTo (2 ^ 31) (2 ^ (min difference 31).toNat) := by
    refine ⟨Int.le_of_lt (Int.pow_pos (by decide)), ?_⟩
    have hpow : (2 : Nat) ^ (min difference 31).toNat ≤ 2 ^ 31 :=
      Nat.pow_le_pow_right (by decide) hshift
    exact_mod_cast hpow
  refine .bind (signed64_gives hweight.within (by decide) _) ?_
  rintro weight rfl
  have hdenominator := hweight.add (⟨by decide, Int.le_refl _⟩ : UpTo 1 1)
  refine .bind (signed64_gives hdenominator.within (by decide) _) ?_
  rintro denominator rfl
  have hproduct := hweight.within.mul hweighted
  refine .bind (signed64_gives hproduct (by decide) _) ?_
  rintro product rfl
  have hsum := hproduct.add hother
  refine .bind (signed64_gives hsum (by decide) _) ?_
  rintro sum rfl
  have hpos := hweight.1
  have hresult := hsum.tdiv (2 ^ (min difference 31).toNat + 1)
  rw [checkedDiv, if_neg (by omega)]
  refine (signed64_gives hresult (by decide) _).mono ?_
  rintro result rfl
  exact hresult

include hquant in
theorem bothPrediction_gives {current : Block} (north west : Block) (hcurrent : current.Decoded) :
    (bothPrediction current north west quant).Gives
      (Within (2 ^ 31 * predictionBound + predictionBound)) := by
  refine .bind (directionalPrediction_gives hquant north hcurrent (by decide))
    fun northPrediction hnorth => ?_
  refine .bind (directionalPrediction_gives hquant west hcurrent (by decide))
    fun westPrediction hwest => ?_
  refine .bind (distances_gives current north west) ?_
  rintro ⟨northDifference, westDifference⟩ ⟨hnorthDifference, hwestDifference⟩
  refine .ite (fun hcloser => ?_) fun hcloser => ?_
  · have hdifference := hnorthDifference.within.sub hwestDifference.within
    refine .bind (signed64_gives hdifference (by decide) _) ?_
    rintro difference rfl
    exact weightedPrediction_gives hwest hnorth (by omega)
  · have hdifference := hwestDifference.within.sub hnorthDifference.within
    refine .bind (signed64_gives hdifference (by decide) _) ?_
    rintro difference rfl
    exact weightedPrediction_gives hnorth hwest (by omega)

include hquant in
theorem dcPrediction_gives {current : Block} (north west : Option Block)
    (hcurrent : current.Decoded) :
    (dcPrediction current north west quant).Gives
      (Within (2 ^ 31 * predictionBound + predictionBound)) := by
  have hmono : ∀ value, Within predictionBound value →
      Within (2 ^ 31 * predictionBound + predictionBound) value :=
    fun value h => h.mono (by decide)
  cases north with
  | none =>
    cases west with
    | none => exact .pure ⟨by decide, by decide⟩
    | some west => exact (directionalPrediction_gives hquant west hcurrent (by decide)).mono hmono
  | some north =>
    cases west with
    | none => exact (directionalPrediction_gives hquant north hcurrent (by decide)).mono hmono
    | some west => exact bothPrediction_gives hquant north west hcurrent

theorem eobAverage_gives (north west : Option Block) : (eobAverage north west).Gives (0 ≤ ·) := by
  have hsum : ∀ block : Block, (block.sumFrom 0).Gives (0 ≤ ·) := fun block =>
    (block.sumFrom_gives (by decide)).mono fun _ h => h.1
  cases north with
  | none =>
    cases west with
    | none => exact .pure (Int.le_refl 0)
    | some west => exact hsum west
  | some north =>
    cases west with
    | none => exact hsum north
    | some west =>
      refine .bind (north.sumFrom_gives (by decide)) fun northSum hnorth => ?_
      refine .bind (west.sumFrom_gives (by decide)) fun westSum hwest => ?_
      have hboth := hnorth.add hwest
      refine .bind (signed64_gives hboth.within (by decide) _) ?_
      rintro sum rfl
      have hnext := hboth.add (⟨by decide, Int.le_refl _⟩ : UpTo 1 1)
      refine .bind (signed64_gives hnext.within (by decide) _) ?_
      rintro sum rfl
      exact .pure (hnext.tdiv (by decide)).1

end Jpeg
end Unpackio
