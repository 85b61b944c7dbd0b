/-
Slices against the whole frame: the slices of a WinZip JPEG scan cover its rows,
and decoding them into one buffer after the other gives the blocks that a buffer
of the whole frame has.
-/
import Unpackio.Foundation.Coupled
import Unpackio.Jpeg.Headers
import Unpackio.Jpeg.Scan

namespace Unpackio
namespace Jpeg

open Except (ok_bind)
open Prog (Coupled)

/-! ## Heights -/

/-- The second divisor of `slice_height`: the slices that the rows need. -/
def secondDivisor (vertical first : Nat) : Nat := (vertical + (first - 1)) / first

theorem unitsOver_pos {samples size : Nat} (hsamples : 1 ≤ samples) (hsize : 1 ≤ size) :
    1 ≤ unitsOver samples size :=
  (Nat.le_div_iff_mul_le hsize).mpr (by omega)

theorem unitsOver_le {samples size : Nat} (hsize : 1 ≤ size) :
    unitsOver samples size ≤ samples := by
  rw [unitsOver]
  obtain rfl | hpos := Nat.eq_zero_or_pos samples
  · exact Nat.le_of_eq (Nat.div_eq_of_lt (by omega))
  · obtain ⟨rest, rfl⟩ : ∃ rest, size = rest + 1 := ⟨size - 1, by omega⟩
    refine Nat.div_le_of_le_mul ?_
    rw [Nat.add_sub_cancel, Nat.add_mul, Nat.one_mul, Nat.add_comm]
    exact Nat.add_le_add_right (Nat.le_mul_of_pos_right _ hpos) _

namespace Metadata.Frame

variable {metadata : Metadata} (h : metadata.Frame)

include h

theorem maxHorizontal_pos : 1 ≤ metadata.maxHorizontal := by
  have hmem := first_mem metadata.components h.count_pos
  exact Nat.le_trans (h.fits _ hmem).horizontal_pos (le_maxFactor (List.mem_map_of_mem hmem))

theorem maxVertical_pos : 1 ≤ metadata.maxVertical := by
  have hmem := first_mem metadata.components h.count_pos
  exact Nat.le_trans (h.fits _ hmem).vertical_pos (le_maxFactor (List.mem_map_of_mem hmem))

theorem horizontalMcus_pos : 1 ≤ metadata.horizontalMcus := by
  rw [h.horizontal]
  exact unitsOver_pos h.width_pos (by have := h.maxHorizontal_pos; omega)

theorem verticalMcus_pos : 1 ≤ metadata.verticalMcus := by
  rw [h.vertical]
  exact unitsOver_pos h.height_pos (by have := h.maxVertical_pos; omega)

theorem horizontalMcus_lt : metadata.horizontalMcus < 2 ^ 16 := by
  rw [h.horizontal]
  exact Nat.lt_of_le_of_lt (unitsOver_le (by have := h.maxHorizontal_pos; omega)) h.width_lt

theorem verticalMcus_lt : metadata.verticalMcus < 2 ^ 16 := by
  rw [h.vertical]
  exact Nat.lt_of_le_of_lt (unitsOver_le (by have := h.maxVertical_pos; omega)) h.height_lt

theorem sliceHeight_eq {sliceValue : Nat} (hvalue : sliceValue < 32) :
    ∃ height, sliceHeight metadata sliceValue = .ok height ∧ 1 ≤ height ∧
      height ≤ metadata.verticalMcus ∧
      (sliceValue ≠ 0 → ∃ first second, first ≠ 0 ∧ second ≠ 0 ∧
        first = firstDivisor (2 ^ (sliceValue + 6)) metadata.horizontalMcus ∧
        second = secondDivisor metadata.verticalMcus first ∧
        height = (metadata.verticalMcus + (second - 1)) / second) := by
  have hhorizontal := h.horizontalMcus_pos
  have hvertical := h.verticalMcus_pos
  have hlt := h.verticalMcus_lt
  rw [sliceHeight, rejectIf_of_not (by omega), ok_bind]
  by_cases hzero : sliceValue = 0
  · rw [if_pos hzero]
    exact ⟨metadata.verticalMcus, rfl, hvertical, Nat.le_refl _, fun hne => absurd hzero hne⟩
  have hfirst : 1 ≤ firstDivisor (2 ^ (sliceValue + 6)) metadata.horizontalMcus :=
    Nat.le_max_right _ _
  have hpower : 2 ^ (sliceValue + 6) ≤ 2 ^ 37 := Nat.pow_le_pow_right (by decide) (by omega)
  have hle : firstDivisor (2 ^ (sliceValue + 6)) metadata.horizontalMcus ≤ 2 ^ 37 :=
    Nat.max_le.mpr ⟨Nat.le_trans (Nat.div_le_self _ _) hpower, by decide⟩
  rw [if_neg hzero, tryFrom_of_lt (by omega), okOr_bind, checkedShl_one (by omega), okOr_bind]
  generalize hfirstEq : firstDivisor (2 ^ (sliceValue + 6)) metadata.horizontalMcus = first at *
  have hsecond := unitsOver_pos hvertical hfirst
  have hsecondLe : unitsOver metadata.verticalMcus first ≤ metadata.verticalMcus :=
    unitsOver_le hfirst
  dsimp only
  rw [checkedSub_of_le hfirst, okOr_bind, checkedAdd_bind (by omega)]
  change 1 ≤ secondDivisor metadata.verticalMcus first at hsecond
  change secondDivisor metadata.verticalMcus first ≤ _ at hsecondLe
  show ∃ height, (do
    let rounding ← okOr (checkedSub (secondDivisor metadata.verticalMcus first) 1) _
    let sum ← okOr (checkedAdd metadata.verticalMcus rounding) _
    return sum / secondDivisor metadata.verticalMcus first) = Except.ok height ∧ _
  rw [checkedSub_of_le hsecond, okOr_bind, checkedAdd_bind (by omega)]
  exact ⟨_, rfl, unitsOver_pos hvertical hsecond, unitsOver_le hsecond,
    fun _ => ⟨first, _, by omega, by omega, rfl, rfl, rfl⟩⟩

end Metadata.Frame

def slicesFrom (height vertical : Nat) : Nat → Nat → List (Nat × Nat)
  | 0, _ => []
  | rounds + 1, start =>
    if start < vertical then
      (start, min height (vertical - start)) ::
        slicesFrom height vertical rounds (start + min height (vertical - start))
    else []

/-- The slices have every row from the first one on exactly once, in order. -/
theorem slicesFrom_rows {height vertical rounds start : Nat} (hheight : 1 ≤ height)
    (hrounds : vertical ≤ start + rounds) :
    (slicesFrom height vertical rounds start).flatMap (fun slice => List.range' slice.1 slice.2) =
      List.range' start (vertical - start) := by
  induction rounds generalizing start with
  | zero =>
    rw [Nat.sub_eq_zero_of_le (by omega)]
    rfl
  | succ rounds ih =>
    rw [slicesFrom]
    by_cases hlt : start < vertical
    · rw [if_pos hlt, List.flatMap_cons, ih (by omega)]
      have hsplit : vertical - start =
          min height (vertical - start) + (vertical - (start + min height (vertical - start))) := by
        omega
      conv_rhs => rw [hsplit]
      exact List.range'_append_1
    · rw [if_neg hlt, Nat.sub_eq_zero_of_le (Nat.not_lt.mp hlt)]
      rfl

section

variable {W : Type} (decode : Nat → Nat → SliceState → Metered SliceState)
  (write : W → List (List Block) → Nat → Nat → Bool → Metered W)

def sliceWith (vertical maxFrames : Nat) (state : ScanLoop W) (slice : Nat × Nat) :
    Metered (ScanLoop W) := do
  let frameCount ← checkFrame maxFrames state.frameCount
  let next ← decode slice.2 slice.1 state.slice
  let written ← write state.written next.blocks slice.1 slice.2 (slice.1 + slice.2 = vertical)
  return { slice := next, written := written, frameCount := frameCount,
           finishedRows := slice.1 + slice.2 }

theorem scanRoundWith_eq {metadata : Metadata} {height maxFrames : Nat} {state : ScanLoop W}
    (hlt : state.finishedRows < metadata.verticalMcus) (hsmall : metadata.verticalMcus < 2 ^ 16) :
    scanRoundWith decode write metadata height maxFrames state =
      sliceWith decode write metadata.verticalMcus maxFrames state
        (state.finishedRows, min height (metadata.verticalMcus - state.finishedRows)) := by
  have hsum :
      state.finishedRows + min height (metadata.verticalMcus - state.finishedRows) < 2 ^ 64 := by
    omega
  rw [scanRoundWith, sliceWith, checkedSub_of_le (Nat.le_of_lt hlt)]
  refine bind_congr fun frameCount => ?_
  show (decode _ _ _ >>= fun slice => _) = _
  refine bind_congr fun slice => ?_
  rw [checkedAdd_of_lt hsum]
  rfl

theorem scanLoopWith_eq {metadata : Metadata} (hsmall : metadata.verticalMcus < 2 ^ 16)
    {height maxFrames rounds : Nat} {state : ScanLoop W} :
    scanLoopWith decode write metadata height maxFrames rounds state =
      (slicesFrom height metadata.verticalMcus rounds state.finishedRows).foldlM
        (sliceWith decode write metadata.verticalMcus maxFrames) state := by
  induction rounds generalizing state with
  | zero => rfl
  | succ rounds ih =>
    rw [scanLoopWith, slicesFrom]
    by_cases hlt : state.finishedRows < metadata.verticalMcus
    · rw [if_pos hlt, if_pos hlt, List.foldlM_cons, scanRoundWith_eq decode write hlt hsmall]
      simp only [sliceWith, bind_assoc, pure_bind, ih]
    · rw [if_neg hlt, if_neg hlt]
      rfl

end

def frameAddress (blocksPerRow startRow row column : Nat) : Except Error Address :=
  let index := (startRow + row) * blocksPerRow + column
  .ok { index := index
        north := if 0 < startRow + row then some (index - blocksPerRow) else none
        west := if 0 < column then some (index - 1) else none }

def frameAddresses (finishedRows : Nat) (component : Component) (blocksPerRow : Nat) :
    Except Error (Nat → Nat → Except Error Address) :=
  .ok (frameAddress blocksPerRow (finishedRows * component.verticalFactor))

def decodeInFrame (tables : LogTables) (signContexts : Vector Nat 64) (metadata : Metadata)
    (currentHeight finishedRows : Nat) (state : SliceState) : Metered SliceState :=
  (List.range metadata.numScanComponents).foldlM
    (decodeComponentWith tables signContexts metadata currentHeight (frameAddresses finishedRows))
    state

/-! ## One component -/

/-- A block row of a component in a slice: the blocks of a row, the block rows before
the slice, the row of the buffer where the slice before has its last one, and the
block rows of the slice. -/
structure Rows where
  blocksPerRow : Nat
  startRow : Nat
  previousRow : Nat
  rows : Nat

/-- After so many blocks, the buffer of the slice has what the frame has: the blocks of
the slice, and above the ones that are left the last row of the slice before. -/
structure Aligned (rows : Rows) (slice frame : List Block) (count : Nat)
    (left right : List Block × Coder) : Prop where
  coder : left.2 = right.2
  slice_length : left.1.length = slice.length
  frame_length : right.1.length = frame.length
  decoded : ∀ index < count, left.1[index]? = right.1[rows.startRow * rows.blocksPerRow + index]?
  above : 0 < rows.startRow → ∀ column < rows.blocksPerRow,
    count ≤ rows.previousRow * rows.blocksPerRow + column →
    left.1[rows.previousRow * rows.blocksPerRow + column]? =
      right.1[(rows.startRow - 1) * rows.blocksPerRow + column]?
  before : ∀ index < rows.startRow * rows.blocksPerRow, right.1[index]? = frame[index]?

/-- The buffers have room for the rows of the slice. -/
structure Rows.Fits (rows : Rows) (slice frame : List Block) : Prop where
  slice_room : rows.rows * rows.blocksPerRow ≤ slice.length
  frame_room : (rows.startRow + rows.rows) * rows.blocksPerRow ≤ frame.length
  previous : (rows.previousRow + 1) * rows.blocksPerRow ≤ slice.length
  slice_le : slice.length ≤ frame.length
  small : frame.length < 2 ^ 63

section

variable {rows : Rows} {slice frame : List Block} {row column finishedRows : Nat}

theorem sliceNorth_eq (hfits : rows.Fits slice frame) (hcolumn : column < rows.blocksPerRow) :
    sliceNorth rows.blocksPerRow rows.previousRow finishedRows row column
        (row * rows.blocksPerRow + column) =
      .ok (if 0 < row then some (row * rows.blocksPerRow + column - rows.blocksPerRow)
        else if 0 < finishedRows then some (rows.previousRow * rows.blocksPerRow + column)
        else none) := by
  have hprevious := hfits.previous
  have hle := hfits.slice_le
  have hsmall := hfits.small
  rw [Nat.add_mul, Nat.one_mul] at hprevious
  rw [sliceNorth]
  by_cases hrow : 0 < row
  · have hone : 1 * rows.blocksPerRow ≤ row * rows.blocksPerRow := Nat.mul_le_mul_right _ hrow
    rw [if_pos hrow, if_pos hrow, checkedSub_of_le (by omega)]
    rfl
  rw [if_neg hrow, if_neg hrow]
  by_cases hfinished : 0 < finishedRows
  · rw [if_pos hfinished, if_pos hfinished, checkedMul_of_lt (by omega), Option.bind_some,
      checkedAdd_of_lt (by omega)]
    rfl
  · rw [if_neg hfinished, if_neg hfinished]
    rfl

theorem sliceAddress_eq (hfits : rows.Fits slice frame) (hrow : row < rows.rows)
    (hcolumn : column < rows.blocksPerRow) :
    sliceAddress rows.blocksPerRow rows.previousRow finishedRows row column =
      .ok { index := row * rows.blocksPerRow + column
            north := if 0 < row then some (row * rows.blocksPerRow + column - rows.blocksPerRow)
              else if 0 < finishedRows then
                some (rows.previousRow * rows.blocksPerRow + column)
              else none
            west := if 0 < column then some (row * rows.blocksPerRow + column - 1) else none } := by
  have hrows : (row + 1) * rows.blocksPerRow ≤ rows.rows * rows.blocksPerRow :=
    Nat.mul_le_mul_right _ hrow
  have hroom := hfits.slice_room
  have hle := hfits.slice_le
  have hsmall := hfits.small
  rw [Nat.add_mul, Nat.one_mul] at hrows
  rw [sliceAddress, checkedMul_of_lt (by omega), Option.bind_some, checkedAdd_bind (by omega),
    sliceNorth_eq hfits hcolumn, ok_bind, westOf]
  by_cases hwest : 0 < column
  · rw [if_pos hwest, if_pos hwest, checkedSub_of_le (by omega)]
    rfl
  · rw [if_neg hwest, if_neg hwest]
    rfl

end

theorem Aligned.set {rows : Rows} {slice frame : List Block} {count : Nat}
    {left right : List Block × Coder} (h : Aligned rows slice frame count left right)
    (hleft : count < left.1.length)
    (hright : rows.startRow * rows.blocksPerRow + count < right.1.length) (block : Block)
    (coder : Coder) :
    Aligned rows slice frame (count + 1) (left.1.set count block, coder)
      (right.1.set (rows.startRow * rows.blocksPerRow + count) block, coder) := by
  refine ⟨rfl, ?_, ?_, fun index hlt => ?_, fun hpos column hcolumn hle => ?_, fun index hlt => ?_⟩
  · rw [List.length_set]
    exact h.slice_length
  · rw [List.length_set]
    exact h.frame_length
  · obtain rfl | hne := Nat.eq_or_lt_of_le (Nat.le_of_lt_succ hlt)
    · rw [List.getElem?_set_self hleft, List.getElem?_set_self hright]
    · rw [List.getElem?_set_ne (by omega), List.getElem?_set_ne (by omega)]
      exact h.decoded index hne
  · have hone : (rows.startRow - 1) * rows.blocksPerRow + rows.blocksPerRow =
        rows.startRow * rows.blocksPerRow := by
      rw [← Nat.succ_mul, Nat.succ_eq_add_one, Nat.sub_add_cancel hpos]
    dsimp only
    rw [List.getElem?_set_ne (by omega), List.getElem?_set_ne (by omega)]
    exact h.above hpos column hcolumn (by omega)
  · dsimp only
    rw [List.getElem?_set_ne (by omega)]
    exact h.before index hlt

variable {scanIndex : Nat} {quant : QuantTable} {component : Component} {scan : ScanComponent}
  {P Q : Nat → List Block → List Block → Prop}

section

variable (tables : LogTables) (contexts : Vector Nat 64) {rows : Rows} {slice frame : List Block}
  {left right : List Block × Coder}

section

variable {row finishedRows : Nat} (hfits : rows.Fits slice frame)
  (hstart : 0 < finishedRows ↔ 0 < rows.startRow) (hrow : row < rows.rows)
include hfits hstart hrow

theorem decodeAddress_coupled {column : Nat} (hcolumn : column < rows.blocksPerRow)
    (h : Aligned rows slice frame (row * rows.blocksPerRow + column) left right) :
    Coupled (Aligned rows slice frame (row * rows.blocksPerRow + column + 1))
      (do
        let address ← (liftM (sliceAddress rows.blocksPerRow rows.previousRow finishedRows row
          column) :
          Metered Address)
        decodeAddress tables contexts scanIndex quant address left)
      (do
        let address ← (liftM (frameAddress rows.blocksPerRow rows.startRow row column) :
          Metered Address)
        decodeAddress tables contexts scanIndex quant address right) := by
  have hrows : (row + 1) * rows.blocksPerRow ≤ rows.rows * rows.blocksPerRow :=
    Nat.mul_le_mul_right _ hrow
  have hroom := hfits.slice_room
  have hframe := hfits.frame_room
  have hbase : (rows.startRow + row) * rows.blocksPerRow + column =
      rows.startRow * rows.blocksPerRow + (row * rows.blocksPerRow + column) := by
    rw [Nat.add_mul, Nat.add_assoc]
  rw [Nat.add_mul, Nat.one_mul] at hrows
  rw [Nat.add_mul] at hframe
  refine .left (sliceAddress_eq hfits hrow hcolumn) (.right rfl ?_)
  have hnorth : (if 0 < row then some (row * rows.blocksPerRow + column - rows.blocksPerRow)
        else if 0 < finishedRows then some (rows.previousRow * rows.blocksPerRow + column)
        else none).bind (fun index => left.1[index]?) =
      (if 0 < rows.startRow + row then
          some ((rows.startRow + row) * rows.blocksPerRow + column - rows.blocksPerRow)
        else none).bind (fun index => right.1[index]?) := by
    by_cases hzero : 0 < row
    · have hone : 1 * rows.blocksPerRow ≤ row * rows.blocksPerRow := Nat.mul_le_mul_right _ hzero
      rw [if_pos hzero, if_pos (by omega), Option.bind_some, Option.bind_some,
        h.decoded _ (by omega), hbase]
      congr 1
      omega
    obtain rfl : row = 0 := by omega
    rw [if_neg hzero]
    by_cases hfirst : 0 < finishedRows
    · have hpos := hstart.mp hfirst
      have hone : (rows.startRow - 1) * rows.blocksPerRow + rows.blocksPerRow =
          rows.startRow * rows.blocksPerRow := by
        rw [← Nat.succ_mul, Nat.succ_eq_add_one, Nat.sub_add_cancel hpos]
      rw [if_pos hfirst, if_pos (by omega), Option.bind_some, Option.bind_some,
        h.above hpos column hcolumn (by omega)]
      congr 1
      rw [Nat.add_zero]
      omega
    · have hnone : ¬0 < rows.startRow + 0 := fun hpos => hfirst (hstart.mpr hpos)
      rw [if_neg hfirst, if_neg hnone]
      rfl
  have hwest : (if 0 < column then some (row * rows.blocksPerRow + column - 1) else none).bind
        (fun index => left.1[index]?) =
      (if 0 < column then some ((rows.startRow + row) * rows.blocksPerRow + column - 1)
        else none).bind (fun index => right.1[index]?) := by
    by_cases hpos : 0 < column
    · rw [if_pos hpos, if_pos hpos, Option.bind_some, Option.bind_some, h.decoded _
        (by omega), hbase]
      congr 1
      omega
    · rw [if_neg hpos, if_neg hpos]
      rfl
  rw [decodeAddress, decodeAddress]
  dsimp only
  rw [hnorth, hwest, h.coder]
  refine .step ?_
  rintro ⟨block, coder⟩
  have hleft : row * rows.blocksPerRow + column < left.1.length := by
    rw [h.slice_length]
    omega
  have hright : (rows.startRow + row) * rows.blocksPerRow + column < right.1.length := by
    rw [h.frame_length, hbase]
    omega
  refine .left (rejectIf_of_not (Nat.not_le.mpr hleft) _) ?_
  refine .right (rejectIf_of_not (Nat.not_le.mpr hright) _) (.pure ?_)
  rw [hbase] at hright ⊢
  exact h.set hleft hright block coder

theorem decodeRow_coupled (h : Aligned rows slice frame (row * rows.blocksPerRow) left right) :
    Coupled (Aligned rows slice frame ((row + 1) * rows.blocksPerRow))
      (decodeRow tables contexts scanIndex quant
        (sliceAddress rows.blocksPerRow rows.previousRow finishedRows) rows.blocksPerRow left row)
      (decodeRow tables contexts scanIndex quant (frameAddress rows.blocksPerRow rows.startRow)
        rows.blocksPerRow right row) := by
  refine .step fun _ => ?_
  rw [Nat.add_mul, Nat.one_mul]
  exact .foldlM_range (R := fun column => Aligned rows slice frame
    (row * rows.blocksPerRow + column))
    h fun column hcolumn _ _ hstate =>
      decodeAddress_coupled tables contexts hfits hstart hrow hcolumn hstate

end

theorem decodeRows_coupled {finishedRows : Nat} (scanIndex : Nat) (quant : QuantTable)
    (hfits : rows.Fits slice frame) (hstart : 0 < finishedRows ↔ 0 < rows.startRow)
    (h : Aligned rows slice frame 0 left right) :
    Coupled (Aligned rows slice frame (rows.rows * rows.blocksPerRow))
      ((List.range rows.rows).foldlM (decodeRow tables contexts scanIndex quant
        (sliceAddress rows.blocksPerRow rows.previousRow finishedRows) rows.blocksPerRow) left)
      ((List.range rows.rows).foldlM (decodeRow tables contexts scanIndex quant
        (frameAddress rows.blocksPerRow rows.startRow) rows.blocksPerRow) right) := by
  have hzero : Aligned rows slice frame (0 * rows.blocksPerRow) left right := by
    rw [Nat.zero_mul]
    exact h
  exact .foldlM_range (R := fun row => Aligned rows slice frame (row * rows.blocksPerRow)) hzero
    fun row hrow _ _ hstate => decodeRow_coupled tables contexts hfits hstart hrow hstate

end

/-! ## One slice -/

def blocksIn (metadata : Metadata) (component : Component) (rows : Nat) : Nat :=
  rows * component.verticalFactor * (metadata.horizontalMcus * component.horizontalFactor)

theorem blocksIn_lt {metadata : Metadata} (hframe : metadata.Frame) (hfits : component.Fits)
    {rows : Nat} (hrows : rows ≤ metadata.verticalMcus) :
    blocksIn metadata component rows < 2 ^ 63 := by
  have hwidth := hframe.horizontalMcus_lt
  have hvertical := hframe.verticalMcus_lt
  calc blocksIn metadata component rows
      ≤ 2 ^ 16 * 4 * (2 ^ 16 * 4) := Nat.mul_le_mul
        (Nat.mul_le_mul (Nat.le_trans hrows (Nat.le_of_lt hvertical)) hfits.vertical_le)
        (Nat.mul_le_mul (Nat.le_of_lt hwidth) hfits.horizontal_le)
    _ < 2 ^ 63 := by decide

theorem rowBlocks_bounds {metadata : Metadata} (hframe : metadata.Frame) (hfits : component.Fits) :
    1 * 1 ≤ metadata.horizontalMcus * component.horizontalFactor ∧
      metadata.horizontalMcus * component.horizontalFactor < 2 ^ 64 :=
  ⟨Nat.mul_le_mul hframe.horizontalMcus_pos hfits.horizontal_pos,
    Nat.lt_of_le_of_lt (Nat.mul_le_mul (Nat.le_of_lt hframe.horizontalMcus_lt) hfits.horizontal_le)
      (by decide)⟩

/-- A component of a scan, with what decoding it looks up. -/
structure PartOf (metadata : Metadata) (scanIndex : Nat) (scan : ScanComponent)
    (component : Component) (quant : QuantTable) : Prop where
  parts : scanParts metadata scanIndex = .ok (scan, component)
  quant : metadata.quantTables[component.quantIndex]? = some quant
  fits : component.Fits

theorem PartOf.component_eq {metadata : Metadata} {scan' : ScanComponent} {component' : Component}
    {quant' : QuantTable} (h : PartOf metadata scanIndex scan component quant)
    (h' : PartOf metadata scanIndex scan' component' quant') : component = component' :=
  congrArg Prod.snd (Except.ok.inj (h.parts.symm.trans h'.parts))

theorem Metadata.Scan.partOf {metadata : Metadata} (h : metadata.Scan)
    (hindex : scanIndex < metadata.numScanComponents) :
    ∃ scan component quant, PartOf metadata scanIndex scan component quant := by
  have hfour := h.frame.count_le
  have hle := h.count_le
  obtain ⟨scan, hget⟩ : ∃ scan, metadata.scanComponents[scanIndex]? = some scan :=
    ⟨_, Vector.getElem?_eq_getElem (by omega)⟩
  have hselects := (h.selects scan (mem_take hindex hget)).componentIndex
  obtain ⟨component, hcomponent⟩ : ∃ component,
      metadata.components[scan.componentIndex]? = some component :=
    ⟨_, Vector.getElem?_eq_getElem (by omega)⟩
  have hfits := h.frame.fits component (mem_take hselects hcomponent)
  obtain ⟨quant, hquant⟩ : ∃ quant, metadata.quantTables[component.quantIndex]? = some quant :=
    ⟨_, Vector.getElem?_eq_getElem hfits.quantIndex⟩
  refine ⟨scan, component, quant, ?_, hquant, hfits⟩
  rw [scanParts, hget, okOr_bind, hcomponent]
  rfl

/-- Buffers of all components, related one by one. -/
structure Buffers (count : Nat) (P : Nat → List Block → List Block → Prop)
    (left right : List (List Block)) : Prop where
  left_length : left.length = count
  right_length : right.length = count
  related : ∀ index < count, ∃ slice frame, left[index]? = some slice ∧
    right[index]? = some frame ∧ P index slice frame

section

variable {count : Nat} {left right : List (List Block)} (h : Buffers count P left right)
include h

theorem Buffers.set {index : Nat} {slice frame : List Block} (hthis : Q index slice frame)
    (hother : ∀ other < count, other ≠ index → ∀ slice frame, P other slice frame →
      Q other slice frame) : Buffers count Q (left.set index slice) (right.set index frame) := by
  refine ⟨?_, ?_, fun other hlt => ?_⟩
  · rw [List.length_set]
    exact h.left_length
  · rw [List.length_set]
    exact h.right_length
  · by_cases heq : other = index
    · subst heq
      have hleft := h.left_length
      have hright := h.right_length
      exact ⟨slice, frame, List.getElem?_set_self (by omega), List.getElem?_set_self (by omega),
        hthis⟩
    · obtain ⟨slice', frame', hslice, hframe, hP⟩ := h.related other hlt
      refine ⟨slice', frame', ?_, ?_, hother other hlt heq _ _ hP⟩
      · rw [List.getElem?_set_ne (Ne.symm heq)]
        exact hslice
      · rw [List.getElem?_set_ne (Ne.symm heq)]
        exact hframe

theorem Buffers.mono
    (himp : ∀ index < count, ∀ slice frame, P index slice frame → Q index slice frame) :
    Buffers count Q left right := by
  refine ⟨h.left_length, h.right_length, fun index hlt => ?_⟩
  obtain ⟨slice, frame, hslice, hframe, hP⟩ := h.related index hlt
  exact ⟨slice, frame, hslice, hframe, himp index hlt slice frame hP⟩

end

/-- What two runs have of a state, with the buffers related. -/
structure Together (count : Nat) (P : Nat → List Block → List Block → Prop)
    (left right : SliceState) : Prop where
  input : left.input = right.input
  models : left.models = right.models
  fixed : left.fixed = right.fixed
  buffers : Buffers count P left.blocks right.blocks

theorem Together.mono {count : Nat} {left right : SliceState} (h : Together count P left right)
    (himp : ∀ index < count, ∀ slice frame, P index slice frame → Q index slice frame) :
    Together count Q left right :=
  ⟨h.input, h.models, h.fixed, h.buffers.mono himp⟩

/-- The buffer of a slice and the frame, before the slice: the last row of the slice
before is where the first row looks for it. -/
structure Beside (metadata : Metadata) (height finishedRows : Nat) (component : Component)
    (slice frame : List Block) : Prop where
  slice_length : slice.length = blocksIn metadata component height
  frame_length : frame.length = blocksIn metadata component metadata.verticalMcus
  above : 0 < finishedRows →
    ∀ column < metadata.horizontalMcus * component.horizontalFactor,
      slice[(height * component.verticalFactor - 1) *
        (metadata.horizontalMcus * component.horizontalFactor) + column]? =
      frame[(finishedRows * component.verticalFactor - 1) *
        (metadata.horizontalMcus * component.horizontalFactor) + column]?

/-- The buffer of a slice and the frame, after the slice. -/
structure After (metadata : Metadata) (height finishedRows currentHeight : Nat)
    (component : Component) (old slice frame : List Block) : Prop where
  slice_length : slice.length = blocksIn metadata component height
  frame_length : frame.length = blocksIn metadata component metadata.verticalMcus
  rows : ∀ index < blocksIn metadata component currentHeight,
    slice[index]? = frame[blocksIn metadata component finishedRows + index]?
  before : ∀ index < blocksIn metadata component finishedRows, frame[index]? = old[index]?

def rowsOf (metadata : Metadata) (component : Component)
    (height finishedRows currentHeight : Nat) : Rows where
  blocksPerRow := metadata.horizontalMcus * component.horizontalFactor
  startRow := finishedRows * component.verticalFactor
  previousRow := height * component.verticalFactor - 1
  rows := currentHeight * component.verticalFactor

theorem decodeComponentWith_eq (tables : LogTables) (contexts : Vector Nat 64) {metadata : Metadata}
    {currentHeight : Nat} (hpart : PartOf metadata scanIndex scan component quant)
    {addresses : Component → Nat → Except Error (Nat → Nat → Except Error Address)}
    {resolved : Nat → Nat → Except Error Address}
    (hwidth : metadata.horizontalMcus * component.horizontalFactor < 2 ^ 64)
    (hrows : currentHeight * component.verticalFactor < 2 ^ 64)
    (haddresses : addresses component (metadata.horizontalMcus * component.horizontalFactor) =
      .ok resolved) {state : SliceState} {buffer : List Block}
    (hbuffer : state.blocks[scanIndex]? = some buffer) :
    decodeComponentWith tables contexts metadata currentHeight addresses state scanIndex = (do
      let decoder ← ArithmeticDecoder.new tables state.input
      let (buffer, coder) ← (List.range (currentHeight * component.verticalFactor)).foldlM
        (decodeRow tables contexts scanIndex quant resolved
          (metadata.horizontalMcus * component.horizontalFactor))
        (buffer, { decoder := decoder, models := state.models, fixed := state.fixed })
      let decoder ← coder.decoder.flush tables
      return { input := decoder.input, blocks := state.blocks.set scanIndex buffer,
               models := coder.models, fixed := coder.fixed }) := by
  simp only [decodeComponentWith, hpart.parts, hpart.quant, checkedMul_of_lt hwidth,
    checkedMul_of_lt hrows, haddresses, hbuffer, okOr_some, Prog.lift_ok_bind]

theorem sliceAddresses_eq {metadata : Metadata} (hframe : metadata.Frame) (hfits : component.Fits)
    {height : Nat} (hheight : 1 ≤ height ∧ height ≤ metadata.verticalMcus) (finishedRows : Nat) :
    sliceAddresses height finishedRows component
        (metadata.horizontalMcus * component.horizontalFactor) =
      .ok (sliceAddress (metadata.horizontalMcus * component.horizontalFactor)
        (height * component.verticalFactor - 1) finishedRows) := by
  have hvertical := hframe.verticalMcus_lt
  have hpos : 1 * 1 ≤ height * component.verticalFactor :=
    Nat.mul_le_mul hheight.1 hfits.vertical_pos
  have hsmall : height * component.verticalFactor < 2 ^ 64 :=
    Nat.lt_of_le_of_lt (Nat.mul_le_mul (by omega : height ≤ 2 ^ 16) hfits.vertical_le) (by decide)
  rw [sliceAddresses, checkedMul_of_lt hsmall, Option.bind_some, checkedSub_of_le hpos]
  rfl

section

variable (tables : LogTables) (contexts : Vector Nat 64) {metadata : Metadata}
  (hscan : metadata.Scan) {height finishedRows currentHeight : Nat}
  (hheight : 1 ≤ height ∧ height ≤ metadata.verticalMcus) (hcurrent : currentHeight ≤ height)
  (hrest : finishedRows + currentHeight ≤ metadata.verticalMcus)

include hscan hheight hcurrent hrest

theorem rows_fits (hfits : component.Fits) {slice frame : List Block}
    (h : Beside metadata height finishedRows component slice frame) :
    (rowsOf metadata component height finishedRows currentHeight).Fits slice frame := by
  have hmono : ∀ {a b : Nat}, a ≤ b →
      blocksIn metadata component a ≤ blocksIn metadata component b := fun hle =>
    Nat.mul_le_mul_right _ (Nat.mul_le_mul_right _ hle)
  constructor
  · rw [h.slice_length]
    exact hmono hcurrent
  · rw [h.frame_length, rowsOf, ← Nat.add_mul]
    exact hmono hrest
  · have hpos : 1 * 1 ≤ height * component.verticalFactor :=
      Nat.mul_le_mul hheight.1 hfits.vertical_pos
    rw [h.slice_length, rowsOf, Nat.sub_add_cancel hpos]
    exact Nat.le_refl _
  · rw [h.slice_length, h.frame_length]
    exact hmono hheight.2
  · rw [h.frame_length]
    exact blocksIn_lt hscan.frame hfits (Nat.le_refl _)

theorem decodeComponent_coupled (hindex : scanIndex < metadata.numScanComponents)
    (hpart : PartOf metadata scanIndex scan component quant) {left right : SliceState}
    (h : Together metadata.numScanComponents P left right)
    (hthis : ∀ slice frame, P scanIndex slice frame →
      Beside metadata height finishedRows component slice frame)
    (hnext : ∀ slice frame slice' frame', P scanIndex slice frame →
      After metadata height finishedRows currentHeight component frame slice' frame' →
      Q scanIndex slice' frame')
    (hother : ∀ other < metadata.numScanComponents, other ≠ scanIndex → ∀ slice frame,
      P other slice frame → Q other slice frame) :
    Coupled (Together metadata.numScanComponents Q)
      (decodeComponentWith tables contexts metadata currentHeight
        (sliceAddresses height finishedRows) left scanIndex)
      (decodeComponentWith tables contexts metadata currentHeight
        (frameAddresses finishedRows) right scanIndex) := by
  obtain ⟨slice, frame, hslice, hframe, hP⟩ := h.buffers.related scanIndex hindex
  have hbeside := hthis slice frame hP
  have hfits := rows_fits hscan hheight hcurrent hrest hpart.fits hbeside
  have hwidth := hscan.frame.horizontalMcus_lt
  have hvertical := hscan.frame.verticalMcus_lt
  have hrow : metadata.horizontalMcus * component.horizontalFactor < 2 ^ 64 :=
    Nat.lt_of_le_of_lt (Nat.mul_le_mul (Nat.le_of_lt hwidth) hpart.fits.horizontal_le) (by decide)
  have hrows : currentHeight * component.verticalFactor < 2 ^ 64 :=
    Nat.lt_of_le_of_lt (Nat.mul_le_mul (by omega : currentHeight ≤ 2 ^ 16) hpart.fits.vertical_le)
      (by decide)
  have haddresses := sliceAddresses_eq hscan.frame hpart.fits hheight finishedRows
  rw [decodeComponentWith_eq tables contexts hpart hrow hrows haddresses hslice,
    decodeComponentWith_eq tables contexts hpart hrow hrows rfl hframe, h.input, h.models, h.fixed]
  refine .step fun decoder => ?_
  have hstart : 0 < finishedRows ↔ 0 < finishedRows * component.verticalFactor :=
    ⟨fun hlt => Nat.mul_pos hlt hpart.fits.vertical_pos, Nat.pos_of_mul_pos_right⟩
  have hbegin : ∀ coder, Aligned (rowsOf metadata component height finishedRows currentHeight)
      slice frame 0 (slice, coder) (frame, coder) := fun coder =>
    ⟨rfl, rfl, rfl, fun _ hlt => absurd hlt (Nat.not_lt_zero _), fun hlt column hcolumn _ =>
      hbeside.above (hstart.mpr hlt) column hcolumn, fun _ _ => rfl⟩
  have hrun := decodeRows_coupled tables contexts scanIndex quant hfits hstart
    (hbegin { decoder := decoder, models := right.models, fixed := right.fixed })
  refine .bind hrun ?_
  rintro ⟨slice', coder⟩ ⟨frame', _⟩ ⟨rfl, hsliceLength, hframeLength, hdecoded, -, hbefore⟩
  refine .step fun flushed => .pure ⟨rfl, rfl, rfl, ?_⟩
  refine h.buffers.set (hnext slice frame slice' frame' hP ?_) hother
  exact ⟨hsliceLength.trans hbeside.slice_length, hframeLength.trans hbeside.frame_length,
    hdecoded, hbefore⟩

def Ready (metadata : Metadata) (height finishedRows : Nat) (start : List (List Block))
    (scanIndex : Nat) (slice frame : List Block) : Prop :=
  start[scanIndex]? = some frame ∧
    ∀ scan component quant, PartOf metadata scanIndex scan component quant →
      Beside metadata height finishedRows component slice frame

def Done (metadata : Metadata) (height finishedRows currentHeight : Nat)
    (start : List (List Block)) (scanIndex : Nat) (slice frame : List Block) : Prop :=
  ∃ old, start[scanIndex]? = some old ∧
    ∀ scan component quant, PartOf metadata scanIndex scan component quant →
      After metadata height finishedRows currentHeight component old slice frame

theorem decodeSlice_coupled {start : List (List Block)} {left right : SliceState}
    (h : Together metadata.numScanComponents (Ready metadata height finishedRows start)
      left right) :
    Coupled (Together metadata.numScanComponents
        (Done metadata height finishedRows currentHeight start))
      (decodeSlice tables contexts metadata height currentHeight finishedRows left)
      (decodeInFrame tables contexts metadata currentHeight finishedRows right) := by
  refine (Coupled.foldlM_range (R := fun count => Together metadata.numScanComponents
    fun scanIndex slice frame =>
      (scanIndex < count → Done metadata height finishedRows currentHeight start scanIndex
        slice frame) ∧
      (count ≤ scanIndex → Ready metadata height finishedRows start scanIndex slice frame)) ?_
    fun scanIndex hindex left right hstate => ?_).mono fun left right hstate => ?_
  · exact h.mono fun index _ slice frame hready =>
      ⟨fun hlt => absurd hlt (Nat.not_lt_zero _), fun _ => hready⟩
  · obtain ⟨scan, component, quant, hpart⟩ := hscan.partOf hindex
    refine decodeComponent_coupled tables contexts hscan hheight hcurrent hrest hindex hpart hstate
      (fun slice frame hP => (hP.2 (Nat.le_refl _)).2 scan component quant hpart)
      (fun slice frame slice' frame' hP hafter => ⟨fun _ => ⟨frame, (hP.2 (Nat.le_refl _)).1, ?_⟩,
        fun hle => absurd hle (Nat.not_succ_le_self _)⟩)
      fun other _ hne slice frame hP => ⟨fun hlt => hP.1 (by omega), fun hle => hP.2 (by omega)⟩
    intro _ _ _ hother
    exact hpart.component_eq hother ▸ hafter
  · exact hstate.mono fun index hlt slice frame hP => hP.1 hlt

end

/-! ## All slices -/

def blocksAt (metadata : Metadata) (scanIndex rows : Nat) : Nat :=
  match scanParts metadata scanIndex with
  | .ok (_, component) => blocksIn metadata component rows
  | .error _ => 0

theorem PartOf.blocksAt_eq {metadata : Metadata}
    (h : PartOf metadata scanIndex scan component quant) (rows : Nat) :
    blocksAt metadata scanIndex rows = blocksIn metadata component rows := by
  rw [blocksAt, h.parts]

theorem blocksAt_add (metadata : Metadata) (scanIndex first second : Nat) :
    blocksAt metadata scanIndex (first + second) =
      blocksAt metadata scanIndex first + blocksAt metadata scanIndex second := by
  rw [blocksAt, blocksAt, blocksAt]
  cases scanParts metadata scanIndex with
  | error e => rfl
  | ok parts =>
    dsimp only
    rw [blocksIn, blocksIn, blocksIn, Nat.add_mul, Nat.add_mul]

def sliceRows (metadata : Metadata) (currentHeight : Nat) (buffers : List (List Block)) :
    List (List Block) :=
  (List.range metadata.numScanComponents).map fun scanIndex =>
    (buffers[scanIndex]?.getD []).take (blocksAt metadata scanIndex currentHeight)

def frameRows (metadata : Metadata) (start currentHeight : Nat) (frame : List (List Block)) :
    List (List Block) :=
  (List.range metadata.numScanComponents).map fun scanIndex =>
    ((frame[scanIndex]?.getD []).drop (blocksAt metadata scanIndex start)).take
      (blocksAt metadata scanIndex currentHeight)

theorem sliceRows_eq {metadata : Metadata} (hscan : metadata.Scan)
    {height finishedRows currentHeight : Nat} {start left right : List (List Block)}
    (h : Buffers metadata.numScanComponents
      (Done metadata height finishedRows currentHeight start) left right) :
    sliceRows metadata currentHeight left =
      frameRows metadata finishedRows currentHeight right := by
  refine List.map_congr_left fun scanIndex hmem => ?_
  have hindex := List.mem_range.mp hmem
  obtain ⟨slice, frame, hslice, hframe, _, -, hdone⟩ := h.related scanIndex hindex
  obtain ⟨scan, component, quant, hpart⟩ := hscan.partOf hindex
  have hafter := hdone scan component quant hpart
  rw [hslice, hframe, hpart.blocksAt_eq, hpart.blocksAt_eq]
  refine List.ext_getElem? fun index => ?_
  rw [Option.getD_some, Option.getD_some, List.getElem?_take, List.getElem?_take]
  by_cases hlt : index < blocksIn metadata component currentHeight
  · rw [if_pos hlt, if_pos hlt, List.getElem?_drop]
    exact hafter.rows index hlt
  · rw [if_neg hlt, if_neg hlt]

/-- What is known of a component between two slices. -/
structure Carried (metadata : Metadata) (height finishedRows : Nat) (component : Component)
    (slice frame : List Block) : Prop where
  slice_length : slice.length = blocksIn metadata component height
  frame_length : frame.length = blocksIn metadata component metadata.verticalMcus
  beside : finishedRows < metadata.verticalMcus →
    Beside metadata height finishedRows component slice frame

theorem After.carried {metadata : Metadata} {height finishedRows currentHeight : Nat}
    {old slice frame : List Block}
    (h : After metadata height finishedRows currentHeight component old slice frame)
    (hfits : component.Fits) (hheight : 1 ≤ height)
    (hcurrent : currentHeight = min height (metadata.verticalMcus - finishedRows)) :
    Carried metadata height (finishedRows + currentHeight) component slice frame := by
  refine ⟨h.slice_length, h.frame_length, fun hlt => ⟨h.slice_length, h.frame_length,
    fun _ column hcolumn => ?_⟩⟩
  -- A slice that is not the last one has its full height.
  obtain rfl : currentHeight = height := by omega
  have hpos : 1 * 1 ≤ currentHeight * component.verticalFactor :=
    Nat.mul_le_mul hheight hfits.vertical_pos
  have hrow : (currentHeight * component.verticalFactor - 1) *
        (metadata.horizontalMcus * component.horizontalFactor) +
      metadata.horizontalMcus * component.horizontalFactor =
        blocksIn metadata component currentHeight := by
    rw [← Nat.succ_mul, Nat.succ_eq_add_one, Nat.sub_add_cancel hpos, blocksIn]
  rw [h.rows _ (by omega), ← Nat.add_assoc, blocksIn, ← Nat.add_mul, ← Nat.add_sub_assoc hpos,
    ← Nat.add_mul]

section

variable (tables : LogTables) (contexts : Vector Nat 64) {metadata : Metadata}
  (hscan : metadata.Scan) {height : Nat}
  (hheight : 1 ≤ height ∧ height ≤ metadata.verticalMcus) {W V : Type}

/-- What the loops over the slices have, in the buffer of a slice and in the frame. -/
structure InStep (metadata : Metadata) (height : Nat)
    (R : Nat → W → V → List (List Block) → Prop) (left : ScanLoop W) (right : ScanLoop V) :
    Prop where
  frameCount : left.frameCount = right.frameCount
  finishedRows : left.finishedRows = right.finishedRows
  finished_le : right.finishedRows ≤ metadata.verticalMcus
  written : R right.finishedRows left.written right.written right.slice.blocks
  slice : Together metadata.numScanComponents (fun scanIndex slice frame =>
    ∀ scan component quant, PartOf metadata scanIndex scan component quant →
      Carried metadata height right.finishedRows component slice frame) left.slice right.slice

include hscan hheight

variable {maxFrames : Nat} {write : W → List (List Block) → Nat → Nat → Bool → Metered W}
  {write' : V → List (List Block) → Nat → Nat → Bool → Metered V}
  {R : Nat → W → V → List (List Block) → Prop}
  (hwrite : ∀ start current w v old left right last, current ≤ height →
    start + current ≤ metadata.verticalMcus → R start w v old →
    Buffers metadata.numScanComponents (Done metadata height start current old) left right →
    Coupled (fun w v => R (start + current) w v right) (write w left start current last)
      (write' v right start current last))

include hwrite

variable {left : ScanLoop W} {right : ScanLoop V} (h : InStep metadata height R left right)
include h

theorem scanRound_coupled (hlt : right.finishedRows < metadata.verticalMcus) :
    Coupled (fun next next' => InStep metadata height R next next' ∧
        right.finishedRows < next'.finishedRows)
      (scanRoundWith (decodeSlice tables contexts metadata height) write metadata height maxFrames
        left)
      (scanRoundWith (decodeInFrame tables contexts metadata) write' metadata height maxFrames
        right) := by
  have hsmall := hscan.frame.verticalMcus_lt
  rw [scanRoundWith_eq _ _ (h.finishedRows ▸ hlt) hsmall, scanRoundWith_eq _ _ hlt hsmall,
    h.finishedRows]
  rw [sliceWith, sliceWith, h.frameCount]
  refine .step fun frameCount => ?_
  have hready : Together metadata.numScanComponents
      (Ready metadata height right.finishedRows right.slice.blocks) left.slice right.slice := by
    refine ⟨h.slice.input, h.slice.models, h.slice.fixed, h.slice.buffers.left_length,
      h.slice.buffers.right_length, fun index hindex => ?_⟩
    obtain ⟨slice, frame, hslice, hframe, hcarried⟩ := h.slice.buffers.related index hindex
    exact ⟨slice, frame, hslice, hframe, hframe,
      fun scan component quant hpart => (hcarried scan component quant hpart).beside hlt⟩
  have hcurrent := Nat.min_le_left height (metadata.verticalMcus - right.finishedRows)
  have hrest : right.finishedRows + min height (metadata.verticalMcus - right.finishedRows) ≤
      metadata.verticalMcus := by omega
  refine .bind (decodeSlice_coupled tables contexts hscan hheight hcurrent hrest hready) ?_
  intro next next' hdone
  refine .bind (hwrite _ _ _ _ _ _ _ _ hcurrent hrest h.written hdone.buffers) ?_
  intro written written' hwritten
  refine .pure ⟨⟨rfl, rfl, hrest, hwritten, hdone.mono fun index hindex slice frame hafter => ?_⟩,
    Nat.lt_add_of_pos_right (by omega)⟩
  obtain ⟨old, -, hafter⟩ := hafter
  exact fun scan component quant hpart =>
    (hafter scan component quant hpart).carried hpart.fits hheight.1 rfl

theorem scanLoop_coupled {rounds : Nat}
    (hrounds : metadata.verticalMcus ≤ right.finishedRows + rounds) :
    Coupled (fun left right => InStep metadata height R left right ∧
        right.finishedRows = metadata.verticalMcus)
      (scanLoopWith (decodeSlice tables contexts metadata height) write metadata height maxFrames
        rounds left)
      (scanLoopWith (decodeInFrame tables contexts metadata) write' metadata height maxFrames
        rounds right) := by
  induction rounds generalizing left right with
  | zero => exact .pure ⟨h, Nat.le_antisymm h.finished_le hrounds⟩
  | succ rounds ih =>
    rw [scanLoopWith, scanLoopWith, h.finishedRows]
    by_cases hlt : right.finishedRows < metadata.verticalMcus
    · rw [if_pos hlt, if_pos hlt]
      refine .bind (scanRound_coupled tables contexts hscan hheight hwrite h hlt) ?_
      intro next next' ⟨hnext, hmore⟩
      exact ih hnext (by omega)
    · rw [if_neg hlt, if_neg hlt]
      exact .pure ⟨h, Nat.le_antisymm h.finished_le (Nat.not_lt.mp hlt)⟩

end

end Jpeg
end Unpackio
