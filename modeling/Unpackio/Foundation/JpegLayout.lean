/-
The order of the blocks in a sequential JPEG scan.

A scan is a list of units, each with the places of its blocks.  A scan of one
component is not interleaved, and its units are single blocks in raster order; in
any other scan a unit has all blocks of a component that belong to it, for each
component.  A restart stands in front of every unit whose number is a multiple of
the interval, but for the first one.
-/
import Mathlib.Data.Nat.Basic
import Unpackio.Foundation.Interleave

namespace JpegLayout

open Interleave (group_lt flatMap_groups)

/-- The place of a block in the rows and columns of a component of a scan. -/
structure Place where
  component : Nat
  row : Nat
  column : Nat
  deriving DecidableEq, Repr

def Place.Before (first second : Place) : Prop :=
  first.row < second.row ∨ first.row = second.row ∧ first.column < second.column

def ceilDiv (size unit : Nat) : Nat := (size + unit - 1) / unit

/-- Rounding up twice is rounding up once. -/
theorem ceilDiv_ceilDiv (size : Nat) {first second : Nat} (hfirst : 1 ≤ first)
    (hsecond : 1 ≤ second) :
    ceilDiv (ceilDiv size first) second = ceilDiv size (second * first) := by
  have hproduct : 1 * first ≤ second * first := Nat.mul_le_mul_right first hsecond
  have hsum : (size + first - 1) / first + second - 1 =
      (size + first - 1 + first * (second - 1)) / first := by
    rw [Nat.add_mul_div_left _ _ hfirst, Nat.add_sub_assoc hsecond]
  have hwhole : size + first - 1 + first * (second - 1) = size + second * first - 1 := by
    rw [Nat.mul_sub, Nat.mul_one, Nat.mul_comm first]
    omega
  rw [ceilDiv, ceilDiv, ceilDiv, hsum, hwhole, Nat.div_div_eq_div_mul, Nat.mul_comm first]

def unitBlocks (row column component horizontal vertical : Nat) : List Place :=
  (List.range vertical).flatMap fun y =>
    (List.range horizontal).map fun x => ⟨component, row * vertical + y, column * horizontal + x⟩

def unit (factors : List (Nat × Nat)) (row column : Nat) : List Place :=
  factors.zipIdx.flatMap fun entry => unitBlocks row column entry.2 entry.1.1 entry.1.2

/-- So many rows of so many units. -/
def interleaved (columns rows : Nat) (factors : List (Nat × Nat)) : List (List Place) :=
  (List.range rows).flatMap fun row => (List.range columns).map (unit factors row)

/-- So many rows of so many single blocks. -/
def raster (columns rows : Nat) : List (List Place) :=
  (List.range rows).flatMap fun row => (List.range columns).map fun column => [⟨0, row, column⟩]

/-- The units of a scan, from the size of the frame, the largest factors of its
components, and the factors of the components of the scan. -/
def units (width height maxHorizontal maxVertical : Nat) :
    List (Nat × Nat) → List (List Place)
  | [(horizontal, vertical)] =>
    raster (ceilDiv (ceilDiv (width * horizontal) maxHorizontal) 8)
      (ceilDiv (ceilDiv (height * vertical) maxVertical) 8)
  | factors =>
    interleaved (ceilDiv width (8 * maxHorizontal)) (ceilDiv height (8 * maxVertical)) factors

theorem units_of_length_ne {width height maxHorizontal maxVertical : Nat}
    {factors : List (Nat × Nat)} (h : factors.length ≠ 1) :
    units width height maxHorizontal maxVertical factors =
      interleaved (ceilDiv width (8 * maxHorizontal)) (ceilDiv height (8 * maxVertical))
        factors := by
  match factors, h with
  | [], _ => rfl
  | [_], h => exact absurd rfl h
  | _ :: _ :: _, _ => rfl

inductive Event (α : Type) where
  | restart
  | block (a : α)
  deriving DecidableEq, Repr

def Event.isBlock {α : Type} : Event α → Bool
  | .restart => false
  | .block _ => true

/-- Whether a restart stands in front of the unit of this number. -/
def Due (interval number : Nat) : Prop := interval ≠ 0 ∧ number ≠ 0 ∧ number % interval = 0

instance (interval number : Nat) : Decidable (Due interval number) :=
  inferInstanceAs (Decidable (_ ∧ _ ∧ _))

section

variable {α : Type}

def eventsFrom (interval : Nat) : Nat → List (List α) → List (Event α)
  | _, [] => []
  | number, unit :: units =>
    (if Due interval number then [.restart] else []) ++ unit.map .block ++
      eventsFrom interval (number + 1) units

/-- The blocks and restarts of a scan. -/
def events (interval : Nat) (units : List (List α)) : List (Event α) := eventsFrom interval 0 units

theorem filterMap_eventsFrom (interval number : Nat) (units : List (List α)) :
    (eventsFrom interval number units).filterMap
      (fun event => match event with
        | .restart => none
        | .block a => some a) = units.flatten := by
  induction units generalizing number with
  | nil => rfl
  | cons unit units ih =>
    have hunit : ∀ list : List α, (list.map Event.block).filterMap
        (fun event => match event with
          | .restart => none
          | .block a => some a) = list := fun list => by
      rw [List.filterMap_map]
      exact List.filterMap_some
    rw [eventsFrom, List.filterMap_append, List.filterMap_append, ih, hunit, List.flatten_cons]
    split <;> rfl

theorem flatten_eq_of_events {interval : Nat} {first second : List (List α)}
    (h : events interval first = events interval second) : first.flatten = second.flatten := by
  rw [← filterMap_eventsFrom interval 0 first, ← filterMap_eventsFrom interval 0 second]
  exact congrArg _ h

theorem eventsFrom_of_not_due {interval number : Nat} {units : List (List α)}
    (h : ∀ other, number ≤ other → other < number + units.length → ¬Due interval other) :
    eventsFrom interval number units = units.flatten.map .block := by
  induction units generalizing number with
  | nil => rfl
  | cons unit units ih =>
    rw [List.length_cons] at h
    have hfirst := h number (Nat.le_refl _) (by omega)
    rw [eventsFrom, if_neg hfirst, ih fun other hle hlt => h other (by omega) (by omega),
      List.nil_append, List.flatten_cons, List.map_append]

theorem takeWhile_eventsFrom {interval : Nat} (hinterval : interval ≠ 0) {number : Nat}
    (hle : number ≤ interval) (units : List (List α)) :
    (eventsFrom interval number units).takeWhile Event.isBlock =
      (units.take (interval - number)).flatten.map .block := by
  induction units generalizing number with
  | nil => rw [List.take_nil]; rfl
  | cons unit units ih =>
    rw [eventsFrom]
    by_cases heq : number = interval
    · subst heq
      have hdue : Due number number := ⟨hinterval, hinterval, Nat.mod_self number⟩
      rw [if_pos hdue, Nat.sub_self]
      rfl
    · have hdue : ¬Due interval number := by
        rintro ⟨-, hne, hmod⟩
        rw [Nat.mod_eq_of_lt (by omega)] at hmod
        exact hne hmod
      have hblocks : ∀ event ∈ unit.map (Event.block (α := α)), event.isBlock :=
        fun event hmem => by
        obtain ⟨a, -, rfl⟩ := List.mem_map.mp hmem
        rfl
      obtain ⟨rest, hrest⟩ : ∃ rest, interval - number =
        rest + 1 := ⟨interval - number - 1, by omega⟩
      have hnext : interval - (number + 1) = rest := by omega
      rw [if_neg hdue, List.nil_append, List.takeWhile_append_of_pos hblocks, ih (by omega),
        hnext, hrest, List.take_succ_cons, List.flatten_cons, List.map_append]

theorem length_takeWhile_events {interval size : Nat} (hinterval : interval ≠ 0)
    {units : List (List α)} (hsize : ∀ unit ∈ units, unit.length = size) :
    ((events interval units).takeWhile Event.isBlock).length =
      min interval units.length * size := by
  have hlength : ∀ list : List (List α), (∀ unit ∈ list, unit.length = size) →
      list.flatten.length = list.length * size := fun list hlist => by
    rw [List.length_flatten, List.map_congr_left hlist, List.map_const', List.sum_replicate_nat]
  rw [events, takeWhile_eventsFrom hinterval (Nat.zero_le _), List.length_map, Nat.sub_zero,
    hlength _ fun unit hmem => hsize unit (List.mem_of_mem_take hmem), List.length_take]

end

/-! ## One component -/

section

variable {columns rows horizontal vertical : Nat}

theorem unit_single (row column : Nat) :
    unit [(horizontal, vertical)] row column = unitBlocks row column 0 horizontal vertical :=
  List.append_nil _

theorem flatten_raster :
    (raster columns rows).flatten =
      (List.range rows).flatMap fun row =>
        (List.range columns).flatMap fun column => [(⟨0, row, column⟩ : Place)] := by
  rw [raster, List.flatMap_def, List.flatten_flatten, List.map_map, ← List.flatMap_def]
  rfl

theorem flatten_interleaved_single :
    (interleaved columns rows [(horizontal, vertical)]).flatten =
      (List.range rows).flatMap fun row => (List.range columns).flatMap fun column =>
        unitBlocks row column 0 horizontal vertical := by
  rw [interleaved, List.flatMap_def, List.flatten_flatten, List.map_map, ← List.flatMap_def]
  refine List.flatMap_congr fun row _ => ?_
  rw [Function.comp_apply, ← List.flatMap_def]
  exact List.flatMap_congr fun column _ => unit_single row column

theorem mem_raster {row column : Nat} :
    (⟨0, row, column⟩ : Place) ∈ (raster columns rows).flatten ↔ row < rows ∧ column < columns := by
  rw [flatten_raster]
  simp only [List.mem_flatMap, List.mem_range, List.mem_singleton, Place.mk.injEq, true_and]
  constructor
  · rintro ⟨_, hrow, _, hcolumn, rfl, rfl⟩
    exact ⟨hrow, hcolumn⟩
  · rintro ⟨hrow, hcolumn⟩
    exact ⟨row, hrow, column, hcolumn, rfl, rfl⟩

theorem mem_interleaved_single {row column : Nat} (hhorizontal : 1 ≤ horizontal)
    (hvertical : 1 ≤ vertical) :
    (⟨0, row, column⟩ : Place) ∈
        (interleaved columns rows [(horizontal, vertical)]).flatten ↔
      row < rows * vertical ∧ column < columns * horizontal := by
  rw [flatten_interleaved_single]
  simp only [List.mem_flatMap, unitBlocks, List.mem_map, List.mem_range, Place.mk.injEq, true_and]
  constructor
  · rintro ⟨r, hr, c, hc, y, hy, x, hx, rfl, rfl⟩
    exact ⟨group_lt hr hy, group_lt hc hx⟩
  · rintro ⟨hrow, hcolumn⟩
    exact ⟨row / vertical, Nat.div_lt_of_lt_mul (Nat.mul_comm rows vertical ▸ hrow),
      column / horizontal, Nat.div_lt_of_lt_mul (Nat.mul_comm columns horizontal ▸ hcolumn),
      row % vertical, Nat.mod_lt _ hvertical, column % horizontal, Nat.mod_lt _ hhorizontal,
      Nat.div_add_mod' row vertical, Nat.div_add_mod' column horizontal⟩

theorem pairwise_raster : (raster columns rows).flatten.Pairwise Place.Before := by
  rw [flatten_raster, List.pairwise_flatMap]
  refine ⟨fun row _ => ?_, List.pairwise_lt_range.imp fun hlt => ?_⟩
  · rw [← List.map_eq_flatMap, List.pairwise_map]
    exact List.pairwise_lt_range.imp fun hlt => .inr ⟨rfl, hlt⟩
  · intro first hfirst second hsecond
    rw [← List.map_eq_flatMap, List.mem_map] at hfirst hsecond
    obtain ⟨_, -, rfl⟩ := hfirst
    obtain ⟨_, -, rfl⟩ := hsecond
    exact .inl hlt

/-- The units of a component that has more than one row in each are not in raster
order, if there is more than one unit in a row. -/
theorem not_pairwise_interleaved (hrows : 1 ≤ rows) (hhorizontal : 1 ≤ horizontal)
    (hcolumns : 2 ≤ columns) (hvertical : 2 ≤ vertical) :
    ¬(interleaved columns rows [(horizontal, vertical)]).flatten.Pairwise Place.Before := by
  intro h
  rw [flatten_interleaved_single, List.pairwise_flatMap] at h
  obtain ⟨-, hunits⟩ := List.pairwise_flatMap.mp (h.1 0 (List.mem_range.mpr hrows))
  -- The second row of the first unit stands before the first row of the second.
  have hpair := List.pairwise_iff_getElem.mp hunits 0 1
    (by rw [List.length_range]; omega) (by rw [List.length_range]; omega) (by decide)
  rw [List.getElem_range, List.getElem_range] at hpair
  have hmem : ∀ column, ∀ y < vertical, (⟨0, 0 * vertical + y, column * horizontal + 0⟩ : Place) ∈
      unitBlocks 0 column 0 horizontal vertical := fun column y hy =>
    List.mem_flatMap.mpr ⟨y, List.mem_range.mpr hy,
      List.mem_map.mpr ⟨0, List.mem_range.mpr hhorizontal, rfl⟩⟩
  obtain hlt | ⟨heq, -⟩ := hpair _ (hmem 0 1 (by omega)) _ (hmem 1 0 (by omega))
  · change 0 * vertical + 1 < 0 * vertical + 0 at hlt
    omega
  · change 0 * vertical + 1 = 0 * vertical + 0 at heq
    omega

theorem flatten_interleaved_eq (h : vertical = 1 ∨ columns = 1) :
    (interleaved columns rows [(horizontal, vertical)]).flatten =
      (raster (columns * horizontal) (rows * vertical)).flatten := by
  rw [flatten_interleaved_single, flatten_raster, ← flatMap_groups]
  refine List.flatMap_congr fun row _ => ?_
  obtain rfl | rfl := h
  · rw [List.range_one, List.flatMap_singleton, ← flatMap_groups]
    refine List.flatMap_congr fun column _ => ?_
    rw [unitBlocks, List.range_one, List.flatMap_singleton, List.map_eq_flatMap, Nat.mul_one]
  · rw [List.range_one, List.flatMap_singleton, unitBlocks]
    refine List.flatMap_congr fun y _ => ?_
    rw [List.map_eq_flatMap, Nat.one_mul, Nat.zero_mul]
    exact List.flatMap_congr fun x _ => by rw [Nat.zero_add]

theorem length_unitBlocks (row column component : Nat) :
    (unitBlocks row column component horizontal vertical).length = horizontal * vertical := by
  rw [unitBlocks, List.length_flatMap]
  simp only [List.length_map, List.length_range, List.map_const', List.sum_replicate_nat]
  exact Nat.mul_comm _ _

theorem length_interleaved (columns rows : Nat) (factors : List (Nat × Nat)) :
    (interleaved columns rows factors).length = columns * rows := by
  rw [interleaved, List.length_flatMap]
  simp only [List.length_map, List.length_range, List.map_const', List.sum_replicate_nat]
  exact Nat.mul_comm _ _

theorem length_raster (columns rows : Nat) : (raster columns rows).length = columns * rows := by
  rw [raster, List.length_flatMap]
  simp only [List.length_map, List.length_range, List.map_const', List.sum_replicate_nat]
  exact Nat.mul_comm _ _

/-- Units of one block. -/
theorem interleaved_one (columns rows : Nat) :
    interleaved columns rows [(1, 1)] = raster columns rows := by
  refine List.flatMap_congr fun row _ => List.map_congr_left fun column _ => ?_
  rw [unit_single, unitBlocks, List.range_one, List.flatMap_singleton, List.map_singleton,
    Nat.mul_one, Nat.mul_one]
  rfl

/-- A scan of one component that is written in units of its factors has the events of
single blocks just when the units have no block too many, are in raster order, and no
restart is due or each unit is one block. -/
theorem events_eq_iff (interval columns' rows' : Nat) (hcolumns : 1 ≤ columns) (hrows : 1 ≤ rows)
    (hhorizontal : 1 ≤ horizontal) (hvertical : 1 ≤ vertical) :
    events interval (interleaved columns rows [(horizontal, vertical)]) =
        events interval (raster columns' rows') ↔
      columns' = columns * horizontal ∧ rows' = rows * vertical ∧
        (vertical = 1 ∨ columns = 1) ∧
        (interval = 0 ∨ horizontal * vertical = 1 ∨ columns' * rows' ≤ interval) := by
  have hwidth : 1 * 1 ≤ columns * horizontal := Nat.mul_le_mul hcolumns hhorizontal
  have hheight : 1 * 1 ≤ rows * vertical := Nat.mul_le_mul hrows hvertical
  constructor
  · intro h
    have hflat := flatten_eq_of_events h
    have hmem : ∀ row column, (row < rows * vertical ∧ column < columns * horizontal) ↔
        (row < rows' ∧ column < columns') := fun row column => by
      rw [← mem_interleaved_single hhorizontal hvertical, hflat, mem_raster]
    have hlast := (hmem (rows * vertical - 1) (columns * horizontal - 1)).mp (by omega)
    have hlast' := (hmem (rows' - 1) (columns' - 1)).mpr (by omega)
    obtain rfl : columns' = columns * horizontal := by omega
    obtain rfl : rows' = rows * vertical := by omega
    refine ⟨rfl, rfl, ?_, ?_⟩
    · by_contra hne
      obtain ⟨hrow, hcolumn⟩ := not_or.mp hne
      refine not_pairwise_interleaved hrows hhorizontal (show 2 ≤ columns by omega)
        (show 2 ≤ vertical by omega) ?_
      rw [hflat]
      exact pairwise_raster
    · by_contra hne
      obtain ⟨hinterval, hne⟩ := not_or.mp hne
      obtain ⟨hsize, hmany⟩ := not_or.mp hne
      have hsingle : ∀ unit ∈ raster (columns * horizontal) (rows * vertical), unit.length = 1 := by
        intro unit hmem
        simp only [raster, List.mem_flatMap, List.mem_map] at hmem
        obtain ⟨_, -, _, -, rfl⟩ := hmem
        rfl
      have hblocks : ∀ unit ∈ interleaved columns rows [(horizontal, vertical)],
          unit.length = horizontal * vertical := by
        intro unit hmem
        simp only [interleaved, List.mem_flatMap, List.mem_map] at hmem
        obtain ⟨_, -, _, -, rfl⟩ := hmem
        rw [unit_single, length_unitBlocks]
      have hfirst := length_takeWhile_events hinterval hblocks
      rw [h, length_takeWhile_events hinterval hsingle, length_raster, length_interleaved,
        Nat.mul_one, Nat.min_eq_left (Nat.le_of_not_le hmany)] at hfirst
      have htwo : 1 * 1 ≤ horizontal * vertical := Nat.mul_le_mul hhorizontal hvertical
      obtain hle | hle := Nat.le_total interval (columns * rows)
      · rw [Nat.min_eq_left hle] at hfirst
        have hmore : interval * 2 ≤ interval * (horizontal * vertical) :=
          Nat.mul_le_mul_left _ (by omega)
        omega
      · rw [Nat.min_eq_right hle] at hfirst
        refine hmany (Nat.le_of_eq ?_)
        rw [hfirst]
        ac_rfl
  · rintro ⟨rfl, rfl, horder, hrestart⟩
    obtain hzero | hsize | hfew := hrestart
    · have hnone : ∀ number, ¬Due interval number := fun number hdue => hdue.1 hzero
      rw [events, events, eventsFrom_of_not_due fun number _ _ => hnone number,
        eventsFrom_of_not_due fun number _ _ => hnone number, flatten_interleaved_eq horder]
    · obtain rfl := Nat.eq_one_of_mul_eq_one_right hsize
      obtain rfl := Nat.eq_one_of_mul_eq_one_left hsize
      rw [Nat.mul_one, Nat.mul_one, interleaved_one]
    · have hless : columns * rows ≤ columns * horizontal * (rows * vertical) :=
        Nat.mul_le_mul (Nat.le_mul_of_pos_right _ hhorizontal)
          (Nat.le_mul_of_pos_right _ hvertical)
      have hnone : ∀ number < interval, ¬Due interval number := by
        rintro number hlt ⟨-, hne, hmod⟩
        rw [Nat.mod_eq_of_lt hlt] at hmod
        exact hne hmod
      rw [events, events, eventsFrom_of_not_due fun number _ hlt => hnone number ?_,
        eventsFrom_of_not_due fun number _ hlt => hnone number ?_, flatten_interleaved_eq horder]
      · rw [length_raster] at hlt
        omega
      · rw [length_interleaved] at hlt
        omega

end

end JpegLayout
