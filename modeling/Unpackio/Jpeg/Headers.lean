/-
What the headers of a WinZip JPEG say of a frame and of a scan, once they are
accepted.
-/
import Unpackio.Jpeg.ContextBounds
import Unpackio.Jpeg.Metadata

namespace Unpackio
namespace Jpeg

open List (map_append mem_append mem_singleton)

theorem okOr_ensures {α : Type} {o : Option α} {e : Error} :
    (okOr o e).Ensures fun a => o = some a := fun _ h => okOr_eq_ok.mp h

theorem rejectIf_ensures {c : Prop} [Decidable c] {e : Error} :
    (rejectIf c e).Ensures fun _ => ¬c :=
  fun _ h => rejectIf_eq_ok.mp h

theorem setAt_ensures {α : Type} {size : Nat} {table : Vector α size} {index : Nat} {value : α}
    {e : Error} : (okOr (setAt table index value) e).Ensures fun next =>
      ∃ h : index < size, next = table.set index value := by
  intro next hnext
  have hset := okOr_eq_ok.mp hnext
  rw [setAt] at hset
  by_cases h : index < size
  · rw [dif_pos h] at hset
    exact ⟨h, (Option.some.inj hset).symm⟩
  · rw [dif_neg h] at hset
    cases hset

theorem take_set {α : Type} {size : Nat} (table : Vector α size) {index : Nat} (h : index < size)
    (value : α) :
    (table.set index value).toList.take (index + 1) = table.toList.take index ++ [value] := by
  rw [Vector.toList_set, List.take_add_one, List.take_set_of_le (Nat.le_refl _),
    List.getElem?_set_self (by rwa [Vector.length_toList])]
  rfl

variable {count offset position : Nat}

theorem mem_take {α : Type} {size : Nat} {table : Vector α size} {index : Nat} {value : α}
    (hlt : index < count) (h : table[index]? = some value) : value ∈ table.toList.take count := by
  obtain ⟨hlow, rfl⟩ := Vector.getElem?_eq_some_iff.mp h
  rw [← Vector.getElem_toList (by rwa [Vector.length_toList])]
  exact List.mem_take_iff_getElem.mpr ⟨index, by rw [Vector.length_toList]; omega, rfl⟩

/-! ## The frame -/

/-- A component whose header was accepted. -/
structure Component.Fits (component : Component) : Prop where
  horizontal_pos : 1 ≤ component.horizontalFactor
  horizontal_le : component.horizontalFactor ≤ 4
  vertical_pos : 1 ≤ component.verticalFactor
  vertical_le : component.verticalFactor ≤ 4
  quantIndex : component.quantIndex < 4

def maxFactor (factors : List Nat) : Nat := factors.foldr max 0

theorem maxFactor_append (factors : List Nat) (factor : Nat) :
    maxFactor (factors ++ [factor]) = max (maxFactor factors) factor := by
  induction factors with
  | nil => exact Nat.max_comm _ _
  | cons first factors ih =>
    show max first (maxFactor (factors ++ [factor])) = max (max first (maxFactor factors)) factor
    rw [ih, Nat.max_assoc]

theorem le_maxFactor {factors : List Nat} {factor : Nat} (h : factor ∈ factors) :
    factor ≤ maxFactor factors := by
  induction factors with
  | nil => cases h
  | cons first factors ih =>
    show factor ≤ max first (maxFactor factors)
    obtain rfl | hmem := List.mem_cons.mp h
    · exact Nat.le_max_left _ _
    · exact Nat.le_trans (ih hmem) (Nat.le_max_right _ _)

def unitsOver (samples size : Nat) : Nat := (samples + (size - 1)) / size

namespace Metadata

def frame (metadata : Metadata) : List Component :=
  metadata.components.toList.take metadata.numComponents

def maxHorizontal (metadata : Metadata) : Nat := maxFactor (metadata.frame.map (·.horizontalFactor))

def maxVertical (metadata : Metadata) : Nat := maxFactor (metadata.frame.map (·.verticalFactor))

/-- A frame whose header was accepted. -/
structure Frame (metadata : Metadata) : Prop where
  count_pos : 1 ≤ metadata.numComponents
  count_le : metadata.numComponents ≤ 4
  fits : ∀ component ∈ metadata.frame, component.Fits
  single : metadata.numComponents = 1 → ∀ component ∈ metadata.frame,
    component.horizontalFactor = 1 ∧ component.verticalFactor = 1
  width_pos : 1 ≤ metadata.width
  width_lt : metadata.width < 2 ^ 16
  height_pos : 1 ≤ metadata.height
  height_lt : metadata.height < 2 ^ 16
  horizontal : metadata.horizontalMcus = unitsOver metadata.width (8 * metadata.maxHorizontal)
  vertical : metadata.verticalMcus = unitsOver metadata.height (8 * metadata.maxVertical)

end Metadata

/-- What the loop over the components has after so many of them. -/
structure FrameState.Holds (count : Nat) (state : FrameState) : Prop where
  fits : ∀ component ∈ state.components.toList.take count, component.Fits
  horizontal : state.maxHorizontal =
    max 1 (maxFactor ((state.components.toList.take count).map (·.horizontalFactor)))
  vertical : state.maxVertical =
    max 1 (maxFactor ((state.components.toList.take count).map (·.verticalFactor)))

section

variable (bytes : List UInt8)

theorem parseU16Be_ensures : (parseU16Be bytes offset).Ensures fun value => value < 2 ^ 16 := by
  refine .skip fun finish => .skip fun pair => ?_
  match pair with
  | [high, low] =>
    have hhigh := high.toNat_lt
    have hlow := low.toNat_lt
    exact .pure (by omega)
  | [] => exact .throw _
  | [_] => exact .throw _
  | _ :: _ :: _ :: _ => exact .throw _

theorem frameComponent_ensures {state : FrameState} (h : state.Holds count) :
    (frameComponent bytes offset state count).Ensures fun next => next.Holds (count + 1) := by
  refine .skip fun base => .skip fun identifier => .skip fun _ => .skip fun factorsOffset =>
    .skip fun factors => .skip fun quantOffset => .skip fun quantIndex => ?_
  refine .bind rejectIf_ensures fun _ hreject => ?_
  obtain ⟨⟨hhorizontal, hhorizontal'⟩, ⟨hvertical, hvertical'⟩, hquant⟩ :
      (1 ≤ (factors >>> 4).toNat ∧ (factors >>> 4).toNat ≤ 4) ∧
        (1 ≤ (factors &&& 0x0f).toNat ∧ (factors &&& 0x0f).toNat ≤ 4) ∧ quantIndex.toNat < 4 := by
    omega
  refine .bind setAt_ensures ?_
  rintro components ⟨hlow, rfl⟩
  refine .pure ⟨?_, ?_, ?_⟩
  · intro component hmem
    rw [take_set] at hmem
    obtain hmem | hmem := mem_append.mp hmem
    · exact h.fits component hmem
    · rw [mem_singleton.mp hmem]
      exact ⟨hhorizontal, hhorizontal', hvertical, hvertical', hquant⟩
  · show max state.maxHorizontal _ = _
    rw [take_set, map_append, List.map_singleton, maxFactor_append, h.horizontal,
      Nat.max_assoc]
  · show max state.maxVertical _ = _
    rw [take_set, map_append, List.map_singleton, maxFactor_append, h.vertical,
      Nat.max_assoc]

theorem first_mem (components : Vector Component 4) (h : 1 ≤ count) :
    components[0] ∈ components.toList.take count := mem_take h rfl

section

variable {state : FrameState} (h : state.Holds count) (hcount : 1 ≤ count)
include h hcount

theorem FrameState.Holds.max_eq {factor : Component → Nat}
    (hfactor : ∀ component : Component, component.Fits → 1 ≤ factor component) :
    max 1 (maxFactor ((state.components.toList.take count).map factor)) =
      maxFactor ((state.components.toList.take count).map factor) := by
  have hmem := first_mem state.components hcount
  exact Nat.max_eq_right (Nat.le_trans (hfactor _ (h.fits _ hmem))
    (le_maxFactor (List.mem_map_of_mem hmem)))

theorem singleComponent_holds :
    (singleComponent count state).Holds count ∧
      (count = 1 → ∀ component ∈ (singleComponent count state).components.toList.take count,
        component.horizontalFactor = 1 ∧ component.verticalFactor = 1) := by
  rw [singleComponent]
  by_cases hone : count = 1
  · subst hone
    rw [if_pos rfl]
    have hold := h.fits _ (first_mem _ (Nat.le_refl 1))
    have htake := take_set state.components (by decide : 0 < 4)
      { state.components[0] with horizontalFactor := 1, verticalFactor := 1 }
    rw [List.take_zero, List.nil_append] at htake
    refine ⟨⟨?_, ?_, ?_⟩, fun _ => ?_⟩
    · intro component hmem
      rw [htake, mem_singleton] at hmem
      subst hmem
      exact ⟨Nat.le_refl 1, Nat.le_of_ble_eq_true rfl, Nat.le_refl 1, Nat.le_of_ble_eq_true rfl,
        hold.quantIndex⟩
    · rw [htake]
      rfl
    · rw [htake]
      rfl
    · intro component hmem
      rw [htake, mem_singleton] at hmem
      subst hmem
      exact ⟨rfl, rfl⟩
  · rw [if_neg hone]
    exact ⟨h, fun heq => absurd heq hone⟩

end

theorem mcuCount_ensures {size factor : Nat} {sizeDetail underflow overflow : String} :
    (mcuCount size factor sizeDetail underflow overflow).Ensures fun count =>
      count = unitsOver size (8 * factor) := by
  refine .bind okOr_ensures fun mcuSize hmul => ?_
  refine .bind okOr_ensures fun rounding hsub => ?_
  refine .bind okOr_ensures fun sum hadd => ?_
  rw [checkedMul] at hmul
  split_ifs at hmul
  obtain rfl := Option.some.inj hmul
  obtain ⟨-, rfl⟩ := checkedSub_eq_some.mp hsub
  obtain ⟨-, rfl⟩ := checkedAdd_eq_some.mp hadd
  rw [unitsOver, Nat.mul_comm 8 factor]
  exact .pure rfl

/-! ## Quantization tables -/

theorem quantEntryValue_ensures {width : Nat} :
    (quantEntryValue bytes width offset).Ensures fun value => value < 2 ^ 16 := by
  refine .ite (fun _ => .skip fun value => .pure ?_) fun _ => parseU16Be_ensures bytes
  have hlt := value.toNat_lt
  show value.toNat < 2 ^ 16
  omega

def NonZeroBelow (count : Nat) (quant : QuantTable) : Prop :=
  ∀ value ∈ quant.toList.take count, value ≠ 0

theorem quantEntry_ensures {width : Nat} {quant : QuantTable} (h : NonZeroBelow count quant) :
    (quantEntry bytes position width quant count).Ensures (NonZeroBelow (count + 1)) := by
  refine .skip fun offset => .bind (quantEntryValue_ensures bytes) fun value hvalue => ?_
  refine .bind rejectIf_ensures fun _ hzero => setAt_ensures.mono ?_
  rintro next ⟨hlow, rfl⟩ entry hentry
  rw [take_set] at hentry
  obtain hmem | hmem := mem_append.mp hentry
  · exact h entry hmem
  · rw [mem_singleton.mp hmem]
    intro heq
    have hnat := congrArg UInt16.toNat heq
    rw [UInt16.toNat_ofNat_of_lt' hvalue] at hnat
    exact hzero hnat

end

namespace Metadata

/-- What every accepted header keeps. -/
structure Valid (metadata : Metadata) : Prop where
  quant : ∀ index (h : index < 4), metadata.quantPresent[index] = true →
    metadata.quantTables[index].NonZero
  frame : metadata.frameSeen = true → metadata.Frame

theorem default_valid : Metadata.default.Valid where
  quant index h hpresent := by
    rw [default, Vector.getElem_replicate] at hpresent
    cases hpresent
  frame hseen := nomatch hseen

theorem Frame.congr {metadata next : Metadata} (h : metadata.Frame)
    (hnum : next.numComponents = metadata.numComponents)
    (hcomponents : next.components = metadata.components) (hwidth : next.width = metadata.width)
    (hheight : next.height = metadata.height)
    (hhorizontal : next.horizontalMcus = metadata.horizontalMcus)
    (hvertical : next.verticalMcus = metadata.verticalMcus) : next.Frame := by
  have hframe : next.frame = metadata.frame := by rw [frame, frame, hnum, hcomponents]
  have hmaxH : next.maxHorizontal = metadata.maxHorizontal := by
    rw [maxHorizontal, maxHorizontal, hframe]
  have hmaxV : next.maxVertical = metadata.maxVertical := by
    rw [maxVertical, maxVertical, hframe]
  constructor
  · exact hnum ▸ h.count_pos
  · exact hnum ▸ h.count_le
  · rw [hframe]
    exact h.fits
  · rw [hframe, hnum]
    exact h.single
  · exact hwidth ▸ h.width_pos
  · exact hwidth ▸ h.width_lt
  · exact hheight ▸ h.height_pos
  · exact hheight ▸ h.height_lt
  · rw [hhorizontal, hmaxH, hwidth]
    exact h.horizontal
  · rw [hvertical, hmaxV, hheight]
    exact h.vertical

end Metadata

section

variable (bytes : List UInt8) {metadata : Metadata} (h : metadata.Valid)

include h

theorem parseDqtTable_ensures {finish : Nat} :
    (parseDqtTable bytes finish metadata position).Ensures fun result => result.1.Valid := by
  refine .skip fun descriptor => .skip fun position => .skip fun _ => .skip fun tableBytes =>
    .skip fun tableEnd => .skip fun _ => .skip fun quant => ?_
  have hloop : ∀ width, ((List.range 64).foldlM (quantEntry bytes position width) quant).Ensures
      (NonZeroBelow 64) := fun width =>
    .foldlM_range (fun value hmem => (nomatch hmem))
      fun index _ quant hquant => quantEntry_ensures bytes hquant
  refine .bind (hloop _) fun quant hquant => ?_
  refine .bind setAt_ensures ?_
  rintro quantTables ⟨hlow, rfl⟩
  refine .bind setAt_ensures ?_
  rintro quantPresent ⟨-, rfl⟩
  refine .pure ⟨fun index hindex hpresent => ?_, fun hseen => ?_⟩
  · dsimp only at hpresent ⊢
    rw [Vector.getElem_set] at hpresent ⊢
    split_ifs with heq
    · intro value hvalue
      refine hquant value ?_
      rw [List.take_of_length_le (by rw [Vector.length_toList])]
      exact Vector.mem_toList_iff.mpr hvalue
    · rw [if_neg heq] at hpresent
      exact h.quant index hindex hpresent
  · exact (h.frame hseen).congr rfl rfl rfl rfl rfl rfl

theorem parseDqtLoop_ensures {finish rounds : Nat} :
    (parseDqtLoop bytes finish rounds metadata position).Ensures fun result => result.1.Valid := by
  induction rounds generalizing metadata position with
  | zero => exact .pure h
  | succ rounds ih =>
    refine .ite (fun _ => ?_) fun _ => .pure h
    refine .bind (parseDqtTable_ensures bytes h) ?_
    rintro ⟨next, position⟩ hnext
    exact ih hnext

theorem parseDqt_ensures :
    (parseDqt bytes metadata offset).Ensures fun result => result.1.Valid := by
  refine .skip fun finish => .skip fun position => .skip fun _ => ?_
  refine .bind (parseDqtLoop_ensures bytes h) ?_
  rintro ⟨next, _⟩ hnext
  exact .pure hnext

theorem parseDhtTable_ensures :
    (parseDhtTable bytes metadata position).Ensures fun result => result.1.Valid := by
  refine .skip fun descriptor => .skip fun position => .skip fun _ => .skip fun counts =>
    .skip fun total => .skip fun _ => .skip fun symbols => .skip fun tables => .skip fun table =>
    .skip fun tables => .skip fun huffCodes => .skip fun present => .skip fun present =>
    .skip fun huffPresent => .pure ⟨h.quant, fun hseen => ?_⟩
  exact (h.frame hseen).congr rfl rfl rfl rfl rfl rfl

theorem parseDhtLoop_ensures {finish rounds : Nat} :
    (parseDhtLoop bytes finish rounds metadata position).Ensures fun result => result.1.Valid := by
  induction rounds generalizing metadata position with
  | zero => exact .pure h
  | succ rounds ih =>
    refine .ite (fun _ => ?_) fun _ => .pure h
    refine .bind (parseDhtTable_ensures bytes h) ?_
    rintro ⟨next, position⟩ hnext
    exact ih hnext

theorem parseDht_ensures :
    (parseDht bytes metadata offset).Ensures fun result => result.1.Valid := by
  refine .skip fun finish => .skip fun position => .skip fun _ => ?_
  refine .bind (parseDhtLoop_ensures bytes h) ?_
  rintro ⟨next, _⟩ hnext
  exact .skip fun _ => .pure hnext

theorem parseDri_ensures :
    (parseDri bytes metadata offset).Ensures fun result => result.1.Valid := by
  refine .skip fun finish => .skip fun _ => .skip fun offset => .skip fun interval => .pure ?_
  exact ⟨h.quant, fun hseen => (h.frame hseen).congr rfl rfl rfl rfl rfl rfl⟩

theorem parseSof_ensures {marker : UInt8} :
    (parseSof bytes metadata offset marker).Ensures fun result => result.1.Valid := by
  refine .skip fun finish => .skip fun size => .skip fun _ => .skip fun bitsOffset =>
    .skip fun bits => .skip fun _ => .skip fun heightOffset => .skip fun widthOffset =>
    .skip fun countOffset => ?_
  refine .bind (parseU16Be_ensures bytes) fun height hheight => ?_
  refine .bind (parseU16Be_ensures bytes) fun width hwidth => ?_
  refine .skip fun count => .bind rejectIf_ensures fun _ hgeometry => .skip fun _ => ?_
  generalize count.toNat = count at *
  have hloop : ((List.range count).foldlM (frameComponent bytes offset)
      { components := metadata.components, identifiers := [], maxHorizontal := 1,
        maxVertical := 1 }).Ensures (FrameState.Holds count) :=
    .foldlM_range ⟨fun component hmem => (nomatch hmem), rfl, rfl⟩
      fun index _ state hstate => frameComponent_ensures bytes hstate
  refine .bind hloop fun state hstate => ?_
  have hcount : 1 ≤ count ∧ count ≤ 4 := by omega
  have hwidth' : 1 ≤ width := by omega
  have hheight' : 1 ≤ height := by omega
  obtain ⟨hholds, hsingle⟩ := singleComponent_holds hstate hcount.1
  refine .bind mcuCount_ensures fun horizontalMcus hhorizontal => ?_
  refine .bind mcuCount_ensures fun verticalMcus hvertical => .pure ?_
  refine ⟨h.quant, fun _ => ?_⟩
  refine ⟨hcount.1, hcount.2, hholds.fits, hsingle, hwidth', hwidth, hheight', hheight, ?_, ?_⟩
  · rw [hholds.horizontal,
      hholds.max_eq hcount.1 fun _ hfits => hfits.horizontal_pos] at hhorizontal
    exact hhorizontal
  · rw [hholds.vertical, hholds.max_eq hcount.1 fun _ hfits => hfits.vertical_pos] at hvertical
    exact hvertical

end

namespace Metadata

/-- A component of a scan whose header was accepted. -/
structure Selects (metadata : Metadata) (scan : ScanComponent) : Prop where
  componentIndex : scan.componentIndex < metadata.numComponents
  dcTable : (metadata.huffPresent[0]?.bind fun tables => tables[scan.dcTable]?) = some true
  acTable : (metadata.huffPresent[1]?.bind fun tables => tables[scan.acTable]?) = some true
  quant : ∀ component, metadata.components[scan.componentIndex]? = some component →
    metadata.quantPresent[component.quantIndex]? = some true

def scan (metadata : Metadata) : List ScanComponent :=
  metadata.scanComponents.toList.take metadata.numScanComponents

/-- A scan whose header was accepted. -/
structure Scan (metadata : Metadata) : Prop where
  frame : metadata.Frame
  count_pos : 1 ≤ metadata.numScanComponents
  count_le : metadata.numScanComponents ≤ metadata.numComponents
  selects : ∀ scan ∈ metadata.scan, metadata.Selects scan
  distinct : (metadata.scan.map (·.componentIndex)).Nodup

end Metadata

/-- What the loop over the components of a scan has after so many of them. -/
structure ScanState.Holds (metadata : Metadata) (count : Nat) (state : ScanState) : Prop where
  selects : ∀ scan ∈ state.scanComponents.toList.take count, metadata.Selects scan
  distinct : ((state.scanComponents.toList.take count).map (·.componentIndex)).Nodup
  selected : ∀ scan ∈ state.scanComponents.toList.take count,
    state.selected[scan.componentIndex]? = some true

section

variable (bytes : List UInt8) {metadata : Metadata}

theorem scanComponent_ensures {state : ScanState} (h : state.Holds metadata count) :
    (scanComponent bytes metadata offset state count).Ensures fun next =>
      next.Holds metadata (count + 1) := by
  refine .skip fun base => .skip fun identifier => ?_
  refine .bind okOr_ensures fun frameComponents hframe => ?_
  refine .bind okOr_ensures fun componentIndex hfind => ?_
  refine .bind okOr_ensures fun selection hselection => ?_
  refine .bind rejectIf_ensures fun _ hfresh => ?_
  refine .bind setAt_ensures ?_
  rintro selected ⟨hlow, rfl⟩
  refine .skip fun selectorsOffset => .skip fun selectors => ?_
  refine .bind okOr_ensures fun component hcomponent => ?_
  refine .bind rejectIf_ensures fun _ htables => ?_
  refine .bind setAt_ensures ?_
  rintro scanComponents ⟨hscan, rfl⟩
  obtain ⟨-, hcount, rfl⟩ := getRange_eq_some.mp hframe
  obtain ⟨hindex, -⟩ := List.findIdx?_eq_some_iff_getElem.mp hfind
  have hnum : componentIndex < metadata.numComponents := by
    rw [List.drop_zero, List.length_take] at hindex
    omega
  simp only [not_or, not_not] at htables
  obtain ⟨-, -, hdc, hac, hquant⟩ := htables
  refine .pure ⟨?_, ?_, ?_⟩
  · intro scan hmem
    dsimp only at hmem
    rw [take_set] at hmem
    obtain hmem | hmem := mem_append.mp hmem
    · exact h.selects scan hmem
    · rw [mem_singleton.mp hmem]
      refine ⟨hnum, hdc, hac, fun other hother => ?_⟩
      rw [hcomponent] at hother
      exact Option.some.inj hother ▸ hquant
  · dsimp only
    rw [take_set, map_append, List.map_singleton, List.nodup_append]
    refine ⟨h.distinct, List.pairwise_singleton _ _, ?_⟩
    rintro first hfirst _ hlast rfl
    obtain ⟨scan, hmem, rfl⟩ := List.mem_map.mp hfirst
    have heq : scan.componentIndex = componentIndex := mem_singleton.mp hlast
    have hold := h.selected scan hmem
    rw [heq, hselection] at hold
    exact hfresh (Option.some.inj hold)
  · intro scan hmem
    dsimp only at hmem ⊢
    rw [take_set] at hmem
    rw [Vector.getElem?_set]
    split_ifs with heq
    · rfl
    · obtain hmem | hmem := mem_append.mp hmem
      · exact h.selected scan hmem
      · rw [mem_singleton.mp hmem] at heq
        exact absurd rfl heq

theorem parseSos_ensures (h : metadata.Valid) :
    (parseSos bytes metadata offset).Ensures fun result => result.1.Valid ∧ result.1.Scan := by
  refine .bind rejectIf_ensures fun _ hseen => .skip fun finish => .skip fun size =>
    .skip fun countOffset => .skip fun count => ?_
  generalize count.toNat = count
  refine .bind rejectIf_ensures fun _ hcount => .skip fun _ => ?_
  have hloop : ((List.range count).foldlM (scanComponent bytes metadata offset)
      { scanComponents := metadata.scanComponents, selected := Vector.replicate 4 false }).Ensures
        (ScanState.Holds metadata count) :=
    .foldlM_range ⟨fun scan hmem => (nomatch hmem), List.nodup_nil, fun scan hmem => (nomatch hmem)⟩
      fun index _ state hstate => scanComponent_ensures bytes hstate
  refine .bind hloop fun state hstate => .skip fun spectral => .skip fun spectralEnd =>
    .skip fun _ => .pure ?_
  have hframe := h.frame (Bool.not_eq_false _ |>.mp hseen)
  have hcount' : 1 ≤ count ∧ count ≤ metadata.numComponents := not_not.mp hcount
  have hkept : ∀ scanComponents, Metadata.Frame { metadata with
      scanComponents := scanComponents, numScanComponents := count } := fun _ =>
    hframe.congr rfl rfl rfl rfl rfl rfl
  refine ⟨⟨h.quant, fun _ => hkept _⟩, hkept _, hcount'.1, hcount'.2, fun scan hmem => ?_,
    hstate.distinct⟩
  obtain ⟨hindex, hdc, hac, hquant⟩ := hstate.selects scan hmem
  exact ⟨hindex, hdc, hac, hquant⟩

end

section

variable (bytes : List UInt8)

theorem parseSegment_ensures {metadata : Metadata} {marker : UInt8} (h : metadata.Valid) :
    (parseSegment bytes metadata marker offset).Ensures fun result =>
      result.1.Valid ∧ (result.2 = .inl .scan → result.1.Scan) := by
  refine .ite (fun _ => .pure ⟨h, fun heq => nomatch heq⟩) fun _ => ?_
  refine .ite (fun _ => .skip fun _ => .pure ⟨h, fun heq => nomatch heq⟩) fun _ => ?_
  refine .ite (fun _ => ?_) fun _ => .ite (fun _ => ?_) fun _ => .ite (fun _ => ?_) fun _ =>
    .ite (fun _ => ?_) fun _ => .ite (fun _ => ?_) fun _ => .ite (fun _ => .throw _) fun _ =>
    .ite (fun _ => .throw _) fun _ => .skip fun _ => .pure ⟨h, fun heq => nomatch heq⟩
  · exact .bind (parseDht_ensures bytes h) fun _ hnext => .pure ⟨hnext, fun heq => nomatch heq⟩
  · exact .bind (parseDqt_ensures bytes h) fun _ hnext => .pure ⟨hnext, fun heq => nomatch heq⟩
  · exact .bind (parseDri_ensures bytes h) fun _ hnext => .pure ⟨hnext, fun heq => nomatch heq⟩
  · exact .bind (parseSof_ensures bytes h) fun _ hnext => .pure ⟨hnext, fun heq => nomatch heq⟩
  · exact .bind (parseSos_ensures bytes h) fun _ hnext => .skip fun _ =>
      .pure ⟨hnext.1, fun _ => hnext.2⟩

theorem parseMetadata_keeps (kept started : Metadata → Prop)
    (hsegment : ∀ metadata marker offset, kept metadata →
      (parseSegment bytes metadata marker offset).Ensures fun result =>
        kept result.1 ∧ (result.2 = .inl .scan → started result.1))
    {metadata : Metadata} (h : kept metadata) :
    (parseMetadata bytes metadata).Ensures fun result =>
      kept result.1 ∧ (result.2 = .scan → started result.1) := by
  have hloop : ∀ rounds offset, ∀ metadata : Metadata, kept metadata →
      (parseMetadataLoop bytes rounds metadata offset).Ensures fun result =>
        kept result.1 ∧ (result.2 = .scan → started result.1) := by
    intro rounds
    induction rounds with
    | zero => exact fun _ _ _ => .throw _
    | succ rounds ih =>
      intro offset metadata hmetadata
      refine .skip fun marker => .bind (hsegment metadata marker.1 marker.2 hmetadata) ?_
      rintro ⟨next, result | offset⟩ ⟨hnext, hscan⟩
      · exact .pure ⟨hnext, fun heq => hscan (congrArg Sum.inl heq)⟩
      · exact ih offset next hnext
  exact hloop _ _ metadata h

theorem parseMetadata_ensures {metadata : Metadata} (h : metadata.Valid) :
    (parseMetadata bytes metadata).Ensures fun result =>
      result.1.Valid ∧ (result.2 = .scan → result.1.Scan) :=
  parseMetadata_keeps bytes Metadata.Valid Metadata.Scan (fun _ _ _ => parseSegment_ensures bytes) h

end

namespace Metadata

/-- What `parse_metadata` has read so far, over all bundles. -/
inductive Parsed : Metadata → Prop
  | default : Parsed .default
  | bundle {metadata next : Metadata} {bytes : List UInt8} {result : MetadataResult}
      (before : Parsed metadata) (h : parseMetadata bytes metadata = .ok (next, result)) :
      Parsed next

/-- What `parse_metadata` has read where a scan starts. -/
def Scanned (metadata : Metadata) : Prop :=
  ∃ before bytes, before.Parsed ∧ parseMetadata bytes before = .ok (metadata, .scan)

theorem Parsed.valid {metadata : Metadata} (h : metadata.Parsed) : metadata.Valid := by
  induction h with
  | default => exact default_valid
  | bundle _ hparse ih => exact (parseMetadata_ensures _ ih _ hparse).1

theorem Scanned.valid {metadata : Metadata} (h : metadata.Scanned) :
    metadata.Valid ∧ metadata.Scan := by
  obtain ⟨before, bytes, hbefore, hparse⟩ := h
  have hresult := parseMetadata_ensures bytes hbefore.valid _ hparse
  exact ⟨hresult.1, hresult.2 rfl⟩

end Metadata

end Jpeg
end Unpackio
