/-
The totals of a frame loop over the concatenation of two streams.

`step` counts a piece when no counter is full.  Of the checks on the way only two
depend on more than one piece: the limit on the frames, and the sum of the content
sizes, which goes on until a frame has none.
-/
import Unpackio.Stream.Frames

namespace Unpackio

def countIf (format : String) (counts : Bool) (count : Nat) (overflowDetail : String) :
    Except Error Nat :=
  if counts then okOr (checkedAdd count 1) (streamFormatError format overflowDetail) else .ok count

theorem countIf_of_room (format : String) (counts : Bool) {count : Nat} (h : count + 1 < 2 ^ 64)
    (overflowDetail : String) :
    countIf format counts count overflowDetail = .ok (count + counts.toNat) := by
  cases counts with
  | false => rfl
  | true => rw [countIf, if_pos rfl, checkedAdd_of_lt h, okOr_some, Bool.toNat_true]

theorem countIf_ok {format : String} {counts : Bool} {count next : Nat} {detail : String}
    (h : countIf format counts count detail = .ok next) : next = count + counts.toNat := by
  cases counts with
  | false => exact (Except.ok.inj h).symm
  | true =>
    rw [countIf, if_pos rfl] at h
    exact (checkedAdd_eq_ok.mp h).2.symm

def addContentSize (format : String) : Option Nat → Option Nat → Except Error (Option Nat)
  | some total, some size =>
    some <$> okOr (checkedAdd total size)
      (streamFormatError format "aggregate content size overflows")
  | _, _ => .ok none

def sumSize : Option Nat → Option Nat → Option Nat
  | some total, some size => some (total + size)
  | _, _ => none

theorem sumSize_zero (total : Option Nat) : sumSize total (some 0) = total := by
  cases total <;> rfl

theorem sumSize_assoc (a b c : Option Nat) : sumSize (sumSize a b) c = sumSize a (sumSize b c) := by
  cases a <;> cases b <;> cases c <;> simp only [sumSize, Nat.add_assoc]

def knownSizes : List (Option Nat) → Nat
  | some size :: sizes => size + knownSizes sizes
  | _ => 0

/-- The sum goes on from a total without filling 64 bits. -/
def SizesFit (total : Option Nat) (sizes : List (Option Nat)) : Prop :=
  ∀ known ∈ total, known + knownSizes sizes < 2 ^ 64

instance (total : Option Nat) (sizes : List (Option Nat)) : Decidable (SizesFit total sizes) :=
  match total with
  | none => .isTrue fun _ h => (nomatch h)
  | some known => decidable_of_iff (known + knownSizes sizes < 2 ^ 64)
    ⟨fun h _ hmem => Option.some.inj hmem ▸ h, fun h => h known rfl⟩

@[simp] theorem sizesFit_none (sizes : List (Option Nat)) : SizesFit none sizes :=
  fun _ h => (nomatch h)

@[simp] theorem sizesFit_some {total : Nat} {sizes : List (Option Nat)} :
    SizesFit (some total) sizes ↔ total + knownSizes sizes < 2 ^ 64 :=
  ⟨fun h => h total rfl, fun h _ hmem => Option.some.inj hmem ▸ h⟩

theorem addContentSize_ok {format : String} {total size next : Option Nat}
    (h : addContentSize format total size = .ok next) : next = sumSize total size := by
  cases total with
  | none => exact (Except.ok.inj h).symm
  | some total =>
    cases size with
    | none => exact (Except.ok.inj h).symm
    | some size =>
      obtain ⟨sum, hsum, rfl⟩ := Except.map_eq_ok.mp h
      rw [sumSize, (checkedAdd_eq_ok.mp hsum).2]

theorem addContentSize_eq (format : String) {total size : Option Nat}
    (h : SizesFit total []) :
    addContentSize format total size =
      if SizesFit total [size] then .ok (sumSize total size)
      else .error (streamFormatError format "aggregate content size overflows") := by
  cases total with
  | none => exact (if_pos (sizesFit_none _)).symm
  | some total =>
    cases size with
    | none => exact (if_pos h).symm
    | some size =>
      have hfit : SizesFit (some total) [some size] ↔ total + size < 2 ^ 64 := sizesFit_some
      rw [addContentSize, checkedAdd]
      by_cases hsum : total + size < 2 ^ 64
      · rw [if_pos hsum, if_pos (hfit.mpr hsum)]
        rfl
      · rw [if_neg hsum, if_neg (hfit.not.mpr hsum)]
        rfl

theorem sizesFit_cons {total size : Option Nat} {sizes : List (Option Nat)} :
    SizesFit total (size :: sizes) ↔
      SizesFit total [size] ∧ SizesFit (sumSize total size) sizes := by
  cases total with
  | none => simp only [sumSize, sizesFit_none, and_self]
  | some total =>
    cases size with
    | none => simp only [sumSize, sizesFit_none, sizesFit_some, knownSizes, and_true]
    | some size =>
      simp only [sumSize, sizesFit_some, knownSizes]
      omega

theorem sizesFit_of_fit {total : Option Nat} {sizes : List (Option Nat)}
    (h : SizesFit total sizes) : SizesFit total [] := by
  intro known hmem
  have hfit := h known hmem
  simp only [knownSizes]
  omega

theorem sizesFit_append {total : Option Nat} {front rest : List (Option Nat)} :
    SizesFit total (front ++ rest) ↔
      SizesFit total front ∧ SizesFit (front.foldl sumSize total) rest := by
  induction front generalizing total with
  | nil => exact ⟨fun h => ⟨sizesFit_of_fit h, h⟩, fun h => h.2⟩
  | cons size front ih =>
    rw [List.cons_append, sizesFit_cons, ih, List.foldl_cons, ← and_assoc, ← sizesFit_cons]

/-! ## Counting -/

/-- How totals count pieces: `step` is one piece, and `merge` puts the totals of a
stream behind those of another that ends at an offset.  There is `room` for a
number of pieces while no counter is full. -/
structure Counting (σ P : Type) where
  empty : σ
  step : σ → Nat → Piece P → σ
  frames : σ → Nat
  skippable : σ → Nat
  ranges : σ → List (Nat × Nat)
  contents : σ → List (Option Nat)
  size : P → Option Nat
  aggregate : σ → Option Nat
  room : σ → Nat → Prop
  merge : σ → Nat → σ → σ

namespace Counting

variable {σ P : Type} (counting : Counting σ P)

def run : σ → Nat → List (Piece P) → σ
  | totals, _, [] => totals
  | totals, start, piece :: pieces =>
    run (counting.step totals start piece) (start + piece.bytes.length) pieces

def dataRanges : Nat → List (Piece P) → List (Nat × Nat)
  | _, [] => []
  | start, ⟨bytes, none⟩ :: pieces => dataRanges (start + bytes.length) pieces
  | start, ⟨bytes, some _⟩ :: pieces =>
    (start, start + bytes.length) :: dataRanges (start + bytes.length) pieces

def skippables (pieces : List (Piece P)) : Nat := pieces.countP fun piece => piece.frame.isNone

def sizes (pieces : List (Piece P)) : List (Option Nat) :=
  (pieces.filterMap Piece.frame).map counting.size

/-- What `step` says of `count`. -/
structure Lawful (format : FrameFormat σ) (Frame : List UInt8 → P → Prop)
    (add : Nat → Nat → P → σ → Except Error σ) (limits : Limits) : Prop where
  count_ok : ∀ totals start piece totals', format.count add totals start piece = .ok totals' →
    totals' = counting.step totals start piece
  count_eq : ∀ totals start piece n, FrameFormat.Whole Frame piece →
    counting.room totals (n + 1) →
    SizesFit (counting.aggregate totals) [] →
      format.count add totals start piece =
        if SizesFit (counting.aggregate totals) (counting.sizes [piece]) then
          .ok (counting.step totals start piece)
        else .error (streamFormatError format.name "aggregate content size overflows")
  frames_step : ∀ totals start piece,
    counting.frames (counting.step totals start piece) = counting.frames totals + 1
  skippable_step : ∀ totals start piece,
    counting.skippable (counting.step totals start piece) =
      counting.skippable totals + skippables [piece]
  ranges_step : ∀ totals start piece,
    counting.ranges (counting.step totals start piece) =
      counting.ranges totals ++ dataRanges start [piece]
  contents_step : ∀ totals start piece,
    counting.contents (counting.step totals start piece) =
      counting.contents totals ++ counting.sizes [piece]
  aggregate_step : ∀ totals start piece,
    counting.aggregate (counting.step totals start piece) =
      (counting.sizes [piece]).foldl sumSize (counting.aggregate totals)
  room_step : ∀ totals start piece n, counting.room totals (n + 1) →
    counting.room (counting.step totals start piece) n
  frames_empty : counting.frames counting.empty = 0
  skippable_empty : counting.skippable counting.empty = 0
  ranges_empty : counting.ranges counting.empty = []
  contents_empty : counting.contents counting.empty = []
  aggregate_empty : counting.aggregate counting.empty = some 0
  room_empty : ∀ n, n ≤ limits.maxStreamFrames → n < 2 ^ 64 → counting.room counting.empty n
  merge_empty : ∀ totals offset, counting.merge totals offset counting.empty = totals
  merge_step : ∀ totals offset next start piece,
    counting.merge totals offset (counting.step next start piece) =
      counting.step (counting.merge totals offset next) (offset + start) piece

variable {counting} {format : FrameFormat σ} {Frame : List UInt8 → P → Prop}
  {add : Nat → Nat → P → σ → Except Error σ} {limits : Limits}

theorem sizes_cons (piece : Piece P) (pieces : List (Piece P)) :
    counting.sizes (piece :: pieces) = counting.sizes [piece] ++ counting.sizes pieces := by
  obtain ⟨bytes, frame | frame⟩ := piece <;> rfl

theorem sizes_append (front rest : List (Piece P)) :
    counting.sizes (front ++ rest) = counting.sizes front ++ counting.sizes rest := by
  rw [sizes, List.filterMap_append, List.map_append]
  rfl

theorem run_append (front rest : List (Piece P)) (totals : σ) (start : Nat) :
    counting.run totals start (front ++ rest) =
      counting.run (counting.run totals start front) (start + (frameBytes front).length) rest := by
  induction front generalizing totals start with
  | nil => rfl
  | cons piece front ih =>
    rw [List.cons_append, run, run, ih, frameBytes_cons, List.length_append, Nat.add_assoc]

namespace Lawful

variable (lawful : counting.Lawful format Frame add limits)
include lawful

section

variable (totals : σ) (start : Nat) (pieces : List (Piece P))

theorem frames_run :
    counting.frames (counting.run totals start pieces) =
      counting.frames totals + pieces.length := by
  induction pieces generalizing totals start with
  | nil => rfl
  | cons piece pieces ih =>
    rw [run, ih, lawful.frames_step, List.length_cons]
    omega

theorem skippable_run :
    counting.skippable (counting.run totals start pieces) =
      counting.skippable totals + skippables pieces := by
  induction pieces generalizing totals start with
  | nil => rfl
  | cons piece pieces ih =>
    have hsplit : skippables (piece :: pieces) = skippables [piece] + skippables pieces :=
      @List.countP_append _ _ [piece] pieces
    rw [run, ih, lawful.skippable_step, hsplit, Nat.add_assoc]

theorem ranges_run :
    counting.ranges (counting.run totals start pieces) =
      counting.ranges totals ++ dataRanges start pieces := by
  induction pieces generalizing totals start with
  | nil => exact (List.append_nil _).symm
  | cons piece pieces ih =>
    rw [run, ih, lawful.ranges_step, List.append_assoc]
    obtain ⟨bytes, frame | frame⟩ := piece <;> rfl

theorem contents_run :
    counting.contents (counting.run totals start pieces) =
      counting.contents totals ++ counting.sizes pieces := by
  induction pieces generalizing totals start with
  | nil => exact (List.append_nil _).symm
  | cons piece pieces ih =>
    rw [run, ih, lawful.contents_step, List.append_assoc, ← sizes_cons]

theorem aggregate_run :
    counting.aggregate (counting.run totals start pieces) =
      (counting.sizes pieces).foldl sumSize (counting.aggregate totals) := by
  induction pieces generalizing totals start with
  | nil => rfl
  | cons piece pieces ih =>
    rw [run, ih, lawful.aggregate_step, sizes_cons piece pieces, List.foldl_append]

end

theorem merge_run (totals next : σ) (offset start : Nat) (pieces : List (Piece P)) :
    counting.merge totals offset (counting.run next start pieces) =
      counting.run (counting.merge totals offset next) (offset + start) pieces := by
  induction pieces generalizing next start with
  | nil => rfl
  | cons piece pieces ih => rw [run, run, ih, lawful.merge_step, Nat.add_assoc]

theorem tally_ok {totals totals' : σ} {start : Nat} {pieces : List (Piece P)}
    (h : format.tally add totals start pieces = .ok totals') :
    totals' = counting.run totals start pieces := by
  induction pieces generalizing totals start with
  | nil => exact (Except.ok.inj h).symm
  | cons piece pieces ih =>
    obtain ⟨next, hcount, hrest⟩ := Except.bind_eq_ok.mp h
    rw [lawful.count_ok totals start piece next hcount] at hrest
    exact ih hrest

theorem tally_eq {totals : σ} {start : Nat} {pieces : List (Piece P)}
    (hwhole : ∀ piece ∈ pieces, FrameFormat.Whole Frame piece)
    (hroom : counting.room totals pieces.length)
      (htotal : SizesFit (counting.aggregate totals) []) :
    format.tally add totals start pieces =
      if SizesFit (counting.aggregate totals) (counting.sizes pieces) then
        .ok (counting.run totals start pieces)
      else .error (streamFormatError format.name "aggregate content size overflows") := by
  induction pieces generalizing totals start with
  | nil => exact (if_pos htotal).symm
  | cons piece pieces ih =>
    obtain ⟨hpiece, hpieces⟩ := List.forall_mem_cons.mp hwhole
    rw [FrameFormat.tally, lawful.count_eq totals start piece pieces.length hpiece hroom htotal]
    have hsplit : SizesFit (counting.aggregate totals) (counting.sizes (piece :: pieces)) ↔
        SizesFit (counting.aggregate totals) (counting.sizes [piece]) ∧
          SizesFit (counting.aggregate (counting.step totals start piece))
            (counting.sizes pieces) := by
      rw [sizes_cons, sizesFit_append, lawful.aggregate_step]
    by_cases hfirst : SizesFit (counting.aggregate totals) (counting.sizes [piece])
    · have hnext : SizesFit (counting.aggregate (counting.step totals start piece)) [] := by
        rw [lawful.aggregate_step]
        rw [← List.append_nil (counting.sizes [piece]), sizesFit_append] at hfirst
        exact hfirst.2
      rw [if_pos hfirst, Except.ok_bind, ih hpieces (lawful.room_step _ _ _ _ hroom) hnext]
      exact if_congr (by rw [hsplit]; exact ⟨fun h => ⟨hfirst, h⟩, fun h => h.2⟩) rfl rfl
    · rw [if_neg hfirst, if_neg fun h => hfirst (hsplit.mp h).1]
      rfl

end Lawful

end Counting

namespace FrameFormat

open StreamCursor Counting

variable {σ P : Type} {format : FrameFormat σ} {starts : Nat → Prop}
  {Frame : List UInt8 → P → Prop} {add : Nat → Nat → P → σ → Except Error σ} {limits : Limits}
  {counting : Counting σ P}

def scan (format : FrameFormat σ) (initial : σ) (input : List UInt8) : Except Error σ := do
  let (totals, _) ← format.loop (input.length + 1) initial (.new input format.name)
  return totals

theorem scan_frame_error {initial entered : σ} {input : List UInt8} {e : Error} (hne : input ≠ [])
    (henter : format.enter initial = .ok entered)
    (hframe : format.frame entered (.split format.name [] input) = .error e) :
    format.scan initial input = .error e := by
  rw [scan, new_eq_split, loop_split, if_neg hne, henter, Except.ok_bind, hframe]
  rfl

/-- The bytes from an offset on are a row of frames: the data frames have the given
ranges, and the others are skippable and of the given number. -/
inductive Tiles : List UInt8 → Nat → List (Nat × Nat) → Nat → Prop
  | done (start : Nat) : Tiles [] start [] 0
  | data (magic : Nat) (body : List UInt8) {rest : List UInt8} {start : Nat}
      {ranges : List (Nat × Nat)} {skippable : Nat} :
      ¬IsSkippable magic →
      Tiles rest (start + (le32 magic ++ body).length) ranges skippable →
      Tiles (le32 magic ++ body ++ rest) start
        ((start, start + (le32 magic ++ body).length) :: ranges) skippable
  | skippable {bytes rest : List UInt8} {start : Nat} {ranges : List (Nat × Nat)}
      {skippable : Nat} :
      Skippable bytes → Tiles rest (start + bytes.length) ranges skippable →
      Tiles (bytes ++ rest) start ranges (skippable + 1)

section

variable {pieces : List (Piece P)} (lawful : format.Lawful starts Frame add)
  (h : ∀ piece ∈ pieces, Whole Frame piece)
include lawful h

theorem Lawful.tiles (start : Nat) :
    Tiles (frameBytes pieces) start (dataRanges start pieces) (skippables pieces) := by
  induction pieces generalizing start with
  | nil => exact .done start
  | cons piece pieces ih =>
    obtain ⟨hpiece, hpieces⟩ := List.forall_mem_cons.mp h
    obtain ⟨bytes, frame | frame⟩ := piece
    · have hcount : skippables (⟨bytes, none⟩ :: pieces) = skippables pieces + 1 :=
        List.countP_cons_of_pos rfl
      rw [hcount]
      exact .skippable hpiece (ih hpieces _)
    · obtain ⟨magic, body, rfl, -, -, hmagic, -⟩ := lawful.reads bytes frame hpiece
      exact .data magic body hmagic (ih hpieces _)

theorem Lawful.length_pieces : pieces.length ≤ (frameBytes pieces).length := by
  induction pieces with
  | nil => exact Nat.le_refl 0
  | cons piece pieces ih =>
    obtain ⟨hpiece, hpieces⟩ := List.forall_mem_cons.mp h
    obtain ⟨magic, body, -, -, hbytes⟩ := lawful.piece_starts hpiece
    have hpos : 0 < piece.bytes.length := by
      rw [hbytes]
      exact Nat.zero_lt_succ _
    have htail := ih hpieces
    rw [frameBytes_cons, List.length_append, List.length_cons]
    omega

theorem Lawful.scan_run (hlen : (frameBytes pieces).length < 2 ^ 64) (initial : σ) :
    format.scan initial (frameBytes pieces) = format.tally add initial 0 pieces := by
  have hfuel := lawful.length_pieces h
  have hrun := lawful.loop_run h (show ([] ++ frameBytes pieces).length < 2 ^ 64 from hlen) initial
    (Nat.lt_succ_of_le hfuel)
  rw [scan, new_eq_split, hrun]
  cases format.tally add initial 0 pieces <;> rfl

end

variable (lawful : format.Lawful starts Frame add) (laws : counting.Lawful format Frame add limits)
include lawful laws

theorem Lawful.scan_ok {input : List UInt8} {totals : σ} (hlen : input.length < 2 ^ 64)
    (h : format.scan counting.empty input = .ok totals) :
    ∃ pieces, (∀ piece ∈ pieces, Whole Frame piece) ∧ input = frameBytes pieces ∧
      format.tally add counting.empty 0 pieces = .ok totals ∧
      totals = counting.run counting.empty 0 pieces := by
  obtain ⟨⟨last, next⟩, hloop, -⟩ := Except.bind_eq_ok.mp h
  rw [new_eq_split] at hloop
  obtain ⟨pieces, hpieces, rfl⟩ := lawful.loop_ok (show ([] ++ input).length <
    2 ^ 64 from hlen) hloop
  rw [lawful.scan_run hpieces hlen] at h
  exact ⟨pieces, hpieces, rfl, h, laws.tally_ok h⟩

theorem Lawful.scan_append {a b : List UInt8} {ta tb : σ} (hlen : (a ++ b).length < 2 ^ 64)
    (ha : format.scan counting.empty a = .ok ta) (hb : format.scan counting.empty b = .ok tb)
    (hframes : counting.frames ta + counting.frames tb ≤ limits.maxStreamFrames) :
    (format.scan counting.empty (a ++ b) =
      if SizesFit (counting.aggregate ta) (counting.contents tb) then
        .ok (counting.merge ta a.length tb)
      else .error (streamFormatError format.name "aggregate content size overflows")) ∧
    Tiles (a ++ b) 0 (counting.ranges (counting.merge ta a.length tb))
      (counting.skippable (counting.merge ta a.length tb)) := by
  rw [List.length_append] at hlen
  obtain ⟨piecesA, hwholeA, rfl, htallyA, rfl⟩ := lawful.scan_ok laws (by omega) ha
  obtain ⟨piecesB, hwholeB, rfl, -, rfl⟩ := lawful.scan_ok laws (by omega) hb
  rw [laws.frames_run, laws.frames_run, laws.frames_empty, Nat.zero_add, Nat.zero_add] at hframes
  have hwhole : ∀ piece ∈ piecesA ++ piecesB, Whole Frame piece :=
    fun piece hmem => (List.mem_append.mp hmem).elim (hwholeA piece) (hwholeB piece)
  have hcountA := lawful.length_pieces hwholeA
  have hcountB := lawful.length_pieces hwholeB
  -- The totals of both streams are those of all pieces, from the first offset on.
  have hmerge : counting.merge (counting.run counting.empty 0 piecesA) (frameBytes piecesA).length
      (counting.run counting.empty 0 piecesB) =
        counting.run counting.empty 0 (piecesA ++ piecesB) := by
    rw [laws.merge_run, laws.merge_empty, run_append, Nat.zero_add, Nat.add_zero]
  have hroom : counting.room counting.empty (piecesA ++ piecesB).length :=
    laws.room_empty _ (by rw [List.length_append]; exact hframes)
      (by rw [List.length_append]; omega)
  have htotal : SizesFit (counting.aggregate counting.empty) [] := by
    rw [laws.aggregate_empty]
    exact sizesFit_some.mpr (by decide)
  have hroomA : counting.room counting.empty piecesA.length :=
    laws.room_empty _ (by omega) (by omega)
  have hfitA : SizesFit (counting.aggregate counting.empty) (counting.sizes piecesA) := by
    rw [laws.tally_eq hwholeA hroomA htotal] at htallyA
    refine Decidable.byContradiction fun hfull => ?_
    rw [if_neg hfull] at htallyA
    exact (nomatch htallyA)
  rw [hmerge]
  constructor
  · rw [← frameBytes_append, lawful.scan_run hwhole
      (by rw [frameBytes_append, List.length_append]; omega),
      laws.tally_eq hwhole hroom htotal]
    refine if_congr ?_ rfl rfl
    rw [sizes_append, sizesFit_append, laws.aggregate_run, laws.contents_run, laws.contents_empty,
      List.nil_append]
    exact ⟨fun h => h.2, fun h => ⟨hfitA, h⟩⟩
  · rw [laws.ranges_run, laws.ranges_empty, List.nil_append, laws.skippable_run,
      laws.skippable_empty, Nat.zero_add, ← frameBytes_append]
    exact lawful.tiles hwhole 0

end FrameFormat

/-- The table of a scan that counts a frame. -/
theorem table_of_scan {σ τ : Type} {scan : Except Error σ} {fits : Prop} [Decidable fits]
    {totals : σ} {missing error : Error} {empty : σ → Prop} [DecidablePred empty] {table : σ → τ}
    (hscan : scan = if fits then .ok totals else .error error) (hsome : ¬empty totals) :
    (scan >>= fun totals => rejectIf (empty totals) missing >>= fun _ => .ok (table totals)) =
      if fits then .ok (table totals) else .error error := by
  rw [hscan]
  by_cases hfits : fits
  · rw [if_pos hfits, if_pos hfits, Except.ok_bind, rejectIf_of_not hsome]
    rfl
  · rw [if_neg hfits, if_neg hfits]
    rfl

end Unpackio
