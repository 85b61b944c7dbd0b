/-
The frame loop that `stream/lz4.rs` and `stream/zstandard.rs` share.

A stream is a row of frames, and a skippable frame is the same in both formats.
What differs is a `FrameFormat`: how a data frame is read and what is counted.
An accepted stream is cut into pieces, and the loop does for the stream what
`tally` does for the pieces.
-/
import Unpackio.Stream.Cursor

namespace Unpackio

open List (append_assoc)
open Except (bind_eq_ok ok_bind)

def lz4Magic : Nat := 0x184d2204

def lz4LegacyMagic : Nat := 0x184c2102

def skippableMagicStart : Nat := 0x184d2a50

def skippableMagicEnd : Nat := 0x184d2a5f

def zstandardMagic : Nat := 0xfd2fb528

def checkFrameCount (count : Nat) (limits : Limits) : Except Error Unit :=
  checkLimit count limits.maxStreamFrames .streamFrames

abbrev IsSkippable (magic : Nat) : Prop :=
  skippableMagicStart ≤ magic ∧ magic ≤ skippableMagicEnd

/-- What a frame loop counts in `σ`, and how it reads a data frame that starts at
an offset and has a magic number. -/
structure FrameFormat (σ : Type) where
  name : String
  enter : σ → Except Error σ
  skipped : σ → Except Error σ
  dataFrame : Nat → Nat → σ → Scanning σ

namespace FrameFormat

open StreamCursor

variable {σ P : Type} (format : FrameFormat σ)

def skipFrame : Scanning Unit := do
  let length ← StreamCursor.readU32Le "skippable frame size is truncated"
  skip length "skippable frame payload is truncated"

def skippableFrame (totals : σ) : Scanning σ := do
  skipFrame
  format.skipped totals

/-- One round of the loop. -/
def frame (totals : σ) : Scanning σ := fun cursor => do
  let (magic, next) ← StreamCursor.readU32Le "frame magic is truncated" cursor
  if IsSkippable magic then format.skippableFrame totals next
  else format.dataFrame cursor.position magic totals next

/-- A frame takes its magic number at least, so the length of the input is fuel
enough. -/
def loop : Nat → σ → Scanning σ
  | 0, _ => throw (streamFormatError format.name "frame count overflows")
  | fuel + 1, totals => fun cursor => do
    let remaining ← cursor.remaining
    if remaining = [] then return (totals, cursor)
    else do
      let totals ← format.enter totals
      let (totals, cursor) ← format.frame totals cursor
      loop fuel totals cursor

end FrameFormat

/-! ## Pieces -/

/-- The bytes of one frame, and what a data frame says. -/
structure Piece (P : Type) where
  bytes : List UInt8
  frame : Option P

def frameBytes {P : Type} (pieces : List (Piece P)) : List UInt8 := pieces.flatMap Piece.bytes

@[simp] theorem frameBytes_nil {P : Type} : frameBytes ([] : List (Piece P)) = [] := rfl

@[simp] theorem frameBytes_cons {P : Type} (piece : Piece P) (pieces : List (Piece P)) :
    frameBytes (piece :: pieces) = piece.bytes ++ frameBytes pieces := rfl

@[simp] theorem frameBytes_append {P : Type} (front rest : List (Piece P)) :
    frameBytes (front ++ rest) = frameBytes front ++ frameBytes rest := List.flatMap_append

def Skippable (bytes : List UInt8) : Prop :=
  ∃ magic payload, IsSkippable magic ∧ payload.length < 2 ^ 32 ∧
    bytes = le32 magic ++ le32 payload.length ++ payload

def Boundary (starts : Nat → Prop) (rest : List UInt8) : Prop :=
  rest = [] ∨ ∃ magic body, starts magic ∧ magic < 2 ^ 32 ∧ rest = le32 magic ++ body

/-- `Frame` holds of the data frames and what they say, and `add` counts one
between two offsets. -/
structure FrameFormat.Lawful {σ P : Type} (format : FrameFormat σ) (starts : Nat → Prop)
    (Frame : List UInt8 → P → Prop) (add : Nat → Nat → P → σ → Except Error σ) : Prop where
  skippable_starts : ∀ magic, IsSkippable magic → starts magic
  reads : ∀ bytes parsed, Frame bytes parsed →
    ∃ magic body, bytes = le32 magic ++ body ∧ magic < 2 ^ 32 ∧ starts magic ∧
      ¬IsSkippable magic ∧ ∀ front rest totals, Boundary starts rest →
        (front ++ bytes ++ rest).length < 2 ^ 64 →
          format.dataFrame front.length magic totals
              (.split format.name (front ++ le32 magic) (body ++ rest)) =
            (add front.length (front.length + bytes.length) parsed totals).map
              fun totals => (totals, .split format.name (front ++ bytes) rest)
  delimits : ∀ front magic tail totals totals' next, magic < 2 ^ 32 → ¬IsSkippable magic →
    (front ++ le32 magic ++ tail).length < 2 ^ 64 →
      format.dataFrame front.length magic totals
          (.split format.name (front ++ le32 magic) tail) = .ok (totals', next) →
        ∃ body rest parsed, tail = body ++ rest ∧
          next = .split format.name (front ++ le32 magic ++ body) rest ∧
          Frame (le32 magic ++ body) parsed ∧
          add front.length (front.length + (le32 magic ++ body).length) parsed totals = .ok totals'

namespace FrameFormat

open StreamCursor Delimited

variable {σ P : Type} {format : FrameFormat σ} {starts : Nat → Prop}
  {Frame : List UInt8 → P → Prop} {add : Nat → Nat → P → σ → Except Error σ}

def Whole (Frame : List UInt8 → P → Prop) (piece : Piece P) : Prop :=
  match piece.frame with
  | none => Skippable piece.bytes
  | some parsed => Frame piece.bytes parsed

def count (format : FrameFormat σ) (add : Nat → Nat → P → σ → Except Error σ) (totals : σ)
    (start : Nat) (piece : Piece P) : Except Error σ := do
  let totals ← format.enter totals
  match piece.frame with
  | none => format.skipped totals
  | some parsed => add start (start + piece.bytes.length) parsed totals

def tally (format : FrameFormat σ) (add : Nat → Nat → P → σ → Except Error σ) :
    σ → Nat → List (Piece P) → Except Error σ
  | totals, _, [] => .ok totals
  | totals, start, piece :: pieces => do
    let totals ← format.count add totals start piece
    format.tally add totals (start + piece.bytes.length) pieces

section

variable (lawful : format.Lawful starts Frame add)
include lawful

theorem Lawful.piece_starts {piece : Piece P} (h : Whole Frame piece) :
    ∃ magic body, starts magic ∧ magic < 2 ^ 32 ∧ piece.bytes = le32 magic ++ body := by
  obtain ⟨bytes, frame⟩ := piece
  cases frame with
  | none =>
    obtain ⟨magic, payload, hmagic, -, hbytes⟩ := h
    have hlt : magic < 2 ^ 32 := Nat.lt_of_le_of_lt hmagic.2 (by decide)
    exact ⟨magic, _, lawful.skippable_starts magic hmagic, hlt,
      hbytes.trans (append_assoc _ _ _)⟩
  | some parsed =>
    obtain ⟨magic, body, hbytes, hlt, hstarts, -⟩ := lawful.reads bytes parsed h
    exact ⟨magic, body, hstarts, hlt, hbytes⟩

theorem Lawful.boundary {pieces : List (Piece P)} (h : ∀ piece ∈ pieces, Whole Frame piece) :
    Boundary starts (frameBytes pieces) := by
  cases pieces with
  | nil => exact .inl rfl
  | cons piece pieces =>
    obtain ⟨magic, body, hstarts, hlt, hbytes⟩ :=
      lawful.piece_starts (h piece List.mem_cons_self)
    refine .inr ⟨magic, body ++ frameBytes pieces, hstarts, hlt, ?_⟩
    rw [frameBytes_cons, hbytes, append_assoc]

end

theorem skipFrame_takes {payload : List UInt8} (hpayload : payload.length < 2 ^ 32) :
    Takes (track format.name) (fun _ => True) skipFrame (le32 payload.length ++ payload) () :=
  Takes.bind (readU32Le_takes hpayload _) (skip_takes payload _)

variable {front tail : List UInt8}

theorem skipFrame_ok {next : StreamCursor}
    (h : skipFrame (.split format.name front tail) = .ok ((), next)) :
    ∃ payload rest, payload.length < 2 ^ 32 ∧ tail = le32 payload.length ++ payload ++ rest ∧
      next = .split format.name (front ++ (le32 payload.length ++ payload)) rest := by
  obtain ⟨⟨length, middle⟩, hlength, hskip⟩ := bind_eq_ok.mp h
  obtain ⟨rest, hlt, rfl, rfl⟩ := readU32Le_ok hlength
  obtain ⟨⟨payload, last⟩, hpayload, hlast⟩ := bind_eq_ok.mp hskip
  obtain ⟨rfl, rest, rfl, rfl⟩ := readBytes_ok hpayload
  cases hlast
  exact ⟨payload, rest, hlt, by rw [append_assoc], by rw [append_assoc]⟩

theorem skippableFrame_run (totals : σ) (cursor : StreamCursor) :
    format.skippableFrame totals cursor =
      skipFrame cursor >>= fun result =>
        (format.skipped totals).map fun totals => (totals, result.2) := by
  unfold skippableFrame
  rw [Delimited.run_bind]
  refine congrArg (Except.bind (skipFrame cursor)) (funext fun result => ?_)
  cases format.skipped totals <;> rfl

theorem frame_split {magic : Nat} (hmagic : magic < 2 ^ 32)
    (hlen : (front ++ le32 magic ++ tail).length < 2 ^ 64) (totals : σ) :
    format.frame totals (.split format.name front (le32 magic ++ tail)) =
      if IsSkippable magic then
        format.skippableFrame totals (.split format.name (front ++ le32 magic) tail)
      else format.dataFrame front.length magic totals
        (.split format.name (front ++ le32 magic) tail) := by
  have hread : StreamCursor.readU32Le "frame magic is truncated"
      (split format.name front (le32 magic ++ tail)) =
      .ok (magic, split format.name (front ++ le32 magic) tail) :=
    readU32Le_takes hmagic _ front tail trivial hlen
  rw [frame, hread]
  rfl

theorem Lawful.frame_run (lawful : format.Lawful starts Frame add) {piece : Piece P}
    (h : Whole Frame piece) {rest : List UInt8} (hrest : Boundary starts rest)
    (hlen : (front ++ piece.bytes ++ rest).length < 2 ^ 64) (totals : σ) :
    format.frame totals (.split format.name front (piece.bytes ++ rest)) =
      (match piece.frame with
      | none => format.skipped totals
      | some parsed => add front.length (front.length + piece.bytes.length) parsed totals).map
        fun totals => (totals, .split format.name (front ++ piece.bytes) rest) := by
  obtain ⟨bytes, parsed | parsed⟩ := piece
  · obtain ⟨magic, payload, hmagic, hpayload, rfl⟩ := h
    have hlt : magic < 2 ^ 32 := Nat.lt_of_le_of_lt hmagic.2 (by decide)
    simp only [append_assoc] at hlen ⊢
    have hskip : skipFrame (split format.name (front ++ le32 magic)
        (le32 payload.length ++ (payload ++ rest))) =
          .ok ((), split format.name (front ++ le32 magic ++ (le32 payload.length ++ payload))
            rest) := by
      rw [← append_assoc (le32 payload.length)]
      exact skipFrame_takes hpayload _ rest trivial
        (by simpa only [track_bound, append_assoc] using hlen)
    rw [frame_split hlt (by simpa only [append_assoc] using hlen), if_pos hmagic,
      skippableFrame_run, hskip, ok_bind]
    simp only [append_assoc]
  · obtain ⟨magic, body, rfl, hlt, -, hdata, hreads⟩ := lawful.reads bytes parsed h
    have hrun := hreads front rest totals hrest hlen
    simp only [append_assoc] at hlen hrun ⊢
    rw [frame_split hlt (by simpa only [append_assoc] using hlen), if_neg hdata, hrun]

theorem Lawful.frame_ok (lawful : format.Lawful starts Frame add) {totals totals' : σ}
    {next : StreamCursor} (hlen : (front ++ tail).length < 2 ^ 64)
    (h : format.frame totals (.split format.name front tail) = .ok (totals', next)) :
    ∃ piece rest, Whole Frame piece ∧ tail = piece.bytes ++ rest ∧
      next = .split format.name (front ++ piece.bytes) rest := by
  obtain ⟨⟨magic, middle⟩, hread, -⟩ := bind_eq_ok.mp h
  obtain ⟨rest, hlt, rfl, -⟩ := readU32Le_ok hread
  rw [frame_split hlt (by simpa only [append_assoc] using hlen)] at h
  by_cases hmagic : IsSkippable magic
  · rw [if_pos hmagic, skippableFrame_run] at h
    obtain ⟨⟨⟨⟩, last⟩, hskip, h⟩ := bind_eq_ok.mp h
    obtain ⟨payload, rest, hpayload, rfl, rfl⟩ := skipFrame_ok hskip
    obtain ⟨_, -, heq⟩ := Except.map_eq_ok.mp h
    cases heq
    refine ⟨⟨le32 magic ++ le32 payload.length ++ payload, none⟩, rest,
      ⟨magic, payload, hmagic, hpayload, rfl⟩, ?_, ?_⟩ <;> simp only [append_assoc]
  · rw [if_neg hmagic] at h
    obtain ⟨body, rest, parsed, rfl, rfl, hframe, -⟩ := lawful.delimits front magic rest totals
      totals' next hlt hmagic (by simpa only [append_assoc] using hlen) h
    exact ⟨⟨le32 magic ++ body, some parsed⟩, rest, hframe, by rw [append_assoc],
      by rw [append_assoc]⟩

theorem loop_split (fuel : Nat) (totals : σ) (front tail : List UInt8) :
    format.loop (fuel + 1) totals (.split format.name front tail) =
      if tail = [] then .ok (totals, .split format.name front tail)
      else format.enter totals >>= fun totals =>
        format.frame totals (.split format.name front tail) >>= fun result =>
          format.loop fuel result.1 result.2 := by
  show (remaining (split format.name front tail) >>= fun remaining => _) = _
  rw [remaining_split]
  rfl

theorem Lawful.loop_run (lawful : format.Lawful starts Frame add) {pieces : List (Piece P)}
    (h : ∀ piece ∈ pieces, Whole Frame piece) (hlen : (front ++ frameBytes pieces).length < 2 ^ 64)
    (totals : σ) {fuel : Nat} (hfuel : pieces.length < fuel) :
    format.loop fuel totals (.split format.name front (frameBytes pieces)) =
      (format.tally add totals front.length pieces).map fun totals =>
        (totals, .split format.name (front ++ frameBytes pieces) []) := by
  induction pieces generalizing front totals fuel with
  | nil =>
    obtain ⟨fuel, rfl⟩ := Nat.exists_eq_add_of_lt (Nat.zero_lt_of_lt hfuel)
    rw [Nat.zero_add, frameBytes_nil, loop_split, if_pos rfl, List.append_nil]
    rfl
  | cons piece pieces ih =>
    obtain ⟨hpiece, hpieces⟩ := List.forall_mem_cons.mp h
    obtain ⟨fuel, rfl⟩ := Nat.exists_eq_add_of_lt (Nat.zero_lt_of_lt hfuel)
    obtain ⟨magic, body, -, -, hbytes⟩ := lawful.piece_starts hpiece
    have hsome : piece.bytes ++ frameBytes pieces ≠ [] := by
      rw [hbytes]
      exact List.cons_ne_nil _ _
    have hlen' : (front ++ piece.bytes ++ frameBytes pieces).length < 2 ^ 64 := by
      rwa [append_assoc]
    have hfuel' : pieces.length < fuel := by
      rw [List.length_cons] at hfuel
      omega
    rw [Nat.zero_add, frameBytes_cons, loop_split, if_neg hsome, tally, count]
    cases format.enter totals with
    | error e => rfl
    | ok totals =>
      rw [ok_bind, ok_bind,
        lawful.frame_run hpiece (lawful.boundary hpieces) hlen' totals]
      generalize (match piece.frame with
        | none => format.skipped totals
        | some parsed => add front.length (front.length + piece.bytes.length) parsed totals) =
            counted
      cases counted with
      | error e => rfl
      | ok totals =>
        have htail := ih hpieces hlen' totals hfuel'
        rw [List.length_append, append_assoc] at htail
        exact htail

theorem Lawful.loop_ok (lawful : format.Lawful starts Frame add) {fuel : Nat} {totals totals' : σ}
    {next : StreamCursor} (hlen : (front ++ tail).length < 2 ^ 64)
    (h : format.loop fuel totals (.split format.name front tail) = .ok (totals', next)) :
    ∃ pieces, (∀ piece ∈ pieces, Whole Frame piece) ∧ tail = frameBytes pieces := by
  induction fuel generalizing front tail totals with
  | zero => exact (nomatch h)
  | succ fuel ih =>
    rw [loop_split] at h
    by_cases hempty : tail = []
    · exact ⟨[], fun _ hmem => absurd hmem List.not_mem_nil, hempty⟩
    · rw [if_neg hempty] at h
      obtain ⟨entered, -, h⟩ := bind_eq_ok.mp h
      obtain ⟨⟨middle, cursor⟩, hframe, h⟩ := bind_eq_ok.mp h
      obtain ⟨piece, rest, hpiece, rfl, rfl⟩ := lawful.frame_ok hlen hframe
      obtain ⟨pieces, hpieces, rfl⟩ := ih (by rwa [append_assoc]) h
      exact ⟨piece :: pieces, List.forall_mem_cons.mpr ⟨hpiece, hpieces⟩, rfl⟩

end FrameFormat

end Unpackio
