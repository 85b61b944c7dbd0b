/-
Opening a standalone stream, from `stream/mod.rs`, with the header of Unix
`compress` from `stream/unix_compress.rs`.

Every accepted stream of frames has a data frame behind some skippable ones.  The
loop of `detect_format` passes over the same skippable frames as the parsers, so
that it finds the format that accepts a stream.
-/
import Unpackio.Stream.Lz4
import Unpackio.Stream.UnixCompress
import Unpackio.Stream.Zstandard
import Unpackio.Stream.Lz4Table
import Unpackio.Stream.ZstandardTable

namespace Unpackio

namespace UnixCompress

def headerBytes : Nat := 3

def magic : List UInt8 := [0x1f, 0x9d]

structure UnixCompressStreamInfo where
  maximumCodeBits : Nat
  blockMode : Bool
  dictionaryBytes : Nat
  deriving DecidableEq, Repr

structure UnixCompressLayout where
  maximumCodeBits : Nat
  blockMode : Bool
  dictionaryEntries : Nat
  dictionaryBytes : Nat
  deriving DecidableEq, Repr

def bytesPerEntry : Nat := 4

def parse (input : List UInt8) (limits : Limits) :
    Except Error (UnixCompressStreamInfo × UnixCompressLayout) := do
  let header ← okOr (getRange input 0 headerBytes) (compressError "header is truncated")
  rejectIf (getRange header 0 magic.length ≠ some magic) (compressError "magic does not match")
  checkFrameCount 1 limits
  let flags ← okOr header[2]? (compressError "flags byte is truncated")
  rejectIf (flags &&& 0x60 ≠ 0) (compressError "reserved header flags are set")
  let maximumCodeBits := (flags &&& 0x1f).toNat
  rejectIf (¬(9 ≤ maximumCodeBits ∧ maximumCodeBits ≤ 16))
    (compressError "maximum code width is outside 9 through 16 bits")
  let dictionaryEntries ← okOr (checkedShl 64 1 maximumCodeBits)
    (compressError "dictionary size overflows")
  let dictionaryBytes ← okOr (tryFrom 64 (dictionaryEntries * bytesPerEntry))
    (compressError "dictionary byte size overflows")
  checkLimit dictionaryBytes limits.maxDictionaryBytes .dictionaryBytes
  let blockMode : Bool := flags &&& 0x80 != 0
  return ({ maximumCodeBits := maximumCodeBits, blockMode := blockMode,
            dictionaryBytes := dictionaryBytes },
    { maximumCodeBits := maximumCodeBits, blockMode := blockMode,
      dictionaryEntries := dictionaryEntries, dictionaryBytes := dictionaryBytes })

end UnixCompress

inductive StreamFormat where
  | lz4
  | zstandard
  | unixCompress
  deriving DecidableEq, Repr

inductive StreamInfoKind where
  | lz4 (info : Lz4.Lz4StreamInfo)
  | zstandard (info : Zstandard.ZstandardStreamInfo)
  | unixCompress (info : UnixCompress.UnixCompressStreamInfo)
  deriving DecidableEq, Repr

structure StreamInfo where
  format : StreamFormat
  compressedSize : Nat
  uncompressedSize : Option Nat
  kind : StreamInfoKind
  deriving DecidableEq, Repr

inductive StreamLayout where
  | lz4 (frames : List Lz4.Lz4Frame)
  | zstandard (frames : List Zstandard.ZstandardFrame)
  | unixCompress (layout : UnixCompress.UnixCompressLayout)
  deriving DecidableEq, Repr

structure CompressedStream where
  bytes : List UInt8
  info : StreamInfo
  layout : StreamLayout
  limits : Limits

def detectError (detail : String) : Error := streamFormatError "compressed" detail

def skippableEnd (bytes : List UInt8) (sizeStart : Nat) : Except Error Nat := do
  let sizeEnd ← okOr (checkedAdd sizeStart 4) (detectError "skippable frame header overflows")
  let sizeBytes ← okOr (getRange bytes sizeStart sizeEnd)
    (detectError "skippable frame header is truncated")
  let position ← okOr (checkedAdd sizeEnd (fromLeBytes sizeBytes))
    (detectError "skippable frame range overflows")
  rejectIf (bytes.length < position) (detectError "skippable frame payload is truncated")
  return position

/-- One round of the loop of `detect_format`: a format, or where to go on. -/
def detectRound (bytes : List UInt8) (position : Nat) : Except Error (StreamFormat ⊕ Nat) := do
  let magicEnd ← okOr (checkedAdd position 4) (detectError "magic range overflows")
  let magicBytes ← okOr (getRange bytes position magicEnd)
    (detectError "input has no supported magic")
  let magic := fromLeBytes magicBytes
  if magic = lz4Magic ∨ magic = lz4LegacyMagic then return .inl .lz4
  else if magic = zstandardMagic then return .inl .zstandard
  else if IsSkippable magic then .inr <$> skippableEnd bytes magicEnd
  else throw (detectError "input has no supported magic")

def detectLoop (bytes : List UInt8) : Nat → Nat → Option (Except Error StreamFormat)
  | 0, _ => none
  | rounds + 1, position =>
    match detectRound bytes position with
    | .error e => some (.error e)
    | .ok (.inl format) => some (.ok format)
    | .ok (.inr next) => detectLoop bytes rounds next

/-- Every round moves on, so the length of the input bounds the rounds. -/
def detectFormat (bytes : List UInt8) : Except Error StreamFormat :=
  if getRange bytes 0 UnixCompress.magic.length = some UnixCompress.magic then .ok .unixCompress
  else (detectLoop bytes (bytes.length + 1) 0).getD
    (.error (detectError "input has no supported magic"))

section

variable (xxHash32 : List UInt8 → UInt64)

def parseAs (format : StreamFormat) (bytes : List UInt8) (limits : Limits) :
    Except Error (StreamInfoKind × Option Nat × StreamLayout) :=
  match format with
  | .lz4 => do
    let (info, size, frames) ← Lz4.parse xxHash32 bytes limits
    return (.lz4 info, size, .lz4 frames)
  | .zstandard => do
    let (info, size, frames) ← Zstandard.parse bytes limits
    return (.zstandard info, size, .zstandard frames)
  | .unixCompress => do
    let (info, layout) ← UnixCompress.parse bytes limits
    return (.unixCompress info, none, .unixCompress layout)

def checkUncompressedSize (uncompressedSize : Option Nat) (limits : Limits) : Except Error Unit :=
  match uncompressedSize with
  | none => .ok ()
  | some size => do
    checkLimit size limits.maxEntryOutputBytes .entryOutputBytes
    checkLimit size limits.maxTotalOutputBytes .totalOutputBytes

def requestedOr (requestedFormat : Option StreamFormat) (bytes : List UInt8) :
    Except Error StreamFormat :=
  match requestedFormat with
  | some format => .ok format
  | none => detectFormat bytes

def openBytesInner (bytes : List UInt8) (requestedFormat : Option StreamFormat) (limits : Limits) :
    Metered CompressedStream := do
  checkLimit bytes.length limits.maxTotalInputBytes .totalInputBytes
  consumeBytes bytes
  let format ← requestedOr requestedFormat bytes
  let (kind, uncompressedSize, layout) ← parseAs xxHash32 format bytes limits
  checkUncompressedSize uncompressedSize limits
  return { bytes := bytes
           info := { format := format, compressedSize := bytes.length,
                     uncompressedSize := uncompressedSize, kind := kind }
           layout := layout
           limits := limits }

def openBytes (bytes : List UInt8) (limits : Limits) : Metered CompressedStream :=
  openBytesInner xxHash32 bytes none limits

def openBytesAs (bytes : List UInt8) (format : StreamFormat) (limits : Limits) :
    Metered CompressedStream :=
  openBytesInner xxHash32 bytes (some format) limits

end

/-! ## Detection -/

open List (append_assoc flatten_cons forall_mem_cons length_append length_cons)
open Except (bind_eq_ok ok_bind)
open FrameFormat (Whole)

section

variable {bytes : List UInt8} {position next : Nat}

theorem skippableEnd_bounds (h : skippableEnd bytes position = .ok next) :
    position < next ∧ next ≤ bytes.length := by
  simp only [skippableEnd, bind_eq_ok, okOr_eq_ok, checkedAdd_eq_some, rejectIf_eq_ok] at h
  obtain ⟨sizeEnd, ⟨-, rfl⟩, sizeBytes, -, finish, ⟨-, rfl⟩, _, hle, h⟩ := h
  cases h
  omega

theorem detectRound_next (h : detectRound bytes position = .ok (.inr next)) :
    position < next ∧ next ≤ bytes.length := by
  simp only [detectRound, bind_eq_ok, okOr_eq_ok, checkedAdd_eq_some] at h
  obtain ⟨magicEnd, ⟨-, rfl⟩, magicBytes, -, h⟩ := h
  split at h
  · exact (nomatch h)
  · split at h
    · exact (nomatch h)
    · split at h
      · obtain ⟨finish, hfinish, heq⟩ := Except.map_eq_ok.mp h
        cases heq
        have hbounds := skippableEnd_bounds hfinish
        omega
      · exact (nomatch h)

theorem detectLoop_enough {rounds : Nat} (hposition : position ≤ bytes.length)
    (hrounds : bytes.length < position + rounds) :
    ∃ result, ∀ further, detectLoop bytes (rounds + further) position = some result := by
  induction rounds generalizing position with
  | zero => omega
  | succ rounds ih =>
    simp only [Nat.add_right_comm rounds 1, detectLoop]
    cases hround : detectRound bytes position with
    | error e => exact ⟨_, fun _ => rfl⟩
    | ok found =>
      cases found with
      | inl format => exact ⟨_, fun _ => rfl⟩
      | inr next =>
        obtain ⟨hlt, hle⟩ := detectRound_next hround
        exact ih hle (by omega)

end

def announced (magic : Nat) : Option StreamFormat :=
  if magic = lz4Magic ∨ magic = lz4LegacyMagic then some .lz4
  else if magic = zstandardMagic then some .zstandard
  else none

variable {magic : Nat} {format : StreamFormat}

theorem announced_lt (h : announced magic = some format) : magic < 2 ^ 32 ∧ magic % 256 ≠ 0x1f := by
  unfold announced at h
  split at h
  · rename_i hmagic
    rcases hmagic with rfl | rfl <;> decide
  · split at h
    · rename_i hmagic
      rw [hmagic]
      decide
    · exact (nomatch h)

theorem isSkippable_lt (h : IsSkippable magic) :
    magic < 2 ^ 32 ∧ magic % 256 ≠ 0x1f ∧ announced magic = none := by
  obtain ⟨hstart, hend⟩ := h
  have hlz4 : ¬(magic = lz4Magic ∨ magic = lz4LegacyMagic) := by
    simp only [skippableMagicStart, skippableMagicEnd, lz4Magic, lz4LegacyMagic] at *
    omega
  have hzstd : magic ≠ zstandardMagic := by
    simp only [skippableMagicEnd, zstandardMagic] at *
    omega
  refine ⟨?_, ?_, ?_⟩
  · simp only [skippableMagicEnd] at hend
    omega
  · simp only [skippableMagicStart, skippableMagicEnd] at hstart hend
    omega
  · rw [announced, if_neg hlz4, if_neg hzstd]

theorem detectRound_magic {front tail : List UInt8} (hmagic : magic < 2 ^ 32)
    (hlen : (front ++ le32 magic ++ tail).length < 2 ^ 64) :
    detectRound (front ++ le32 magic ++ tail) front.length =
      match announced magic with
      | some format => .ok (.inl format)
      | none =>
        if IsSkippable magic then
          .inr <$> skippableEnd (front ++ le32 magic ++ tail) (front.length + 4)
        else .error (detectError "input has no supported magic") := by
  have hcount : (le32 magic).length = 4 := length_toLeBytes 4 magic
  have hroom : front.length + 4 < 2 ^ 64 := by
    simp only [length_append, hcount] at hlen
    omega
  have hrange : getRange (front ++ le32 magic ++ tail) front.length (front.length + 4) =
      some (le32 magic) := by
    have hdrop : (front ++ le32 magic ++ tail).drop front.length = le32 magic ++ tail := by
      rw [append_assoc, List.drop_left]
    refine getRange_of_drop ?_ hdrop (by rw [hcount])
    rw [length_append, length_append]
    omega
  have hvalue : fromLeBytes (le32 magic) = magic := by
    rw [le32, fromLeBytes_toLeBytes, bytePow_four, Nat.mod_eq_of_lt hmagic]
  rw [detectRound, checkedAdd_bind hroom, hrange, okOr_bind, hvalue, announced]
  by_cases hlz4 : magic = lz4Magic ∨ magic = lz4LegacyMagic
  · simp only [if_pos hlz4]
    rfl
  · by_cases hzstd : magic = zstandardMagic
    · simp only [if_neg hlz4, if_pos hzstd]
      rfl
    · simp only [if_neg hlz4, if_neg hzstd]
      rfl

theorem detectRound_skippable {front bytes rest : List UInt8} (h : Skippable bytes)
    (hlen : (front ++ bytes ++ rest).length < 2 ^ 64) :
    detectRound (front ++ bytes ++ rest) front.length =
      .ok (.inr (front ++ bytes).length) := by
  obtain ⟨magic, payload, hmagic, hpayload, rfl⟩ := h
  obtain ⟨hlt, -, hnone⟩ := isSkippable_lt hmagic
  have hcount : ∀ value, (le32 value).length = 4 := length_toLeBytes 4
  have hwhole : front ++ (le32 magic ++ le32 payload.length ++ payload) ++ rest =
      front ++ le32 magic ++ (le32 payload.length ++ (payload ++ rest)) := by
    simp only [append_assoc]
  have hend : (front ++ (le32 magic ++ le32 payload.length ++ payload)).length =
      front.length + 4 + 4 + payload.length := by
    simp only [length_append, hcount]
    omega
  have htotal : front.length + 4 + 4 + payload.length + rest.length < 2 ^ 64 := by
    rw [← hend, ← length_append]
    exact hlen
  have hrange : getRange (front ++ le32 magic ++ (le32 payload.length ++ (payload ++ rest)))
      (front.length + 4) (front.length + 4 + 4) = some (le32 payload.length) := by
    have hdrop : (front ++ le32 magic ++ (le32 payload.length ++ (payload ++ rest))).drop
        (front.length + 4) = le32 payload.length ++ (payload ++ rest) := by
      rw [← hcount magic, ← length_append, List.drop_left]
    refine getRange_of_drop ?_ hdrop (by rw [hcount])
    simp only [length_append, hcount]
    omega
  have hvalue : fromLeBytes (le32 payload.length) = payload.length := by
    rw [le32, fromLeBytes_toLeBytes, bytePow_four, Nat.mod_eq_of_lt hpayload]
  have hfits : ¬(front ++ le32 magic ++ (le32 payload.length ++ (payload ++ rest))).length <
      front.length + 4 + 4 + payload.length := by
    simp only [length_append, hcount]
    omega
  rw [hwhole, hend, detectRound_magic hlt (by rw [← hwhole]; exact hlen), hnone]
  simp only [if_pos hmagic]
  rw [skippableEnd, checkedAdd_bind (by omega), hrange, okOr_bind, hvalue,
    checkedAdd_bind (by omega), rejectIf_of_not hfits]
  rfl

theorem detectLoop_frames (hannounced : announced magic = some format) {skipped : List (List UInt8)}
    (hskipped : ∀ bytes ∈ skipped, Skippable bytes) (front tail : List UInt8) (rounds : Nat)
    (hlen : (front ++ skipped.flatten ++ (le32 magic ++ tail)).length < 2 ^ 64)
    (hrounds : skipped.length < rounds) :
    detectLoop (front ++ skipped.flatten ++ (le32 magic ++ tail)) rounds front.length =
      some (.ok format) := by
  induction skipped generalizing front rounds with
  | nil =>
    obtain ⟨rounds, rfl⟩ : ∃ left, rounds = left + 1 := ⟨rounds - 1, by omega⟩
    have hround : detectRound (front ++ le32 magic ++ tail) front.length = .ok (.inl format) := by
      rw [detectRound_magic (announced_lt hannounced).1 (by simpa using hlen), hannounced]
    rw [List.flatten_nil, List.append_nil, ← append_assoc, detectLoop, hround]
  | cons bytes skipped ih =>
    obtain ⟨hbytes, hrest⟩ := forall_mem_cons.mp hskipped
    obtain ⟨rounds, rfl⟩ : ∃ left, rounds = left + 1 := ⟨rounds - 1, by omega⟩
    have hwhole : front ++ (bytes :: skipped).flatten ++ (le32 magic ++ tail) =
        front ++ bytes ++ (skipped.flatten ++ (le32 magic ++ tail)) := by
      rw [flatten_cons]
      simp only [append_assoc]
    have hnext := ih hrest (front ++ bytes) rounds
      (by rw [hwhole] at hlen; rwa [append_assoc]) (by rw [length_cons] at hrounds; omega)
    rw [hwhole] at hlen ⊢
    rw [detectLoop, detectRound_skippable hbytes hlen]
    rw [append_assoc (front ++ bytes)] at hnext
    exact hnext

/-- No magic number of a frame begins like Unix `compress`. -/
theorem getRange_magic (h : magic % 256 ≠ 0x1f) (tail : List UInt8) :
    getRange (le32 magic ++ tail) 0 UnixCompress.magic.length ≠ some UnixCompress.magic := by
  intro hrange
  obtain ⟨-, -, hbytes⟩ := getRange_eq_some.mp hrange
  have hfirst : UInt8.ofNat magic = 0x1f := by
    have hhead := congrArg List.head? hbytes
    exact Option.some.inj hhead
  have hvalue := congrArg UInt8.toNat hfirst
  rw [UInt8.toNat_ofNat'] at hvalue
  exact h hvalue

theorem detectFormat_frames (hannounced : announced magic = some format)
    {skipped : List (List UInt8)} (hskipped : ∀ bytes ∈ skipped, Skippable bytes)
    {tail : List UInt8} (hlen : (skipped.flatten ++ (le32 magic ++ tail)).length < 2 ^ 64) :
    detectFormat (skipped.flatten ++ (le32 magic ++ tail)) = .ok format := by
  have hcompress : getRange (skipped.flatten ++ (le32 magic ++ tail)) 0
      UnixCompress.magic.length ≠ some UnixCompress.magic := by
    cases skipped with
    | nil => exact getRange_magic (announced_lt hannounced).2 tail
    | cons bytes skipped =>
      obtain ⟨first, payload, hfirst, -, rfl⟩ := hskipped bytes List.mem_cons_self
      rw [flatten_cons]
      simp only [append_assoc]
      exact getRange_magic (isSkippable_lt hfirst).2.1 _
  have hcount : skipped.length ≤ skipped.flatten.length := by
    clear hcompress hlen
    induction skipped with
    | nil => exact Nat.le_refl 0
    | cons bytes skipped ih =>
      obtain ⟨hbytes, hrest⟩ := forall_mem_cons.mp hskipped
      obtain ⟨first, payload, -, -, rfl⟩ := hbytes
      have htail := ih hrest
      have hfour : (le32 first).length = 4 := length_toLeBytes 4 first
      simp only [length_cons, flatten_cons, length_append, hfour]
      omega
  have hloop := detectLoop_frames hannounced hskipped [] tail
    ((skipped.flatten ++ (le32 magic ++ tail)).length + 1) hlen (by rw [length_append]; omega)
  rw [detectFormat, if_neg hcompress]
  exact congrArg (Option.getD · _) hloop

section

variable {σ P : Type} {frames : FrameFormat σ} {starts : Nat → Prop}
  {Frame : List UInt8 → P → Prop} {add : Nat → Nat → P → σ → Except Error σ} {limits : Limits}
  {counting : Counting σ P}

theorem exists_first_frame {pieces : List (Piece P)} (h : ∀ piece ∈ pieces, Whole Frame piece)
    (hdata : Counting.skippables pieces < pieces.length) :
    ∃ skipped bytes parsed rest, (∀ bytes ∈ skipped, Skippable bytes) ∧ Frame bytes parsed ∧
      frameBytes pieces = List.flatten skipped ++ (bytes ++ rest) := by
  induction pieces with
  | nil => exact absurd hdata (Nat.not_lt_zero _)
  | cons piece pieces ih =>
    obtain ⟨hpiece, hpieces⟩ := forall_mem_cons.mp h
    obtain ⟨bytes, frame | parsed⟩ := piece
    · have hcount : Counting.skippables (⟨bytes, none⟩ :: pieces) =
          Counting.skippables pieces + 1 := List.countP_cons_of_pos rfl
      rw [hcount, length_cons] at hdata
      obtain ⟨skipped, first, parsed, rest, hskipped, hframe, heq⟩ := ih hpieces (by omega)
      refine ⟨bytes :: skipped, first, parsed, rest,
        forall_mem_cons.mpr ⟨hpiece, hskipped⟩, hframe, ?_⟩
      rw [frameBytes_cons, heq, flatten_cons, append_assoc]
    · exact ⟨[], bytes, parsed, frameBytes pieces, List.forall_mem_nil _, hpiece, rfl⟩

theorem scan_detects (lawful : frames.Lawful starts Frame add)
    (laws : counting.Lawful frames Frame add limits) (hframe : ∀ bytes parsed, Frame bytes parsed →
      ∃ magic body, bytes = le32 magic ++ body ∧ announced magic = some format) {input : List UInt8}
    {totals : σ} (hlen : input.length < 2 ^ 64) (h : frames.scan counting.empty input = .ok totals)
    (hdata : counting.skippable totals < counting.frames totals) :
    detectFormat input = .ok format := by
  obtain ⟨pieces, hpieces, rfl, -, rfl⟩ := lawful.scan_ok laws hlen h
  rw [laws.skippable_run, laws.frames_run, laws.skippable_empty, laws.frames_empty, Nat.zero_add,
    Nat.zero_add] at hdata
  obtain ⟨skipped, bytes, parsed, rest, hskipped, hfirst, heq⟩ := exists_first_frame hpieces hdata
  obtain ⟨magic, body, rfl, hannounced⟩ := hframe bytes parsed hfirst
  rw [append_assoc] at heq
  rw [heq] at hlen ⊢
  exact detectFormat_frames hannounced hskipped hlen

end

variable {xxHash32 : List UInt8 → UInt64} {bytes : List UInt8} {limits : Limits}

theorem Lz4.parse_detects {table : Lz4StreamInfo × Option Nat × List Lz4Frame}
    (hlen : bytes.length < 2 ^ 64) (h : parse xxHash32 bytes limits = .ok table) :
    detectFormat bytes = .ok .lz4 := by
  obtain ⟨totals, hscan, hdata, -, -, -⟩ := parse_ok h
  refine scan_detects (frameFormat_lawful limits) (counting_lawful limits) ?_ hlen hscan ?_
  · rintro frame ⟨_ | _, parsed⟩ ⟨body, rfl, -⟩
    · exact ⟨lz4Magic, body, rfl, rfl⟩
    · exact ⟨lz4LegacyMagic, body, rfl, rfl⟩
  · show totals.skippableFrames < totals.dataFrames + totals.skippableFrames
    omega

theorem Zstandard.parse_detects
    {table : ZstandardStreamInfo × Option Nat × List ZstandardFrame}
    (hlen : bytes.length < 2 ^ 64) (h : parse bytes limits = .ok table) :
    detectFormat bytes = .ok .zstandard := by
  obtain ⟨totals, hscan, hdata, -, -, -⟩ := parse_ok h
  refine scan_detects (frameFormat_lawful limits) (counting_lawful limits) ?_ hlen hscan ?_
  · rintro frame parsed ⟨-, body, rfl, -⟩
    exact ⟨zstandardMagic, body, rfl, rfl⟩
  · show totals.skippableFrames < totals.dataFrames + totals.skippableFrames
    omega

theorem UnixCompress.parse_detects {table : UnixCompressStreamInfo × UnixCompressLayout}
    (h : parse bytes limits = .ok table) : detectFormat bytes = .ok .unixCompress := by
  obtain ⟨header, hheader, h⟩ := bind_eq_ok.mp h
  obtain ⟨_, hmagic, -⟩ := bind_eq_ok.mp h
  obtain ⟨-, hle, rfl⟩ := getRange_eq_some.mp (okOr_eq_ok.mp hheader)
  have hheaderMagic := not_not.mp (rejectIf_eq_ok.mp hmagic)
  obtain ⟨-, -, hbytes⟩ := getRange_eq_some.mp hheaderMagic
  have htake : bytes.take magic.length = magic := by
    rw [List.drop_zero, List.drop_zero, List.take_take] at hbytes
    exact hbytes
  refine if_pos (getRange_eq_some.mpr ⟨Nat.zero_le _, ?_, htake⟩)
  exact Nat.le_trans (by decide) hle

/-- Whatever a format accepts is detected as that format. -/
theorem parseAs_detects {parsed : StreamInfoKind × Option Nat × StreamLayout}
    (hlen : bytes.length < 2 ^ 64) (h : parseAs xxHash32 format bytes limits = .ok parsed) :
    detectFormat bytes = .ok format := by
  cases format with
  | lz4 =>
    obtain ⟨table, htable, -⟩ := bind_eq_ok.mp h
    exact Lz4.parse_detects hlen htable
  | zstandard =>
    obtain ⟨table, htable, -⟩ := bind_eq_ok.mp h
    exact Zstandard.parse_detects hlen htable
  | unixCompress =>
    obtain ⟨table, htable, -⟩ := bind_eq_ok.mp h
    exact UnixCompress.parse_detects htable

theorem openBytesInner_eq_ok {requested : Option StreamFormat} {stream : CompressedStream} :
    (openBytesInner xxHash32 bytes requested limits).granted = .ok stream ↔
      requestedOr requested bytes = .ok stream.info.format ∧
        (openBytesAs xxHash32 bytes stream.info.format limits).granted = .ok stream := by
  simp only [openBytesAs, openBytesInner, requestedOr, Prog.granted_bind, Prog.granted_lift,
    consumeBytes_granted, ok_bind, bind_eq_ok, Prog.granted_pure]
  constructor
  · rintro ⟨_, hlimit, format, hformat, parsed, hparsed, _, hsize, h⟩
    cases h
    exact ⟨hformat, (), hlimit, parsed, hparsed, (), hsize, rfl⟩
  · rintro ⟨hformat, _, hlimit, parsed, hparsed, _, hsize, h⟩
    exact ⟨(), hlimit, _, hformat, parsed, hparsed, (), hsize, h⟩

theorem openBytesAs_detects {stream : CompressedStream} (hlen : bytes.length < 2 ^ 64)
    (h : (openBytesAs xxHash32 bytes format limits).granted = .ok stream) :
    detectFormat bytes = .ok format := by
  simp only [openBytesAs, openBytesInner, requestedOr, Prog.granted_bind, Prog.granted_lift,
    consumeBytes_granted, ok_bind, bind_eq_ok] at h
  obtain ⟨_, -, parsed, hparsed, -⟩ := h
  exact parseAs_detects hlen hparsed

/-- Detection opens exactly the streams that one format accepts, as that format, and
its loop ends. -/
theorem openBytes_agrees (xxHash32 : List UInt8 → UInt64) (bytes : List UInt8) (limits : Limits)
    (hlen : bytes.length < 2 ^ 64) :
    (∀ format stream, (openBytesAs xxHash32 bytes format limits).granted = .ok stream ↔
      (openBytes xxHash32 bytes limits).granted = .ok stream ∧ stream.info.format = format) ∧
    (∀ format other stream stream',
      (openBytesAs xxHash32 bytes format limits).granted = .ok stream →
      (openBytesAs xxHash32 bytes other limits).granted = .ok stream' → format = other) ∧
    ∃ result, ∀ rounds, bytes.length < rounds → detectLoop bytes rounds 0 = some result := by
  refine ⟨?_, ?_, ?_⟩
  · intro format stream
    constructor
    · intro h
      obtain ⟨hformat, hopen⟩ := openBytesInner_eq_ok.mp h
      have heq : format = stream.info.format := Except.ok.inj hformat
      subst heq
      exact ⟨openBytesInner_eq_ok.mpr ⟨openBytesAs_detects hlen h, hopen⟩, rfl⟩
    · rintro ⟨h, rfl⟩
      exact (openBytesInner_eq_ok.mp h).2
  · intro format other stream stream' h h'
    have heq := (openBytesAs_detects hlen h).symm.trans (openBytesAs_detects hlen h')
    exact Except.ok.inj heq
  · obtain ⟨result, hresult⟩ := detectLoop_enough (Nat.zero_le bytes.length)
      (show bytes.length < 0 + (bytes.length + 1) by omega)
    refine ⟨result, fun rounds hrounds => ?_⟩
    have henough := hresult (rounds - (bytes.length + 1))
    rwa [Nat.add_sub_cancel' hrounds] at henough

/-- A skippable frame, and an empty Zstandard frame. -/
def skippedSample : List UInt8 :=
  [0x50, 0x2a, 0x4d, 0x18, 1, 0, 0, 0, 7, 0x28, 0xb5, 0x2f, 0xfd, 0x20, 0, 1, 0, 0]

theorem openBytes_agrees_skipped :
    (openBytes (fun _ => 0) skippedSample .default).granted =
      .ok { bytes := skippedSample
            info := { format := .zstandard, compressedSize := 18, uncompressedSize := some 0,
                      kind := .zstandard ⟨1, 1, 0, 0, 0⟩ }
            layout := .zstandard [⟨9, 18, some 0, 0, false, false⟩]
            limits := .default } :=
  (((openBytes_agrees (fun _ => 0) skippedSample .default (by decide)).1 .zstandard _).mp
    rfl).1

end Unpackio
