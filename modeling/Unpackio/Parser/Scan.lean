/-
Where `parser.rs` looks for signatures, and what the start header there says.
-/
import Unpackio.Parser

namespace Unpackio

open Except (ok_bind)

def candidateOffsets (bytes : List UInt8) (limits : Limits) : List Nat :=
  if signature <+: bytes then [0]
  else if bytes.length < signature.length then []
  else (List.range (min (bytes.length - signature.length) limits.sfxScanLimit + 1)).filter
    fun offset => (bytes.drop offset).take signature.length = signature

def startHeaderAt (bytes : List UInt8) (offset : Nat) : Option RawSignatureHeader :=
  if bytes.length < offset + fixedHeaderSize then none
  else
    let candidateBytes := (bytes.take (offset + fixedHeaderSize)).drop offset
    match parseRawSignatureHeader candidateBytes with
    | .error _ => none
    | .ok raw =>
      if Crc32.checksum ((candidateBytes.take (startHeaderOffset + startHeaderSize)).drop
        startHeaderOffset) = raw.startCrc then some raw else none

variable {bytes : List UInt8} {limits : Limits}

theorem mem_candidateOffsets {offset : Nat} (h : offset ∈ candidateOffsets bytes limits) :
    offset + signature.length ≤ bytes.length ∧
      (bytes.drop offset).take signature.length = signature := by
  unfold candidateOffsets at h
  by_cases hsignature : signature <+: bytes
  · rw [if_pos hsignature, List.mem_singleton] at h
    subst h
    exact ⟨by have := hsignature.length_le; omega,
      (List.prefix_iff_eq_take.mp hsignature).symm⟩
  · rw [if_neg hsignature] at h
    by_cases hshort : bytes.length < signature.length
    · rw [if_pos hshort] at h
      exact absurd h List.not_mem_nil
    · rw [if_neg hshort, List.mem_filter, List.mem_range, decide_eq_true_eq] at h
      exact ⟨by omega, h.2⟩

theorem zipIdx_windows {α : Type} (size : Nat) (bytes : List α) :
    (windows size bytes).zipIdx =
      (List.range (bytes.length + 1 - size)).map fun i => ((bytes.drop i).take size, i) := by
  refine List.ext_getElem (by simp [windows]) fun i h₁ h₂ => ?_
  simp [windows]

theorem sfxScanBytes_spec {bytes : List UInt8} {limits : Limits} (hlen : bytes.length < 2 ^ 64)
    (hsignature : ¬signature <+: bytes) :
    (bytes.length < signature.length ∧ sfxScanBytes bytes limits = .ok none ∧
      candidateOffsets bytes limits = []) ∨
    ∃ scanBytes, sfxScanBytes bytes limits = .ok (some scanBytes) ∧
      (((windows signature.length scanBytes).zipIdx.filter fun window =>
        decide (window.1 = signature)).map Prod.snd) = candidateOffsets bytes limits := by
  unfold sfxScanBytes candidateOffsets
  by_cases hshort : bytes.length < signature.length
  · left
    rw [if_neg hsignature, if_pos hshort, checkedSub, if_neg (by omega)]
    exact ⟨hshort, rfl, rfl⟩
  · right
    have hsig : signature.length = 6 := rfl
    have hscan : min (bytes.length - signature.length) limits.sfxScanLimit + signature.length ≤
        bytes.length := by omega
    rw [if_neg hsignature, if_neg hshort, checkedSub_of_le (by omega)]
    simp only [checkedAdd_of_lt (show min (bytes.length - signature.length) limits.sfxScanLimit +
      signature.length < 2 ^ 64 by omega), okOr_some, ok_bind]
    refine ⟨bytes.take (min (bytes.length - signature.length) limits.sfxScanLimit +
      signature.length), ?_, ?_⟩
    · refine Except.map_eq_ok.mpr ⟨_, checkedRange_eq_ok.mpr ⟨by omega, by omega, rfl⟩, ?_⟩
      rw [Nat.zero_add, List.drop_zero]
    · rw [zipIdx_windows, List.filter_map, List.map_map, List.length_take,
        Nat.min_eq_left hscan]
      have hcount : min (bytes.length - signature.length) limits.sfxScanLimit +
          signature.length + 1 - signature.length =
          min (bytes.length - signature.length) limits.sfxScanLimit + 1 := by omega
      rw [hcount]
      refine (List.map_id' _).trans (List.filter_congr fun i hi => ?_)
      rw [List.mem_range] at hi
      simp only [Function.comp_apply]
      rw [List.drop_take, List.take_take, Nat.min_eq_left (by omega)]

/-- `p` read something and moved the reader by `count`. -/
def Moves {α : Type} (reader : BoundedReader) (count : Nat)
    (p : BoundedReader → Except Error (α × BoundedReader)) : Prop :=
  ∃ value next, p reader = .ok (value, next) ∧ next.bytes = reader.bytes ∧
    next.position = reader.position + count

theorem moves_readBytes {reader : BoundedReader} {count : Nat}
    (h : reader.position + count ≤ reader.bytes.length) (hlen : reader.bytes.length < 2 ^ 64) :
    Moves reader count fun reader => reader.readBytes count := by
  refine ⟨(reader.bytes.take (reader.position + count)).drop reader.position,
    ⟨reader.bytes, reader.position + count, h⟩, ?_, rfl, rfl⟩
  simp only [BoundedReader.readBytes, checkedAdd_of_lt
    (show reader.position + count < 2 ^ 64 by omega), dif_pos h]

theorem moves_map {α β : Type} {reader : BoundedReader} {count : Nat}
    {p : BoundedReader → Except Error (α × BoundedReader)} (f : α → β) (h : Moves reader count p) :
    Moves reader count fun reader => do
      let (value, reader) ← p reader
      return (f value, reader) := by
  obtain ⟨value, next, hp, hbytes, hposition⟩ := h
  refine ⟨f value, next, ?_, hbytes, hposition⟩
  simp only [hp, ok_bind]
  rfl

theorem moves_readU8 {reader : BoundedReader}
    (h : reader.position + 1 ≤ reader.bytes.length) (hlen : reader.bytes.length < 2 ^ 64) :
    Moves reader 1 BoundedReader.readU8 := by
  have hone : ((reader.bytes.take (reader.position + 1)).drop reader.position).length = 1 := by
    rw [List.length_drop, List.length_take]
    omega
  obtain ⟨byte, hbyte⟩ := List.length_eq_one_iff.mp hone
  refine ⟨byte, ⟨reader.bytes, reader.position + 1, h⟩, ?_, rfl, rfl⟩
  simp only [BoundedReader.readU8, BoundedReader.readBytes, checkedAdd_of_lt
    (show reader.position + 1 < 2 ^ 64 by omega), dif_pos h, ok_bind, hbyte]
  rfl

theorem parseRawSignatureHeader_isOk (hlen : bytes.length = fixedHeaderSize)
    (hsignature : bytes.take signature.length = signature) :
    ∃ raw, parseRawSignatureHeader bytes = .ok raw := by
  have hsize : bytes.length = 32 := hlen
  have hrange : (BoundedReader.new bytes).readBytes fixedHeaderSize =
      .ok (bytes, ⟨bytes, 32, by omega⟩) := by
    have hall : (bytes.take 32).drop 0 = bytes := by
      rw [← hsize, List.take_length, List.drop_zero]
    have hle : 32 ≤ bytes.length := by omega
    simp only [BoundedReader.readBytes, BoundedReader.new, fixedHeaderSize,
      checkedAdd_of_lt (show 0 + 32 < 2 ^ 64 by decide), Nat.zero_add, dif_pos hle, hall]
  have hmagic : (BoundedReader.new bytes).readBytes 6 = .ok (signature, ⟨bytes, 6, by omega⟩) := by
    have htake : (bytes.take 6).drop 0 = signature := by
      rw [List.drop_zero]
      exact hsignature
    have hle : 6 ≤ bytes.length := by omega
    simp only [BoundedReader.readBytes, BoundedReader.new,
      checkedAdd_of_lt (show 0 + 6 < 2 ^ 64 by decide), Nat.zero_add, dif_pos hle, htake]
  obtain ⟨major, r₁, h₁, hb₁, hp₁⟩ := @moves_readU8 ⟨bytes, 6, by omega⟩
    (by show 6 + 1 ≤ bytes.length; omega) (by show bytes.length < 2 ^ 64; omega)
  simp only at hb₁ hp₁
  obtain ⟨minor, r₂, h₂, hb₂, hp₂⟩ := @moves_readU8 r₁ (by rw [hb₁, hp₁]; omega)
    (by rw [hb₁]; omega)
  rw [hb₁] at hb₂
  rw [hp₁] at hp₂
  obtain ⟨startCrc, r₃, h₃, hb₃, hp₃⟩ := moves_map (fun bytes => UInt32.ofNat (fromLeBytes bytes))
    (@moves_readBytes r₂ 4 (by rw [hb₂, hp₂]; omega) (by rw [hb₂]; omega))
  rw [hb₂] at hb₃
  rw [hp₂] at hp₃
  obtain ⟨nextOffset, r₄, h₄, hb₄, hp₄⟩ := moves_map fromLeBytes
    (@moves_readBytes r₃ 8 (by rw [hb₃, hp₃]; omega) (by rw [hb₃]; omega))
  rw [hb₃] at hb₄
  rw [hp₃] at hp₄
  obtain ⟨nextSize, r₅, h₅, hb₅, hp₅⟩ := moves_map fromLeBytes
    (@moves_readBytes r₄ 8 (by rw [hb₄, hp₄]; omega) (by rw [hb₄]; omega))
  rw [hb₄] at hb₅
  rw [hp₄] at hp₅
  obtain ⟨nextCrc, r₆, h₆, hb₆, hp₆⟩ := moves_map (fun bytes => UInt32.ofNat (fromLeBytes bytes))
    (@moves_readBytes r₅ 4 (by rw [hb₅, hp₅]; omega) (by rw [hb₅]; omega))
  rw [hb₅] at hb₆
  rw [hp₅] at hp₆
  have hfinish : r₆.finish "fixed 7z header was not consumed exactly" = .ok () := by
    rw [BoundedReader.finish, if_pos (by rw [hb₆, hp₆, hsize])]
  refine ⟨⟨major, minor, startCrc, nextOffset, nextSize, nextCrc⟩, ?_⟩
  simp only [parseRawSignatureHeader, BoundedReader.parseExact, hrange, ok_bind,
    parseFixedFields, hmagic, rejectIf_of_not (not_not_intro (rfl : signature = signature)), h₁,
    h₂]
  rw [show r₂.readU32Le = _ from h₃]
  simp only [ok_bind]
  rw [show r₃.readU64Le = _ from h₄]
  simp only [ok_bind]
  rw [show r₄.readU64Le = _ from h₅]
  simp only [ok_bind]
  rw [show r₅.readU32Le = _ from h₆]
  simp only [ok_bind, pure_bind, hfinish]
  rfl

/-! ## What the first candidates declare -/

/-- A candidate that the look ahead answers for: it is cut off, or its start
header has its digest. -/
def Settles (bytes : List UInt8) (offset : Nat) : Prop :=
  bytes.length < offset + fixedHeaderSize ∨ (startHeaderAt bytes offset).isSome = true

instance (bytes : List UInt8) (offset : Nat) : Decidable (Settles bytes offset) :=
  inferInstanceAs (Decidable (_ ∨ _))

def RawSignatureHeader.Fits (raw : RawSignatureHeader) (offset : Nat) (limits : Limits) : Prop :=
  raw.nextSize ≤ limits.maxHeaderBytes ∧
    offset + fixedHeaderSize + raw.nextOffset + raw.nextSize < 2 ^ 64

/-- The first candidate that settles the look ahead is cut off or declares sizes
that fit. -/
def DeclarationFits (bytes : List UInt8) (limits : Limits) : Prop :=
  ∀ offset, (candidateOffsets bytes limits).find? (fun offset => Settles bytes offset) =
    some offset → ∀ raw, startHeaderAt bytes offset = some raw → raw.Fits offset limits

theorem checkedAdd_bind_eq_some {a b c sum : Nat} :
    ((checkedAdd a b).bind fun d => checkedAdd d c) = some sum ↔
      a + b + c < 2 ^ 64 ∧ a + b + c = sum := by
  simp only [Option.bind_eq_some_iff, checkedAdd_eq_some]
  constructor
  · rintro ⟨_, ⟨_, rfl⟩, h⟩
    exact h
  · rintro ⟨hlt, hsum⟩
    exact ⟨a + b, ⟨by omega, rfl⟩, hlt, hsum⟩

section

variable {offset : Nat} (hlen : bytes.length < 2 ^ 63)
  (hoffset : offset + signature.length ≤ bytes.length)
  (hsignature : (bytes.drop offset).take signature.length = signature)
include hlen hoffset hsignature

theorem candidateDeclaresMoreBytes_granted :
    (candidateDeclaresMoreBytes bytes limits offset).granted =
      if bytes.length < offset + fixedHeaderSize then .ok (some true)
      else match startHeaderAt bytes offset with
        | none => .ok none
        | some raw => (do
          checkLimit raw.nextSize limits.maxHeaderBytes .headerBytes
          let required ← okOr ((checkedAdd (offset + fixedHeaderSize) raw.nextOffset).bind
            fun finish => checkedAdd finish raw.nextSize)
            (formatError "declared archive end overflows")
          return some (decide (bytes.length < required))) := by
  have hfixed : fixedHeaderSize = 32 := rfl
  have hsig : signature.length = 6 := rfl
  rw [candidateDeclaresMoreBytes, checkedAdd_of_lt (by omega)]
  by_cases hcut : bytes.length < offset + fixedHeaderSize
  · rw [if_pos hcut]
    simp only [Prog.granted_bind, Prog.granted_lift, okOr_some, ok_bind, if_pos hcut]
    rfl
  · have hcandidate : checkedRange bytes offset fixedHeaderSize "fixed-header range overflows"
        "truncated fixed 7z header" =
        .ok ((bytes.take (offset + fixedHeaderSize)).drop offset) :=
      checkedRange_eq_ok.mpr ⟨by omega, by omega, rfl⟩
    have hsize : ((bytes.take (offset + fixedHeaderSize)).drop offset).length =
        fixedHeaderSize := by
      rw [List.length_drop, List.length_take]
      omega
    have hmagic : ((bytes.take (offset + fixedHeaderSize)).drop offset).take signature.length =
        signature := by
      rw [List.drop_take, List.take_take, Nat.min_eq_left (by omega), hsignature]
    obtain ⟨raw, hraw⟩ := parseRawSignatureHeader_isOk hsize hmagic
    have hfields : checkedRange ((bytes.take (offset + fixedHeaderSize)).drop offset)
        startHeaderOffset startHeaderSize "start-header range overflows"
        "truncated start-header fields" =
        .ok ((((bytes.take (offset + fixedHeaderSize)).drop offset).take
          (startHeaderOffset + startHeaderSize)).drop startHeaderOffset) :=
      checkedRange_eq_ok.mpr ⟨by decide, by rw [hsize]; decide, rfl⟩
    rw [if_neg hcut]
    simp only [Prog.granted_bind, Prog.granted_lift, okOr_some, ok_bind, hcandidate, hraw,
      hfields, checksumWithControl_granted, Prog.granted_ite, startHeaderAt, if_neg hcut]
    by_cases hcrc : Crc32.checksum ((((bytes.take (offset + fixedHeaderSize)).drop offset).take
        (startHeaderOffset + startHeaderSize)).drop startHeaderOffset) = raw.startCrc
    · simp only [hcrc, ne_eq, not_true_eq_false, if_false, if_true]
      rfl
    · simp only [hcrc, ne_eq, not_false_eq_true, if_false, if_true]
      rfl

theorem candidateDeclaresMoreBytes_none (hsettles : ¬Settles bytes offset) :
    (candidateDeclaresMoreBytes bytes limits offset).granted = .ok none := by
  rw [candidateDeclaresMoreBytes_granted hlen hoffset hsignature,
    if_neg fun h => hsettles (Or.inl h)]
  cases hraw : startHeaderAt bytes offset with
  | none => rfl
  | some raw => exact absurd (Or.inr (by rw [hraw]; rfl)) hsettles

end

theorem candidateDeclaresMoreBytes_settled {bytes : List UInt8} {limits : Limits} {offset : Nat}
    (hlen : bytes.length < 2 ^ 63) (hoffset : offset + signature.length ≤ bytes.length)
    (hsignature : (bytes.drop offset).take signature.length = signature)
    (hsettles : Settles bytes offset) :
    (∀ answer, (candidateDeclaresMoreBytes bytes limits offset).granted = .ok answer →
      answer.isSome = true) ∧
    ((∃ answer, (candidateDeclaresMoreBytes bytes limits offset).granted = .ok answer) ↔
      ∀ raw, startHeaderAt bytes offset = some raw → raw.Fits offset limits) := by
  rw [candidateDeclaresMoreBytes_granted hlen hoffset hsignature]
  by_cases hcut : bytes.length < offset + fixedHeaderSize
  · rw [if_pos hcut]
    have hnone : startHeaderAt bytes offset = none := if_pos hcut
    refine ⟨fun answer h => ?_, fun _ raw hraw => ?_, fun _ => ⟨_, rfl⟩⟩
    · cases h
      rfl
    · rw [hnone] at hraw
      exact (nomatch hraw)
  · rw [if_neg hcut]
    cases hraw : startHeaderAt bytes offset with
    | none =>
      rcases hsettles with h | h
      · exact absurd h hcut
      · rw [hraw] at h
        exact (nomatch h)
    | some raw =>
      simp only [Except.bind_eq_ok, checkLimit_eq_ok, okOr_eq_ok, checkedAdd_bind_eq_some,
        Option.some.injEq, forall_eq']
      refine ⟨fun answer h => ?_, fun h => ?_, fun h => ?_⟩
      · obtain ⟨_, _, _, _, h⟩ := h
        cases h
        rfl
      · obtain ⟨_, _, hlimit, _, ⟨hlt, _⟩, _⟩ := h
        exact ⟨hlimit, hlt⟩
      · exact ⟨_, (), h.1, _, ⟨h.2, rfl⟩, rfl⟩

/-- The scan of the look ahead ends well exactly when its first settling
candidate does.  The induction drops one window at a time. -/
theorem scanDeclaresMoreBytes_isOk (hlen : bytes.length < 2 ^ 63)
    (windows : List (List UInt8 × Nat))
    (hmem : ∀ offset ∈ (windows.filter fun window => decide (window.1 = signature)).map Prod.snd,
      offset + signature.length ≤ bytes.length ∧
        (bytes.drop offset).take signature.length = signature) :
    (∃ answer, (scanDeclaresMoreBytes bytes limits windows).granted = .ok answer) ↔
      ∀ offset, ((windows.filter fun window => decide (window.1 = signature)).map
        Prod.snd).find? (fun offset => Settles bytes offset) = some offset →
        ∀ raw, startHeaderAt bytes offset = some raw → raw.Fits offset limits := by
  induction windows with
  | nil => exact ⟨fun _ _ h => (nomatch h), fun _ => ⟨false, rfl⟩⟩
  | cons window windows ih =>
    obtain ⟨window, offset⟩ := window
    by_cases hwindow : window = signature
    · subst hwindow
      simp only [List.filter_cons, decide_true, if_true, List.map_cons] at hmem ⊢
      have htail := ih fun other hother => hmem other (List.mem_cons_of_mem offset hother)
      have hhead := hmem offset List.mem_cons_self
      simp only [scanDeclaresMoreBytes, Prog.granted_bind, checkpoint_granted, ok_bind,
        ne_eq, not_true_eq_false, if_false]
      by_cases hsettles : Settles bytes offset
      · have hsettled :=
          @candidateDeclaresMoreBytes_settled bytes limits _ hlen hhead.1 hhead.2 hsettles
        rw [List.find?_cons_of_pos (by simpa using hsettles)]
        simp only [Option.some.injEq, forall_eq']
        rw [← hsettled.2]
        cases hanswer : (candidateDeclaresMoreBytes bytes limits offset).granted with
        | error error => exact ⟨fun ⟨_, h⟩ => (nomatch h), fun ⟨_, h⟩ => (nomatch h)⟩
        | ok answer =>
          obtain ⟨requiresMore, rfl⟩ := Option.isSome_iff_exists.mp (hsettled.1 answer hanswer)
          exact ⟨fun _ => ⟨_, rfl⟩, fun _ => ⟨_, rfl⟩⟩
      · rw [List.find?_cons_of_neg (by simpa using hsettles), ← htail,
          candidateDeclaresMoreBytes_none hlen hhead.1 hhead.2 hsettles]
        exact Iff.rfl
    · simp only [List.filter_cons, hwindow, decide_false, Bool.false_eq_true, if_false] at hmem ⊢
      rw [← ih hmem]
      simp only [scanDeclaresMoreBytes, Prog.granted_bind, checkpoint_granted, ok_bind,
        ne_eq, hwindow, not_false_eq_true, if_true]

/-- The look ahead ends well exactly when the declaration fits. -/
theorem archiveDeclaresMoreBytes_isOk (hlen : bytes.length < 2 ^ 63)
    (htotal : bytes.length ≤ limits.maxTotalInputBytes) :
    (∃ answer, (archiveDeclaresMoreBytes bytes limits).granted = .ok answer) ↔
      DeclarationFits bytes limits := by
  unfold archiveDeclaresMoreBytes DeclarationFits
  rw [Prog.granted_lift_bind, checkLimit_of_le htotal, ok_bind]
  by_cases hsignature : signature <+: bytes
  · have hoffsets : candidateOffsets bytes limits = [0] := if_pos hsignature
    have hzero := mem_candidateOffsets (hoffsets ▸ List.mem_cons_self : 0 ∈ _)
    rw [if_pos hsignature, hoffsets, Prog.granted_bind]
    by_cases hsettles : Settles bytes 0
    · have hsettled :=
        @candidateDeclaresMoreBytes_settled bytes limits _ hlen hzero.1 hzero.2 hsettles
      rw [List.find?_cons_of_pos (by simpa using hsettles)]
      simp only [Option.some.injEq, forall_eq']
      rw [← hsettled.2]
      cases (candidateDeclaresMoreBytes bytes limits 0).granted with
      | error error => exact ⟨fun ⟨_, h⟩ => (nomatch h), fun ⟨_, h⟩ => (nomatch h)⟩
      | ok answer => exact ⟨fun _ => ⟨_, rfl⟩, fun _ => ⟨_, rfl⟩⟩
    · rw [List.find?_cons_of_neg (by simpa using hsettles),
        candidateDeclaresMoreBytes_none hlen hzero.1 hzero.2 hsettles]
      exact ⟨fun _ _ h => (nomatch h), fun _ => ⟨_, rfl⟩⟩
  · rw [if_neg hsignature, Prog.granted_lift_bind]
    rcases @sfxScanBytes_spec _ limits (by omega) hsignature with
      ⟨_, hscan, hoffsets⟩ | ⟨scanBytes, hscan, hoffsets⟩
    · rw [hscan, hoffsets]
      exact ⟨fun _ _ h => (nomatch h), fun _ => ⟨_, rfl⟩⟩
    · rw [hscan, ← hoffsets]
      refine scanDeclaresMoreBytes_isOk hlen _ fun offset hoffset => ?_
      rw [hoffsets] at hoffset
      exact mem_candidateOffsets hoffset

end Unpackio
