/-
An ARJ archive behind other bytes.

What is read at an offset of the archive is read at the offset behind the other bytes, and
every offset that comes of it is behind them as well.
-/
import Unpackio.Arj.Scan
import Mathlib.Data.List.Basic

namespace Unpackio
namespace Arj

open List (length_append)
open Except (bind_eq_ok ok_bind)
open Prog

def HeaderRecord.shift (distance : Nat) (record : HeaderRecord) : HeaderRecord :=
  { record with nextOffset := distance + record.nextOffset }

def ArjEntry.shift (distance : Nat) (entry : ArjEntry) : ArjEntry :=
  { entry with dataStart := distance + entry.dataStart, dataEnd := distance + entry.dataEnd }

variable {front bytes : List UInt8} {limits : Limits} {totals : HeaderTotals}

theorem checkedRange_shift (hlen : (front ++ bytes).length < 2 ^ 63) {start length : Nat}
    {out : List UInt8} {o t : String} (h : checkedRange bytes start length o t = .ok out) :
    checkedRange (front ++ bytes) (front.length + start) length o t = .ok out := by
  obtain ⟨-, hle, hout⟩ := checkedRange_eq_ok.mp h
  rw [length_append] at hlen
  refine checkedRange_eq_ok.mpr ⟨by omega, by rw [length_append]; omega, ?_⟩
  rw [Nat.add_assoc, List.take_length_add_append, List.drop_length_add_append, hout]

theorem checkedRange_le {start length : Nat} {out : List UInt8} {o t : String}
    (h : checkedRange bytes start length o t = .ok out) : start + length ≤ bytes.length :=
  (checkedRange_eq_ok.mp h).2.1

theorem leUint_shift (hlen : (front ++ bytes).length < 2 ^ 63) {width offset value : Nat}
    {detail : String} (h : leUint width bytes offset detail = .ok value) :
    leUint width (front ++ bytes) (front.length + offset) detail = .ok value := by
  obtain ⟨out, hout, hvalue⟩ := bind_eq_ok.mp h
  rw [leUint, checkedRange_shift hlen hout]
  exact hvalue

section

variable {width offset value : Nat} {detail : String}
  (h : leUint width bytes offset detail = .ok value)
include h

theorem leUint_le : offset + width ≤ bytes.length := by
  obtain ⟨out, hout, -⟩ := bind_eq_ok.mp h
  exact checkedRange_le hout

theorem leUint_lt : value < 256 ^ width := by
  obtain ⟨out, hout, hvalue⟩ := bind_eq_ok.mp h
  obtain ⟨-, hle, hbytes⟩ := checkedRange_eq_ok.mp hout
  have hlength : out.length = width := by
    rw [← hbytes, List.length_drop, List.length_take]
    omega
  cases hvalue
  exact hlength ▸ fromLeBytes_lt out

end

theorem checkedAdd_shift (hlen : (front ++ bytes).length < 2 ^ 63) {offset amount next : Nat}
    {e : Error} (hoffset : offset ≤ bytes.length) (hamount : amount < 2 ^ 63)
    (h : okOr (checkedAdd offset amount) e = .ok next) :
    okOr (checkedAdd (front.length + offset) amount) e = .ok (front.length + next) := by
  obtain ⟨-, rfl⟩ := checkedAdd_eq_ok.mp h
  rw [length_append] at hlen
  rw [checkedAdd_of_lt (by omega), okOr_some, Nat.add_assoc]

theorem checkedAdd_eq {offset amount next : Nat} {e : Error}
    (h : okOr (checkedAdd offset amount) e = .ok next) : offset + amount = next :=
  (checkedAdd_eq_ok.mp h).2

section

variable (hlen : (front ++ bytes).length < 2 ^ 63)
include hlen

theorem readHeaderAt_shift (offset : Nat) :
    Carries (Option.map fun header => (header.1.shift front.length, header.2))
      (readHeaderAt bytes offset limits totals)
      (readHeaderAt (front ++ bytes) (front.length + offset) limits totals) := by
  refine .value fun found hfound => ⟨found, checkedRange_shift hlen hfound, ?_⟩
  have hfoundLe := checkedRange_le hfound
  refine .step fun _ _ => ?_
  refine .value fun sizeOffset hsizeOffset =>
    ⟨_, checkedAdd_shift hlen (by omega) (by decide) hsizeOffset, ?_⟩
  refine .value fun size hsize => ⟨size, leUint_shift hlen hsize, ?_⟩
  have hsizeLe := leUint_le hsize
  have hsizeLt := leUint_lt hsize
  have hsizeEq := checkedAdd_eq hsizeOffset
  refine .ite (fun _ => .pure rfl) fun _ => ?_
  refine .step fun _ _ => .step fun _ _ => ?_
  refine .value fun basicStart hbasicStart =>
    ⟨_, checkedAdd_shift hlen (by omega) (by decide) hbasicStart, ?_⟩
  refine .value fun basic hbasic => ⟨basic, checkedRange_shift hlen hbasic, ?_⟩
  have hbasicLe := checkedRange_le hbasic
  refine .value fun crcOffset hcrcOffset =>
    ⟨_, checkedAdd_shift hlen (by omega) (by omega) hcrcOffset, ?_⟩
  refine .value fun expected hexpected => ⟨expected, leUint_shift hlen hexpected, ?_⟩
  have hcrcLe := leUint_le hexpected
  refine .step fun _ _ => .step fun _ _ => .step fun _ _ => ?_
  refine .value fun nextOffset hnextOffset =>
    ⟨_, checkedAdd_shift hlen (by omega) (by decide) hnextOffset, ?_⟩
  exact .pure rfl

theorem extendedLoop_shift (fuel offset : Nat) (totals : HeaderTotals) :
    Carries (fun result => (front.length + result.1, result.2))
      (extendedLoop bytes limits fuel offset totals)
      (extendedLoop (front ++ bytes) limits fuel (front.length + offset) totals) := by
  induction fuel generalizing offset totals with
  | zero => exact .throw _ _ _
  | succ fuel ih =>
    refine .step fun _ _ => ?_
    refine .value fun size hsize => ⟨size, leUint_shift hlen hsize, ?_⟩
    have hsizeLe := leUint_le hsize
    have hsizeLt := leUint_lt hsize
    refine .value fun behind hbehind =>
      ⟨_, checkedAdd_shift hlen (by omega) (by decide) hbehind, ?_⟩
    have hbehindEq := checkedAdd_eq hbehind
    refine .step fun _ _ => .step fun _ _ => ?_
    refine .ite (fun _ => .pure rfl) fun _ => ?_
    refine .step fun _ _ => .step fun _ _ => .step fun _ _ => ?_
    refine .value fun extension hextension =>
      ⟨extension, checkedRange_shift hlen hextension, ?_⟩
    have hextensionLe := checkedRange_le hextension
    refine .value fun crcOffset hcrcOffset =>
      ⟨_, checkedAdd_shift hlen (by omega) (by omega) hcrcOffset, ?_⟩
    refine .value fun expected hexpected => ⟨expected, leUint_shift hlen hexpected, ?_⟩
    have hcrcLe := leUint_le hexpected
    refine .step fun _ _ => .step fun _ _ => .step fun _ _ =>
      .step fun _ _ => ?_
    refine .value fun next hnext =>
      ⟨_, checkedAdd_shift hlen (by omega) (by decide) hnext, ?_⟩
    exact ih _ _

theorem readExtendedHeaders_shift (offset : Nat) (totals : HeaderTotals) :
    Carries (fun result => (front.length + result.1, result.2))
      (readExtendedHeaders bytes offset limits totals)
      (readExtendedHeaders (front ++ bytes) (front.length + offset) limits totals) := by
  have hfuel : (front ++ bytes).length + 1 - (front.length + offset) =
      bytes.length + 1 - offset := by
    rw [length_append]
    omega
  rw [readExtendedHeaders, readExtendedHeaders, hfuel]
  exact extendedLoop_shift hlen _ _ _

end

section

variable (hlen : (front ++ bytes).length < 2 ^ 63)
include hlen

theorem readEntry_shift (record : HeaderRecord) (totals : HeaderTotals)
    (count totalNameBytes : Nat) :
    Carries (fun result => (result.1.shift front.length, result.2))
      (readEntry bytes limits record totals count totalNameBytes)
      (readEntry (front ++ bytes) limits (record.shift front.length) totals count
        totalNameBytes) := by
  refine .step fun header _ => .step fun _ _ => ?_
  refine .bind (readExtendedHeaders_shift hlen _ _) fun ⟨dataStart, counted⟩ _ => ?_
  refine .value_of_rest fun dataEnd _ hdataEnd hrest => ?_
  rw [Prog.granted_lift_bind] at hrest
  obtain ⟨data, hdata, -⟩ := bind_eq_ok.mp hrest
  have hdataLe := checkedRange_le hdata
  have hbytes : bytes.length < 2 ^ 63 := by
    rw [length_append] at hlen
    omega
  refine ⟨_, checkedAdd_shift hlen (by omega) (by omega) hdataEnd, ?_⟩
  refine .value fun data hdata => ⟨data, checkedRange_shift hlen hdata, ?_⟩
  refine .step fun _ _ => .step fun _ _ => .step fun _ _ =>
    .step fun _ _ => .step fun _ _ => .step fun _ _ =>
      .step fun _ _ => ?_
  exact .pure rfl

theorem entryLoop_shift (fuel offset : Nat) (totals : HeaderTotals) (totalNameBytes : Nat)
    (entries : List ArjEntry) :
    Carries (fun result => (front.length + result.1, result.2.map (·.shift front.length)))
      (entryLoop bytes limits fuel offset totals totalNameBytes entries)
      (entryLoop (front ++ bytes) limits fuel (front.length + offset) totals totalNameBytes
        (entries.map (·.shift front.length))) := by
  induction fuel generalizing offset totals totalNameBytes entries with
  | zero => exact .throw _ _ _
  | succ fuel ih =>
    refine .step fun _ _ => ?_
    refine .bind (readHeaderAt_shift hlen offset) fun found _ => ?_
    cases found with
    | none => exact .pure rfl
    | some header =>
      obtain ⟨record, counted⟩ := header
      have hentry : Carries (fun result => (result.1.shift front.length, result.2))
          (readEntry bytes limits record counted entries.length totalNameBytes)
          (readEntry (front ++ bytes) limits (record.shift front.length) counted
            (entries.map (·.shift front.length)).length totalNameBytes) := by
        rw [List.length_map]
        exact readEntry_shift hlen _ _ _ _
      refine .bind hentry fun ⟨entry, counted, nameBytes⟩ _ => ?_
      have hrest := ih entry.dataEnd counted nameBytes (entries ++ [entry])
      rw [List.map_append] at hrest
      exact hrest

theorem openEntries_shift (record : HeaderRecord) (totals : HeaderTotals) (fields : MainFields) :
    Carries (List.map (·.shift front.length)) (openEntries bytes limits record totals fields)
      (openEntries (front ++ bytes) limits (record.shift front.length) totals fields) := by
  refine .bind (readExtendedHeaders_shift hlen _ _) fun ⟨offset, counted⟩ _ => ?_
  refine .step fun _ _ => .step fun _ _ => ?_
  have hfuel : (front ++ bytes).length + 1 - (front.length + offset) =
      bytes.length + 1 - offset := by
    rw [length_append]
    omega
  have hlength : (front ++ bytes).length = front.length + bytes.length := length_append
  simp only
  rw [hfuel]
  refine .bind (entryLoop_shift hlen _ _ _ _ []) fun ⟨behind, entries⟩ _ => ?_
  refine .value_of_rest fun terminalEnd _ hterminalEnd hrest => ?_
  rw [Prog.granted_lift_bind] at hrest
  obtain ⟨left, hleft, -⟩ := bind_eq_ok.mp hrest
  have hterminal := (checkedSub_eq_ok.mp hleft).1
  have hterminalEq := checkedAdd_eq hterminalEnd
  refine ⟨_, checkedAdd_shift hlen (by omega) (by decide) hterminalEnd, ?_⟩
  have hsub : ∀ {amount rest : Nat} {e : Error},
      okOr (checkedSub bytes.length amount) e = .ok rest →
        okOr (checkedSub (front ++ bytes).length (front.length + amount)) e = .ok rest := by
    intro amount rest e h
    obtain ⟨hle, rfl⟩ := checkedSub_eq_ok.mp h
    rw [hlength, checkedSub_of_le (by omega), okOr_some, Nat.add_sub_add_left]
  refine .value fun trailingLength htrailing => ⟨trailingLength, hsub htrailing, ?_⟩
  refine .ite (fun _ => ?_) fun _ => .pure rfl
  refine .value fun trailingStart hstart => ?_
  obtain ⟨hle, rfl⟩ := checkedSub_eq_ok.mp hstart
  refine ⟨front.length + (bytes.length - trailingLength), ?_, ?_⟩
  · rw [hlength, checkedSub_of_le (by omega), okOr_some, Nat.add_sub_assoc hle]
  · refine .value fun trailing htrailing =>
      ⟨trailing, checkedRange_shift hlen htrailing, ?_⟩
    exact .step fun _ _ => .pure rfl

end

def Candidate.shift (distance : Nat) : Candidate → Candidate
  | missed => missed
  | checksumFailure => checksumFailure
  | found record counted => found (record.shift distance) counted

theorem verdict_append (front bytes : List UInt8) (limits : Limits) (totals : HeaderTotals) :
    verdict (front ++ bytes) limits front.length totals =
      (verdict bytes limits 0 totals).map (Candidate.shift front.length) := by
  have hbehind : (front ++ bytes).drop (front.length + 4) = bytes.drop 4 :=
    List.drop_length_add_append _
  have hleft : (front ++ bytes).length - front.length = bytes.length - 0 := by
    rw [length_append]
    omega
  rw [verdict, verdict, List.drop_left, List.drop_zero, hbehind, hleft, Nat.zero_add]
  cases headerSize bytes with
  | none => rfl
  | some size =>
    simp only
    by_cases hrange : size = 0 ∨ maxBasicHeaderBytes < size
    · rw [if_pos hrange, if_pos hrange]
      rfl
    rw [if_neg hrange, if_neg hrange]
    by_cases hlimit : limits.maxHeaderBytes < size
    · rw [if_pos hlimit, if_pos hlimit]
      rfl
    rw [if_neg hlimit, if_neg hlimit]
    by_cases hbegins : beginsHeader bytes = true
    · rw [if_pos hbegins, if_pos hbegins, Nat.zero_add, Nat.add_assoc]
      cases accountHeader size limits totals <;> rfl
    · rw [if_neg hbegins, if_neg hbegins]
      split <;> rfl

/-- A header is found unless the limits refuse it. -/
theorem verdict_begins (h : beginsHeader bytes = true) {candidate : Candidate}
    (hverdict : verdict bytes limits 0 totals = .ok candidate) :
    ∃ record counted, candidate = .found record counted := by
  rw [verdict, List.drop_zero] at hverdict
  cases hsize : headerSize bytes with
  | none =>
    rw [beginsHeader, hsize] at h
    exact absurd h Bool.false_ne_true
  | some size =>
    have hfields := h
    rw [beginsHeader, hsize, Option.any_some, decide_eq_true_eq] at hfields
    obtain ⟨hne, hle, -, -⟩ := hfields
    rw [hsize] at hverdict
    simp only at hverdict
    rw [if_neg (by omega), if_pos h] at hverdict
    by_cases hlimit : limits.maxHeaderBytes < size
    · rw [if_pos hlimit] at hverdict
      cases hverdict
    · rw [if_neg hlimit] at hverdict
      obtain ⟨counted, -, hverdict⟩ := bind_eq_ok.mp hverdict
      cases hverdict
      exact ⟨_, _, rfl⟩

theorem beginsHeader_length (h : beginsHeader bytes = true) : 8 < bytes.length := by
  cases hsize : headerSize bytes with
  | none =>
    rw [beginsHeader, hsize] at h
    exact absurd h Bool.false_ne_true
  | some size =>
    rw [beginsHeader, hsize, Option.any_some, decide_eq_true_eq] at h
    omega

theorem findMainHeader_begins (hlen : bytes.length < 2 ^ 63) (hbegins : beginsHeader bytes = true)
    {found : Nat × HeaderRecord × HeaderTotals}
    (h : (findMainHeader bytes limits totals).granted = .ok found) :
    found.1 = 0 ∧ verdict bytes limits 0 totals = .ok (.found found.2.1 found.2.2) := by
  have hlength := beginsHeader_length hbegins
  rw [findMainHeader, show bytes.length - 1 = (bytes.length - 2) + 1 by omega,
    findLoop_granted totals hlen (Nat.zero_le _) (Nat.zero_le _)] at h
  cases hverdict : verdict bytes limits 0 totals with
  | error e =>
    rw [hverdict] at h
    exact nomatch h
  | ok candidate =>
    obtain ⟨record, counted, rfl⟩ := verdict_begins hbegins hverdict
    rw [hverdict] at h
    cases h
    exact ⟨rfl, rfl⟩

theorem findMainHeader_append (hlen : (front ++ bytes).length < 2 ^ 63)
    (hscan : front.length ≤ limits.sfxScanLimit) (hbegins : beginsHeader bytes = true)
    (hpass : ∀ place < front.length,
      beginsHeader ((front ++ bytes).drop place) = false ∧
        beginsOversized limits ((front ++ bytes).drop place) = false) (totals : HeaderTotals) :
    Carries (fun found => (front.length, found.2.1.shift front.length, found.2.2))
      (findMainHeader bytes limits totals) (findMainHeader (front ++ bytes) limits totals) := by
  intro found h
  have hlength := beginsHeader_length hbegins
  have hsum : (front ++ bytes).length = front.length + bytes.length := length_append
  obtain ⟨-, hverdict⟩ := findMainHeader_begins (by omega) hbegins h
  have happend := verdict_append front bytes limits totals
  rw [hverdict] at happend
  obtain ⟨saw, hreaches⟩ := findLoop_reaches totals hlen
    (show 0 + front.length ≤ limits.sfxScanLimit by omega) (by omega)
    (fun place _ hlt => hpass place (by omega)) false
  rw [findMainHeader, show (front ++ bytes).length - 1 =
      front.length + ((bytes.length - 2) + 1) by omega, hreaches, Nat.zero_add,
    findLoop_granted totals hlen hscan (by omega), happend]
  rfl

def ArjEntry.Inside (bytes : List UInt8) (entry : ArjEntry) : Prop :=
  entry.dataStart ≤ entry.dataEnd ∧ entry.dataEnd ≤ bytes.length

theorem readEntry_inside {record : HeaderRecord} {count totalNameBytes : Nat}
    {result : ArjEntry × HeaderTotals × Nat}
    (h : (readEntry bytes limits record totals count totalNameBytes).granted = .ok result) :
    result.1.Inside bytes := by
  rw [readEntry, granted_bind] at h
  obtain ⟨header, -, h⟩ := bind_eq_ok.mp h
  rw [granted_bind] at h
  obtain ⟨_, -, h⟩ := bind_eq_ok.mp h
  rw [granted_bind] at h
  obtain ⟨⟨dataStart, counted⟩, -, h⟩ := bind_eq_ok.mp h
  simp only [granted_bind, granted_lift] at h
  obtain ⟨dataEnd, hdataEnd, h⟩ := bind_eq_ok.mp h
  obtain ⟨data, hdata, h⟩ := bind_eq_ok.mp h
  obtain ⟨nextCount, -, h⟩ := bind_eq_ok.mp h
  obtain ⟨_, _, h⟩ := bind_eq_ok.mp h
  obtain ⟨_, _, h⟩ := bind_eq_ok.mp h
  obtain ⟨nameBytes, -, h⟩ := bind_eq_ok.mp h
  obtain ⟨_, _, h⟩ := bind_eq_ok.mp h
  obtain ⟨_, _, h⟩ := bind_eq_ok.mp h
  obtain ⟨index, -, h⟩ := bind_eq_ok.mp h
  cases h
  have hsum := checkedAdd_eq hdataEnd
  have hle := checkedRange_le hdata
  exact ⟨hsum ▸ Nat.le_add_right _ _, hsum ▸ hle⟩

theorem entryLoop_inside {fuel offset totalNameBytes : Nat} {entries : List ArjEntry}
    (hentries : ∀ entry ∈ entries, entry.Inside bytes) {result : Nat × List ArjEntry}
    (h : (entryLoop bytes limits fuel offset totals totalNameBytes entries).granted =
      .ok result) : ∀ entry ∈ result.2, entry.Inside bytes := by
  induction fuel generalizing offset totals totalNameBytes entries with
  | zero => exact nomatch h
  | succ fuel ih =>
    rw [entryLoop, checkpoint_bind, granted_bind] at h
    obtain ⟨found, -, h⟩ := bind_eq_ok.mp h
    cases found with
    | none =>
      cases h
      exact hentries
    | some header =>
      simp only at h
      rw [granted_bind] at h
      obtain ⟨⟨entry, counted, nameBytes⟩, hentry, h⟩ := bind_eq_ok.mp h
      refine ih (fun other hother => ?_) h
      rcases List.mem_append.mp hother with hmem | hmem
      · exact hentries other hmem
      · rw [List.mem_singleton.mp hmem]
        exact readEntry_inside hentry

theorem openEntries_inside {record : HeaderRecord} {fields : MainFields}
    {entries : List ArjEntry}
    (h : (openEntries bytes limits record totals fields).granted = .ok entries) :
    ∀ entry ∈ entries, entry.Inside bytes := by
  rw [openEntries, granted_bind] at h
  obtain ⟨⟨offset, counted⟩, -, h⟩ := bind_eq_ok.mp h
  simp only [granted_bind, granted_lift] at h
  obtain ⟨_, _, h⟩ := bind_eq_ok.mp h
  obtain ⟨_, _, h⟩ := bind_eq_ok.mp h
  obtain ⟨⟨behind, found⟩, hloop, h⟩ := bind_eq_ok.mp h
  obtain ⟨terminalEnd, -, h⟩ := bind_eq_ok.mp h
  obtain ⟨trailingLength, -, h⟩ := bind_eq_ok.mp h
  have heq : found = entries := by
    by_cases htrailing : 0 < trailingLength
    · rw [if_pos htrailing] at h
      simp only [granted_bind, granted_lift] at h
      obtain ⟨trailingStart, -, h⟩ := bind_eq_ok.mp h
      obtain ⟨trailing, -, h⟩ := bind_eq_ok.mp h
      obtain ⟨_, _, h⟩ := bind_eq_ok.mp h
      exact Except.ok.inj h
    · rw [if_neg htrailing] at h
      exact Except.ok.inj h
  have hinside := entryLoop_inside (fun entry hentry => absurd hentry List.not_mem_nil) hloop
  exact heq ▸ hinside

theorem decodeVerified_shift (lzh : LzhDecoder) (hlen : (front ++ bytes).length < 2 ^ 63)
    {archive behind : ArjArchive} (hbytes : archive.bytes = bytes)
    (hbehind : behind.bytes = front ++ bytes) (hlimits : behind.limits = archive.limits)
    {entry : ArjEntry} (h : entry.Inside bytes) :
    behind.decodeVerified lzh (entry.shift front.length) = archive.decodeVerified lzh entry := by
  obtain ⟨horder, hle⟩ := h
  have hlength : (front ++ bytes).length = front.length + bytes.length := length_append
  have hdata : ∀ o t, checkedRange bytes entry.dataStart (entry.dataEnd - entry.dataStart) o t =
      .ok ((bytes.drop entry.dataStart).take (entry.dataEnd - entry.dataStart)) := fun o t => by
    rw [checkedRange_eq (by omega), if_pos (by omega)]
  have hbehindData := fun o t => checkedRange_shift hlen (hdata o t)
  have hsize : checkedSub (front.length + entry.dataEnd) (front.length + entry.dataStart) =
      some (entry.dataEnd - entry.dataStart) := by
    rw [checkedSub_of_le (by omega), Nat.add_sub_add_left]
  simp only [ArjArchive.decodeVerified, hbytes, hbehind, hlimits, ArjEntry.shift, hsize,
    checkedSub_of_le horder, okOr_some, Prog.lift_ok_bind, hdata, hbehindData]
  rfl

/-- Under the limits under which an archive opens, it opens behind other bytes in which no
header begins, with its entries and what they decode to, exactly where it begins with a header
itself and nothing in front of it begins like a header that is longer than the limits allow. -/
theorem openBytes_behind_iff (lzh : LzhDecoder) (front bytes : List UInt8) (limits : Limits)
    (archive : ArjArchive)
    (hlen : (front ++ bytes).length < 2 ^ 63)
    (hopen : (openBytes bytes limits).granted = .ok archive)
    (hscan : front.length ≤ limits.sfxScanLimit)
    (htotal : (front ++ bytes).length ≤ limits.maxTotalInputBytes)
    (hnone : ∀ place < front.length, beginsHeader ((front ++ bytes).drop place) = false) :
    (∃ behind, (openBytes (front ++ bytes) limits).granted = .ok behind ∧
        behind.sfxOffset = front.length ∧
        behind.entries = archive.entries.map (·.shift front.length) ∧
        ∀ entry ∈ archive.entries, behind.decodeVerified lzh (entry.shift front.length) =
          archive.decodeVerified lzh entry) ↔
      beginsHeader bytes = true ∧
        ∀ place < front.length, beginsOversized limits ((front ++ bytes).drop place) = false := by
  have hlength : (front ++ bytes).length = front.length + bytes.length := length_append
  constructor
  · rintro ⟨behind, hbehind, hoffset, -, -⟩
    rw [openBytes, Prog.granted_lift_bind, checkLimit_of_le htotal, ok_bind,
      granted_bind] at hbehind
    obtain ⟨⟨offset, record, counted⟩, hfind, hbehind⟩ := bind_eq_ok.mp hbehind
    simp only [granted_bind] at hbehind
    obtain ⟨fields, -, hbehind⟩ := bind_eq_ok.mp hbehind
    obtain ⟨entries, -, hbehind⟩ := bind_eq_ok.mp hbehind
    cases hbehind
    cases hoffset
    rw [findMainHeader] at hfind
    obtain ⟨-, hbegins, hoversized⟩ := findLoop_found hlen (by omega) hfind
    rw [List.drop_left] at hbegins
    exact ⟨hbegins, fun place hlt => hoversized place (Nat.zero_le _) hlt⟩
  · rintro ⟨hbegins, hoversized⟩
    have hinput : bytes.length ≤ limits.maxTotalInputBytes := by omega
    rw [openBytes, Prog.granted_lift_bind, checkLimit_of_le hinput, ok_bind, granted_bind] at hopen
    obtain ⟨⟨offset, record, counted⟩, hfind, hopen⟩ := bind_eq_ok.mp hopen
    simp only [granted_bind] at hopen
    obtain ⟨fields, hfields, hopen⟩ := bind_eq_ok.mp hopen
    obtain ⟨entries, hentries, hopen⟩ := bind_eq_ok.mp hopen
    cases hopen
    have hpass : ∀ place < front.length,
        beginsHeader ((front ++ bytes).drop place) = false ∧
          beginsOversized limits ((front ++ bytes).drop place) = false :=
      fun place hlt => ⟨hnone place hlt, hoversized place hlt⟩
    have hbehind := findMainHeader_append hlen hscan hbegins hpass _ _ hfind
    have hshifted := openEntries_shift hlen _ _ _ _ hentries
    refine ⟨⟨front ++ bytes, entries.map (·.shift front.length), fields.rawName,
      fields.rawComment, front.length, fields.archiverVersion, fields.minimumVersion,
      fields.hostOs, fields.flags, fields.creationTime, fields.modificationTime, limits⟩,
      ?_, rfl, rfl, fun entry hentry => ?_⟩
    · rw [openBytes, Prog.granted_lift_bind, checkLimit_of_le htotal, ok_bind, granted_bind,
        hbehind, ok_bind]
      simp only [granted_bind]
      rw [show (record.shift front.length).basic = record.basic from rfl, hfields,
        ok_bind, hshifted]
      rfl
    · have hinside := openEntries_inside hentries entry hentry
      refine decodeVerified_shift lzh hlen ?_ ?_ ?_ hinside
      · rfl
      · rfl
      · rfl

/-- A decoder that copies. -/
def copyLzh : LzhDecoder where
  State := List UInt8
  new := some
  fillBuffer bytes count :=
    if bytes.length < count then some none
    else some (some (Vector.ofFn fun i => bytes.getD i 0, bytes.drop count))

def sampleHeader : List UInt8 := [30, 0, 0, 0, 0, 0, 2] ++ List.replicate 25 0

def sampleLocal : List UInt8 :=
  [30, 0, 0, 0, 0, 0, 0, 0, 0, 0, 0, 0, 2, 0, 0, 0, 2, 0, 0, 0] ++ toLeBytes 4 0xb6cc4292 ++
    List.replicate 6 0 ++ [0x61, 0, 0]

def headerBytes (header : List UInt8) : List UInt8 :=
  magic ++ toLeBytes 2 header.length ++ header ++
    toLeBytes 4 (Crc32.checksum header).toNat ++ [0, 0]

/-- One stored member, `1, 2`. -/
def sampleArchive : List UInt8 :=
  headerBytes sampleHeader ++ headerBytes sampleLocal ++ [1, 2] ++ magic ++ [0, 0]

def sampleEntry : ArjEntry :=
  ⟨0, [0x61], [], 0, 0, 0, 0, .stored, .binary, 0, 2, 2, some 0xb6cc4292, 0, 0, false, 85, 87⟩

def sampleOpened (limits : Limits) : ArjArchive :=
  ⟨sampleArchive, [sampleEntry], [], [], 0, 0, 0, 0, 0, 0, 0, limits⟩

/-- A stub whose last bytes look like the header of one byte. -/
theorem openBytes_behind_iff_stub :
    ∃ behind,
      (openBytes ([0x4d, 0x5a, 0x60, 0xea, 1, 0] ++ sampleArchive) Limits.default).granted =
        .ok behind ∧
      behind.sfxOffset = 6 ∧ behind.entries = [sampleEntry.shift 6] ∧
      (behind.decodeVerified copyLzh (sampleEntry.shift 6)).granted = .ok [1, 2] := by
  obtain ⟨behind, hopen, hoffset, hentries, hdecode⟩ :=
    (openBytes_behind_iff copyLzh [0x4d, 0x5a, 0x60, 0xea, 1, 0] sampleArchive Limits.default
      (sampleOpened Limits.default) (by decide +kernel) (by decide +kernel) (by decide)
      (by decide +kernel) (by decide +kernel)).mpr ⟨by decide +kernel, by decide +kernel⟩
  exact ⟨behind, hopen, hoffset, hentries,
    (congrArg granted (hdecode sampleEntry List.mem_cons_self)).trans (by decide +kernel)⟩

/-- Four bytes in front of an archive look like the header of 1024 bytes, no header begins in
them, and the archive is not found. -/
theorem oversized_candidate_fatal :
    (openBytes sampleArchive { Limits.default with maxHeaderBytes := 100 }).granted =
        .ok (sampleOpened { Limits.default with maxHeaderBytes := 100 }) ∧
      (∀ place < 4, beginsHeader (([0x60, 0xea, 0, 4] ++ sampleArchive).drop place) = false) ∧
      (openBytes ([0x60, 0xea, 0, 4] ++ sampleArchive)
          { Limits.default with maxHeaderBytes := 100 }).granted =
        .error (.limitExceeded .headerBytes 1024 100) :=
  ⟨by decide +kernel, by decide +kernel, by decide +kernel⟩

end Arj
end Unpackio
