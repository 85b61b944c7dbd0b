/-
The parser on archives of a GNU writer: which of them it reads, and when every
entry has the name and the link that the writer stored.
-/
import Unpackio.Deb.GnuNames
import Unpackio.Deb.TarRoundTrip

namespace Unpackio
namespace Deb

open List (append_assoc flatMap_cons length_append map_cons)
open Numerals

namespace GnuMember

theorem tarString_headerPrefix {member : GnuMember} (h : member.PrefixPadded) :
    tarString member.block.bytes 345 155 "tar prefix is truncated" =
      .ok member.headerPrefix := by
  have hplain : ¬∃ byte ∈ member.prefixField.drop member.headerPrefix.length,
      byte ≠ 0 ∧ byte ≠ 0x20 := by
    rintro ⟨byte, hmem, hzero, hspace⟩
    exact (h byte hmem).elim hzero hspace
  rw [tarString, checkedRange_field member.block.length_eq (by decide), Except.ok_bind]
  exact (congrArg (· >>= _) (rejectIf_of_not hplain _)).trans rfl

theorem tarString_not_padded {member : GnuMember} (h : ¬member.PrefixPadded) :
    tarString member.block.bytes 345 155 "tar prefix is truncated" =
      .error (debFormat "tar string padding is invalid") := by
  have hother : ∃ byte ∈ member.prefixField.drop member.headerPrefix.length,
      byte ≠ 0 ∧ byte ≠ 0x20 := by
    unfold PrefixPadded at h
    push Not at h
    exact h
  rw [tarString, checkedRange_field member.block.length_eq (by decide), Except.ok_bind]
  exact (congrArg (· >>= _) (rejectIf_of hother _)).trans rfl

def sources (member : GnuMember) : Sources where
  localPax := PaxValues.default
  globalPax := PaxValues.default
  longName := member.longName.map longValueEnd
  longLink := member.longLink.map longValueEnd

def entry (member : GnuMember) (tarSection : DebSection) (index dataStart : Nat) : DebEntry :=
  member.sources.entry member.block member.fields member.headerPath tarSection index dataStart
    member.data.length

/-- The limits leave room for the names and the data of the member. -/
structure Fits (limits : Limits) (member : GnuMember) : Prop where
  records : ∀ record ∈ member.records, record.name.length ≤ limits.maxNameBytesPerEntry
  headerPath : member.headerPath.length ≤ limits.maxNameBytesPerEntry
  linkName : member.fields.linkName.length ≤ limits.maxNameBytesPerEntry
  data : member.data.length ≤ limits.maxEntryOutputBytes

theorem longValueEnd_allowed {limits : Limits} {name : List UInt8} (hplain : 0 ∉ name)
    (hlength : name.length ≤ limits.maxNameBytesPerEntry) :
    NameAllowed limits (longValueEnd name) :=
  ⟨fun h => hplain ((longValueEnd_front name).subset h),
    Nat.le_trans (longValueEnd_front name).length_le hlength⟩

theorem headerPath_plain (member : GnuMember) : 0 ∉ member.headerPath := by
  have hname := member.name_eq.1
  unfold headerPath joinedPath
  split
  · exact hname
  · rw [List.mem_append, List.mem_cons]
    rintro (h | h | h)
    · have hkept := List.all_takeWhile (p := fun byte : UInt8 => decide (byte ≠ 0))
        (l := member.prefixField)
      exact absurd (List.all_eq_true.mp hkept 0 h) (by decide)
    · exact absurd h (by decide)
    · exact hname h

section

variable {limits : Limits} {member : GnuMember} (h : member.Fits limits)
include h

theorem path_allowed : NameAllowed limits member.path := by
  unfold path
  cases hlong : member.longName with
  | none => exact ⟨member.headerPath_plain, h.headerPath⟩
  | some name =>
    obtain ⟨record, hmem, rfl⟩ := mem_longName hlong
    exact longValueEnd_allowed record.plain (h.records record hmem)

theorem linkTarget_allowed {value : List UInt8} (hvalue : member.linkTarget = some value) :
    NameAllowed limits value := by
  rcases Option.or_eq_some_iff.mp hvalue with hlong | ⟨-, hheader⟩
  · obtain ⟨name, hname, rfl⟩ := Option.map_eq_some_iff.mp hlong
    obtain ⟨record, hmem, rfl⟩ := mem_longLink hname
    exact longValueEnd_allowed record.plain (h.records record hmem)
  · unfold nonEmpty at hheader
    split at hheader
    · cases hheader
    · cases hheader
      exact ⟨member.restIn.linkName_eq.1, h.linkName⟩

end

theorem headerPath_length_lt (member : GnuMember) : member.headerPath.length < 2 ^ 64 := by
  obtain ⟨-, nameNuls, hname⟩ := member.name_eq
  have hnameLen := length_fieldAt member.block.length_eq (show 0 + 100 ≤ blockBytes by decide)
  have hfieldLen := length_fieldAt member.block.length_eq (show 345 + 155 ≤ blockBytes by decide)
  have hfrontLen : member.headerPrefix.length ≤ member.prefixField.length :=
    (List.takeWhile_prefix _).length_le
  rw [hname, length_append] at hnameLen
  rw [prefixField, hfieldLen] at hfrontLen
  unfold headerPath joinedPath
  split
  · omega
  · rw [length_append, List.length_cons]
    omega

theorem sources_names {limits : Limits} {member : GnuMember} (h : member.Fits limits)
    (hne : member.path ≠ []) :
    member.sources.Names limits member.block member.fields member.headerPath member.data where
  path_ne_nil := hne
  path := path_allowed h
  linkTarget := fun _ hvalue => linkTarget_allowed h hvalue
  size_eq := member.size_eq
  data_le := h.data

theorem recordsBytes_mod (member : GnuMember) : member.recordsBytes.length % blockBytes = 0 := by
  unfold recordsBytes
  induction member.records with
  | nil => rfl
  | cons record records ih =>
    rw [flatMap_cons, length_append, Nat.add_mod, LongRecord.bytes, recordBytes_mod, ih]
    rfl

theorem length_bytes (member : GnuMember) : member.bytes.length =
    member.recordsBytes.length + (recordBytes member.block member.data).length := length_append

theorem length_mod (member : GnuMember) : member.bytes.length % blockBytes = 0 := by
  rw [member.length_bytes, Nat.add_mod, member.recordsBytes_mod, recordBytes_mod]
  rfl

def rounds (member : GnuMember) : Nat := member.records.length + 1

theorem rounds_le (member : GnuMember) : member.rounds ≤ member.bytes.length := by
  have hpos : 0 < blockBytes := by decide
  have hrecords : member.records.length ≤ member.recordsBytes.length := by
    unfold recordsBytes
    induction member.records with
    | nil => exact Nat.le_refl 0
    | cons record records ih =>
      have hrecord := length_recordBytes record.block (record.name ++ [0])
      rw [flatMap_cons, length_append, List.length_cons, LongRecord.bytes]
      omega
  have hlast := length_recordBytes member.block member.data
  rw [rounds, member.length_bytes]
  omega

end GnuMember

def ArchiveTotals.afterGnu (totals : ArchiveTotals) (member : GnuMember) : ArchiveTotals :=
  (totals.afterLong member.records).afterEntry member.path

def TarState.behindLong (member : GnuMember) (offset : Nat) (entries : List DebEntry)
    (totals : ArchiveTotals) : TarState where
  offset := offset + member.recordsBytes.length
  entries := entries
  globalPax := PaxValues.default
  localPax := none
  longName := member.longName.map longValueEnd
  longLink := member.longLink.map longValueEnd
  totals := totals.afterLong member.records

theorem foldl_absorbLong_between (member : GnuMember) (offset : Nat) (entries : List DebEntry)
    (totals : ArchiveTotals) :
    member.records.foldl TarState.absorbLong (.between offset entries [] totals) =
      .behindLong member offset entries totals := by
  rw [foldl_absorbLong]
  simp only [TarState.between, Option.or_none]
  rfl

section Member

variable {bytes front rest : List UInt8} {member : GnuMember}
  (hbytes : bytes = front ++ member.bytes ++ rest) (hlen : bytes.length < 2 ^ 64)
  (haligned : front.length % blockBytes = 0) {limits : Limits} {totals : ArchiveTotals}
  (hfits : member.Fits limits) (hwithin : (totals.afterGnu member).Within limits)
  (entries : List DebEntry) (tarSection : DebSection) (fuel : Nat)

include hbytes hlen haligned hfits hwithin

theorem parseLoop_behindLong :
    (parseLoop bytes tarSection limits (member.rounds + fuel)
        (.between front.length entries [] totals)).granted =
      (parseMember bytes member.block.bytes tarSection limits
        ((TarState.behindLong member front.length entries totals).countHeader blockBytes)
        member.block.typeFlag member.block.size
        (front.length + member.recordsBytes.length + blockBytes)).granted >>= fun state =>
          (parseLoop bytes tarSection limits fuel state).granted := by
  have hfirst : bytes = front ++ member.recordsBytes ++
      (recordBytes member.block member.data ++ rest) := by
    rw [hbytes, GnuMember.bytes]
    simp only [append_assoc]
  have hsecond : bytes = (front ++ member.recordsBytes) ++ member.block.bytes ++
      (member.data ++ blockPadding member.data.length ++ rest) := by
    rw [hfirst, recordBytes]
    simp only [append_assoc]
  have hfront : (front ++ member.recordsBytes).length =
      front.length + member.recordsBytes.length := length_append
  have hlong : (totals.afterLong member.records).Within limits :=
    hwithin.of_below (ArchiveTotals.below_afterEntry _ _)
  have hheader : ((totals.afterLong member.records).addHeader blockBytes).Within limits :=
    hwithin.of_below ⟨Nat.le_refl _, Nat.le_refl _, Nat.le_add_right _ _, Nat.le_add_right _ _,
      Nat.le_add_right _ _⟩
  have hrun := parseLoop_longRecords member.records hfirst hlen haligned
    (.between front.length entries [] totals) rfl hlong hfits.records tarSection (fuel + 1)
  rw [foldl_absorbLong_between] at hrun
  have hround := parseLoop_record hsecond hlen
    (.behindLong member front.length entries totals) hfront.symm hheader tarSection fuel
  rw [GnuMember.rounds, Nat.add_assoc, Nat.add_comm 1, hrun, hround, hfront, recordBody,
    if_neg member.plain]

theorem parseLoop_legible (hlegible : member.Legible) :
    (parseLoop bytes tarSection limits (member.rounds + fuel)
        (.between front.length entries [] totals)).granted =
      (parseLoop bytes tarSection limits fuel
        (.between (front.length + member.bytes.length)
          (entries ++ [member.entry tarSection totals.nextEntryIndex
            (front.length + member.recordsBytes.length + blockBytes)])
          [] (totals.afterGnu member))).granted := by
  have hblock : (front ++ member.recordsBytes ++ member.block.bytes).length =
      front.length + member.recordsBytes.length + blockBytes := by
    rw [length_append, length_append, member.block.length_eq]
  have hthird : bytes = (front ++ member.recordsBytes ++ member.block.bytes) ++ member.data ++
      (blockPadding member.data.length ++ rest) := by
    rw [hbytes, GnuMember.bytes, recordBytes]
    simp only [append_assoc]
  have hboundary :
      (front ++ member.recordsBytes ++ member.block.bytes).length % blockBytes = 0 := by
    rw [hblock, Nat.add_mod_right, Nat.add_mod, haligned, member.recordsBytes_mod]
    rfl
  have hpath := headerPath_granted
    (tarString_eq member.block.length_eq (by decide) member.name_eq _)
    (GnuMember.tarString_headerPrefix hlegible.padded) hfits.headerPath
    member.headerPath_length_lt
  have hmember := parseMember_granted member.restIn hthird hlen hboundary
    ((TarState.behindLong member front.length entries totals).countHeader blockBytes) hpath
    (GnuMember.sources_names hfits hlegible.path_ne_nil) hwithin tarSection
  rw [hblock] at hmember
  rw [parseLoop_behindLong hbytes hlen haligned hfits hwithin, hmember, Except.ok_bind,
    member.length_bytes, length_recordBytes, ← Nat.add_assoc, ← Nat.add_assoc, ← Nat.add_assoc]
  rfl

theorem parseLoop_illegible (hlegible : ¬member.Legible) :
    ∃ error, (parseLoop bytes tarSection limits (member.rounds + fuel)
      (.between front.length entries [] totals)).granted = .error error := by
  have hname := tarString_eq member.block.length_eq (by decide) member.name_eq
    "tar name is truncated"
  rw [parseLoop_behindLong hbytes hlen haligned hfits hwithin, parseMember]
  by_cases hpadded : member.PrefixPadded
  · -- The prefix reads, and the member has no name.
    have hempty : member.path = [] := by
      by_contra hne
      exact hlegible ⟨hpadded, hne⟩
    have hpath := headerPath_granted hname (GnuMember.tarString_headerPrefix hpadded)
      hfits.headerPath member.headerPath_length_lt
    refine ⟨debFormat "tar member name is empty", ?_⟩
    simp only
    rw [Prog.granted_bind, hpath, Except.ok_bind, Prog.granted_lift_bind]
    have hreject : validateName member.path limits
        ((TarState.behindLong member front.length entries totals).countHeader blockBytes).totals =
          .error (debFormat "tar member name is empty") := by
      rw [validateName, rejectIf_of hempty]
      rfl
    exact congrArg (fun result => (result >>= _) >>= _) hreject
  · refine ⟨debFormat "tar string padding is invalid", ?_⟩
    simp only
    rw [Prog.granted_bind, headerPath, Prog.granted_lift_bind, hname, Except.ok_bind,
      Prog.granted_lift_bind, GnuMember.tarString_not_padded hpadded]
    rfl

end Member

def ArchiveTotals.afterGnuMembers (totals : ArchiveTotals) : List GnuMember → ArchiveTotals
  | [] => totals
  | member :: members => (totals.afterGnu member).afterGnuMembers members

theorem ArchiveTotals.below_afterGnuMembers (totals : ArchiveTotals) (members : List GnuMember) :
    totals.Below (totals.afterGnuMembers members) := by
  induction members generalizing totals with
  | nil => exact ⟨Nat.le_refl _, Nat.le_refl _, Nat.le_refl _, Nat.le_refl _, Nat.le_refl _⟩
  | cons member members ih =>
    exact ((below_addHeader _ _).trans (below_afterEntry _ _)).trans (ih (totals.afterGnu member))

/-- The entries of the members, from `offset` on. -/
def gnuEntries (tarSection : DebSection) : List GnuMember → Nat → Nat → List DebEntry
  | [], _, _ => []
  | member :: members, index, offset =>
    member.entry tarSection index (offset + member.recordsBytes.length + blockBytes) ::
      gnuEntries tarSection members (index + 1) (offset + member.bytes.length)

def gnuBytes (members : List GnuMember) : List UInt8 := members.flatMap GnuMember.bytes

def gnuRounds (members : List GnuMember) : Nat := (members.map GnuMember.rounds).sum

theorem gnuRounds_le (members : List GnuMember) :
    gnuRounds members ≤ (gnuBytes members).length := by
  induction members with
  | nil => exact Nat.le_refl 0
  | cons member members ih =>
    have hmember := member.rounds_le
    rw [gnuRounds, gnuBytes] at *
    rw [map_cons, List.sum_cons, flatMap_cons, length_append]
    omega

theorem gnuRounds_cons (member : GnuMember) (members : List GnuMember) (fuel : Nat) :
    gnuRounds (member :: members) + fuel = member.rounds + (gnuRounds members + fuel) := by
  rw [gnuRounds, map_cons, List.sum_cons, Nat.add_assoc]
  rfl

section Archive

variable {bytes rest : List UInt8} (hlen : bytes.length < 2 ^ 64) {limits : Limits}
  (tarSection : DebSection) (fuel : Nat)

include hlen

variable (members : List GnuMember) (front : List UInt8)
  (hbytes : bytes = front ++ gnuBytes members ++ rest) (haligned : front.length % blockBytes = 0)
  (totals : ArchiveTotals) (hfits : ∀ member ∈ members, member.Fits limits)
  (hwithin : (totals.afterGnuMembers members).Within limits)
include hbytes haligned hfits hwithin

theorem parseLoop_gnuMembers (hlegible : ∀ member ∈ members, member.Legible)
    (entries : List DebEntry) :
    (parseLoop bytes tarSection limits (gnuRounds members + fuel)
        (.between front.length entries [] totals)).granted =
      (parseLoop bytes tarSection limits fuel
        (.between (front.length + (gnuBytes members).length)
          (entries ++ gnuEntries tarSection members totals.nextEntryIndex front.length) []
          (totals.afterGnuMembers members))).granted := by
  induction members generalizing front totals entries with
  | nil =>
    rw [gnuEntries, List.append_nil, gnuRounds, List.map_nil, List.sum_nil, Nat.zero_add]
    rfl
  | cons member members ih =>
    obtain ⟨hfit, hfits⟩ := List.forall_mem_cons.mp hfits
    obtain ⟨hmember, hmembers⟩ := List.forall_mem_cons.mp hlegible
    rw [gnuBytes, flatMap_cons, ← append_assoc] at hbytes
    have hboundary : (front ++ member.bytes).length % blockBytes = 0 := by
      rw [length_append, Nat.add_mod, haligned, member.length_mod]
      rfl
    have hnext := ih _ hbytes hboundary (totals.afterGnu member) hfits hwithin hmembers
      (entries ++ [member.entry tarSection totals.nextEntryIndex
        (front.length + member.recordsBytes.length + blockBytes)])
    rw [append_assoc] at hbytes
    rw [gnuRounds_cons, parseLoop_legible hbytes hlen haligned hfit
        (hwithin.of_below (ArchiveTotals.below_afterGnuMembers _ _)) entries tarSection
        (gnuRounds members + fuel) hmember,
      ← length_append, hnext, gnuBytes, gnuBytes, flatMap_cons, length_append,
      length_append, Nat.add_assoc, gnuEntries, append_assoc]
    rfl

theorem parseLoop_gnuMembers_error (hlegible : ∃ member ∈ members, ¬member.Legible)
    (entries : List DebEntry) :
    ∃ error, (parseLoop bytes tarSection limits (gnuRounds members + fuel)
      (.between front.length entries [] totals)).granted = .error error := by
  induction members generalizing front totals entries with
  | nil =>
    obtain ⟨member, hmem, -⟩ := hlegible
    exact (nomatch hmem)
  | cons member members ih =>
    obtain ⟨hfit, hfits⟩ := List.forall_mem_cons.mp hfits
    have hthis : (totals.afterGnu member).Within limits :=
      hwithin.of_below (ArchiveTotals.below_afterGnuMembers _ _)
    rw [gnuBytes, flatMap_cons, ← append_assoc] at hbytes
    have hfirst := hbytes
    rw [append_assoc] at hfirst
    rw [gnuRounds_cons]
    by_cases hmember : member.Legible
    · have hboundary : (front ++ member.bytes).length % blockBytes = 0 := by
        rw [length_append, Nat.add_mod, haligned, member.length_mod]
        rfl
      have hothers : ∃ other ∈ members, ¬other.Legible := by
        obtain ⟨other, hmem, hother⟩ := hlegible
        rcases List.mem_cons.mp hmem with rfl | hmem
        · exact absurd hmember hother
        · exact ⟨other, hmem, hother⟩
      rw [parseLoop_legible hfirst hlen haligned hfit hthis entries tarSection
        (gnuRounds members + fuel) hmember, ← length_append]
      exact ih _ hbytes hboundary _ hfits hwithin hothers _
    · exact parseLoop_illegible hfirst hlen haligned hfit hthis entries tarSection
        (gnuRounds members + fuel) hmember

end Archive

/-- The limits leave room for the members, the totals so far included. -/
structure GnuSufficient (limits : Limits) (totals : ArchiveTotals) (members : List GnuMember) :
    Prop where
  totals : ((totals.afterGnuMembers members).addHeader (2 * blockBytes)).Within limits
  members : ∀ member ∈ members, member.Fits limits

theorem gnuEntries_names (tarSection : DebSection) (members : List GnuMember)
    (index offset : Nat) :
    (gnuEntries tarSection members index offset).map (fun entry =>
        (entry.rawName, entry.rawLinkName)) =
      members.map fun member => (member.path, member.linkTarget) := by
  induction members generalizing index offset with
  | nil => rfl
  | cons member members ih =>
    rw [gnuEntries, map_cons, map_cons, ih]
    rfl

theorem gnuRounds_le_length (members : List GnuMember) (tail : Nat) :
    gnuRounds members ≤ (gnuArchiveBytes members tail).length := by
  rw [gnuArchiveBytes, length_append]
  exact Nat.le_trans (gnuRounds_le members) (Nat.le_add_right _ _)

section Parse

variable {members : List GnuMember} {tail : Nat}
  (hlen : (gnuArchiveBytes members tail).length < 2 ^ 64) {limits : Limits}
  {totals : ArchiveTotals} (hsufficient : GnuSufficient limits totals members)
  (tarSection : DebSection)

include hlen hsufficient

theorem parse_legible (hlegible : ∀ member ∈ members, member.Legible) :
    (parse (gnuArchiveBytes members tail) tarSection limits totals).granted =
      .ok (gnuEntries tarSection members totals.nextEntryIndex 0,
        (totals.afterGnuMembers members).addHeader (2 * blockBytes)) := by
  obtain ⟨fuel, hfuel⟩ := Nat.exists_eq_add_of_le (gnuRounds_le_length members tail)
  have hrun := parseLoop_gnuMembers hlen tarSection (fuel + 1) members [] rfl rfl totals
    hsufficient.members (hsufficient.totals.of_below (ArchiveTotals.below_addHeader _ _))
      hlegible []
  have hend := parseLoop_end (gnuBytes members) rfl hlen
    (gnuEntries tarSection members totals.nextEntryIndex 0) [] hsufficient.totals tarSection fuel
  rw [List.length_nil, Nat.zero_add, List.nil_append] at hrun
  have hloop : (parseLoop (gnuArchiveBytes members tail) tarSection limits
      ((gnuArchiveBytes members tail).length + 1) (TarState.initial totals)).granted =
        .ok (.between (gnuBytes members).length
          (gnuEntries tarSection members totals.nextEntryIndex 0) []
          ((totals.afterGnuMembers members).addHeader (2 * blockBytes))) := by
    rw [hfuel, Nat.add_assoc]
    exact hrun.trans hend
  rw [parse, Prog.granted_bind, hloop]
  rfl

theorem parse_illegible (hlegible : ∃ member ∈ members, ¬member.Legible) :
    ∃ error, (parse (gnuArchiveBytes members tail) tarSection limits totals).granted =
      .error error := by
  obtain ⟨fuel, hfuel⟩ := Nat.exists_eq_add_of_le (gnuRounds_le_length members tail)
  obtain ⟨error, hrun⟩ := parseLoop_gnuMembers_error hlen tarSection (fuel + 1) members [] rfl rfl
    totals hsufficient.members
    (hsufficient.totals.of_below (ArchiveTotals.below_addHeader _ _)) hlegible []
  have hloop : (parseLoop (gnuArchiveBytes members tail) tarSection limits
      ((gnuArchiveBytes members tail).length + 1) (TarState.initial totals)).granted =
        .error error := by
    rw [hfuel, Nat.add_assoc]
    exact hrun
  exact ⟨error, by rw [parse, Prog.granted_bind, hloop]; rfl⟩

end Parse

/-- The parser gives every member the name and the link that the writer stored
exactly where every member meets the condition. -/
theorem parse_gnuArchive_iff {members : List GnuMember} {tail : Nat}
    (hlen : (gnuArchiveBytes members tail).length < 2 ^ 64) {limits : Limits}
    {totals : ArchiveTotals} (hsufficient : GnuSufficient limits totals members)
    (tarSection : DebSection) :
    (∃ entries result, (parse (gnuArchiveBytes members tail) tarSection limits totals).granted =
        .ok (entries, result) ∧
      entries.map (fun entry => (entry.rawName, entry.rawLinkName)) =
        members.map fun member => (member.storedName, member.storedLink)) ↔
      ∀ member ∈ members, member.Preserved := by
  constructor
  · rintro ⟨entries, result, hparse, hnames⟩
    have hlegible : ∀ member ∈ members, member.Legible := by
      by_contra hnot
      push Not at hnot
      obtain ⟨error, herror⟩ := parse_illegible hlen hsufficient tarSection hnot
      exact (nomatch herror.symm.trans hparse)
    cases (parse_legible hlen hsufficient tarSection hlegible).symm.trans hparse
    rw [gnuEntries_names, List.map_inj_left] at hnames
    intro member hmem
    have hmember := hnames member hmem
    exact member.preserved_iff.mpr
      ⟨hlegible member hmem, congrArg Prod.fst hmember, congrArg Prod.snd hmember⟩
  · intro hpreserved
    have hread := fun member hmem => GnuMember.preserved_iff member |>.mp (hpreserved member hmem)
    refine ⟨_, _, parse_legible hlen hsufficient tarSection fun member hmem =>
      (hread member hmem).1, ?_⟩
    rw [gnuEntries_names, List.map_inj_left]
    exact fun member hmem => Prod.ext (hread member hmem).2.1 (hread member hmem).2.2

def gnuMember {parts : SampleParts} (records : List LongRecord) (h : parts.Checked)
    (hplain : ¬isExtensionFlag parts.typeFlag) (hsize : parts.size = [])
    (hmagic : parts.magic = gnuMagic) : GnuMember where
  records := records
  block := h.block
  fields := parts.fields
  data := []
  plain := hplain
  size_eq := congrArg (numeral 8 asciiDigit) hsize
  magic_eq := h.magic_eq.trans (by rw [hmagic]; rfl)
  name_eq := h.stringField
  restIn := h.restIn

theorem plainChecked :
    SampleParts.Checked ⟨[0x61], [], [0x32, 0x30, 0x30, 0x30], 0x30, gnuMagic, []⟩ := by
  constructor <;> decide +kernel

/-- A member `a`. -/
def plainMember : GnuMember := gnuMember [] plainChecked (by decide) rfl rfl

theorem timedChecked :
    SampleParts.Checked ⟨[0x61], [], [0x32, 0x30, 0x36, 0x31], 0x30, gnuMagic, [0x31]⟩ := by
  constructor <;> decide +kernel

/-- A member `a` with a digit of its access time at byte 345. -/
def timedMember : GnuMember := gnuMember [] timedChecked (by decide) rfl rfl

theorem longChecked :
    SampleParts.Checked ⟨[0x61], [0x33], [0x32, 0x31, 0x31, 0x37], 0x4c, gnuMagic, []⟩ := by
  constructor <;> decide +kernel

/-- A long name of two bytes. -/
def longNameRecord {first second : UInt8} (h : 0 ∉ [first, second]) : LongRecord where
  block := longChecked.block
  name := [first, second]
  typeFlag_eq := .inl rfl
  size_eq := rfl
  magic_eq := longChecked.magic_eq
  name_ne_nil := List.cons_ne_nil _ _
  plain := h

/-- A member `hi`, with the digit at byte 345 behind its long name. -/
def longNamedMember : GnuMember :=
  gnuMember [longNameRecord (show 0 ∉ [0x68, 0x69] by decide)] timedChecked (by decide) rfl rfl

/-- A member whose long name is `a` and a newline. -/
def newlineMember : GnuMember :=
  gnuMember [longNameRecord (show 0 ∉ [0x61, 0x0a] by decide)] plainChecked (by decide) rfl rfl

/-- The long name hides the byte of the access time. -/
theorem parse_gnuArchive_iff_longNamed :
    GnuSufficient Limits.default ArchiveTotals.default [longNamedMember, plainMember] ∧
      (∀ member ∈ [longNamedMember, plainMember], member.Preserved) ∧
      ∃ entries result, (parse (gnuArchiveBytes [longNamedMember, plainMember] 0) .data
          Limits.default ArchiveTotals.default).granted = .ok (entries, result) ∧
        entries.map (fun entry => (entry.rawName, entry.rawLinkName)) =
          [([0x68, 0x69], none), ([0x61], none)] := by
  have hlen : (gnuArchiveBytes [longNamedMember, plainMember] 0).length < 2 ^ 64 := by
    decide +kernel
  have hsufficient :
      GnuSufficient Limits.default ArchiveTotals.default [longNamedMember, plainMember] :=
    ⟨by constructor <;> decide +kernel, List.forall_mem_cons.mpr
      ⟨⟨by decide +kernel, by decide +kernel, by decide +kernel, by decide +kernel⟩,
        List.forall_mem_singleton.mpr ⟨by decide +kernel, by decide +kernel, by decide +kernel,
          by decide +kernel⟩⟩⟩
  have hpreserved : ∀ member ∈ [longNamedMember, plainMember], member.Preserved := by
    refine List.forall_mem_cons.mpr ⟨⟨by decide +kernel, fun h => (nomatch h), fun name hname => ?_,
      fun _ h => (nomatch h)⟩, List.forall_mem_singleton.mpr ⟨by decide +kernel,
      fun _ => by decide +kernel, fun _ h => (nomatch h), fun _ h => (nomatch h)⟩⟩
    obtain rfl : [0x68, 0x69] = name := Option.some.inj hname
    decide
  exact ⟨hsufficient, hpreserved, (parse_gnuArchive_iff hlen hsufficient .data).mpr hpreserved⟩

/-- The byte of the access time becomes a directory of the path, and the newline
at the end of a long name is lost. -/
theorem parse_gnuArchive_changed :
    (timedMember.storedName = [0x61] ∧ timedMember.longName = none ∧
      ((parse (gnuArchiveBytes [timedMember] 0) .data Limits.default
        ArchiveTotals.default).granted.map fun result => result.1.map DebEntry.rawName) =
          .ok [[0x31, 0x2f, 0x61]]) ∧
      newlineMember.storedName = [0x61, 0x0a] ∧
      ((parse (gnuArchiveBytes [newlineMember] 0) .data Limits.default
        ArchiveTotals.default).granted.map fun result => result.1.map DebEntry.rawName) =
          .ok [[0x61]] := by
  have hread : ∀ member : GnuMember, (gnuArchiveBytes [member] 0).length < 2 ^ 64 →
      GnuSufficient Limits.default ArchiveTotals.default [member] → member.Legible →
      ((parse (gnuArchiveBytes [member] 0) .data Limits.default
        ArchiveTotals.default).granted.map fun result => result.1.map DebEntry.rawName) =
          .ok [member.path] := by
    intro member hlen hsufficient hlegible
    rw [parse_legible hlen hsufficient .data (List.forall_mem_singleton.mpr hlegible)]
    rfl
  refine ⟨⟨by decide +kernel, by decide +kernel, ?_⟩, by decide +kernel, ?_⟩
  · refine (hread timedMember (by decide +kernel) ⟨by constructor <;> decide +kernel,
      List.forall_mem_singleton.mpr ⟨by decide +kernel, by decide +kernel, by decide +kernel,
        by decide +kernel⟩⟩ ⟨by decide +kernel, by decide +kernel⟩).trans ?_
    exact congrArg Except.ok (by decide +kernel)
  · refine (hread newlineMember (by decide +kernel) ⟨by constructor <;> decide +kernel,
      List.forall_mem_singleton.mpr ⟨by decide +kernel, by decide +kernel, by decide +kernel,
        by decide +kernel⟩⟩ ⟨by decide +kernel, by decide +kernel⟩).trans ?_
    exact congrArg Except.ok (by decide +kernel)

end Deb
end Unpackio
