/-
The round trip of a tar archive: the parser gives one entry for each member that
was written, with every attribute from the source that comes first.
-/
import Unpackio.Deb.TarSources

namespace Unpackio
namespace Deb

open List (append_assoc append_nil flatMap_cons length_append length_replicate)
open Prog (granted_bind granted_lift_bind)
open Except (ok_bind)
open Numerals

variable {value bytes rest : List UInt8} {member : Member} {globals : List PaxRecord}
  {limits : Limits} {totals : ArchiveTotals}

theorem lastValue_mem {key : List UInt8} {records : List PaxRecord}
    (h : lastValue key records = some value) :
    ∃ record ∈ records, record.key = key ∧ record.value = value := by
  obtain ⟨record, hlast, hvalue⟩ := Option.map_eq_some_iff.mp h
  obtain ⟨hmem, hkey⟩ := List.mem_filter.mp (List.mem_of_getLast? hlast)
  exact ⟨record, hmem, of_decide_eq_true hkey, hvalue⟩

namespace Member

theorem paxValue_plain {key : List UInt8} (hkey : key ∈ nameKeys)
    (h : member.paxValue globals key = some value) : 0 ∉ value := by
  rcases Option.or_eq_some_iff.mp h with h | ⟨-, h⟩
  · obtain ⟨record, -, rfl, rfl⟩ := lastValue_mem h
    exact record.allowed.name hkey
  · obtain ⟨record, -, rfl, rfl⟩ := lastValue_mem h
    exact record.allowed.name hkey

theorem longName_plain (h : member.longName = some value) : 0 ∉ value := by
  obtain ⟨record, -, hrecord⟩ := List.mem_filterMap.mp (List.mem_of_getLast? h)
  cases hpayload : record.payload with
  | longName name nuls =>
    rw [hpayload] at hrecord
    cases hrecord
    exact name.plain
  | _ => rw [hpayload] at hrecord; nomatch hrecord

theorem longLink_plain (h : member.longLink = some value) : 0 ∉ value := by
  obtain ⟨record, -, hrecord⟩ := List.mem_filterMap.mp (List.mem_of_getLast? h)
  cases hpayload : record.payload with
  | longLink name nuls =>
    rw [hpayload] at hrecord
    cases hrecord
    exact name.plain
  | _ => rw [hpayload] at hrecord; nomatch hrecord

theorem headerPath_plain (member : Member) : 0 ∉ member.headerPath := by
  have hname := member.standIn.name_eq.1
  have hpathPrefix := member.standIn.pathPrefix_eq.1
  unfold headerPath
  split
  · exact hname
  · rw [List.mem_append, List.mem_cons]
    rintro (h | h | h)
    · exact hpathPrefix h
    · exact absurd h (by decide)
    · exact hname h

theorem path_plain (member : Member) (globals : List PaxRecord) : 0 ∉ member.path globals := by
  unfold path
  cases hpath : (member.paxValue globals keyPath).or member.longName with
  | none => exact member.headerPath_plain
  | some value =>
    rcases Option.or_eq_some_iff.mp hpath with h | ⟨-, h⟩
    · exact paxValue_plain (by decide) h
    · exact longName_plain h

theorem linkTarget_plain (h : member.linkTarget globals = some value) : 0 ∉ value := by
  rcases Option.or_eq_some_iff.mp h with h | ⟨-, h⟩
  · rcases Option.or_eq_some_iff.mp h with h | ⟨-, h⟩
    · exact paxValue_plain (by decide) h
    · exact longLink_plain h
  · unfold nonEmpty at h
    split at h
    · cases h
    · cases h
      exact member.standIn.linkName_eq.1

/-- The limits leave room for the names and the data of the member. -/
structure Fits (limits : Limits) (member : Member) (globals : List PaxRecord) : Prop where
  payloads : ∀ record ∈ member.extensions, record.payload.Within limits
  headerPath : member.headerPath.length ≤ limits.maxNameBytesPerEntry
  path : (member.path globals).length ≤ limits.maxNameBytesPerEntry
  linkTarget : ∀ value, member.linkTarget globals = some value →
    value.length ≤ limits.maxNameBytesPerEntry
  data : member.data.length ≤ limits.maxEntryOutputBytes

/-- The extensions of the member have been read. -/
structure Pending (state : TarState) (member : Member) (globals : List PaxRecord) : Prop where
  globalPax : state.globalPax = PaxValues.default.setAll globals
  localPax : state.localPax.getD PaxValues.default = PaxValues.default.setAll member.localRecords
  longName : state.longName = member.longName
  longLink : state.longLink = member.longLink

theorem headerPath_granted (member : Member)
    (hlimit : member.headerPath.length ≤ limits.maxNameBytesPerEntry)
    (hlt : member.headerPath.length < 2 ^ 64) :
    (Deb.headerPath member.block.bytes limits).granted = .ok member.headerPath := by
  exact Deb.headerPath_granted
    (tarString_eq member.block.length_eq (by decide) member.standIn.name_eq _)
    (tarString_eq member.block.length_eq (by decide) member.standIn.pathPrefix_eq _) hlimit hlt

variable {state : TarState}

section

variable (h : Pending state member globals)
include h

theorem Pending.sources_eq :
    state.sources =
      { localPax := PaxValues.default.setAll member.localRecords
        globalPax := PaxValues.default.setAll globals
        longName := member.longName
        longLink := member.longLink } := by
  rw [TarState.sources, h.globalPax, h.localPax, h.longName, h.longLink]

theorem sources_path : state.sources.path member.headerPath = member.path globals := by
  rw [h.sources_eq, Sources.path, PaxValues.setAll_default, PaxValues.setAll_default]
  rfl

theorem sources_linkTarget :
    state.sources.linkTarget member.fields.linkName = member.linkTarget globals := by
  rw [h.sources_eq, Sources.linkTarget, PaxValues.setAll_default, PaxValues.setAll_default]
  rfl

theorem sources_entry (tarSection : DebSection) (index dataStart : Nat) :
    state.sources.entry member.block member.fields member.headerPath tarSection index dataStart
      member.data.length = member.entry globals tarSection index dataStart := by
  rw [Sources.entry, sources_path h, sources_linkTarget h, h.sources_eq, PaxValues.setAll_default,
    PaxValues.setAll_default]
  simp only [entry, paxValue, Option.map_or, Option.or_some]

theorem sources_names (hproper : member.Proper globals) (hfits : member.Fits limits globals) :
    state.sources.Names limits member.block member.fields member.headerPath member.data where
  path_ne_nil := by
    rw [sources_path h]
    exact hproper.path_ne_nil
  path := by
    rw [sources_path h]
    exact ⟨member.path_plain globals, hfits.path⟩
  linkTarget := by
    rw [sources_linkTarget h]
    exact fun value hvalue => ⟨linkTarget_plain hvalue, hfits.linkTarget value hvalue⟩
  size_eq := by
    rw [h.sources_eq, Sources.size, PaxValues.setAll_default, PaxValues.setAll_default,
      hproper.size_eq, size, paxValue, Option.map_or]
  data_le := hfits.data

end

/-- The entry and the totals that a member gives, where its extensions have been
read and `front` is all that stands before its data. -/
theorem parseMember_granted {front : List UInt8}
    (hbytes : bytes = front ++ member.data ++ (blockPadding member.data.length ++ rest))
    (hlen : bytes.length < 2 ^ 64) (haligned : front.length % blockBytes = 0)
    (hproper : member.Proper globals) (state : TarState) (hpending : Pending state member globals)
    (hfits : member.Fits limits globals) (hlt : member.headerPath.length < 2 ^ 64)
    (hwithin : (state.totals.addEntry (member.path globals)).Within limits)
    (tarSection : DebSection) :
    (parseMember bytes member.block.bytes tarSection limits state member.block.typeFlag
        member.block.size front.length).granted =
      .ok { offset := front.length + member.data.length +
              (blockPadding member.data.length).length
            entries := state.entries ++
              [member.entry globals tarSection state.totals.nextEntryIndex front.length]
            globalPax := state.globalPax
            localPax := none
            longName := none
            longLink := none
            totals := state.totals.addEntry (member.path globals) } := by
  have hmember := Deb.parseMember_granted member.standIn.toRestIn hbytes hlen haligned state
    (member.headerPath_granted hfits.headerPath hlt) (sources_names hpending hproper hfits)
    (by rw [sources_path hpending]; exact hwithin) tarSection
  rwa [sources_path hpending, sources_entry hpending] at hmember

section

variable (member : Member)

theorem bytes_eq : member.bytes = member.extensionBytes ++
    (member.block.bytes ++ (member.data ++ blockPadding member.data.length)) := rfl

theorem length_bytes : member.bytes.length =
    member.extensionBytes.length + blockBytes + member.data.length +
      (blockPadding member.data.length).length := by
  rw [bytes_eq, length_append, length_append, length_append,
    member.block.length_eq, ← Nat.add_assoc, ← Nat.add_assoc]

theorem extensionBytes_mod : member.extensionBytes.length % blockBytes = 0 := by
  unfold extensionBytes
  induction member.extensions with
  | nil => rfl
  | cons record records ih =>
    rw [flatMap_cons, length_append, Nat.add_mod, record.bytes_eq, recordBytes_mod, ih]
    rfl

theorem length_mod : member.bytes.length % blockBytes = 0 := by
  rw [member.length_bytes, Nat.add_assoc, Nat.add_mod, padded_mod, Nat.add_mod_right,
    member.extensionBytes_mod]
  rfl

theorem headerPath_length_lt : member.headerPath.length < 2 ^ 64 := by
  obtain ⟨-, nameNuls, hname⟩ := member.standIn.name_eq
  obtain ⟨-, prefixNuls, hpathPrefix⟩ := member.standIn.pathPrefix_eq
  have hnameLen := length_fieldAt member.block.length_eq (show 0 + 100 ≤ blockBytes by decide)
  have hpathPrefixLen := length_fieldAt member.block.length_eq
    (show 345 + 155 ≤ blockBytes by decide)
  rw [hname, length_append] at hnameLen
  rw [hpathPrefix, length_append] at hpathPrefixLen
  unfold headerPath
  split
  · omega
  · rw [length_append, List.length_cons]
    omega

end

def rounds (member : Member) : Nat := member.extensions.length + 1

theorem rounds_le (member : Member) : member.rounds ≤ member.bytes.length := by
  have hextensions : member.extensions.length ≤ member.extensionBytes.length := by
    unfold extensionBytes
    induction member.extensions with
    | nil => exact Nat.le_refl 0
    | cons record records ih =>
      have hrecord := length_recordBytes record.block record.payload.bytes
      have hpos : 0 < blockBytes := by decide
      rw [flatMap_cons, length_append, List.length_cons, record.bytes_eq]
      omega
  have hpos : 0 < blockBytes := by decide
  rw [rounds, member.length_bytes]
  omega

end Member

/-- The variables of the loop between two members. -/
def TarState.between (offset : Nat) (entries : List DebEntry) (globals : List PaxRecord)
    (totals : ArchiveTotals) : TarState where
  offset := offset
  entries := entries
  globalPax := PaxValues.default.setAll globals
  localPax := none
  longName := none
  longLink := none
  totals := totals

def TarState.behind (member : Member) (offset : Nat) (entries : List DebEntry)
    (globals : List PaxRecord) (totals : ArchiveTotals) : TarState where
  offset := offset + member.extensionBytes.length
  entries := entries
  globalPax := PaxValues.default.setAll (globals ++ member.globalRecords)
  localPax := (member.extensions.filterMap fun record =>
    record.payload.localRecords?).getLast?.map PaxValues.default.setAll
  longName := member.longName
  longLink := member.longLink
  totals := totals.afterExtensions member.extensions

section

variable (member : Member) (offset : Nat) (entries : List DebEntry) (globals : List PaxRecord)
  (totals : ArchiveTotals)

theorem foldl_absorb_between :
    member.extensions.foldl TarState.absorb (.between offset entries globals totals) =
      .behind member offset entries globals totals := by
  rw [foldl_absorb, TarState.behind, PaxValues.setAll_append]
  simp only [TarState.between, Option.or_none]
  rfl

theorem pending_behind :
    member.Pending (.behind member offset entries globals totals)
      (globals ++ member.globalRecords) := by
  refine ⟨rfl, ?_, rfl, rfl⟩
  rw [TarState.behind, Member.localRecords]
  cases (member.extensions.filterMap fun record => record.payload.localRecords?).getLast? <;> rfl

end

theorem parseLoop_member {front : List UInt8} (hbytes : bytes = front ++ member.bytes ++ rest)
    (hlen : bytes.length < 2 ^ 64) (haligned : front.length % blockBytes = 0)
    (hproper : member.Proper (globals ++ member.globalRecords))
    (hfits : member.Fits limits (globals ++ member.globalRecords))
    (hwithin : ((totals.afterExtensions member.extensions).afterEntry
      (member.path (globals ++ member.globalRecords))).Within limits) (entries : List DebEntry)
    (tarSection : DebSection) (fuel : Nat) :
    (parseLoop bytes tarSection limits (member.rounds + fuel)
        (.between front.length entries globals totals)).granted =
      (parseLoop bytes tarSection limits fuel
        (.between (front.length + member.bytes.length)
          (entries ++ [member.entry (globals ++ member.globalRecords) tarSection
            totals.nextEntryIndex
            (front.length + member.extensionBytes.length + blockBytes)])
          (globals ++ member.globalRecords)
          ((totals.afterExtensions member.extensions).afterEntry
            (member.path (globals ++ member.globalRecords))))).granted := by
  -- The extensions, the block and the data, each between what stands around it.
  have hfirst : bytes = front ++ member.extensionBytes ++
      (member.block.bytes ++ (member.data ++ (blockPadding member.data.length ++ rest))) := by
    rw [hbytes, member.bytes_eq]
    simp only [append_assoc]
  have hsecond : bytes = (front ++ member.extensionBytes) ++ member.block.bytes ++
      (member.data ++ (blockPadding member.data.length ++ rest)) := by
    rw [hfirst]
    simp only [append_assoc]
  have hthird : bytes = ((front ++ member.extensionBytes) ++ member.block.bytes) ++
      member.data ++ (blockPadding member.data.length ++ rest) := by
    rw [hsecond]
    simp only [append_assoc]
  have hfront : (front ++ member.extensionBytes).length =
      front.length + member.extensionBytes.length := length_append
  have hblock : (front ++ member.extensionBytes ++ member.block.bytes).length =
      front.length + member.extensionBytes.length + blockBytes := by
    rw [length_append, hfront, member.block.length_eq]
  have hboundary : (front ++ member.extensionBytes ++ member.block.bytes).length % blockBytes =
      0 := by
    rw [hblock, Nat.add_mod_right, Nat.add_mod, haligned, member.extensionBytes_mod]
    rfl
  have hheader : ((totals.afterExtensions member.extensions).addHeader blockBytes).Within
      limits :=
    hwithin.of_below ⟨Nat.le_refl _, Nat.le_refl _, Nat.le_add_right _ _, Nat.le_add_right _ _,
      Nat.le_add_right _ _⟩
  have hrun := parseLoop_extensions member.extensions hfirst hlen haligned
    (.between front.length entries globals totals) rfl
    (hwithin.of_below (ArchiveTotals.below_afterEntry _ _)) hfits.payloads tarSection (fuel + 1)
  rw [foldl_absorb_between] at hrun
  have hround := parseLoop_record hsecond hlen
    (.behind member front.length entries globals totals) hfront.symm hheader tarSection
    fuel
  have hpending := pending_behind member front.length entries globals totals
  have hmember := Member.parseMember_granted hthird hlen hboundary hproper
    ((TarState.behind member front.length entries globals totals).countHeader blockBytes)
    ⟨hpending.1, hpending.2, hpending.3, hpending.4⟩ hfits member.headerPath_length_lt hwithin
    tarSection
  rw [hblock] at hmember
  rw [Member.rounds, Nat.add_assoc, Nat.add_comm 1, hrun, hround, hfront, recordBody,
    if_neg member.plain, hmember, ok_bind, member.length_bytes, ← Nat.add_assoc,
    ← Nat.add_assoc, ← Nat.add_assoc]
  rfl

/-! ## Archives -/

def memberBytes (members : List Member) : List UInt8 := members.flatMap Member.bytes

def globalsAfter (members : List Member) (globals : List PaxRecord) : List PaxRecord :=
  globals ++ members.flatMap Member.globalRecords

def totalRounds (members : List Member) : Nat := (members.map Member.rounds).sum

theorem totalRounds_le (members : List Member) :
    totalRounds members ≤ (memberBytes members).length := by
  induction members with
  | nil => exact Nat.le_refl 0
  | cons member members ih =>
    have hmember := member.rounds_le
    rw [totalRounds, memberBytes] at *
    rw [List.map_cons, List.sum_cons, flatMap_cons, length_append]
    omega

theorem parseLoop_members (members : List Member) (front : List UInt8)
    (hbytes : bytes = front ++ memberBytes members ++ rest) (hlen : bytes.length < 2 ^ 64)
    (haligned : front.length % blockBytes = 0) (hproper : AllMembers Member.Proper members globals)
    (hfits : AllMembers (Member.Fits limits) members globals)
    (hwithin : (totals.afterMembers members globals).Within limits) (entries : List DebEntry)
    (tarSection : DebSection) (fuel : Nat) :
    (parseLoop bytes tarSection limits (totalRounds members + fuel)
        (.between front.length entries globals totals)).granted =
      (parseLoop bytes tarSection limits fuel
        (.between (front.length + (memberBytes members).length)
          (entries ++ memberEntries tarSection members globals totals.nextEntryIndex front.length)
          (globalsAfter members globals) (totals.afterMembers members globals))).granted := by
  induction members generalizing front globals totals entries with
  | nil =>
    rw [memberEntries, append_nil, globalsAfter, List.flatMap_nil, append_nil,
      totalRounds, List.map_nil, List.sum_nil, Nat.zero_add]
    rfl
  | cons member members ih =>
    obtain ⟨hmember, hmembers⟩ := hproper
    obtain ⟨hfit, hfits⟩ := hfits
    rw [memberBytes, flatMap_cons, ← append_assoc] at hbytes
    have hboundary : (front ++ member.bytes).length % blockBytes = 0 := by
      rw [length_append, Nat.add_mod, haligned, member.length_mod]
      rfl
    have hnext := ih _ hbytes hboundary hmembers hfits hwithin
        (entries ++ [member.entry (globals ++ member.globalRecords) tarSection
          totals.nextEntryIndex (front.length + member.extensionBytes.length + blockBytes)])
    rw [append_assoc] at hbytes
    have hstep := parseLoop_member hbytes hlen haligned hmember hfit
      (hwithin.of_below (ArchiveTotals.below_afterMembers _ _ _)) entries tarSection
      (totalRounds members + fuel)
    have hglobals : globalsAfter (member :: members) globals =
        globalsAfter members (globals ++ member.globalRecords) := by
      rw [globalsAfter, globalsAfter, flatMap_cons, append_assoc]
    have hrounds : totalRounds (member :: members) + fuel =
        member.rounds + (totalRounds members + fuel) := by
      rw [totalRounds, List.map_cons, List.sum_cons, Nat.add_assoc]
      rfl
    rw [hrounds, hstep, ← length_append, hnext, hglobals, memberBytes, memberBytes,
      flatMap_cons, length_append, length_append, Nat.add_assoc, memberEntries,
      append_assoc]
    rfl

theorem parseLoop_end (front : List UInt8) {tail : Nat}
    (hbytes : bytes = front ++ List.replicate (2 * blockBytes + tail) 0)
    (hlen : bytes.length < 2 ^ 64) (entries : List DebEntry) (globals : List PaxRecord)
    (hwithin : (totals.addHeader (2 * blockBytes)).Within limits) (tarSection : DebSection)
    (fuel : Nat) :
    (parseLoop bytes tarSection limits (fuel + 1)
        (.between front.length entries globals totals)).granted =
      .ok (.between front.length entries globals (totals.addHeader (2 * blockBytes))) := by
  have hblock : blockBytes = 512 := rfl
  have hzero : ∀ count, ∀ byte ∈ List.replicate count (0 : UInt8), byte = 0 :=
    fun _ _ => List.eq_of_mem_replicate
  -- The two blocks and the zeros behind them.
  have hfirst : bytes = front ++ List.replicate blockBytes 0 ++
      (List.replicate blockBytes 0 ++ List.replicate tail 0) := by
    rw [hbytes, Nat.two_mul, ← List.replicate_append_replicate,
      ← List.replicate_append_replicate, append_assoc, append_assoc]
  have hsecond : bytes = (front ++ List.replicate blockBytes 0) ++ List.replicate blockBytes 0 ++
      List.replicate tail 0 := by
    rw [hfirst, ← append_assoc]
  have hthird : bytes = ((front ++ List.replicate blockBytes 0) ++
      List.replicate blockBytes 0) ++ List.replicate tail 0 ++ [] := by
    rw [append_nil, hsecond]
  have hheader := checkedRange_middle _ _ _ (hfirst ▸ hlen) "tar header range overflows"
    "tar header is truncated"
  have hmarker := checkedRange_middle _ _ _ (hsecond ▸ hlen) "tar end marker range overflows"
    "tar second end block is truncated"
  have htrailing := checkedRange_middle _ _ _ (hthird ▸ hlen) "tar trailing range overflows"
    "tar trailing range is truncated"
  rw [← hfirst, length_replicate] at hheader
  rw [← hsecond, length_append, length_replicate] at hmarker
  rw [← hthird, length_append, length_append, length_replicate,
    length_replicate] at htrailing
  have hsum : bytes.length = front.length + (2 * blockBytes + tail) := by
    rw [hbytes, length_append, length_replicate]
  have honce : (totals.addHeader blockBytes).Within limits :=
    hwithin.of_below ⟨Nat.add_le_add_left (by decide) _, Nat.le_refl _, Nat.le_refl _,
      Nat.le_refl _, Nat.le_refl _⟩
  have htwice : (totals.addHeader blockBytes).addHeader blockBytes =
      totals.addHeader (2 * blockBytes) := rfl
  rw [← htwice] at hwithin ⊢
  have hend : (parseEnd bytes limits front.length (totals.addHeader blockBytes)).granted =
      .ok ((totals.addHeader blockBytes).addHeader blockBytes) := by
    rw [parseEnd, granted_lift_bind, checkedAdd_bind (by omega), granted_lift_bind, hmarker,
      ok_bind, granted_lift_bind,
      rejectIf_of_not (fun ⟨byte, hmem, hne⟩ => hne (hzero _ byte hmem)), ok_bind,
      granted_lift_bind, addHeaderBytes_eq hwithin, ok_bind, granted_lift_bind,
      checkedAdd_bind (by omega), granted_lift_bind, checkedSub_of_le (by omega), okOr_bind,
      granted_lift_bind,
      show bytes.length - (front.length + blockBytes + blockBytes) = tail by omega, htrailing,
      ok_bind, granted_lift_bind,
      rejectIf_of_not (fun ⟨byte, hmem, hne⟩ => hne (hzero _ byte hmem)), ok_bind, granted_bind,
      consumeBytes_granted]
    rfl
  rw [parseLoop, TarState.between, if_pos (show front.length < bytes.length by omega),
    checkpoint_bind, granted_lift_bind, hheader, ok_bind, granted_lift_bind,
    addHeaderBytes_eq honce, ok_bind, if_pos (hzero _), granted_bind, hend]
  rfl

/-- The limits leave room for the members, the totals so far included. -/
structure Sufficient (limits : Limits) (totals : ArchiveTotals) (members : List Member) :
    Prop where
  totals : ((totals.afterMembers members []).addHeader (2 * blockBytes)).Within limits
  members : AllMembers (Member.Fits limits) members []

theorem memberEntries_ranges (members : List Member) (front : List UInt8)
    (hbytes : bytes = front ++ memberBytes members ++ rest) (tarSection : DebSection)
    (globals : List PaxRecord) (index : Nat) :
    List.Forall₂ (fun entry member =>
        getRange bytes entry.dataStart entry.dataEnd = some member.data)
      (memberEntries tarSection members globals index front.length) members := by
  induction members generalizing front globals index with
  | nil => exact .nil
  | cons member members ih =>
    rw [memberBytes, flatMap_cons, ← append_assoc] at hbytes
    refine .cons ?_ (by
      have hnext := ih _ hbytes (globals ++ member.globalRecords) (index + 1)
      rwa [length_append] at hnext)
    have hsplit : bytes = (front ++ member.extensionBytes ++ member.block.bytes) ++
        (member.data ++ (blockPadding member.data.length ++
          (members.flatMap Member.bytes ++ rest))) := by
      rw [hbytes, member.bytes_eq]
      simp only [append_assoc]
    have hstart : (front ++ member.extensionBytes ++ member.block.bytes).length =
        front.length + member.extensionBytes.length + blockBytes := by
      rw [length_append, length_append, member.block.length_eq]
    simp only [Member.entry]
    rw [← hstart, hsplit]
    have hright := getRange_append_right (front ++ member.extensionBytes ++ member.block.bytes)
      (member.data ++ (blockPadding member.data.length ++
        (members.flatMap Member.bytes ++ rest))) 0 member.data.length
    rw [Nat.add_zero] at hright
    rw [hright, getRange_eq_some]
    exact ⟨Nat.zero_le _, by rw [length_append]; exact Nat.le_add_right _ _,
      by rw [List.take_left, List.drop_zero]⟩

section

variable (members : List Member) (tarSection : DebSection) (globals : List PaxRecord)
  (index offset : Nat)

theorem memberEntries_start :
    ∀ entry ∈ memberEntries tarSection members globals index offset,
      offset ≤ entry.dataStart := by
  induction members generalizing globals index offset with
  | nil => exact fun entry h => (nomatch h)
  | cons member members ih =>
    intro entry hentry
    rcases List.mem_cons.mp hentry with rfl | hentry
    · exact Nat.le_trans (Nat.le_add_right _ _) (Nat.le_add_right _ _)
    · exact Nat.le_trans (Nat.le_add_right _ _) (ih _ _ _ entry hentry)

theorem memberEntries_pairwise :
    (memberEntries tarSection members globals index offset).Pairwise fun entry later =>
      entry.dataEnd ≤ later.dataStart := by
  induction members generalizing globals index offset with
  | nil => exact .nil
  | cons member members ih =>
    refine .cons (fun later hlater => ?_) (ih _ _ _)
    have hstart := memberEntries_start members tarSection _ _ _ later hlater
    have hlength := member.length_bytes
    simp only [Member.entry]
    omega

end

theorem parse_archiveBytes {members : List Member} {tail : Nat}
    (hlen : (archiveBytes members tail).length < 2 ^ 64)
    (hproper : AllMembers Member.Proper members []) {limits : Limits} {totals : ArchiveTotals}
    (hsufficient : Sufficient limits totals members) (tarSection : DebSection) :
    (parse (archiveBytes members tail) tarSection limits totals).granted =
        .ok (memberEntries tarSection members [] totals.nextEntryIndex 0,
          (totals.afterMembers members []).addHeader (2 * blockBytes)) ∧
      List.Forall₂ (fun entry member =>
          getRange (archiveBytes members tail) entry.dataStart entry.dataEnd = some member.data)
        (memberEntries tarSection members [] totals.nextEntryIndex 0) members ∧
      (memberEntries tarSection members [] totals.nextEntryIndex 0).Pairwise
        fun entry later => entry.dataEnd ≤ later.dataStart := by
  refine ⟨?_, memberEntries_ranges members [] rfl _ _ _,
    memberEntries_pairwise _ _ _ _ _⟩
  have hbelow : (totals.afterMembers members []).Below
      ((totals.afterMembers members []).addHeader (2 * blockBytes)) :=
    ⟨Nat.le_add_right _ _, Nat.le_refl _, Nat.le_refl _, Nat.le_refl _, Nat.le_refl _⟩
  have hrounds : totalRounds members ≤ (archiveBytes members tail).length := by
    have hle := totalRounds_le members
    rw [archiveBytes, length_append]
    exact Nat.le_trans hle (Nat.le_add_right _ _)
  obtain ⟨fuel, hfuel⟩ := Nat.exists_eq_add_of_le hrounds
  have hrun := parseLoop_members members [] rfl hlen rfl hproper hsufficient.members
    (hsufficient.totals.of_below hbelow) [] tarSection (fuel + 1)
  have hend := parseLoop_end (memberBytes members) rfl hlen
    (memberEntries tarSection members [] totals.nextEntryIndex 0) (globalsAfter members [])
    hsufficient.totals tarSection fuel
  rw [List.length_nil, Nat.zero_add, List.nil_append, List.nil_append, hend] at hrun
  have hloop : (parseLoop (archiveBytes members tail) tarSection limits
      ((archiveBytes members tail).length + 1) (TarState.initial totals)).granted =
        .ok (.between (memberBytes members).length
          (memberEntries tarSection members [] totals.nextEntryIndex 0) (globalsAfter members [])
          ((totals.afterMembers members []).addHeader (2 * blockBytes))) := by
    rw [hfuel, Nat.add_assoc]
    exact hrun
  rw [parse, granted_bind, hloop]
  rfl

/-! ### Sample headers -/

/-- A header with a name, a size and a checksum, a magic value and what stands from byte
345 on; its other fields are zeros. -/
structure SampleParts where
  name : List UInt8
  size : List UInt8
  checksum : List UInt8
  typeFlag : UInt8
  magic : List UInt8
  later : List UInt8

instance (base : Nat) (byte : UInt8) : Decidable (IsDigit base byte) :=
  inferInstanceAs (Decidable (_ ∧ _))

def zeroFields : List (Nat × Nat) :=
  [(100, 8), (108, 8), (116, 8), (136, 12), (157, 100), (265, 32), (297, 32), (329, 8), (337, 8)]

namespace SampleParts

variable (parts : SampleParts)

def header : List UInt8 :=
  (parts.name ++ List.replicate (124 - parts.name.length) 0) ++
    ((parts.size ++ List.replicate (24 - parts.size.length) 0) ++
      ((parts.checksum ++ List.replicate (8 - parts.checksum.length) 0) ++
        (parts.typeFlag :: List.replicate 100 0 ++ parts.magic ++
          List.replicate (88 - parts.magic.length) 0 ++
          (parts.later ++ List.replicate (167 - parts.later.length) 0))))

def fields : MemberFields := ⟨parts.name, [], [], 0, 0, 0, 0, [], [], 0, 0⟩

/-- The parts stand where they belong. -/
structure Checked : Prop where
  length_eq : parts.header.length = blockBytes
  typeFlag_eq : parts.header[156]? = some parts.typeFlag
  name_eq : fieldAt parts.header 0 100 =
    parts.name ++ List.replicate (100 - parts.name.length) 0
  size_eq : fieldAt parts.header 124 12 = parts.size ++ List.replicate (12 - parts.size.length) 0
  checksum_eq : fieldAt parts.header 148 8 =
    parts.checksum ++ List.replicate (8 - parts.checksum.length) 0
  magic_eq : fieldAt parts.header 257 8 = parts.magic ++ List.replicate (8 - parts.magic.length) 0
  magicFront_eq : fieldAt parts.header 257 6 = magicUstar ∨
    fieldAt parts.header 257 6 = magicGnu ∨ ∀ byte ∈ fieldAt parts.header 257 6, byte = 0
  later_eq : fieldAt parts.header 345 155 =
    parts.later ++ List.replicate (155 - parts.later.length) 0
  sum_eq : headerSum parts.header 0 = numeral 8 asciiDigit parts.checksum
  sizeDigits : ∀ byte ∈ parts.size, IsDigit 8 byte
  checksumDigits : ∀ byte ∈ parts.checksum, IsDigit 8 byte
  size_lt : numeral 8 asciiDigit parts.size < 2 ^ 64
  plain : 0 ∉ parts.name
  zero : ∀ field ∈ zeroFields, ∀ byte ∈ fieldAt parts.header field.1 field.2, byte = 0

end SampleParts

theorem numberField_zero {field : List UInt8} (h : ∀ byte ∈ field, byte = 0) :
    NumberField field (0 : Nat) :=
  .inl ⟨0, ⟨[], [], field, rfl, fun _ h => (nomatch h), fun _ h => (nomatch h),
    fun byte hbyte => .inl (h byte hbyte), rfl⟩, rfl⟩

theorem stringField_zero {field : List UInt8} (h : ∀ byte ∈ field, byte = 0) :
    StringField field [] :=
  ⟨fun h => (nomatch h), field.length, List.eq_replicate_iff.mpr ⟨rfl, h⟩⟩

theorem numberField_digits {digits : List UInt8} (h : ∀ byte ∈ digits, IsDigit 8 byte)
    (count : Nat) :
    NumberField (digits ++ List.replicate count 0) (numeral 8 asciiDigit digits : Nat) :=
  .inl ⟨_, ⟨[], digits, List.replicate count 0, rfl, fun _ h => (nomatch h), h,
    fun _ h => .inl (List.eq_of_mem_replicate h), rfl⟩, rfl⟩

namespace SampleParts.Checked

variable {parts : SampleParts} (h : parts.Checked)

def block : TarBlock where
  bytes := parts.header
  typeFlag := parts.typeFlag
  size := numeral 8 asciiDigit parts.size
  length_eq := h.length_eq
  checksum_eq := by
    rw [h.checksum_eq, h.sum_eq]
    exact numberField_digits h.checksumDigits _
  magic_eq := h.magicFront_eq
  size_eq := by
    rw [h.size_eq]
    exact numberField_digits h.sizeDigits _
  size_lt := h.size_lt
  typeFlag_eq := h.typeFlag_eq

include h

theorem stringField : StringField (fieldAt parts.header 0 100) parts.name :=
  ⟨h.plain, _, h.name_eq⟩

theorem restIn : parts.fields.RestIn parts.header parts.typeFlag where
  linkName_eq := stringField_zero (h.zero (157, 100) (by decide))
  userName_eq := stringField_zero (h.zero (265, 32) (by decide))
  groupName_eq := stringField_zero (h.zero (297, 32) (by decide))
  mode_eq := numberField_zero (h.zero (100, 8) (by decide))
  mode_lt := Nat.two_pow_pos 32
  uid_eq := numberField_zero (h.zero (108, 8) (by decide))
  uid_lt := Nat.two_pow_pos 64
  gid_eq := numberField_zero (h.zero (116, 8) (by decide))
  gid_lt := Nat.two_pow_pos 64
  modifiedTime_eq := numberField_zero (h.zero (136, 12) (by decide))
  modifiedTime_low := show -2 ^ 63 ≤ (0 : Int) by decide
  modifiedTime_high := show (0 : Int) < 2 ^ 63 by decide
  deviceMajor_eq := fun _ => numberField_zero (h.zero (329, 8) (by decide))
  deviceMajor_lt := fun _ => Nat.two_pow_pos 32
  deviceMinor_eq := fun _ => numberField_zero (h.zero (337, 8) (by decide))
  deviceMinor_lt := fun _ => Nat.two_pow_pos 32

end SampleParts.Checked

def sampleMember {parts : SampleParts} (extensions : List Extension) (data : List UInt8)
    (h : parts.Checked) (hplain : ¬isExtensionFlag parts.typeFlag) (hlater : parts.later = []) :
    Member where
  extensions := extensions
  block := h.block
  fields := parts.fields
  data := data
  plain := hplain
  standIn :=
    { h.restIn with
      name_eq := h.stringField
      pathPrefix_eq := ⟨fun hmem => (nomatch hmem), 155, h.later_eq.trans (by rw [hlater]; rfl)⟩ }

/-- A record of a user or a group with one digit. -/
def ownerRecord (key : List UInt8) (digit : UInt8)
    (h : key ∈ [keyUid, keyGid] ∧ IsDigit 10 digit ∧ decimalValue [digit] < 2 ^ 64) :
    PaxRecord where
  digits := [0x38]
  key := key
  value := [digit]
  digits_decimal := ⟨by decide, by decide, by decide⟩
  length_eq := by
    rcases List.mem_pair.mp h.1 with rfl | rfl <;> rfl
  key_plain := by
    rcases List.mem_pair.mp h.1 with rfl | rfl <;> decide
  value_ne_nil := List.cons_ne_nil _ _
  allowed :=
    { name := fun hkey => by
        rcases List.mem_pair.mp h.1 with rfl | rfl <;> exact absurd hkey (by decide)
      number := fun _ => ⟨List.cons_ne_nil _ _, List.forall_mem_singleton.mpr h.2.1, h.2.2⟩
      time := fun hkey => by
        rcases List.mem_pair.mp h.1 with rfl | rfl <;> exact absurd hkey (by decide) }

theorem globalChecked :
    SampleParts.Checked ⟨[], [0x31, 0x30], [0x37, 0x31, 0x30], 0x67, [], []⟩ := by
  constructor <;> decide +kernel

theorem localChecked :
    SampleParts.Checked ⟨[], [0x31, 0x30], [0x37, 0x33, 0x31], 0x78, [], []⟩ := by
  constructor <;> decide +kernel

theorem longNameChecked : SampleParts.Checked ⟨[], [0x33], [0x35, 0x37, 0x37], 0x4c, [], []⟩ := by
  constructor <;> decide +kernel

theorem longLinkChecked : SampleParts.Checked ⟨[], [0x33], [0x35, 0x37, 0x36], 0x4b, [], []⟩ := by
  constructor <;> decide +kernel

/-- A user for all members, a group, a long name and a long link. -/
def sampleExtensions : List Extension :=
  [⟨globalChecked.block, .globalPax [ownerRecord keyUid 0x37 (by decide)], rfl, rfl⟩,
    ⟨localChecked.block, .localPax [ownerRecord keyGid 0x39 (by decide)], rfl, rfl⟩,
    ⟨longNameChecked.block, .longName ⟨[0x66, 0x67], by decide, by decide⟩ 1, rfl, rfl⟩,
    ⟨longLinkChecked.block, .longLink ⟨[0x64, 0x65], by decide, by decide⟩ 1, rfl, rfl⟩]

theorem namedChecked : SampleParts.Checked ⟨[0x61], [0x33], [0x36, 0x32, 0x34], 0, [], []⟩ := by
  constructor <;> decide +kernel

/-- A member `a` with three bytes, behind all four kinds of records. -/
def recordedMember : Member := sampleMember sampleExtensions [1, 2, 3] namedChecked (by decide) rfl

/-- A member `a` with three bytes. -/
def namedMember : Member := sampleMember [] [1, 2, 3] namedChecked (by decide) rfl

/-- The records of the first member name it and give it a group; the user holds for the
second one too. -/
theorem parse_archiveBytes_recorded :
    AllMembers Member.Proper [recordedMember, namedMember] [] ∧
      Sufficient Limits.default ArchiveTotals.default [recordedMember, namedMember] ∧
      ∃ entries totals, (parse (archiveBytes [recordedMember, namedMember] 0) .data Limits.default
          ArchiveTotals.default).granted = .ok (entries, totals) ∧
        entries.map (fun entry => (entry.rawName, entry.rawLinkName, entry.uid, entry.gid)) =
          [([0x66, 0x67], some [0x64, 0x65], 7, 9), ([0x61], none, 7, 0)] := by
  have hlen : (archiveBytes [recordedMember, namedMember] 0).length < 2 ^ 64 := by decide +kernel
  have hproper : AllMembers Member.Proper [recordedMember, namedMember] [] :=
    ⟨⟨by decide +kernel, by decide +kernel⟩, ⟨by decide +kernel, by decide +kernel⟩, trivial⟩
  have hsufficient :
      Sufficient Limits.default ArchiveTotals.default [recordedMember, namedMember] := by
    refine ⟨by constructor <;> decide +kernel, ⟨by decide +kernel, by decide +kernel,
      by decide +kernel, fun value hvalue => ?_, by decide +kernel⟩, ⟨by decide +kernel,
      by decide +kernel, by decide +kernel, fun _ h => (nomatch h), by decide +kernel⟩, trivial⟩
    obtain rfl : [0x64, 0x65] = value := Option.some.inj hvalue
    decide
  exact ⟨hproper, hsufficient, _, _, (parse_archiveBytes hlen hproper hsufficient .data).1,
    by decide +kernel⟩

theorem namelessChecked : SampleParts.Checked ⟨[], [], [0x34, 0x30, 0x30], 0, [], []⟩ := by
  constructor <;> decide +kernel

def namelessMember : Member := sampleMember [] [] namelessChecked (by decide) rfl

/-- A member whose resolved path is empty is refused, though its header, its data
and the limits are in order. -/
theorem parse_nameless :
    namelessMember.data.length = namelessMember.size [] ∧
      Sufficient Limits.default ArchiveTotals.default [namelessMember] ∧
      (parse (archiveBytes [namelessMember] 0) .data Limits.default ArchiveTotals.default).granted =
        .error (debFormat "tar member name is empty") := by
  refine ⟨by decide +kernel, ⟨by constructor <;> decide +kernel, ⟨?_, by decide +kernel,
    by decide +kernel, ?_, by decide +kernel⟩, trivial⟩, by decide +kernel⟩
  · exact fun _ h => (nomatch h)
  · exact fun _ h => (nomatch h)

end Deb
end Unpackio
