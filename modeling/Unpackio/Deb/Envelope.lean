/-
Which lists of members make a Debian package.

Optional members stand before the control archive.  After it comes the data archive
and then nothing.
-/
import Unpackio.Deb.ArRoundTrip

namespace Unpackio
namespace Deb

open Prog (granted_bind granted_bind_eq_ok granted_lift_bind granted_rest)
open Except (bind_eq_ok ok_bind)
open Ar

def controlNames : List (List UInt8) :=
  [nameControlTar, nameControlTar ++ suffixGz, nameControlTar ++ suffixXz,
    nameControlTar ++ suffixZst]

def dataNames : List (List UInt8) :=
  [nameDataTar, nameDataTar ++ suffixGz, nameDataTar ++ suffixXz, nameDataTar ++ suffixZst,
    nameDataTar ++ suffixBz2, nameDataTar ++ suffixLzma]

def IsOptional (name : List UInt8) : Prop := [0x5f] <+: name

def DebMemberKind.Names : DebMemberKind → List UInt8 → Prop
  | .debianBinary, name => name = nameDebianBinary
  | .controlArchive, name => name ∈ controlNames
  | .dataArchive, name => name ∈ dataNames
  | .optional, name => IsOptional name

theorem eq_ok_of_ite {α : Type} {p : Prop} [Decidable p] {result a : α} {rest : Except Error α}
    (h : (if p then .ok result else rest) = .ok a) : p ∧ result = a ∨ ¬p ∧ rest = .ok a := by
  by_cases hp : p
  · rw [if_pos hp] at h
    exact .inl ⟨hp, Except.ok.inj h⟩
  · rw [if_neg hp] at h
    exact .inr ⟨hp, h⟩

theorem classifyMember_names {name : List UInt8} {kind : DebMemberKind}
    {compression : Option DebCompression} (h : classifyMember name = .ok (kind, compression)) :
    kind.Names name := by
  unfold classifyMember at h
  rcases eq_ok_of_ite h with ⟨hname, heq⟩ | ⟨-, h⟩
  · cases heq
    exact hname
  iterate 10
    rcases eq_ok_of_ite h with ⟨rfl, heq⟩ | ⟨-, h⟩
    · cases heq
      show _ ∈ _
      decide
  rcases eq_ok_of_ite h with ⟨hname, heq⟩ | ⟨-, h⟩
  · cases heq
    exact hname
  · cases h

theorem classifyMember_of_names (kind : DebMemberKind) {name : List UInt8} (h : kind.Names name) :
    ∃ compression, classifyMember name = .ok (kind, compression) := by
  cases kind with
  | debianBinary => exact ⟨none, if_pos h⟩
  | controlArchive =>
    simp only [DebMemberKind.Names, controlNames, List.mem_cons, List.not_mem_nil, or_false] at h
    rcases h with rfl | rfl | rfl | rfl
    · exact ⟨_, rfl⟩
    · exact ⟨_, rfl⟩
    · exact ⟨_, rfl⟩
    · exact ⟨_, rfl⟩
  | dataArchive =>
    simp only [DebMemberKind.Names, dataNames, List.mem_cons, List.not_mem_nil, or_false] at h
    rcases h with rfl | rfl | rfl | rfl | rfl | rfl
    · exact ⟨_, rfl⟩
    · exact ⟨_, rfl⟩
    · exact ⟨_, rfl⟩
    · exact ⟨_, rfl⟩
    · exact ⟨_, rfl⟩
    · exact ⟨_, rfl⟩
  | optional =>
    obtain ⟨rest, rfl⟩ := h
    have hne : ∀ other : List UInt8, other.head? ≠ some 0x5f → [0x5f] ++ rest ≠ other := by
      rintro other hhead rfl
      exact hhead rfl
    refine ⟨none, ?_⟩
    unfold classifyMember
    iterate 11 rw [if_neg (hne _ (by decide))]
    exact if_pos (List.prefix_append _ _)

theorem rejectIf_bind_ok {α : Type} {p : Prop} [Decidable p] {e : Error} {f : Unit → Except Error α}
    {a : α} : (rejectIf p e >>= f) = .ok a ↔ ¬p ∧ f () = .ok a := by
  rw [bind_eq_ok]
  constructor
  · rintro ⟨u, hreject, hf⟩
    exact ⟨rejectIf_eq_ok.mp hreject, hf⟩
  · rintro ⟨hp, hf⟩
    exact ⟨(), rejectIf_eq_ok.mpr hp, hf⟩

/-- The loop has seen no archive yet. -/
def Members.Before (state : Members) : Prop := state.controlIndex = none ∧ state.dataIndex = none

/-- The control archive alone. -/
def Members.Between (state : Members) : Prop :=
  state.controlIndex.isSome ∧ state.dataIndex = none

/-- Both archives. -/
def Members.Behind (state : Members) : Prop := state.controlIndex.isSome ∧ state.dataIndex.isSome

variable {state final : Members} {member : ArMember} {members : List ArMember}

theorem Members.before_iff :
    state.Before ↔ ¬(state.controlIndex.isSome ∨ state.dataIndex.isSome) := by
  rw [not_or, Option.not_isSome_iff_eq_none, Option.not_isSome_iff_eq_none]
  rfl

theorem Members.add_eq_ok {next : Members} :
    state.add member = .ok next ↔ ∃ kind compression, classifyMember member.rawName =
      .ok (kind, compression) ∧ ∃ control data, state.place member kind = .ok (control, data) ∧
        ¬(data.isSome ∧ kind ≠ .dataArchive) ∧
          next = ⟨state.members ++ [⟨member, kind, compression⟩], control, data⟩ := by
  unfold Members.add
  constructor
  · intro h
    obtain ⟨⟨kind, compression⟩, hkind, h⟩ := bind_eq_ok.mp h
    obtain ⟨⟨control, data⟩, hplace, h⟩ := bind_eq_ok.mp h
    obtain ⟨hreject, h⟩ := rejectIf_bind_ok.mp h
    cases h
    exact ⟨kind, compression, hkind, control, data, hplace, hreject, rfl⟩
  · rintro ⟨kind, compression, hkind, control, data, hplace, hreject, rfl⟩
    rw [hkind, ok_bind]
    simp only
    rw [hplace, ok_bind, rejectIf_of_not hreject]
    rfl

theorem Members.add_ok {next : Members} (hindex : member.index ≠ 0)
    (h : state.add member = .ok next) :
    (state.Before ∧ IsOptional member.rawName ∧ next.Before) ∨
    (state.Before ∧ member.rawName ∈ controlNames ∧ next.Between) ∨
    (state.Between ∧ member.rawName ∈ dataNames ∧ next.Behind) := by
  obtain ⟨kind, compression, hkind, control, data, hplace, hreject, rfl⟩ := add_eq_ok.mp h
  have hname := classifyMember_names hkind
  cases kind with
  | debianBinary =>
    obtain ⟨hzero, -⟩ := rejectIf_bind_ok.mp hplace
    exact absurd hindex hzero
  | optional =>
    obtain ⟨hnone, heq⟩ := rejectIf_bind_ok.mp hplace
    cases heq
    have hbefore := before_iff.mpr hnone
    exact .inl ⟨hbefore, hname, hbefore⟩
  | controlArchive =>
    obtain ⟨hnone, heq⟩ := rejectIf_bind_ok.mp hplace
    cases heq
    have hbefore := before_iff.mpr hnone
    exact .inr (.inl ⟨hbefore, hname, rfl, hbefore.2⟩)
  | dataArchive =>
    obtain ⟨hnone, heq⟩ := rejectIf_bind_ok.mp hplace
    cases heq
    obtain ⟨hcontrol, hdata⟩ := not_or.mp hnone
    have hsome : state.controlIndex.isSome := by
      cases hstate : state.controlIndex with
      | none => exact absurd (hstate ▸ rfl) hcontrol
      | some index => rfl
    exact .inr (.inr ⟨⟨hsome, Option.not_isSome_iff_eq_none.mp hdata⟩, hname, hsome, rfl⟩)

theorem Members.add_before {kind : DebMemberKind} {control : Option Nat} (h : state.Before)
    (hname : kind.Names member.rawName)
    (hplace : state.place member kind = .ok (control, state.dataIndex)) :
    ∃ next, state.add member = .ok next ∧ next.controlIndex = control ∧ next.dataIndex = none := by
  obtain ⟨compression, hkind⟩ := classifyMember_of_names kind hname
  refine ⟨_, add_eq_ok.mpr ⟨_, _, hkind, _, _, hplace, ?_, rfl⟩, rfl, h.2⟩
  rw [h.2]
  exact fun hsome => absurd hsome.1 Bool.false_ne_true

theorem Members.add_binary (h : state.Before) (hname : member.rawName = nameDebianBinary)
    (hindex : member.index = 0) : ∃ next, state.add member = .ok next ∧ next.Before := by
  obtain ⟨next, hadd, hcontrol, hdata⟩ :=
    add_before h (show DebMemberKind.debianBinary.Names _ from hname)
      (rejectIf_bind_ok.mpr ⟨not_not.mpr hindex, rfl⟩)
  exact ⟨next, hadd, hcontrol.trans h.1, hdata⟩

theorem Members.add_optional (h : state.Before) (hname : IsOptional member.rawName) :
    ∃ next, state.add member = .ok next ∧ next.Before := by
  obtain ⟨next, hadd, hcontrol, hdata⟩ :=
    add_before h (show DebMemberKind.optional.Names _ from hname)
      (rejectIf_bind_ok.mpr ⟨before_iff.mp h, rfl⟩)
  exact ⟨next, hadd, hcontrol.trans h.1, hdata⟩

theorem Members.add_control (h : state.Before) (hname : member.rawName ∈ controlNames) :
    ∃ next, state.add member = .ok next ∧ next.Between := by
  obtain ⟨next, hadd, hcontrol, hdata⟩ :=
    add_before h (show DebMemberKind.controlArchive.Names _ from hname)
      (rejectIf_bind_ok.mpr ⟨before_iff.mp h, rfl⟩)
  exact ⟨next, hadd, hcontrol ▸ rfl, hdata⟩

theorem Members.add_data (h : state.Between) (hname : member.rawName ∈ dataNames) :
    ∃ next, state.add member = .ok next ∧ next.Behind := by
  obtain ⟨compression, hkind⟩ := classifyMember_of_names .dataArchive hname
  have hplace : state.place member .dataArchive =
      .ok (state.controlIndex, some state.members.length) := by
    refine rejectIf_bind_ok.mpr ⟨?_, rfl⟩
    rintro (hnone | hsome)
    · rw [Option.isNone_iff_eq_none] at hnone
      exact absurd h.1 (by rw [hnone]; decide)
    · rw [h.2] at hsome
      exact absurd hsome Bool.false_ne_true
  exact ⟨_, add_eq_ok.mpr ⟨_, _, hkind, _, _, hplace, fun hother => hother.2 rfl, rfl⟩, h.1, rfl⟩

theorem placeMembers_cons :
    placeMembers (member :: members) state = .ok final ↔
      ∃ next, state.add member = .ok next ∧ placeMembers members next = .ok final := by
  rw [placeMembers, List.foldlM_cons, bind_eq_ok]
  rfl

theorem placeMembers_length (h : placeMembers members state = .ok final) :
    final.members.length = state.members.length + members.length := by
  induction members generalizing state with
  | nil =>
    cases h
    rfl
  | cons member members ih =>
    obtain ⟨next, hadd, hrest⟩ := placeMembers_cons.mp h
    obtain ⟨kind, compression, -, control, data, -, -, rfl⟩ := Members.add_eq_ok.mp hadd
    rw [ih hrest, List.length_append, List.length_singleton, List.length_cons]
    omega

/-- Optional members, a control archive and a data archive. -/
def InOrder (members : List ArMember) : Prop :=
  ∃ optionals control data, members = optionals ++ [control, data] ∧
    (∀ member ∈ optionals, IsOptional member.rawName) ∧ control.rawName ∈ controlNames ∧
      data.rawName ∈ dataNames

section

variable (hindex : ∀ member ∈ members, member.index ≠ 0)
include hindex

theorem placeMembers_behind (hstate : state.Behind) (h : placeMembers members state = .ok final) :
    members = [] := by
  cases members with
  | nil => rfl
  | cons member members =>
    obtain ⟨hfirst, -⟩ := List.forall_mem_cons.mp hindex
    obtain ⟨next, hadd, -⟩ := placeMembers_cons.mp h
    have hdata : state.dataIndex = none := by
      rcases Members.add_ok hfirst hadd with ⟨h, -⟩ | ⟨h, -⟩ | ⟨h, -⟩ <;> exact h.2
    have hsome := hstate.2
    rw [hdata] at hsome
    cases hsome

theorem placeMembers_between (hstate : state.Between) (h : placeMembers members state = .ok final)
    (hfinal : final.Behind) : ∃ data, members = [data] ∧ data.rawName ∈ dataNames := by
  cases members with
  | nil =>
    cases h
    have hsome := hfinal.2
    rw [hstate.2] at hsome
    cases hsome
  | cons member members =>
    obtain ⟨hfirst, hrest⟩ := List.forall_mem_cons.mp hindex
    obtain ⟨next, hadd, hplace⟩ := placeMembers_cons.mp h
    have hsome := hstate.1
    rcases Members.add_ok hfirst hadd with ⟨hphase, -⟩ | ⟨hphase, -⟩ | ⟨-, hname, hnext⟩
    · rw [hphase.1] at hsome
      cases hsome
    · rw [hphase.1] at hsome
      cases hsome
    · exact ⟨member, by rw [placeMembers_behind hrest hnext hplace], hname⟩

/-- The loop ends with both archives exactly when the members are in order. -/
theorem placeMembers_iff (hstate : state.Before) :
    (∃ final, placeMembers members state = .ok final ∧ final.Behind) ↔ InOrder members := by
  induction members generalizing state with
  | nil =>
    constructor
    · rintro ⟨final, h, hfinal⟩
      cases h
      have hsome := hfinal.2
      rw [hstate.2] at hsome
      cases hsome
    · rintro ⟨optionals, control, data, heq, -⟩
      exact absurd heq.symm (by simp)
  | cons member members ih =>
    obtain ⟨hfirst, hrest⟩ := List.forall_mem_cons.mp hindex
    constructor
    · rintro ⟨final, h, hfinal⟩
      obtain ⟨next, hadd, hplace⟩ := placeMembers_cons.mp h
      rcases Members.add_ok hfirst hadd with ⟨-, hname, hnext⟩ | ⟨-, hname, hnext⟩ | ⟨hphase, -⟩
      · obtain ⟨optionals, control, data, rfl, hoptionals, hcontrol, hdata⟩ :=
          (ih hrest hnext).mp ⟨final, hplace, hfinal⟩
        exact ⟨member :: optionals, control, data, rfl,
          List.forall_mem_cons.mpr ⟨hname, hoptionals⟩, hcontrol, hdata⟩
      · obtain ⟨data, rfl, hdata⟩ := placeMembers_between hrest hnext hplace hfinal
        exact ⟨[], member, data, rfl, fun _ hmem => (nomatch hmem), hname, hdata⟩
      · have hsome := hphase.1
        rw [hstate.1] at hsome
        cases hsome
    · rintro ⟨optionals, control, data, heq, hoptionals, hcontrol, hdata⟩
      cases optionals with
      | nil =>
        cases heq
        obtain ⟨next, hadd, hnext⟩ := Members.add_control hstate hcontrol
        obtain ⟨final, hlast, hfinal⟩ := Members.add_data hnext hdata
        exact ⟨final, placeMembers_cons.mpr ⟨next, hadd, placeMembers_cons.mpr ⟨final, hlast, rfl⟩⟩,
          hfinal⟩
      | cons optional optionals =>
        cases heq
        obtain ⟨hoptional, hothers⟩ := List.forall_mem_cons.mp hoptionals
        obtain ⟨next, hadd, hnext⟩ := Members.add_optional hstate hoptional
        obtain ⟨final, hplace, hfinal⟩ :=
          (ih hrest hnext).mpr ⟨optionals, control, data, rfl, hothers, hcontrol, hdata⟩
        exact ⟨final, placeMembers_cons.mpr ⟨next, hadd, hplace⟩, hfinal⟩

end

def Contains (bytes : List UInt8) (member : ArMember) (content : List UInt8) : Prop :=
  member.dataStart + member.size ≤ bytes.length ∧
    (bytes.take (member.dataStart + member.size)).drop member.dataStart = content

/-- A Debian package: the version, optional members, a control archive and a data
archive. -/
def IsPackage (bytes : List UInt8) (members : List ArMember) : Prop :=
  ∃ version rest, members = version :: rest ∧ version.rawName = nameDebianBinary ∧
    Contains bytes version formatVersion ∧ InOrder rest

theorem validateMembers_iff {bytes : List UInt8} (hlen : bytes.length < 2 ^ 64)
    {parsed : List ArMember} (hindex : parsed.map ArMember.index = List.range parsed.length)
    {limits : Limits} (hfiles : parsed.length ≤ limits.maxFiles) :
    (∃ result, (validateMembers bytes parsed limits).granted = .ok result) ↔
      IsPackage bytes parsed := by
  -- Only the first member has the index zero.
  have hindices : ∀ version rest, parsed = version :: rest →
      version.index = 0 ∧ ∀ member ∈ rest, member.index ≠ 0 := by
    rintro version rest rfl
    rw [List.map_cons, List.length_cons, List.range_succ_eq_map, List.cons.injEq] at hindex
    refine ⟨hindex.1, fun member hmem hzero => ?_⟩
    have himage := List.mem_map_of_mem (f := ArMember.index) hmem
    rw [hindex.2, hzero, List.mem_map] at himage
    obtain ⟨previous, -, hsucc⟩ := himage
    exact Nat.succ_ne_zero previous hsucc
  have hstart : (⟨[], none, none⟩ : Members).Before := ⟨rfl, rfl⟩
  unfold validateMembers
  constructor
  · rintro ⟨result, h⟩
    obtain ⟨version, hversion, h⟩ := granted_bind_eq_ok.mp h
    obtain ⟨_, hname, h⟩ := granted_bind_eq_ok.mp h
    obtain ⟨content, hcontent, h⟩ := granted_bind_eq_ok.mp h
    obtain ⟨_, h⟩ := granted_rest h
    obtain ⟨_, hformat, h⟩ := granted_bind_eq_ok.mp h
    obtain ⟨final, hplace, h⟩ := granted_bind_eq_ok.mp h
    obtain ⟨_, h⟩ := granted_rest h
    obtain ⟨control, hcontrol, h⟩ := granted_bind_eq_ok.mp h
    obtain ⟨data, hdata, -⟩ := granted_bind_eq_ok.mp h
    have hfinal : final.Behind := by
      constructor
      · rw [okOr_eq_ok.mp (Prog.granted_lift_eq_ok.mp hcontrol)]
        rfl
      · rw [okOr_eq_ok.mp (Prog.granted_lift_eq_ok.mp hdata)]
        rfl
    obtain ⟨-, hfits, hrange⟩ := checkedRange_eq_ok.mp (Prog.granted_lift_eq_ok.mp hcontent)
    have hsame : content = formatVersion := not_not.mp (rejectIf_eq_ok.mp hformat)
    cases hparsed : parsed with
    | nil =>
      rw [hparsed] at hversion
      cases hversion
    | cons first rest =>
      obtain ⟨hzero, hothers⟩ := hindices first rest hparsed
      rw [hparsed] at hversion hplace
      cases hversion
      obtain ⟨next, hadd, hrest⟩ := placeMembers_cons.mp (Prog.granted_lift_eq_ok.mp hplace)
      have hfirst : version.rawName = nameDebianBinary := not_not.mp (rejectIf_eq_ok.mp hname)
      obtain ⟨other, hother, hnext⟩ := Members.add_binary hstart hfirst hzero
      cases hadd.symm.trans hother
      exact ⟨version, rest, rfl, hfirst, ⟨hfits, hsame ▸ hrange⟩,
        (placeMembers_iff hothers hnext).mp ⟨final, hrest, hfinal⟩⟩
  · rintro ⟨version, rest, rfl, hname, ⟨hfits, hcontent⟩, horder⟩
    obtain ⟨hzero, hothers⟩ := hindices version rest rfl
    obtain ⟨next, hadd, hnext⟩ := Members.add_binary hstart hname hzero
    obtain ⟨final, hplace, hfinal⟩ := (placeMembers_iff hothers hnext).mpr horder
    have hall : placeMembers (version :: rest) ⟨[], none, none⟩ = .ok final :=
      placeMembers_cons.mpr ⟨next, hadd, hplace⟩
    have hcount := placeMembers_length hall
    have hlimit : final.members.length ≤ limits.maxFiles := by
      rw [hcount, List.length_nil, Nat.zero_add]
      exact hfiles
    have hrange : checkedRange bytes version.dataStart version.size "debian-binary range overflows"
        "debian-binary is truncated" = .ok formatVersion :=
      checkedRange_eq_ok.mpr ⟨by omega, hfits, hcontent⟩
    obtain ⟨control, hcontrol⟩ := Option.isSome_iff_exists.mp hfinal.1
    obtain ⟨data, hdata⟩ := Option.isSome_iff_exists.mp hfinal.2
    refine ⟨(final.members, control, data), ?_⟩
    rw [List.head?_cons, granted_lift_bind, okOr_bind, granted_lift_bind,
      rejectIf_of_not (not_not.mpr hname), ok_bind, granted_lift_bind, hrange, ok_bind,
      granted_bind, consumeBytes_granted, ok_bind, granted_lift_bind,
      rejectIf_of_not (not_not.mpr rfl), ok_bind, granted_lift_bind, hall, ok_bind,
      granted_lift_bind, checkLimit_of_le hlimit, ok_bind, hcontrol, hdata]
    rfl

def IsLoosePackage (bytes : List UInt8) (members : List ArMember) : Prop :=
  ∃ version optionals control others data,
    members = version :: (optionals ++ control :: (others ++ [data])) ∧
      version.rawName = nameDebianBinary ∧ Contains bytes version formatVersion ∧
      (∀ member ∈ optionals ++ others, IsOptional member.rawName) ∧
      control.rawName ∈ controlNames ∧ data.rawName ∈ dataNames

theorem membersOf_data (records : List Record) (front : List UInt8) (index : Nat) :
    List.Forall₂ (fun member record =>
        Contains (front ++ recordBytes records) member record.data)
      (membersOf records index front.length) records := by
  induction records generalizing front index with
  | nil => exact .nil
  | cons record records ih =>
    have hheader := record.length_header
    have hshape : front ++ recordBytes (record :: records) =
        (front ++ record.header) ++ record.data ++ (record.padding ++ recordBytes records) := by
      simp only [recordBytes_cons, Record.bytes, List.append_assoc]
    have hend : ((front ++ record.header) ++ record.data).length =
        front.length + memberHeaderBytes + record.data.length := by
      rw [List.length_append, List.length_append, hheader]
    have hdata : Contains (front ++ recordBytes (record :: records))
        (record.member index front.length) record.data := by
      rw [Contains, hshape]
      constructor
      · rw [List.length_append, hend]
        exact Nat.le_add_right _ _
      · simp only [Record.member]
        rw [List.take_left' hend, List.drop_left' (by rw [List.length_append, hheader])]
    have hrest := ih (front ++ record.bytes) (index + 1)
    rw [List.append_assoc, ← recordBytes_cons, List.length_append] at hrest
    exact .cons hdata hrest

/-- The parser gives back the members that were written, which fill the file, and a
package is what the order of its members says. -/
theorem envelope_exact (limits : Limits) :
    (∀ records : List Record, (fileBytes records).length < 2 ^ 64 → Fits limits records →
      (Ar.parse (fileBytes records) limits).granted =
        .ok (membersOf records 0 globalHeader.length) ∧
      Tiles (membersOf records 0 globalHeader.length) globalHeader.length
        (fileBytes records).length ∧
      List.Forall₂ (fun member record => Contains (fileBytes records) member record.data)
        (membersOf records 0 globalHeader.length) records) ∧
    ∀ bytes parsed, bytes.length < 2 ^ 64 →
      parsed.map ArMember.index = List.range parsed.length → parsed.length ≤ limits.maxFiles →
      ((∃ result, (validateMembers bytes parsed limits).granted = .ok result) ↔
        IsPackage bytes parsed) := by
  refine ⟨fun records hlen hfits => ⟨parse_granted records hlen hfits, ?_, ?_⟩, ?_⟩
  · have htiles := membersOf_tiles records 0 globalHeader.length
    rwa [← List.length_append] at htiles
  · exact membersOf_data records globalHeader 0
  · intro bytes parsed hlen hindex hfiles
    exact validateMembers_iff hlen hindex hfiles

def blank (radix width : Nat) : SpacedNumber radix width :=
  ⟨0, [], width, List.forall_mem_nil _, Nat.zero_add width⟩

/-- A record of fewer than ten bytes, with nothing but its size in its header. -/
def packageRecord (name data : List UInt8) (digit : UInt8)
    (h : PlainName name ∧ IsDigit 10 digit ∧
      Numerals.numeral 10 asciiDigit [digit] = data.length) : Record :=
  ⟨name, [], blank 10 12, blank 10 6, blank 10 6, blank 8 8,
    ⟨0, [digit], 9, List.forall_mem_singleton.mpr h.2.1, rfl⟩, data, h.1, .inl rfl, h.2.2⟩

/-- A package with an optional member. -/
def packageRecords : List Record :=
  [packageRecord nameDebianBinary formatVersion 0x34
      ⟨by constructor <;> decide, ⟨by decide, by decide⟩, rfl⟩,
    packageRecord [0x5f] [] 0x30 ⟨by constructor <;> decide, ⟨by decide, by decide⟩, rfl⟩,
    packageRecord nameControlTar [1] 0x31
      ⟨by constructor <;> decide, ⟨by decide, by decide⟩, rfl⟩,
    packageRecord nameDataTar [2, 3] 0x32
      ⟨by constructor <;> decide, ⟨by decide, by decide⟩, rfl⟩]

theorem envelope_exact_optional :
    ∃ members result, (Ar.parse (fileBytes packageRecords) .default).granted = .ok members ∧
      members.map ArMember.rawName = [nameDebianBinary, [0x5f], nameControlTar, nameDataTar] ∧
      (validateMembers (fileBytes packageRecords) members .default).granted = .ok result := by
  obtain ⟨hparse, -, hdata⟩ := (envelope_exact .default).1 packageRecords (by decide +kernel)
    (by constructor <;> decide +kernel)
  have horder : InOrder ((membersOf packageRecords 0 globalHeader.length).drop 1) :=
    ⟨[_], _, _, rfl, List.forall_mem_singleton.mpr (List.prefix_refl [0x5f]), List.mem_cons_self,
      List.mem_cons_self⟩
  obtain ⟨result, hresult⟩ := ((envelope_exact .default).2 _ _ (by decide +kernel)
    (by decide +kernel) (by decide +kernel)).mpr
      ⟨_, _, rfl, rfl, (List.forall₂_cons.mp hdata).1, horder⟩
  exact ⟨_, result, hparse, by decide +kernel, hresult⟩

/-- The optional member behind the control archive is refused. -/
theorem loose_package_refused : ¬∀ bytes parsed, bytes.length < 2 ^ 64 →
    parsed.map ArMember.index = List.range parsed.length →
    parsed.length ≤ Limits.default.maxFiles →
    ((∃ result, (validateMembers bytes parsed Limits.default).granted = .ok result) ↔
      IsLoosePackage bytes parsed) := by
  intro h
  have hrefused : (validateMembers formatVersion
      [⟨0, nameDebianBinary, 0, 0, 0, 0, 4, 0, 4⟩, ⟨1, nameControlTar, 0, 0, 0, 0, 0, 4, 4⟩,
        ⟨2, [0x5f], 0, 0, 0, 0, 0, 4, 4⟩, ⟨3, nameDataTar, 0, 0, 0, 0, 0, 4, 4⟩]
      Limits.default).granted = .error (debFormat "optional member is out of order") := rfl
  obtain ⟨result, haccepted⟩ := (h formatVersion
    [⟨0, nameDebianBinary, 0, 0, 0, 0, 4, 0, 4⟩, ⟨1, nameControlTar, 0, 0, 0, 0, 0, 4, 4⟩,
      ⟨2, [0x5f], 0, 0, 0, 0, 0, 4, 4⟩, ⟨3, nameDataTar, 0, 0, 0, 0, 0, 4, 4⟩]
    (by decide) (by decide) (by decide)).mpr
      ⟨_, [], _, [⟨2, [0x5f], 0, 0, 0, 0, 0, 4, 4⟩], _, rfl, rfl, ⟨by decide, rfl⟩,
        List.forall_mem_singleton.mpr (List.prefix_refl _), List.mem_cons_self, List.mem_cons_self⟩
  cases hrefused.symm.trans haccepted

end Deb
end Unpackio
