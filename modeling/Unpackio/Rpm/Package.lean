/-
Whole RPM packages: a lead, a signature header padded to eight bytes, the main
header, and the payload.
-/
import Unpackio.Cpio.Record
import Unpackio.Rpm.RoundTrip

namespace Unpackio
namespace Rpm

open List (append_assoc length_append)
open Except (ok_bind)
open Cpio (padding zeros length_zeros)

/-- What the pairs say of `tag`: the last value that carries it. -/
def Effective (pairs : List (Nat × RpmValue)) (tag : Nat) : Option RpmValue → Prop
  | some value => ∃ front rest, pairs = front ++ (tag, value) :: rest ∧ ∀ pair ∈ rest, pair.1 ≠ tag
  | none => ∀ pair ∈ pairs, pair.1 ≠ tag

def RpmHeader.pairs (header : RpmHeader) : List (Nat × RpmValue) :=
  header.entries.map fun entry => (entry.tag, entry.value)

theorem RpmHeader.value_effective (header : RpmHeader) (tag : Nat) :
    Effective header.pairs tag (header.value tag) := by
  rw [RpmHeader.value]
  cases hfind : header.entries.reverse.find? fun entry => entry.tag = tag with
  | none =>
    intro pair hpair
    obtain ⟨entry, hentry, rfl⟩ := List.mem_map.mp hpair
    have hnot := List.find?_eq_none.mp hfind entry (List.mem_reverse.mpr hentry)
    exact fun h => hnot (decide_eq_true h)
  | some entry =>
    obtain ⟨htag, later, earlier, hsplit, hlater⟩ := List.find?_eq_some_iff_append.mp hfind
    have hentries : header.entries = earlier.reverse ++ entry :: later.reverse := by
      rw [← List.reverse_reverse header.entries, hsplit, List.reverse_append, List.reverse_cons,
        append_assoc, List.singleton_append]
    refine ⟨earlier.reverse.map fun entry => (entry.tag, entry.value),
      later.reverse.map fun entry => (entry.tag, entry.value), ?_, ?_⟩
    · rw [RpmHeader.pairs, hentries, List.map_append, List.map_cons, of_decide_eq_true htag]
    · intro pair hpair
      obtain ⟨other, hother, rfl⟩ := List.mem_map.mp hpair
      have hnot := hlater other (List.mem_reverse.mp hother)
      intro h
      rw [decide_eq_true h] at hnot
      exact Bool.false_ne_true hnot

@[simp] theorem StoredHeader.parsed_pairs (header : StoredHeader) :
    header.parsed.pairs = header.pairs := by
  rw [RpmHeader.pairs, StoredHeader.parsed, List.map_map]
  rfl

/-- The numbers of the lead have their width, and its name fits the name field. -/
structure RpmLead.Written (lead : RpmLead) : Prop where
  major_known : lead.major = 3 ∨ lead.major = 4
  packageType_lt : lead.packageType < 2 ^ 16
  architecture_lt : lead.architecture < 2 ^ 16
  operatingSystem_lt : lead.operatingSystem < 2 ^ 16
  signatureType_lt : lead.signatureType < 2 ^ 16
  name_plain : 0 ∉ lead.name
  name_le : lead.name.length ≤ 66
  reserved_length : lead.reserved.length = 16

namespace RpmLead

variable (lead : RpmLead)

def nameField : List UInt8 := lead.name ++ List.replicate (66 - lead.name.length) 0

def bytes : List UInt8 :=
  leadMagic ++ ([lead.major, lead.minor] ++ (beBytes 2 lead.packageType ++
    (beBytes 2 lead.architecture ++ (lead.nameField ++ (beBytes 2 lead.operatingSystem ++
      (beBytes 2 lead.signatureType ++ lead.reserved))))))

variable {lead}

theorem Written.length_nameField (h : lead.Written) : lead.nameField.length = 66 := by
  have hname := h.name_le
  rw [nameField, length_append, List.length_replicate]
  omega

theorem Written.length_bytes (h : lead.Written) : lead.bytes.length = leadBytes := by
  simp only [bytes, length_append, length_beBytes, h.length_nameField, h.reserved_length]
  rfl

theorem Written.nameEnd (h : lead.Written) :
    (lead.nameField.findIdx? fun byte => byte = 0).getD lead.nameField.length =
      lead.name.length := by
  have hname := h.name_le
  have hnone : lead.name.findIdx? (fun byte => decide (byte = 0)) = none := by
    refine List.findIdx?_eq_none_iff.mpr fun byte hmem => ?_
    rw [decide_eq_false_iff_not]
    rintro rfl
    exact h.name_plain hmem
  rw [h.length_nameField, nameField, List.findIdx?_append, hnone, Option.none_or]
  cases hfill : 66 - lead.name.length with
  | zero =>
    show 66 = lead.name.length
    omega
  | succ fill =>
    rw [List.replicate_succ, List.findIdx?_cons, if_pos (decide_eq_true rfl), Option.map_some,
      Nat.zero_add, Option.getD_some]

end RpmLead

theorem parseLead_bytes {lead : RpmLead} {limits : Limits} {model : ModelAccount}
    (h : lead.Written) (hname : lead.name.length ≤ limits.maxNameBytesPerEntry)
    (hroom : model.Room lead.name.length) :
    parseLead lead.bytes limits model = .ok (lead, model.add lead.name.length) := by
  have hlength : lead.bytes.length = 96 := h.length_bytes
  have hlen : lead.bytes.length < 2 ^ 64 := by rw [hlength]; decide
  have hmagic : lead.bytes.drop 0 = leadMagic ++ _ := rfl
  have hfour := drop_of_append hmagic
  have hsix : lead.bytes.drop 6 = beBytes 2 lead.packageType ++ _ := drop_of_append hfour
  have height : lead.bytes.drop 8 = beBytes 2 lead.architecture ++ _ := drop_of_append hsix
  have hten : lead.bytes.drop 10 = lead.nameField ++ _ := drop_of_append height
  have hsystem := drop_of_append hten
  rw [h.length_nameField] at hsystem
  have hsignature : lead.bytes.drop 78 = beBytes 2 lead.signatureType ++ _ :=
    drop_of_append hsystem
  have hreserved : lead.bytes.drop 80 = lead.reserved ++ [] :=
    (drop_of_append hsignature).trans (List.append_nil _).symm
  have hmajor : lead.bytes[4]? = some lead.major := rfl
  have hminor : lead.bytes[5]? = some lead.minor := rfl
  have hmagicRange : getRange lead.bytes 0 4 = some leadMagic :=
    getRange_of_drop (Nat.zero_le _) hmagic rfl
  have hnameRange : getRange lead.bytes 10 76 = some lead.nameField :=
    getRange_of_drop (by omega) hten (by rw [h.length_nameField])
  have hreservedRange : getRange lead.bytes 80 96 = some lead.reserved :=
    getRange_of_drop (by omega) hreserved (by rw [h.reserved_length])
  have hplain : getRange lead.nameField 0 lead.name.length = some lead.name :=
    getRange_of_drop (Nat.zero_le _) rfl (Nat.zero_add _)
  have hpackageType : beUint 2 lead.bytes 6 "lead package type is truncated" =
      .ok lead.packageType :=
    beUint_of_drop hlen (by omega) hsix h.packageType_lt _
  have harchitecture : beUint 2 lead.bytes 8 "lead architecture is truncated" =
      .ok lead.architecture :=
    beUint_of_drop hlen (by omega) height h.architecture_lt _
  have hoperatingSystem : beUint 2 lead.bytes 76 "lead operating system is truncated" =
      .ok lead.operatingSystem :=
    beUint_of_drop hlen (by omega) hsystem h.operatingSystem_lt _
  have hsignatureType : beUint 2 lead.bytes 78 "lead signature type is truncated" =
      .ok lead.signatureType :=
    beUint_of_drop hlen (by omega) hsignature h.signatureType_lt _
  rw [parseLead, rejectIf_of_not (fun hne => hne hmagicRange), ok_bind, hmajor, okOr_bind, hminor,
    okOr_bind, rejectIf_of_not (fun hne => hne h.major_known), ok_bind]
  simp only [beU16]
  rw [hpackageType, ok_bind, harchitecture, ok_bind, hnameRange, okOr_bind, h.nameEnd, hplain,
    okOr_bind, checkLimit_of_le hname, ok_bind, ModelAccount.charge_of_room hroom, ok_bind,
    hoperatingSystem, ok_bind, hsignatureType, ok_bind, hreservedRange]
  rfl

theorem alignUp_padding {value : Nat} (h : value + padding value 8 < 2 ^ 64) (detail : String) :
    alignUp value 8 detail = .ok (value + padding value 8) := by
  have hlt : value % 8 < 8 := Nat.mod_lt _ (by decide)
  have hpadding : alignPadding (value % 8) 8 detail = .ok (padding value 8) := by
    rw [alignPadding, padding]
    by_cases hzero : value % 8 = 0
    · rw [if_pos hzero, hzero]
    · rw [if_neg hzero, checkedSub_of_le (by omega), okOr_some,
        Nat.mod_eq_of_lt (show 8 - value % 8 < 8 by omega)]
  rw [alignUp, hpadding, ok_bind, checkedAdd_of_lt h, okOr_some]

structure Package where
  lead : RpmLead
  signature : StoredHeader
  header : StoredHeader
  payload : List UInt8
  lead_written : lead.Written

namespace Package

variable (package : Package)

def signatureBytes : List UInt8 :=
  package.signature.bytes ++ zeros (padding package.signature.bytes.length 8)

def bytes : List UInt8 :=
  package.lead.bytes ++ (package.signatureBytes ++ (package.header.bytes ++ package.payload))

def mainStart : Nat := leadBytes + package.signatureBytes.length

def payloadStart : Nat := package.mainStart + package.header.bytes.length

def parsed : ParsedHeaders where
  lead := package.lead
  signature := package.signature.parsed
  header := package.header.parsed
  mainStart := package.mainStart
  payloadStart := package.payloadStart

/-- Limits that let the package through. -/
structure Sufficient (limits : Limits) : Prop where
  maximum_lt : limits.maxHeaderBytes < 2 ^ 64
  name : package.lead.name.length ≤ limits.maxNameBytesPerEntry
  signature : package.signature.Admitted limits
  header : package.header.Admitted limits
  retained : package.lead.name.length + (package.signature.cost + package.header.cost) ≤
    limits.maxHeaderBytes

theorem mainStart_eq : package.mainStart = leadBytes + package.signature.bytes.length +
    padding (leadBytes + package.signature.bytes.length) 8 := by
  rw [mainStart, signatureBytes, length_append, length_zeros, Nat.add_assoc, padding,
    padding, leadBytes]
  omega

end Package

theorem Package.bytes_parts (package : Package) :
    package.bytes.drop leadBytes = package.signature.bytes ++
        (zeros (padding package.signature.bytes.length 8) ++
          (package.header.bytes ++ package.payload)) ∧
      package.bytes.drop (leadBytes + package.signature.bytes.length) =
        zeros (padding package.signature.bytes.length 8) ++
          (package.header.bytes ++ package.payload) ∧
      package.bytes.drop package.mainStart = package.header.bytes ++ package.payload ∧
      package.bytes.drop package.payloadStart = package.payload ∧
      package.payloadStart + package.payload.length = package.bytes.length := by
  have hstart : package.bytes.drop 0 = package.lead.bytes ++ _ := rfl
  have hsignature := drop_of_append hstart
  have hmain := drop_of_append hsignature
  have hpayload := drop_of_append hmain
  rw [package.lead_written.length_bytes, Nat.zero_add] at hsignature hmain hpayload
  rw [Package.signatureBytes, append_assoc] at hsignature
  refine ⟨hsignature, drop_of_append hsignature, hmain, hpayload, ?_⟩
  rw [Package.payloadStart, Package.mainStart, Package.bytes, length_append,
    length_append, length_append, package.lead_written.length_bytes]
  omega

theorem parse_bytes (package : Package) (limits : Limits)
    (hlen : package.bytes.length < 2 ^ 64) (hlimits : package.Sufficient limits) :
    (parse package.bytes limits).granted = .ok package.parsed := by
  obtain ⟨hsignature, hzeros, hmain, -, htotal⟩ := package.bytes_parts
  have hmainStart := package.mainStart_eq
  have hsize : package.signatureBytes.length = package.signature.bytes.length +
      padding package.signature.bytes.length 8 := by
    rw [Package.signatureBytes, length_append, length_zeros]
  have hmainLength : package.mainStart = leadBytes + package.signatureBytes.length := rfl
  have hpayloadStart : package.payloadStart = package.mainStart + package.header.bytes.length := rfl
  have hroom : (ModelAccount.new limits.maxHeaderBytes).Room
      (package.lead.name.length + (package.signature.cost + package.header.cost)) :=
    ⟨Nat.le_trans (Nat.le_of_eq (Nat.zero_add _)) hlimits.retained, hlimits.maximum_lt⟩
  have hlead : checkedRange package.bytes 0 leadBytes "RPM lead range overflows"
      "RPM lead is truncated" = .ok package.lead.bytes := by
    rw [← package.lead_written.length_bytes]
    exact checkedRange_of_drop hlen (Nat.zero_le _) rfl _ _
  have hpadding := checkedRange_of_drop hlen (by omega) hzeros
    "RPM signature padding range overflows" "RPM signature padding is truncated"
  rw [length_zeros] at hpadding
  have hallZero : ¬∃ byte ∈ zeros (padding package.signature.bytes.length 8),
      byte ≠ 0 := fun ⟨byte, hmem, hne⟩ => hne (List.eq_of_mem_replicate hmem)
  have haligned := alignUp_padding
    (show leadBytes + package.signature.bytes.length +
      padding (leadBytes + package.signature.bytes.length) 8 < 2 ^ 64 by omega)
    "RPM signature alignment overflows"
  rw [← hmainStart] at haligned
  have hgap : package.mainStart - (leadBytes + package.signature.bytes.length) =
      padding package.signature.bytes.length 8 := by omega
  simp only [parse, Prog.granted_bind, Prog.granted_lift, hlead, ok_bind,
    consumeBytes_granted, parseLead_bytes package.lead_written hlimits.name hroom.left,
    copyBytes_granted,
    parseHeader_bytes hlen (by omega) hsignature hlimits.signature hroom.right.left, haligned,
    checkedSub_of_le (show leadBytes + package.signature.bytes.length ≤ package.mainStart by omega),
    okOr_some, hgap, hpadding, rejectIf_of_not hallZero,
    parseHeader_bytes hlen (by omega) hmain hlimits.header hroom.right.right, Prog.granted_pure]
  rfl

/-- Both headers of a package come back with their tags and values in index
order, `value` gives the last value of each tag, and the payload begins where
the parser says. -/
theorem parse_packageBytes (package : Package) (limits : Limits)
    (hlen : package.bytes.length < 2 ^ 64) (hlimits : package.Sufficient limits) :
    ∃ parsed, (parse package.bytes limits).granted = .ok parsed ∧
      parsed.lead = package.lead ∧
      parsed.signature.pairs = package.signature.pairs ∧
      parsed.header.pairs = package.header.pairs ∧
      (∀ tag, Effective package.signature.pairs tag (parsed.signature.value tag)) ∧
      (∀ tag, Effective package.header.pairs tag (parsed.header.value tag)) ∧
      parsed.payloadStart + package.payload.length = package.bytes.length ∧
      package.bytes.drop parsed.payloadStart = package.payload := by
  obtain ⟨-, -, -, hpayload, htotal⟩ := package.bytes_parts
  refine ⟨package.parsed, parse_bytes package limits hlen hlimits, rfl,
    package.signature.parsed_pairs, package.header.parsed_pairs, ?_, ?_, htotal, hpayload⟩
  · intro tag
    rw [← package.signature.parsed_pairs]
    exact package.signature.parsed.value_effective tag
  · intro tag
    rw [← package.header.parsed_pairs]
    exact package.header.parsed.value_effective tag

/-- A tag of strings twice, the second string array within the first, and an
integer behind them. -/
def sampleHeader : StoredHeader where
  entries := [⟨1000, 0, .stringArray [[0x61, 0x62], [0x63]]⟩, ⟨1009, 8, .int32 [7, 2 ^ 32 - 1]⟩,
    ⟨1000, 3, .string [0x63]⟩, ⟨5, 0, .null⟩, ⟨1009, 8, .int16 [0, 7]⟩]
  store := [0x61, 0x62, 0, 0x63, 0, 0, 0, 0, 0, 0, 0, 7, 0xff, 0xff, 0xff, 0xff]
  count_lt := by decide
  store_lt := by decide
  stored := by
    intro placed h
    simp only [List.mem_cons, List.not_mem_nil, or_false] at h
    rcases h with rfl | rfl | rfl | rfl | rfl
    all_goals exact ⟨by decide, by decide, by decide, by decide, by decide, by decide⟩

def samplePackage : Package where
  lead := {
    major := 3
    minor := 0
    packageType := 0
    architecture := 1
    name := [0x70]
    operatingSystem := 1
    signatureType := 5
    reserved := List.replicate 16 0 }
  signature := ⟨[⟨62, 0, .binary [1, 2, 3]⟩], [1, 2, 3], by decide, by decide, by
    intro placed h
    cases List.mem_singleton.mp h
    exact ⟨by decide, by decide, by decide, by decide, by decide, by decide⟩⟩
  header := sampleHeader
  payload := [0x30, 0x37]
  lead_written := ⟨by decide, by decide, by decide, by decide, by decide, by decide, by decide,
    by decide⟩

theorem parse_packageBytes_sample :
    ∃ parsed, (parse samplePackage.bytes Limits.default).granted = .ok parsed ∧
      parsed.lead = samplePackage.lead ∧
      parsed.signature.pairs = samplePackage.signature.pairs ∧
      parsed.header.pairs = samplePackage.header.pairs ∧
      (∀ tag, Effective samplePackage.signature.pairs tag (parsed.signature.value tag)) ∧
      (∀ tag, Effective samplePackage.header.pairs tag (parsed.header.value tag)) ∧
      parsed.payloadStart + samplePackage.payload.length = samplePackage.bytes.length ∧
      samplePackage.bytes.drop parsed.payloadStart = samplePackage.payload :=
  parse_packageBytes samplePackage Limits.default (by decide +kernel)
    ⟨by decide, by decide, ⟨by decide, by decide⟩, ⟨by decide, by decide⟩, by decide⟩

example : sampleHeader.parsed.value 1009 = some (.int16 [0, 7]) := by decide

end Rpm
end Unpackio
