/-
Where the entries of an opened archive are placed in its folders, and why an archive
that verifies extracts in natural order.

The entries with a stream are the substreams of the main folders in their order,
and none of them is an anti-item.  Verification decodes every folder, and
extraction only those that have members.  Extraction never charges more than
verification has charged before the same folder, so that every maximum it decodes
under is at least as large.
-/
import Unpackio.Archive.Opened
import Unpackio.Validate.Mapping
import Unpackio.Archive.Spans

namespace Unpackio

open Prog (granted_bind_eq_ok granted_pure_eq_ok granted_rest)

/-- How entries stand to the substreams of some folders. -/
structure Placed (folders : List Folder) (entries : List FileEntry) : Prop where
  plain : ∀ entry ∈ entries, entry.stream.isSome → entry.antiItem = false
  streams_eq : entries.filterMap FileEntry.stream = streamMappings folders
  count_lt : (entries.filterMap FileEntry.stream).length < 2 ^ 64

theorem validateFiles_placed {raw : RawFilesInfo}
    {mainStreams additionalStreams : Option StreamsInfo} {limits : Limits} {files : FilesInfo}
    (h : (validateFiles raw mainStreams additionalStreams limits).granted = .ok files) :
    Placed (mainStreams.elim [] StreamsInfo.folders) files.entries := by
  obtain ⟨slots, vectors, -, -, htaken, hstreams⟩ := validateFiles_loop h
  refine ⟨htaken.plain, hstreams, ?_⟩
  rw [← Nat.zero_add (List.length _), ← htaken.cursor_eq]
  exact htaken.cursor_lt (by decide)

theorem Placed.of_placement {folders : List Folder} {entries others : List FileEntry}
    (h : Placed folders entries)
    (heq : others.map FileEntry.placement = entries.map FileEntry.placement) :
    Placed folders others := by
  have hstreams : others.filterMap FileEntry.stream = entries.filterMap FileEntry.stream := by
    have hmap := congrArg (List.filterMap fun place : Bool × Bool × Bool × Option FileStream =>
      place.2.2.2) heq
    rw [List.filterMap_map, List.filterMap_map] at hmap
    exact hmap
  refine ⟨fun entry hentry hsome => ?_, hstreams.trans h.streams_eq, hstreams ▸ h.count_lt⟩
  have hmem : entry.placement ∈ entries.map FileEntry.placement :=
    heq ▸ List.mem_map_of_mem hentry
  obtain ⟨base, hbase, hplace⟩ := List.mem_map.mp hmem
  simp only [FileEntry.placement, Prod.mk.injEq] at hplace
  obtain ⟨-, -, hanti, hstream⟩ := hplace
  rw [← hanti]
  exact h.plain base hbase (hstream ▸ hsome)

theorem Archive.openBytes_placed {codecs : Codecs} {bytes : List UInt8} {limits : Limits}
    {archive : Archive} (h : (Archive.openBytes codecs bytes limits).granted = .ok archive) :
    archive.entries = [] ∨
      Placed (archive.header.mainStreams.elim [] StreamsInfo.folders) archive.entries := by
  obtain ⟨-, -, -, base, ⟨raw, hraw⟩, hrefines⟩ := Archive.openBytes_validated h
  cases raw with
  | encoded streams =>
    obtain ⟨⟨_, _⟩, -, hraw⟩ := granted_bind_eq_ok.mp hraw
    obtain ⟨_, hraw⟩ := granted_rest hraw
    cases granted_pure_eq_ok.mp hraw
  | externalFolders pending =>
    obtain ⟨⟨_, _⟩, -, hraw⟩ := granted_bind_eq_ok.mp hraw
    obtain ⟨_, hraw⟩ := granted_rest hraw
    obtain ⟨⟨_, _, _⟩, -, hraw⟩ := granted_bind_eq_ok.mp hraw
    obtain ⟨_, hraw⟩ := granted_rest hraw
    obtain ⟨_, hraw⟩ := granted_rest hraw
    obtain ⟨_, hraw⟩ := granted_rest hraw
    cases granted_pure_eq_ok.mp hraw
  | header raw =>
    rw [validateNextHeader, Prog.granted_map] at hraw
    obtain ⟨plain, hraw, hplain⟩ := Except.map_eq_ok.mp hraw
    cases hplain
    obtain ⟨⟨additional, _⟩, -, hraw⟩ := granted_bind_eq_ok.mp hraw
    obtain ⟨⟨main, _⟩, -, hraw⟩ := granted_bind_eq_ok.mp hraw
    obtain ⟨_, hraw⟩ := granted_rest hraw
    obtain ⟨info, hinfo, hraw⟩ := granted_bind_eq_ok.mp hraw
    obtain ⟨properties, -, hraw⟩ := granted_bind_eq_ok.mp hraw
    cases granted_pure_eq_ok.mp hraw
    have hentries := hrefines.entries
    rw [hrefines.mainStreams]
    cases hfiles : raw.files with
    | none =>
      rw [hfiles] at hinfo
      cases granted_pure_eq_ok.mp hinfo
      have hnone : archive.header.files = none := Option.map_eq_none_iff.mp hentries
      exact .inl (by rw [Archive.entries, hnone, Option.elim_none])
    | some files =>
      rw [hfiles, validateOptionalFiles, Prog.granted_map] at hinfo
      obtain ⟨validated, hvalidated, rfl⟩ := Except.map_eq_ok.mp hinfo
      obtain ⟨own, hown, heq⟩ := Option.map_eq_some_iff.mp hentries
      refine .inr ((validateFiles_placed hvalidated).of_placement ?_)
      rw [Archive.entries, hown]
      exact heq

/-! ## Extraction -/

namespace Archive

open Prog (granted_bind granted_bind_eq_ok granted_lift_bind granted_rest)
open Except (ok_bind)

/-- What a folder of the archive decodes to under a maximum, it also decodes to
under any larger one. -/
def Steady (codecs : Codecs) (archive : Archive) : Prop :=
  ∀ streams folderIndex maximum larger decoded, maximum ≤ larger →
    (decodeFolder (decodeCoder codecs) archive.bytes streams folderIndex archive.limits
      maximum).granted = .ok decoded →
    (decodeFolder (decodeCoder codecs) archive.bytes streams folderIndex archive.limits
      larger).granted = .ok decoded

variable {codecs : Codecs} {archive : Archive} {streams : StreamsInfo}
  {folderIndex total next memberIndex : Nat} {folder : Folder} {decoded : DecodedFolder}
  {folders : List Folder} {member : FileEntry} {mapping : FileStream} {current : OpenFolder}
  {state : ExtractState} {mappings front : List FileStream}

theorem decodeMemberFolder_eq_ok {remaining : Nat} :
    (archive.decodeMemberFolder codecs streams folderIndex folder remaining).granted =
      .ok decoded ↔
    ∃ maximum, (folderDecodeMaximum folder archive.limits remaining).granted = .ok maximum ∧
      (decodeFolder (decodeCoder codecs) archive.bytes streams folderIndex archive.limits
        maximum).granted = .ok decoded := by
  simp only [decodeMemberFolder, granted_bind_eq_ok, Prog.granted_mapError,
    Except.mapError_eq_ok]

theorem Steady.decodeMemberFolder (hsteady : archive.Steady codecs) {remaining larger : Nat}
    (hle : remaining ≤ larger)
    (h : (archive.decodeMemberFolder codecs streams folderIndex folder remaining).granted =
      .ok decoded) :
    (archive.decodeMemberFolder codecs streams folderIndex folder larger).granted =
      .ok decoded := by
  obtain ⟨maximum, hmaximum, hdecode⟩ := decodeMemberFolder_eq_ok.mp h
  obtain ⟨maximum', hmaximum', hle⟩ := folderDecodeMaximum_mono hle hmaximum
  exact decodeMemberFolder_eq_ok.mpr ⟨maximum', hmaximum', hsteady _ _ _ _ _ hle hdecode⟩

theorem decodeWithinTotal_eq_ok :
    (archive.decodeWithinTotal codecs streams folderIndex folder total).granted =
      .ok (decoded, next) ↔
    total ≤ archive.limits.maxTotalOutputBytes ∧
      (archive.decodeMemberFolder codecs streams folderIndex folder
        (archive.limits.maxTotalOutputBytes - total)).granted = .ok decoded ∧
      next = total + decoded.bytes.length ∧ next < 2 ^ 64 ∧
      next ≤ archive.limits.maxTotalOutputBytes := by
  simp only [decodeWithinTotal, granted_bind_eq_ok, Prog.granted_lift_eq_ok, okOr_eq_ok,
    checkedSub_eq_some, checkedAdd_eq_some, checkLimit_eq_ok]
  constructor
  · rintro ⟨_, ⟨hle, rfl⟩, _, hdecode, _, ⟨hlt, rfl⟩, _, hlimit, h⟩
    cases Prog.granted_pure_eq_ok.mp h
    exact ⟨hle, hdecode, rfl, hlt, hlimit⟩
  · rintro ⟨hle, hdecode, rfl, hlt, hlimit⟩
    exact ⟨_, ⟨hle, rfl⟩, decoded, hdecode, _, ⟨hlt, rfl⟩, (), hlimit, rfl⟩

def FoldersPass (codecs : Codecs) (archive : Archive) (streams : StreamsInfo) :
    List Folder → Nat → Nat → Prop
  | [], _, _ => True
  | folder :: folders, folderIndex, total => ∃ decoded next,
    (archive.decodeWithinTotal codecs streams folderIndex folder total).granted =
        .ok (decoded, next) ∧
      decoded.crcMismatch = false ∧
      Spanned archive.limits decoded.bytes folder.substreams.length folder.substreams 0 0 ∧
      FoldersPass codecs archive streams folders (folderIndex + 1) next

theorem verifyFolderMembers_spanned {entries rest : List (FileEntry × Nat)}
    (hdecode : (archive.decodeWithinTotal codecs streams folderIndex folder total).granted =
      .ok (decoded, next))
    (h : (verifyFolderMembers folder folderIndex decoded entries).granted = .ok rest) :
    decoded.crcMismatch = false ∧
      Spanned archive.limits decoded.bytes folder.substreams.length folder.substreams 0 0 := by
  obtain ⟨left, hmembers, h⟩ := granted_bind_eq_ok.mp h
  obtain ⟨_, hmatch, -⟩ := granted_bind_eq_ok.mp h
  refine ⟨Bool.not_eq_true _ ▸ rejectIf_eq_ok.mp (Prog.granted_lift_eq_ok.mp hmatch), ?_⟩
  by_cases hnil : folder.substreams = []
  · rw [hnil]
    trivial
  obtain ⟨-, hdecode, -⟩ := decodeWithinTotal_eq_ok.mp hdecode
  obtain ⟨maximum, hmaximum, hdecode⟩ := decodeMemberFolder_eq_ok.mp hdecode
  obtain ⟨permitted, unknown, hpermitted, hle⟩ := folderDecodeMaximum_eq_ok hmaximum hnil
  have hlength := decodeFolder_length (decodeCoder_bounded codecs) (.of_granted hdecode)
  exact verifyMembers_spanned folder.substreams (Nat.zero_add _) hpermitted
    (hlength.trans hle) hmembers

theorem verifyFolders_pass {entries : List (FileEntry × Nat)} {u : Unit}
    (h : (archive.verifyFolders codecs streams folders folderIndex total entries).granted =
      .ok u) : FoldersPass codecs archive streams folders folderIndex total := by
  induction folders generalizing folderIndex total entries with
  | nil => trivial
  | cons folder folders ih =>
    obtain ⟨_, h⟩ := granted_rest h
    obtain ⟨⟨decoded, next⟩, hdecode, h⟩ := granted_bind_eq_ok.mp h
    obtain ⟨rest, hmembers, h⟩ := granted_bind_eq_ok.mp h
    obtain ⟨hmatch, hspanned⟩ := verifyFolderMembers_spanned hdecode hmembers
    exact ⟨decoded, next, hdecode, hmatch, hspanned, ih h⟩

theorem verify_pass {u : Unit} (h : (archive.verify codecs).granted = .ok u)
    (hstreams : archive.header.mainStreams = some streams) :
    ∃ total, FoldersPass codecs archive streams streams.folders 0 total := by
  obtain ⟨total, -, h⟩ := granted_bind_eq_ok.mp h
  rw [hstreams] at h
  exact ⟨total, verifyFolders_pass h⟩

theorem writeChunks_granted (memberIndex : Nat) (pieces : List (List UInt8)) (crc : Crc32) :
    (writeChunks memberIndex pieces crc).granted = .ok (crc.update pieces.flatten) := by
  induction pieces generalizing crc with
  | nil => rfl
  | cons piece pieces ih =>
    rw [writeChunks, working, granted_bind, Prog.granted_mapRequest, consumeBytes_granted,
      ok_bind, granted_bind, Prog.granted_request, ok_bind, ih,
      List.flatten_cons, Crc32.update_append]

theorem deliver_granted {encrypted : Bool} {bytes : List UInt8} {size : Nat} {u : Unit} :
    (deliver memberIndex member mapping encrypted bytes size).granted = .ok u ↔
      ∀ expected, mapping.crc = some expected → Crc32.checksum bytes = expected := by
  have hbytes : Crc32.finalize (Crc32.new.update (chunks ioChunkSize bytes).flatten) =
      Crc32.checksum bytes := by
    rw [flatten_chunks (by decide : 0 < ioChunkSize)]
    rfl
  simp only [deliver, granted_bind_eq_ok, Prog.granted_lift_eq_ok, writeChunks_granted,
    rejectIf_eq_ok, Except.ok.injEq, exists_eq_left', hbytes]
  constructor
  · rintro ⟨_, -, _, hcrc, -⟩ expected hexpected
    by_contra hne
    exact hcrc ⟨expected, hexpected, hne⟩
  · intro hcrc
    refine ⟨(), rfl, (), ?_, rfl⟩
    rintro ⟨expected, hexpected, hne⟩
    exact hne (hcrc expected hexpected)

section

variable {substream : Substream} {finish : Nat}
  (h : Spans archive.limits current.decoded.bytes folder.substreams.length current.nextSubstream
    current.offset finish substream)
include h

theorem Spans.nextRange (hfolder : streams.folders[mapping.folderIndex]? = some folder)
    (hsubstream : folder.substreams[current.nextSubstream]? = some substream)
    (hindex : mapping.substreamIndex = current.nextSubstream) :
    archive.nextRange streams current mapping =
      .ok (span current.decoded.bytes current.offset finish, finish - current.offset, finish) := by
  simp only [Archive.nextRange, Except.bind_eq_ok, rejectIf_eq_ok, okOr_eq_ok, checkedSub_eq_some,
    checkLimit_eq_ok, getRange_eq_some]
  exact ⟨(), not_not_intro hindex, folder, hfolder, substream, hsubstream, finish, h.ends, (),
    Nat.not_lt_of_le h.within, _, ⟨h.ordered, rfl⟩, (), h.limited, _, ⟨h.ordered, h.within, rfl⟩,
    rfl⟩

theorem Spans.extractStream (hstreams : archive.header.mainStreams = some streams)
    (hopen : (archive.folderFor codecs streams mapping.folderIndex state).granted =
      .ok (current, total)) (hfolder : streams.folders[mapping.folderIndex]? = some folder)
    (hsubstream : folder.substreams[current.nextSubstream]? = some substream)
    (hindex : mapping.substreamIndex = current.nextSubstream) (hcrc : mapping.crc = substream.crc)
    (hdelivered : state.delivered + (finish - current.offset) < 2 ^ 64)
    (hnext : current.nextSubstream + 1 < 2 ^ 64) :
    (archive.extractStream codecs memberIndex member mapping state).granted =
      .ok { current := some { current with
              nextSubstream := current.nextSubstream + 1, offset := finish },
            totalOutput := total, delivered := state.delivered + (finish - current.offset) } := by
  rw [Archive.extractStream, hstreams, okOr_some, granted_lift_bind, ok_bind, working, granted_bind,
    Prog.granted_mapRequest, hopen, ok_bind]
  simp only [h.nextRange hfolder hsubstream hindex, checkedAdd_of_lt hdelivered,
    checkedAdd_of_lt hnext, okOr_some, granted_bind, Prog.granted_lift, ok_bind]
  have hdeliver : (deliver memberIndex member mapping current.decoded.encrypted
      (span current.decoded.bytes current.offset finish) (finish - current.offset)).granted =
        .ok () :=
    deliver_granted.mpr fun expected hexpected => h.digest expected (hcrc ▸ hexpected)
  rw [hdeliver, ok_bind]
  rfl

end

/-! ## The members that are still to come -/

def restMappings (folders : List Folder) (folderIndex : Nat) : List FileStream :=
  (folders.zipIdx folderIndex).flatMap fun entry => folderMappings entry.2 entry.1

theorem restMappings_cons (folder : Folder) (folders : List Folder) (folderIndex : Nat) :
    restMappings (folder :: folders) folderIndex =
      folderMappings folderIndex folder ++ restMappings folders (folderIndex + 1) := by
  rw [restMappings, List.zipIdx_cons, List.flatMap_cons]
  rfl

def OpenSpanned (archive : Archive) (streams : StreamsInfo) (next : Nat)
    (mappings : List FileStream) :
    Option OpenFolder → Prop
  | none => mappings = []
  | some current => ∃ folder, streams.folders[current.index]? = some folder ∧
    current.index < next ∧ current.nextSubstream ≤ folder.substreams.length ∧
    mappings = (folderMappings current.index folder).drop current.nextSubstream ∧
    Spanned archive.limits current.decoded.bytes folder.substreams.length
      (folder.substreams.drop current.nextSubstream) current.nextSubstream current.offset

/-- Extraction has come as far as verification: `front` is what the open folder
still holds, and `folders` verify behind it. -/
structure Ahead (codecs : Codecs) (archive : Archive) (streams : StreamsInfo)
    (state : ExtractState) (front : List FileStream) (folders : List Folder)
    (next total : Nat) : Prop where
  later : streams.folders.drop next = folders
  pass : FoldersPass codecs archive streams folders next total
  opened : archive.OpenSpanned streams next front state.current
  charged : state.totalOutput ≤ total
  covered : state.delivered + state.room ≤ state.totalOutput
  representable : state.totalOutput < 2 ^ 64

theorem OpenSpanned.mono {current : Option OpenFolder}
    (h : archive.OpenSpanned streams next mappings current) :
    archive.OpenSpanned streams (next + 1) mappings current := by
  cases current with
  | none => exact h
  | some current =>
    obtain ⟨folder, hfolder, hlt, hrest⟩ := h
    exact ⟨folder, hfolder, Nat.lt_succ_of_lt hlt, hrest⟩

theorem folderMappings_drop_eq_nil {count : Nat} :
    (folderMappings folderIndex folder).drop count = [] ↔ folder.substreams.length ≤ count := by
  rw [List.drop_eq_nil_iff, folderMappings, List.length_map, List.length_zipIdx]

theorem OpenSpanned.checkLeftFolder {current : Option OpenFolder}
    (h : archive.OpenSpanned streams next [] current) (rangeDetail unmappedDetail : String) :
    checkLeftFolder streams current rangeDetail unmappedDetail = .ok () := by
  cases current with
  | none => rfl
  | some current =>
    obtain ⟨folder, hfolder, -, hle, hnil, -⟩ := h
    rw [Archive.checkLeftFolder, hfolder, okOr_bind]
    refine rejectIf_of_not (not_not_intro (Nat.le_antisymm hle ?_)) _
    exact folderMappings_drop_eq_nil.mp hnil.symm

theorem folderFor_of_index (hcurrent : state.current = some current)
    (hindex : current.index = folderIndex) :
    archive.folderFor codecs streams folderIndex state = pure (current, state.totalOutput) := by
  simp only [folderFor, hcurrent, if_pos hindex]

theorem folderFor_of_ne
    (hne : ∀ current, state.current = some current → current.index ≠ folderIndex) :
    archive.folderFor codecs streams folderIndex state =
      archive.enterFolder codecs streams folderIndex state := by
  unfold folderFor
  cases hcurrent : state.current with
  | none => rfl
  | some current => exact if_neg (hne current hcurrent)

theorem Ahead.enterFolder (hsteady : archive.Steady codecs)
    (h : Ahead codecs archive streams state [] folders next total)
    (hrest : restMappings folders next = mapping :: mappings) :
    ∃ current total' front folders' next' total'',
      (archive.enterFolder codecs streams mapping.folderIndex state).granted =
        .ok (current, total') ∧
      Ahead codecs archive streams { state with current := some current, totalOutput := total' }
        (mapping :: front) folders' next' total'' ∧
      mappings = front ++ restMappings folders' next' ∧ next ≤ mapping.folderIndex := by
  induction folders generalizing next total with
  | nil => exact nomatch hrest
  | cons folder folders ih =>
    obtain ⟨decoded, after, hdecode, hmatch, hspanned, hpass⟩ := h.pass
    obtain ⟨hle, hmember, hafter, hlt, hlimit⟩ := decodeWithinTotal_eq_ok.mp hdecode
    have hlater : streams.folders.drop (next + 1) = folders := by
      rw [← List.tail_drop, h.later, List.tail_cons]
    have hcharged := h.charged
    have hcovered := h.covered
    rw [restMappings_cons] at hrest
    by_cases hnil : folder.substreams = []
    · have hnone : folderMappings next folder = [] := by
        rw [folderMappings, hnil]
        rfl
      rw [hnone, List.nil_append] at hrest
      obtain ⟨current, total', front, folders', next', total'', henter, hahead, heq, hge⟩ :=
        ih ⟨hlater, hpass, h.opened.mono, by omega, hcovered, h.representable⟩ hrest
      exact ⟨current, total', front, folders', next', total'', henter, hahead, heq, by omega⟩
    · obtain ⟨front, hfront⟩ : ∃ front, folderMappings next folder = mapping :: front := by
        cases hmappings : folderMappings next folder with
        | nil =>
          have hlength := folderMappings_drop_eq_nil.mp
            ((List.drop_zero (l := folderMappings next folder)).trans hmappings)
          exact absurd (List.eq_nil_of_length_eq_zero (Nat.le_zero.mp hlength)) hnil
        | cons first front =>
          rw [hmappings, List.cons_append] at hrest
          exact ⟨front, congrArg (· :: front) (List.cons.inj hrest).1⟩
      have hindex : mapping.folderIndex = next :=
        (mem_folderMappings.mp (hfront ▸ List.mem_cons_self)).1
      have hget : streams.folders[next]? = some folder := by
        rw [← List.head?_drop, h.later, List.head?_cons]
      rw [hfront, List.cons_append] at hrest
      refine ⟨⟨next, decoded, 0, 0⟩, state.totalOutput + decoded.bytes.length, front, folders,
        next + 1, after, ?_, ⟨hlater, hpass, ?_, ?_, ?_, ?_⟩, (List.cons.inj hrest).2.symm,
        hindex.ge⟩
      · have hwithin : (archive.decodeWithinTotal codecs streams next folder
            state.totalOutput).granted =
              .ok (decoded, state.totalOutput + decoded.bytes.length) :=
          decodeWithinTotal_eq_ok.mpr ⟨by omega,
            hsteady.decodeMemberFolder (by omega) hmember, rfl, by omega, by omega⟩
        rw [hindex, Archive.enterFolder, h.opened.checkLeftFolder, hget, okOr_some]
        simp only [granted_bind, Prog.granted_lift, ok_bind, hwithin]
        rw [rejectIf_of_not (hmatch ▸ Bool.false_ne_true)]
        rfl
      · exact ⟨folder, hget, Nat.lt_succ_self next, Nat.zero_le _, hfront.symm, hspanned⟩
      · show state.totalOutput + decoded.bytes.length ≤ after
        omega
      · show state.delivered + (decoded.bytes.length - 0) ≤
          state.totalOutput + decoded.bytes.length
        omega
      · show state.totalOutput + decoded.bytes.length < 2 ^ 64
        omega

theorem Ahead.folderFor (hsteady : archive.Steady codecs)
    (h : Ahead codecs archive streams state front folders next total)
    (hrest : front ++ restMappings folders next = mapping :: mappings) :
    ∃ current total' front' folders' next' total'',
      (archive.folderFor codecs streams mapping.folderIndex state).granted =
        .ok (current, total') ∧
      Ahead codecs archive streams { state with current := some current, totalOutput := total' }
        (mapping :: front') folders' next' total'' ∧
      mappings = front' ++ restMappings folders' next' := by
  cases front with
  | nil =>
    obtain ⟨current, total', front', folders', next', total'', henter, hahead, heq, hle⟩ :=
      h.enterFolder hsteady hrest
    refine ⟨current, total', front', folders', next', total'', ?_, hahead, heq⟩
    rw [folderFor_of_ne, henter]
    intro previous hprevious
    have hopened := h.opened
    rw [hprevious] at hopened
    obtain ⟨-, -, hlt, -⟩ := hopened
    omega
  | cons first front =>
    rw [List.cons_append] at hrest
    obtain ⟨rfl, heq⟩ := List.cons.inj hrest
    have hopened := h.opened
    cases hcurrent : state.current with
    | none =>
      rw [hcurrent] at hopened
      exact nomatch hopened
    | some current =>
      rw [hcurrent] at hopened
      obtain ⟨folder, hfolder, hlt, hle, hfront, hspanned⟩ := hopened
      have hmem : first ∈ folderMappings current.index folder :=
        List.mem_of_mem_drop (hfront ▸ List.mem_cons_self)
      have hstate : ({ state with current := some current, totalOutput := state.totalOutput } :
          ExtractState) = state := by
        rw [← hcurrent]
      refine ⟨current, state.totalOutput, front, folders, next, total, ?_, ?_, heq.symm⟩
      · rw [folderFor_of_index hcurrent (mem_folderMappings.mp hmem).1.symm]
        rfl
      · rw [hstate]
        exact h

theorem folderMappings_drop_eq_cons {count : Nat}
    (h : (folderMappings folderIndex folder).drop count = mapping :: front) :
    ∃ substream, folder.substreams[count]? = some substream ∧
      folder.substreams.drop count = substream :: folder.substreams.drop (count + 1) ∧
      mapping = ⟨folderIndex, count, substream.size, substream.crc⟩ ∧
      front = (folderMappings folderIndex folder).drop (count + 1) := by
  have hget : (folderMappings folderIndex folder)[count]? = some mapping := by
    rw [← List.head?_drop, h, List.head?_cons]
  rw [folderMappings, List.getElem?_map, List.getElem?_zipIdx, Option.map_map] at hget
  obtain ⟨substream, hsubstream, hmapping⟩ := Option.map_eq_some_iff.mp hget
  have hmapping : (⟨folderIndex, 0 + count, substream.size, substream.crc⟩ : FileStream) =
      mapping := hmapping
  rw [Nat.zero_add] at hmapping
  refine ⟨substream, hsubstream, ?_, hmapping.symm, ?_⟩
  · obtain ⟨hlt, rfl⟩ := List.getElem?_eq_some_iff.mp hsubstream
    exact List.drop_eq_getElem_cons hlt
  · rw [← List.tail_drop, h, List.tail_cons]

theorem length_substreams_le (h : streams.folders[folderIndex]? = some folder) :
    folder.substreams.length ≤ (streamMappings streams.folders).length := by
  rw [length_streamMappings]
  exact List.le_sum_of_mem (List.mem_map_of_mem (List.mem_of_getElem? h))

/-! ## The member loop -/

theorem Ahead.extractStream (hsteady : archive.Steady codecs)
    (hstreams : archive.header.mainStreams = some streams)
    (hcount : (streamMappings streams.folders).length < 2 ^ 64)
    (h : Ahead codecs archive streams state front folders next total)
    (hrest : front ++ restMappings folders next = mapping :: mappings) (memberIndex : Nat)
    (member : FileEntry) :
    ∃ state' front' folders' next' total',
      (archive.extractStream codecs memberIndex member mapping state).granted = .ok state' ∧
      Ahead codecs archive streams state' front' folders' next' total' ∧
      mappings = front' ++ restMappings folders' next' := by
  obtain ⟨current, total', front', folders', next', total'', hopen, hahead, heq⟩ :=
    h.folderFor hsteady hrest
  obtain ⟨folder, hfolder, hlt, hle, hfront, hspanned⟩ := hahead.opened
  obtain ⟨substream, hsubstream, hdrop, rfl, hfront'⟩ := folderMappings_drop_eq_cons hfront.symm
  rw [hdrop] at hspanned
  obtain ⟨finish, hspans, hspanned⟩ := hspanned
  have hcovered : state.delivered + (current.decoded.bytes.length - current.offset) ≤ total' :=
    hahead.covered
  have hordered := hspans.ordered
  have hwithin := hspans.within
  have hrepresentable : total' < 2 ^ 64 := hahead.representable
  have hindex : current.nextSubstream < folder.substreams.length :=
    (List.getElem?_eq_some_iff.mp hsubstream).1
  have hbound := length_substreams_le hfolder
  refine ⟨_, front', folders', next', total'', hspans.extractStream hstreams hopen hfolder
    hsubstream rfl rfl (by omega) (by omega), ⟨hahead.later, hahead.pass, ?_, hahead.charged,
      ?_, hrepresentable⟩, heq⟩
  · exact ⟨folder, hfolder, hlt, hindex, hfront', hspanned⟩
  · show state.delivered + (finish - current.offset) + (current.decoded.bytes.length - finish) ≤
      total'
    omega

theorem extractMember_none (hstream : member.stream = none) :
    (archive.extractMember codecs memberIndex member state).granted = .ok state := by
  rw [extractMember, working, granted_bind, Prog.granted_mapRequest, checkpoint_granted,
    ok_bind, hstream]
  by_cases hempty : member.emptyFile = true ∧ ¬member.antiItem = true
  · simp only [if_pos hempty]
    rfl
  · simp only [if_neg hempty]
    rfl

theorem extractMember_some (hstream : member.stream = some mapping) :
    (archive.extractMember codecs memberIndex member state).granted =
      (archive.extractStream codecs memberIndex member mapping state).granted := by
  rw [extractMember, working, granted_bind, Prog.granted_mapRequest, checkpoint_granted,
    ok_bind, hstream]

theorem Ahead.extractMembers (hsteady : archive.Steady codecs)
    (hstreams : archive.header.mainStreams = some streams)
    (hcount : (streamMappings streams.folders).length < 2 ^ 64) (members : List (FileEntry × Nat))
    (h : Ahead codecs archive streams state front folders next total)
    (hrest : members.filterMap (fun member => member.1.stream) =
      front ++ restMappings folders next) :
    ∃ state', (archive.extractMembers codecs members state).granted = .ok state' ∧
      ∃ next', archive.OpenSpanned streams next' [] state'.current := by
  induction members generalizing state front folders next total with
  | nil =>
    obtain ⟨rfl, -⟩ := List.append_eq_nil_iff.mp hrest.symm
    exact ⟨state, rfl, next, h.opened⟩
  | cons entry members ih =>
    obtain ⟨member, memberIndex⟩ := entry
    cases hstream : member.stream with
    | none =>
      rw [List.filterMap_cons_none (by exact hstream)] at hrest
      obtain ⟨state', hloop, hopened⟩ := ih h hrest
      refine ⟨state', ?_, hopened⟩
      rw [Archive.extractMembers, granted_bind, extractMember_none hstream, ok_bind,
        hloop]
    | some mapping =>
      rw [List.filterMap_cons_some (by exact hstream)] at hrest
      obtain ⟨state₁, front₁, folders₁, next₁, total₁, hstep, hahead, heq⟩ :=
        h.extractStream hsteady hstreams hcount hrest.symm memberIndex member
      obtain ⟨state', hloop, hopened⟩ := ih hahead heq
      refine ⟨state', ?_, hopened⟩
      rw [Archive.extractMembers, granted_bind, extractMember_some hstream, hstep,
        ok_bind, hloop]

theorem extractEntriesTo_eq_ok {count : Nat} :
    (archive.extractEntriesTo codecs).granted = .ok count ↔
      ∃ state, (archive.extractMembers codecs archive.entries.zipIdx ⟨none, 0, 0⟩).granted =
        .ok state ∧ archive.checkFinalFolder state = .ok () ∧ state.delivered = count := by
  simp only [extractEntriesTo, granted_bind_eq_ok, Prog.granted_lift_eq_ok]
  constructor
  · rintro ⟨state, hstate, _, hcheck, h⟩
    cases Prog.granted_pure_eq_ok.mp h
    exact ⟨state, hstate, hcheck, rfl⟩
  · rintro ⟨state, hstate, hcheck, rfl⟩
    exact ⟨state, hstate, (), hcheck, rfl⟩

theorem extractMembers_streamless (members : List (FileEntry × Nat))
    (h : members.filterMap (fun member => member.1.stream) = []) (state : ExtractState) :
    (archive.extractMembers codecs members state).granted = .ok state := by
  induction members with
  | nil => rfl
  | cons entry members ih =>
    obtain ⟨member, memberIndex⟩ := entry
    have hstream : member.stream = none :=
      List.filterMap_eq_nil_iff.mp h (member, memberIndex) List.mem_cons_self
    rw [List.filterMap_cons_none (by exact hstream)] at h
    rw [extractMembers, granted_bind, extractMember_none hstream, ok_bind, ih h]

theorem filterMap_zipIdx (entries : List FileEntry) :
    entries.zipIdx.filterMap (fun member => member.1.stream) =
      entries.filterMap FileEntry.stream := by
  have hmap := List.filterMap_map (f := Prod.fst) (g := FileEntry.stream) (l := entries.zipIdx)
  rw [List.zipIdx_map_fst] at hmap
  exact hmap.symm

theorem extractEntriesTo_of_verify {bytes : List UInt8} {limits : Limits} {u : Unit}
    (hopen : (openBytes codecs bytes limits).granted = .ok archive)
    (hsteady : archive.Steady codecs) (hverify : (archive.verify codecs).granted = .ok u) :
    ∃ count, (archive.extractEntriesTo codecs).granted = .ok count := by
  have hstreamless : archive.entries.filterMap FileEntry.stream = [] →
      ∃ count, (archive.extractEntriesTo codecs).granted = .ok count := by
    intro hnone
    refine ⟨0, extractEntriesTo_eq_ok.mpr ⟨⟨none, 0, 0⟩, ?_, ?_, rfl⟩⟩
    · exact extractMembers_streamless _ ((filterMap_zipIdx archive.entries).trans hnone) _
    · unfold checkFinalFolder
      cases archive.header.mainStreams <;> rfl
  rcases openBytes_placed hopen with hnil | hplaced
  · exact hstreamless (hnil ▸ rfl)
  cases hstreams : archive.header.mainStreams with
  | none =>
    rw [hstreams] at hplaced
    exact hstreamless hplaced.streams_eq
  | some streams =>
    rw [hstreams] at hplaced
    obtain ⟨total, hpass⟩ := verify_pass hverify hstreams
    have hstart : Ahead codecs archive streams ⟨none, 0, 0⟩ [] streams.folders 0 total :=
      ⟨List.drop_zero, hpass, rfl, Nat.zero_le _, Nat.le_refl _, by decide⟩
    have hcount : (streamMappings streams.folders).length < 2 ^ 64 := by
      have hlt := hplaced.count_lt
      rwa [hplaced.streams_eq] at hlt
    obtain ⟨state, hloop, next, hopened⟩ := hstart.extractMembers hsteady hstreams hcount
      archive.entries.zipIdx ((filterMap_zipIdx archive.entries).trans hplaced.streams_eq)
    refine ⟨state.delivered, extractEntriesTo_eq_ok.mpr ⟨state, hloop, ?_, rfl⟩⟩
    rw [checkFinalFolder, hstreams]
    exact hopened.checkLeftFolder _ _

end Archive
end Unpackio
