/-
How `validate_streams` spends the size and digest vectors of SubStreamsInfo.

`SubstreamsExact` says it without cursors: the written sizes of all folders in
order are the size vector, and the digests that no folder provides are the
digest vector.
-/
import Unpackio.Validate

namespace Unpackio

open List (drop_zero flatMap_cons length_append length_cons length_map map_cons replicate_succ
  sum_cons take_length take_succ_cons)
open Prog (granted_bind_eq_ok granted_pure_eq_ok granted_rest)

/-! ## Sizes of one folder -/

theorem explicitSizeLoop_none (count cursor total : Nat) (allKnown : Bool) :
    (explicitSizeLoop none count cursor total allKnown).granted =
      .ok (List.replicate count none, cursor, total, allKnown) := by
  induction count with
  | zero => rfl
  | succ count ih =>
    simp only [explicitSizeLoop, Prog.granted_bind, checkpoint_granted, Except.ok_bind, ih,
      Prog.granted_pure, replicate_succ]

variable {sizes : List (Option Nat)} {explicitSizes : Option (List Nat)}
  {explicitCrcs : Option (List (Option UInt32))} {limits : Limits}

theorem explicitSizeLoop_some {values : List Nat} (count cursor total : Nat) (allKnown : Bool)
    {cursor' total' : Nat} {allKnown' : Bool}
    (h : (explicitSizeLoop (some values) count cursor total allKnown).granted =
      .ok (sizes, cursor', total', allKnown')) :
    cursor' = cursor + count ∧ cursor' ≤ max cursor values.length ∧
      sizes = ((values.drop cursor).take count).map optionalSize ∧ sizes.length = count ∧
      allKnown' = (allKnown && sizes.all Option.isSome) ∧
      total' = total + (sizes.map fun size => size.getD 0).sum := by
  induction count generalizing cursor total allKnown sizes with
  | zero =>
    cases granted_pure_eq_ok.mp h
    simp
  | succ count ih =>
    obtain ⟨_, h⟩ := granted_rest h
    obtain ⟨value, hvalue, h⟩ := granted_bind_eq_ok.mp h
    obtain ⟨next, hnext, h⟩ := granted_bind_eq_ok.mp h
    have hget : values[cursor]? = some value := okOr_eq_ok.mp hvalue
    obtain ⟨-, rfl⟩ := checkedAdd_eq_ok.mp hnext
    have hlt : cursor < values.length := (List.getElem?_eq_some_iff.mp hget).1
    have hdrop : values.drop cursor = value :: values.drop (cursor + 1) := by
      rw [List.drop_eq_getElem_cons hlt, (List.getElem?_eq_some_iff.mp hget).2]
    rw [hdrop, take_succ_cons, map_cons]
    cases hsize : optionalSize value with
    | some known =>
      simp only [hsize] at h
      obtain ⟨sum, hsum, h⟩ := granted_bind_eq_ok.mp h
      obtain ⟨-, rfl⟩ := checkedAdd_eq_ok.mp hsum
      obtain ⟨⟨rest, _, _, _⟩, hrest, h⟩ := granted_bind_eq_ok.mp h
      cases granted_pure_eq_ok.mp h
      obtain ⟨hcursor, hle, hsizes, hlen, hknown, htotal⟩ := ih _ _ _ hrest
      refine ⟨by omega, by omega, by rw [hsizes], by rw [length_cons, hlen], ?_, ?_⟩
      · rw [hknown, List.all_cons, Option.isSome_some, Bool.true_and]
      · rw [htotal, map_cons, sum_cons, Option.getD_some, Nat.add_assoc]
    | none =>
      simp only [hsize] at h
      obtain ⟨⟨rest, _, _, _⟩, hrest, h⟩ := granted_bind_eq_ok.mp h
      cases granted_pure_eq_ok.mp h
      obtain ⟨hcursor, hle, hsizes, hlen, hknown, htotal⟩ := ih _ _ _ hrest
      refine ⟨by omega, by omega, by rw [hsizes], by rw [length_cons, hlen], ?_, ?_⟩
      · rw [hknown, List.all_cons, Option.isSome_none, Bool.false_and, Bool.and_false]
      · rw [htotal, map_cons, sum_cons, Option.getD_none, Nat.zero_add]

def writtenSizes (explicitSizes : Option (List Nat)) (cursor count : Nat) : List (Option Nat) :=
  match explicitSizes with
  | none => List.replicate count none
  | some values => ((values.drop cursor).take count).map optionalSize

/-- The cursor behind `count` values of a vector that may be absent. -/
def advance {α : Type} (values : Option (List α)) (cursor count : Nat) : Nat :=
  if values.isSome then cursor + count else cursor

/-- Sizes that are all known add up to `root`. -/
def SumsTo (sizes : List (Option Nat)) (root : Nat) : Prop :=
  ∃ known : List Nat, sizes = known.map some ∧ known.sum = root

theorem sumsTo_of_all (h : ∀ size ∈ sizes, size ≠ none) :
    SumsTo sizes (sizes.map fun size => size.getD 0).sum := by
  refine ⟨sizes.map fun size => size.getD 0, ?_, rfl⟩
  rw [List.map_map]
  refine (List.map_id'' (fun _ => rfl) sizes).symm.trans (List.map_congr_left fun size hsize => ?_)
  cases size with
  | none => exact absurd rfl (h none hsize)
  | some value => rfl

theorem substreamSizes_spec {rootSize : Option Nat} {count : Nat} {cursor cursor' : Nat}
    (h : (substreamSizes rootSize count explicitSizes cursor).granted = .ok (sizes, cursor')) :
    sizes.length = count ∧ cursor' = advance explicitSizes cursor (count - 1) ∧
      sizes.dropLast = writtenSizes explicitSizes cursor (count - 1) ∧
      (count ≠ 0 → ∀ root, rootSize = some root → (∀ size ∈ sizes.dropLast, size ≠ none) →
        SumsTo sizes root) := by
  unfold substreamSizes at h
  by_cases hzero : count = 0
  · rw [if_pos hzero] at h
    cases granted_pure_eq_ok.mp h
    subst hzero
    refine ⟨rfl, ?_, ?_, fun hne => absurd rfl hne⟩
    · rw [advance, Nat.zero_sub, Nat.add_zero, ite_self]
    · cases explicitSizes <;> simp [writtenSizes]
  rw [if_neg hzero] at h
  by_cases hone : count = 1
  · rw [if_pos hone] at h
    cases granted_pure_eq_ok.mp h
    subst hone
    refine ⟨rfl, ?_, ?_, ?_⟩
    · rw [advance, Nat.sub_self, Nat.add_zero, ite_self]
    · cases explicitSizes <;> simp [writtenSizes]
    · rintro - root rfl -
      exact ⟨[root], rfl, List.sum_singleton⟩
  rw [if_neg hone] at h
  obtain ⟨⟨explicit, next, total, allKnown⟩, hloop, h⟩ := granted_bind_eq_ok.mp h
  obtain ⟨last, hlast, h⟩ := granted_bind_eq_ok.mp h
  cases granted_pure_eq_ok.mp h
  rw [length_append, List.length_singleton, List.dropLast_concat]
  cases explicitSizes with
  | none =>
    rw [explicitSizeLoop_none] at hloop
    cases hloop
    refine ⟨by rw [List.length_replicate]; omega, rfl, rfl, fun _ root _ hknown => ?_⟩
    exact absurd rfl (hknown none (List.mem_replicate.mpr ⟨by omega, rfl⟩))
  | some values =>
    obtain ⟨hcursor, -, hsizes, hlen, hall, htotal⟩ := explicitSizeLoop_some _ _ _ _ hloop
    refine ⟨by omega, hcursor, hsizes, fun _ root hroot hknown => ?_⟩
    have hallKnown : allKnown = true := by
      rw [hall, Bool.true_and, List.all_eq_true]
      exact fun size hsize => Option.isSome_iff_ne_none.mpr (hknown size hsize)
    obtain ⟨known, hmap, hsum⟩ := sumsTo_of_all hknown
    subst hroot hallKnown
    obtain ⟨remaining, hrest, rfl⟩ := Except.map_eq_ok.mp hlast
    obtain ⟨hle, rfl⟩ := checkedSub_eq_ok.mp hrest
    refine ⟨known ++ [root - total], ?_, ?_⟩
    · rw [List.map_append, ← hmap]
      rfl
    · rw [List.sum_append, List.sum_singleton, hsum]
      omega

/-- The digests a folder without one of its own reads from the digest vector. -/
def writtenCrcs (explicitCrcs : Option (List (Option UInt32))) (cursor count : Nat) :
    List (Option UInt32) :=
  match explicitCrcs with
  | none => List.replicate count none
  | some values => (values.drop cursor).take count

theorem attachCrcs_inherited (crc : UInt32) (explicitCrcs : Option (List (Option UInt32)))
    (sizes : List (Option Nat)) (cursor : Nat) :
    (attachCrcs (some crc) explicitCrcs sizes cursor).granted =
      .ok (sizes.map fun size => ⟨size, some crc⟩, cursor) := by
  induction sizes with
  | nil => rfl
  | cons size sizes ih =>
    simp only [attachCrcs, Prog.granted_bind, checkpoint_granted, Except.ok_bind, ih,
      Prog.granted_pure, map_cons]

theorem attachCrcs_spec (sizes : List (Option Nat)) (cursor : Nat) {streams : List Substream}
    {cursor' : Nat}
    (h : (attachCrcs none explicitCrcs sizes cursor).granted = .ok (streams, cursor')) :
    streams.map Substream.size = sizes ∧
      streams.map Substream.crc = writtenCrcs explicitCrcs cursor sizes.length ∧
      cursor' = advance explicitCrcs cursor sizes.length := by
  induction sizes generalizing cursor streams with
  | nil =>
    cases granted_pure_eq_ok.mp h
    refine ⟨rfl, ?_, ?_⟩
    · cases explicitCrcs <;> rfl
    · rw [advance, List.length_nil, Nat.add_zero, ite_self]
  | cons size sizes ih =>
    obtain ⟨_, h⟩ := granted_rest h
    cases explicitCrcs with
    | none =>
      obtain ⟨⟨rest, _⟩, hrest, h⟩ := granted_bind_eq_ok.mp h
      cases granted_pure_eq_ok.mp h
      obtain ⟨hsizes, hcrcs, hcursor⟩ := ih _ hrest
      refine ⟨by rw [map_cons, hsizes], ?_, hcursor⟩
      rw [map_cons, hcrcs, writtenCrcs, writtenCrcs, length_cons, replicate_succ]
    | some values =>
      obtain ⟨crc, hcrc, h⟩ := granted_bind_eq_ok.mp h
      obtain ⟨next, hnext, h⟩ := granted_bind_eq_ok.mp h
      have hget : values[cursor]? = some crc := okOr_eq_ok.mp hcrc
      obtain ⟨-, rfl⟩ := checkedAdd_eq_ok.mp hnext
      obtain ⟨⟨rest, _⟩, hrest, h⟩ := granted_bind_eq_ok.mp h
      cases granted_pure_eq_ok.mp h
      obtain ⟨hsizes, hcrcs, hcursor⟩ := ih _ hrest
      have hlt : cursor < values.length := (List.getElem?_eq_some_iff.mp hget).1
      refine ⟨by rw [map_cons, hsizes], ?_, ?_⟩
      · rw [map_cons, hcrcs, writtenCrcs, writtenCrcs, length_cons,
          List.drop_eq_getElem_cons hlt, take_succ_cons,
          (List.getElem?_eq_some_iff.mp hget).2]
      · rw [hcursor]
        simp only [advance, Option.isSome_some, if_true, length_cons]
        omega

theorem writtenSizes_append (explicitSizes : Option (List Nat)) (cursor m n : Nat) :
    writtenSizes explicitSizes cursor m ++
        writtenSizes explicitSizes (advance explicitSizes cursor m) n =
      writtenSizes explicitSizes cursor (m + n) := by
  cases explicitSizes with
  | none => exact List.replicate_append_replicate
  | some values =>
    simp only [writtenSizes, advance, Option.isSome_some, if_true]
    rw [← List.map_append, List.take_add, List.drop_drop]

theorem writtenCrcs_append (explicitCrcs : Option (List (Option UInt32))) (cursor m n : Nat) :
    writtenCrcs explicitCrcs cursor m ++
        writtenCrcs explicitCrcs (advance explicitCrcs cursor m) n =
      writtenCrcs explicitCrcs cursor (m + n) := by
  cases explicitCrcs with
  | none => exact List.replicate_append_replicate
  | some values =>
    simp only [writtenCrcs, advance, Option.isSome_some, if_true]
    rw [List.take_add, List.drop_drop]

theorem advance_add {α : Type} (values : Option (List α)) (cursor m n : Nat) :
    advance values (advance values cursor m) n = advance values cursor (m + n) := by
  cases values with
  | none => rfl
  | some values => exact Nat.add_assoc cursor m n

theorem advance_zero {α : Type} (values : Option (List α)) (cursor : Nat) :
    advance values cursor 0 = cursor := by
  rw [advance, Nat.add_zero, ite_self]

namespace Folder

def rootSize (folder : Folder) : Option Nat :=
  (folder.unpackSizes[folder.rootOutputIndex]?).join

def listedSizes (folder : Folder) : List (Option Nat) :=
  (folder.substreams.map Substream.size).dropLast

def lendsCrc (folder : Folder) : Bool :=
  folder.substreams.length == 1 && folder.crc.isSome

/-- The digests of a folder that the digest vector holds. -/
def listedCrcs (folder : Folder) : List (Option UInt32) :=
  if folder.lendsCrc then [] else folder.substreams.map Substream.crc

/-- Sizes and digests of one folder agree with its root output. -/
structure Consistent (folder : Folder) : Prop where
  sizes : folder.substreams ≠ [] → ∀ root, folder.rootSize = some root →
    (∀ size ∈ folder.listedSizes, size ≠ none) →
      SumsTo (folder.substreams.map Substream.size) root
  crc : folder.lendsCrc → folder.substreams.map Substream.crc = [folder.crc]

end Folder

def FolderDraft.RootKept (draft : FolderDraft) : Prop :=
  draft.rootSize = (draft.unpackSizes[draft.rootOutputIndex]?).join

theorem buildSubstreams_spec {draft : FolderDraft} {count : Nat}
    {sizeCursor crcCursor sizeCursor' crcCursor' : Nat} {substreams : List Substream}
    (hroot : draft.RootKept)
    (h : (buildSubstreams draft count explicitSizes sizeCursor explicitCrcs crcCursor).granted =
      .ok (substreams, sizeCursor', crcCursor')) :
    substreams.length = count ∧ (draft.toFolder substreams).Consistent ∧
      (draft.toFolder substreams).listedSizes =
        writtenSizes explicitSizes sizeCursor (count - 1) ∧
      sizeCursor' = advance explicitSizes sizeCursor (count - 1) ∧
      (draft.toFolder substreams).listedCrcs = writtenCrcs explicitCrcs crcCursor
        (draft.toFolder substreams).listedCrcs.length ∧
      crcCursor' = advance explicitCrcs crcCursor
        (draft.toFolder substreams).listedCrcs.length := by
  obtain ⟨_, h⟩ := granted_rest h
  obtain ⟨⟨sizes, _⟩, hsizes, h⟩ := granted_bind_eq_ok.mp h
  obtain ⟨⟨_, _⟩, hcrcs, h⟩ := granted_bind_eq_ok.mp h
  cases granted_pure_eq_ok.mp h
  obtain ⟨hlen, hsizeCursor, hlisted, hsum⟩ := substreamSizes_spec hsizes
  -- The sizes pass through, whichever way the digests go.
  have hmap : substreams.map Substream.size = sizes := by
    cases hcrc : (if count = 1 then draft.crc else none) with
    | some crc =>
      rw [hcrc, attachCrcs_inherited] at hcrcs
      cases hcrcs
      rw [List.map_map]
      exact List.map_id'' (fun _ => rfl) _
    | none =>
      rw [hcrc] at hcrcs
      exact (attachCrcs_spec _ _ hcrcs).1
  have hlength : substreams.length = count := by rw [← hlen, ← hmap, length_map]
  have hconsistent : substreams ≠ [] → ∀ root, (draft.toFolder substreams).rootSize = some root →
      (∀ size ∈ (draft.toFolder substreams).listedSizes, size ≠ none) →
        SumsTo ((draft.toFolder substreams).substreams.map Substream.size) root := by
    intro hne root hrootSize hknown
    have hcount : count ≠ 0 := by
      rw [← hlength]
      exact fun hzero => hne (List.length_eq_zero_iff.mp hzero)
    have hknown' : ∀ size ∈ sizes.dropLast, size ≠ none := by
      rw [← hmap]
      exact hknown
    show SumsTo (substreams.map Substream.size) root
    rw [hmap]
    exact hsum hcount root (hroot.trans hrootSize) hknown'
  have hlistedSizes : (draft.toFolder substreams).listedSizes =
      writtenSizes explicitSizes sizeCursor (count - 1) := by
    show (substreams.map Substream.size).dropLast = _
    rw [hmap, hlisted]
  by_cases hlends : count = 1 ∧ draft.crc.isSome
  · obtain ⟨crc, hcrc⟩ := Option.isSome_iff_exists.mp hlends.2
    rw [if_pos hlends.1, hcrc, attachCrcs_inherited] at hcrcs
    have hlend : (draft.toFolder substreams).lendsCrc = true := by
      show (substreams.length == 1 && draft.crc.isSome) = true
      rw [hlength, hlends.1, hlends.2]
      rfl
    have hnone : (draft.toFolder substreams).listedCrcs = [] := if_pos hlend
    obtain ⟨size, hsize⟩ := List.length_eq_one_iff.mp (hlen.trans hlends.1)
    rw [hsize] at hcrcs
    cases hcrcs
    refine ⟨hlength, ⟨hconsistent, fun _ => ?_⟩, hlistedSizes, hsizeCursor, ?_, ?_⟩
    · show [some crc] = [draft.crc]
      rw [hcrc]
    · rw [hnone]
      cases explicitCrcs <;> rfl
    · rw [hnone, List.length_nil, advance_zero]
  · have hinherited : (if count = 1 then draft.crc else none) = none := by
      by_cases hone : count = 1
      · rw [if_pos hone]
        by_contra hsome
        exact hlends ⟨hone, Option.isSome_iff_ne_none.mpr hsome⟩
      · rw [if_neg hone]
    rw [hinherited] at hcrcs
    obtain ⟨-, hattached, hcursor⟩ := attachCrcs_spec _ _ hcrcs
    have hlend : (draft.toFolder substreams).lendsCrc ≠ true := by
      show ¬(substreams.length == 1 && draft.crc.isSome) = true
      rw [Bool.and_eq_true, beq_iff_eq, hlength]
      exact hlends
    have hcrcsEq : (draft.toFolder substreams).listedCrcs = substreams.map Substream.crc :=
      if_neg hlend
    rw [hlen] at hattached hcursor
    refine ⟨hlength, ⟨hconsistent, fun h => absurd h hlend⟩, hlistedSizes, hsizeCursor, ?_, ?_⟩
    · rw [hcrcsEq, length_map, hlength, hattached]
    · rw [hcrcsEq, length_map, hlength, hcursor]

def folderCounts (counts : List Nat) (index folders : Nat) : List Nat :=
  if counts.isEmpty then List.replicate folders 1 else (counts.drop index).take folders

/-- The induction goes over the drafts.  The cursors move by what the folders
have listed, and the folders list consecutive parts of the vectors. -/
theorem buildFolders_spec {counts : List Nat} (drafts : List FolderDraft) (index : Nat)
    (cursors : SubstreamCursors) {folders : List Folder} {cursors' : SubstreamCursors}
    (hroot : ∀ draft ∈ drafts, draft.RootKept)
    (h : (buildFolders counts explicitSizes explicitCrcs limits drafts index cursors).granted =
      .ok (folders, cursors')) :
    folders.map (fun folder => folder.substreams.length) =
        folderCounts counts index drafts.length ∧
      folders.map Folder.crc = drafts.map FolderDraft.crc ∧
      (∀ folder ∈ folders, folder.Consistent) ∧
      folders.flatMap Folder.listedSizes = writtenSizes explicitSizes cursors.size
        (folders.flatMap Folder.listedSizes).length ∧
      cursors'.size = advance explicitSizes cursors.size
        (folders.flatMap Folder.listedSizes).length ∧
      folders.flatMap Folder.listedCrcs = writtenCrcs explicitCrcs cursors.crc
        (folders.flatMap Folder.listedCrcs).length ∧
      cursors'.crc = advance explicitCrcs cursors.crc
        (folders.flatMap Folder.listedCrcs).length ∧
      cursors'.total = cursors.total +
        (folders.map fun folder => folder.substreams.length).sum := by
  induction drafts generalizing index cursors folders with
  | nil =>
    cases granted_pure_eq_ok.mp h
    refine ⟨?_, rfl, fun _ hmem => absurd hmem List.not_mem_nil, ?_, ?_, ?_, ?_, rfl⟩
    · rw [folderCounts]
      split <;> simp
    · cases explicitSizes <;> rfl
    · exact (advance_zero _ _).symm
    · cases explicitCrcs <;> rfl
    · exact (advance_zero _ _).symm
  | cons draft drafts ih =>
    obtain ⟨count, hcount, h⟩ := granted_bind_eq_ok.mp h
    obtain ⟨total, htotal, h⟩ := granted_bind_eq_ok.mp h
    obtain ⟨_, h⟩ := granted_rest h
    obtain ⟨⟨substreams, _, _⟩, hbuild, h⟩ := granted_bind_eq_ok.mp h
    obtain ⟨⟨rest, _⟩, hrest, h⟩ := granted_bind_eq_ok.mp h
    cases granted_pure_eq_ok.mp h
    obtain ⟨-, rfl⟩ := checkedAdd_eq_ok.mp htotal
    obtain ⟨hlen, hconsistent, hsizes, hsizeCursor, hcrcs, hcrcCursor⟩ :=
      buildSubstreams_spec (hroot draft List.mem_cons_self) hbuild
    obtain ⟨hcounts, hfolderCrcs, hall, hsizes', hsizeCursor', hcrcs', hcrcCursor', htotal'⟩ :=
      ih _ _ (fun d hd => hroot d (List.mem_cons_of_mem _ hd)) hrest
    have hlisted : (draft.toFolder substreams).listedSizes.length = count - 1 := by
      show ((substreams.map Substream.size).dropLast).length = count - 1
      rw [List.length_dropLast, length_map, hlen]
    have hhead : folderCounts counts index (drafts.length + 1) =
        count :: folderCounts counts (index + 1) drafts.length := by
      have hcount : countAt counts index = .ok count := hcount
      unfold folderCounts
      unfold countAt at hcount
      by_cases hempty : counts.isEmpty
      · rw [if_pos hempty] at hcount
        cases hcount
        rw [if_pos hempty, if_pos hempty, replicate_succ]
      · rw [if_neg hempty] at hcount
        have hget : counts[index]? = some count := okOr_eq_ok.mp hcount
        obtain ⟨hlt, hval⟩ := List.getElem?_eq_some_iff.mp hget
        rw [if_neg hempty, if_neg hempty, List.drop_eq_getElem_cons hlt, take_succ_cons,
          hval]
    refine ⟨?_, ?_, ?_, ?_, ?_, ?_, ?_, ?_⟩
    · rw [map_cons, hcounts, length_cons, hhead]
      show substreams.length :: _ = _
      rw [hlen]
    · rw [map_cons, hfolderCrcs, map_cons]
      rfl
    · intro folder hfolder
      rcases List.mem_cons.mp hfolder with rfl | hfolder
      · exact hconsistent
      · exact hall folder hfolder
    · rw [flatMap_cons, length_append, hlisted, ← writtenSizes_append, ← hsizes,
        ← hsizeCursor, ← hsizes']
    · rw [flatMap_cons, length_append, hlisted, ← advance_add, ← hsizeCursor,
        hsizeCursor']
    · rw [flatMap_cons, length_append, ← writtenCrcs_append, ← hcrcs, ← hcrcCursor,
        ← hcrcs']
    · rw [flatMap_cons, length_append, ← advance_add, ← hcrcCursor, hcrcCursor']
    · rw [htotal', map_cons, sum_cons, ← Nat.add_assoc]
      show cursors.total + count + _ = cursors.total + substreams.length + _
      rw [hlen]

/-! ## Streams -/

theorem validateFolder_spec {raw : RawFolder} {folderCrc : Option UInt32} {first : Nat}
    {draft : FolderDraft} (h : (validateFolder raw folderCrc first limits).granted = .ok draft) :
    draft.RootKept ∧ draft.crc = folderCrc := by
  obtain ⟨_, h⟩ := granted_rest h
  obtain ⟨⟨_, _, _, _⟩, -, h⟩ := granted_bind_eq_ok.mp h
  obtain ⟨_, h⟩ := granted_rest h
  obtain ⟨graph, -, h⟩ := granted_bind_eq_ok.mp h
  obtain ⟨_, h⟩ := granted_rest h
  obtain ⟨rootSize, hroot, h⟩ := granted_bind_eq_ok.mp h
  cases granted_pure_eq_ok.mp h
  have hget : (raw.unpackSizes.map optionalSize)[graph.rootOutputIndex]? = some rootSize :=
    okOr_eq_ok.mp hroot
  refine ⟨?_, rfl⟩
  show rootSize = ((raw.unpackSizes.map optionalSize)[graph.rootOutputIndex]?).join
  rw [hget]
  rfl

theorem validateFolders_spec {crcs : Option (List (Option UInt32))} (folders : List RawFolder)
    (index assigned : Nat) {drafts : List FolderDraft} {assigned' : Nat}
    (h : (validateFolders crcs limits folders index assigned).granted =
      .ok (drafts, assigned')) :
    drafts.length = folders.length ∧ (∀ draft ∈ drafts, draft.RootKept) ∧
      drafts.map FolderDraft.crc = writtenCrcs crcs index folders.length := by
  induction folders generalizing index assigned drafts with
  | nil =>
    cases granted_pure_eq_ok.mp h
    refine ⟨rfl, fun _ hmem => absurd hmem List.not_mem_nil, ?_⟩
    cases crcs <;> rfl
  | cons folder folders ih =>
    obtain ⟨crc, hcrc, h⟩ := granted_bind_eq_ok.mp h
    obtain ⟨draft, hdraft, h⟩ := granted_bind_eq_ok.mp h
    obtain ⟨_, h⟩ := granted_rest h
    obtain ⟨⟨rest, _⟩, hrest, h⟩ := granted_bind_eq_ok.mp h
    cases granted_pure_eq_ok.mp h
    obtain ⟨hlen, hall, hcrcs⟩ := ih _ _ hrest
    obtain ⟨hroot, hdraftCrc⟩ := validateFolder_spec hdraft
    refine ⟨by rw [length_cons, hlen, length_cons], ?_, ?_⟩
    · intro d hd
      rcases List.mem_cons.mp hd with rfl | hd
      · exact hroot
      · exact hall d hd
    · rw [map_cons, hdraftCrc, hcrcs, length_cons]
      cases crcs with
      | none =>
        cases hcrc
        exact replicate_succ.symm
      | some values =>
        obtain ⟨value, hvalue, rfl⟩ := Except.map_eq_ok.mp hcrc
        obtain ⟨hlt, hval⟩ := List.getElem?_eq_some_iff.mp (okOr_eq_ok.mp hvalue)
        simp only [writtenCrcs]
        rw [List.drop_eq_getElem_cons hlt, take_succ_cons, hval]
        rfl

/-- The substreams of validated streams spend the vectors of SubStreamsInfo
exactly, folder by folder. -/
structure SubstreamsExact (raw : RawStreamsInfo) (streams : StreamsInfo) : Prop where
  counts : streams.folders.map (fun folder => folder.substreams.length) =
    folderCounts (raw.substreams.elim [] RawSubstreamsInfo.counts) 0 streams.folders.length
  folderCrcs : streams.folders.map Folder.crc =
    (raw.unpack.bind RawUnpackInfo.crcs).getD (List.replicate streams.folders.length none)
  consistent : ∀ folder ∈ streams.folders, folder.Consistent
  sizes : ∀ sizes, raw.substreams.bind RawSubstreamsInfo.explicitSizes = some sizes →
    streams.folders.flatMap Folder.listedSizes = sizes.map optionalSize
  noSizes : raw.substreams.bind RawSubstreamsInfo.explicitSizes = none →
    ∀ size ∈ streams.folders.flatMap Folder.listedSizes, size = none
  crcs : ∀ crcs, raw.substreams.bind RawSubstreamsInfo.crcs = some crcs →
    streams.folders.flatMap Folder.listedCrcs = crcs
  noCrcs : raw.substreams.bind RawSubstreamsInfo.crcs = none →
    ∀ crc ∈ streams.folders.flatMap Folder.listedCrcs, crc = none
  total : streams.substreamCount =
    (streams.folders.map fun folder => folder.substreams.length).sum

theorem validateUnpack_spec {pack : RawPackInfo} {unpack : RawUnpackInfo}
    {substreams : Option RawSubstreamsInfo} {envelope : HeaderEnvelope} {archiveBytes : List UInt8}
    {ranges ranges' : List (Nat × Nat)} {streams : StreamsInfo}
    (h : (validateUnpack pack unpack substreams envelope archiveBytes limits ranges).granted =
      .ok (streams, ranges')) : SubstreamsExact ⟨some pack, some unpack, substreams⟩ streams := by
  obtain ⟨⟨_, _, _⟩, -, h⟩ := granted_bind_eq_ok.mp h
  obtain ⟨_, hcrcCount, h⟩ := granted_bind_eq_ok.mp h
  obtain ⟨_, h⟩ := granted_rest h
  obtain ⟨⟨drafts, _⟩, hdrafts, h⟩ := granted_bind_eq_ok.mp h
  obtain ⟨_, h⟩ := granted_rest h
  obtain ⟨_, h⟩ := granted_rest h
  obtain ⟨⟨folders, cursors⟩, hfolders, h⟩ := granted_bind_eq_ok.mp h
  obtain ⟨_, hsizeUse, h⟩ := granted_bind_eq_ok.mp h
  obtain ⟨_, hcrcUse, h⟩ := granted_bind_eq_ok.mp h
  cases granted_pure_eq_ok.mp h
  have hcrcCount := rejectIf_eq_ok.mp (Prog.granted_lift_eq_ok.mp hcrcCount)
  have hsizeUse := rejectIf_eq_ok.mp (Prog.granted_lift_eq_ok.mp hsizeUse)
  have hcrcUse := rejectIf_eq_ok.mp (Prog.granted_lift_eq_ok.mp hcrcUse)
  obtain ⟨hlen, hroot, hdraftCrcs⟩ := validateFolders_spec _ _ _ hdrafts
  obtain ⟨hcounts, hfolderCrcs, hall, hsizes, hsizeCursor, hcrcs, hcrcCursor, htotal⟩ :=
    buildFolders_spec _ _ _ hroot hfolders
  have hfoldersLen : folders.length = drafts.length := by
    have h := congrArg List.length hfolderCrcs
    rwa [length_map, length_map] at h
  refine ⟨?_, ?_, hall, ?_, ?_, ?_, ?_, ?_⟩
  · simp only [hcounts, hfoldersLen]
  · simp only [hfolderCrcs, hdraftCrcs, Option.bind_some]
    cases hunpack : unpack.crcs with
    | none =>
      rw [Option.getD_none, hfoldersLen, hlen]
      rfl
    | some values =>
      have hvalues : values.length = unpack.folders.length := by
        by_contra hne
        exact hcrcCount ⟨values, hunpack, hne⟩
      rw [Option.getD_some, writtenCrcs, drop_zero, ← hvalues, take_length]
  · intro sizes hsome
    simp only at hsome
    simp only [hsome, advance, Option.isSome_some, if_true, Nat.zero_add] at hsizeCursor
    have hused : cursors.size = sizes.length := by
      by_contra hne
      exact hsizeUse ⟨sizes, hsome, hne⟩
    show folders.flatMap Folder.listedSizes = sizes.map optionalSize
    rw [hsizes, hsome, writtenSizes, drop_zero, ← hsizeCursor, hused, take_length]
  · intro hnone
    simp only at hnone
    show ∀ size ∈ folders.flatMap Folder.listedSizes, size = none
    rw [hsizes, hnone]
    exact fun size hsize => List.eq_of_mem_replicate hsize
  · intro crcs hsome
    simp only at hsome
    simp only [hsome, advance, Option.isSome_some, if_true, Nat.zero_add] at hcrcCursor
    have hused : cursors.crc = crcs.length := by
      by_contra hne
      exact hcrcUse ⟨crcs, hsome, hne⟩
    show folders.flatMap Folder.listedCrcs = crcs
    rw [hcrcs, hsome, writtenCrcs, drop_zero, ← hcrcCursor, hused, take_length]
  · intro hnone
    simp only at hnone
    show ∀ crc ∈ folders.flatMap Folder.listedCrcs, crc = none
    rw [hcrcs, hnone]
    exact fun crc hcrc => List.eq_of_mem_replicate hcrc
  · simp only [htotal, Nat.zero_add]

theorem validateStreams_spec {raw : RawStreamsInfo} {envelope : HeaderEnvelope}
    {archiveBytes : List UInt8} {ranges ranges' : List (Nat × Nat)} {streams : StreamsInfo}
    (h : (validateStreams raw envelope archiveBytes limits ranges).granted =
      .ok (streams, ranges')) : SubstreamsExact raw streams := by
  obtain ⟨pack, unpack, substreams⟩ := raw
  cases pack with
  | none =>
    cases unpack with
    | some unpack => exact nomatch h
    | none =>
      obtain ⟨_, hsub, h⟩ := granted_bind_eq_ok.mp h
      cases granted_pure_eq_ok.mp h
      have hnone : substreams = none := by
        have h := rejectIf_eq_ok.mp (Prog.granted_lift_eq_ok.mp hsub)
        simpa using h
      subst hnone
      constructor <;> simp [folderCounts]
  | some pack =>
    cases unpack with
    | none => exact nomatch h
    | some unpack => exact validateUnpack_spec h

end Unpackio
