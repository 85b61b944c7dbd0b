/-
The output limits on the read paths.

Both paths charge a decoded folder to the total before they use it.  What natural
order extraction has written never exceeds the folders that it has charged, less
what is left of the open one.
-/
import Unpackio.Archive.Resolution
import Mathlib.Algebra.Group.Pi.Basic
import Mathlib.Algebra.Group.Prod

namespace Unpackio

open Prog.CanReturn (bind_iff lift_iff pure_iff)
open Prog (Measure Spends)

theorem folderDecodeMaximum_le {folder : Folder} {limits : Limits} {remaining maximum : Nat}
    (h : (folderDecodeMaximum folder limits remaining).CanReturn maximum) :
    maximum ≤ remaining := by
  obtain ⟨_, -, h⟩ := bind_iff.mp h
  obtain ⟨_, -, h⟩ := bind_iff.mp h
  split at h
  · exact (pure_iff.mp h).ge
  · obtain ⟨_, -, h⟩ := bind_iff.mp h
    obtain ⟨_, -, h⟩ := bind_iff.mp h
    rw [← pure_iff.mp h]
    exact Nat.min_le_right _ _

namespace Accounted

section Verify

variable {decodeFolder : FolderDecoder} (hdecode : decodeFolder.Bounded) (archive : Archive)

include hdecode

section

variable (streams : StreamsInfo) (folderIndex : Nat) (folder : Folder)

theorem decodeMemberFolder_accounts (remaining : Nat) :
    Decodes archive.limits (decodeMemberFolder decodeFolder archive streams folderIndex folder
      remaining) 0 remaining fun decoded total => decoded.bytes.length = total := by
  refine .noting_bind (Nat.zero_le _) fun maximum hmaximum => ?_
  have hroom : 0 + maximum ≤ remaining := (Nat.zero_add _).trans_le
    (folderDecodeMaximum_le hmaximum)
  exact .behind (.mapError _ (decoding_accounts hdecode _ _ _ _)) hroom
    fun _ _ h => h.trans (Nat.zero_add _).symm

theorem decodeWithinTotal_accounts (total : Nat)
    (htotal : total ≤ archive.limits.maxTotalOutputBytes) :
    Decodes archive.limits (decodeWithinTotal decodeFolder archive streams folderIndex folder
      total) total archive.limits.maxTotalOutputBytes fun outcome next => outcome.2 = next := by
  refine .lift_bind htotal fun remaining hremaining => ?_
  obtain ⟨-, rfl⟩ := checkedSub_eq_ok.mp hremaining
  refine .bind (P := fun decoded next => total + decoded.bytes.length = next)
    (.behind (decodeMemberFolder_accounts hdecode archive _ _ _ _) (by omega)
      fun _ _ h => congrArg (total + ·) h) fun decoded next hnext hlength => ?_
  refine .lift_bind hnext fun sum hsum => .lift_bind hnext fun _ _ => ?_
  obtain ⟨-, rfl⟩ := checkedAdd_eq_ok.mp hsum
  exact .pure hnext hlength

end

theorem verifyFolders_accounts (streams : StreamsInfo) (folders : List Folder)
    (folderIndex total : Nat) (entries : List (FileEntry × Nat))
    (htotal : total ≤ archive.limits.maxTotalOutputBytes) :
    Decodes archive.limits (verifyFolders decodeFolder archive streams folders folderIndex total
      entries) total archive.limits.maxTotalOutputBytes fun _ _ => True := by
  induction folders generalizing folderIndex total entries with
  | nil => exact Spends.lift ⟨rfl, htotal, fun _ _ => trivial⟩
  | cons folder folders ih =>
    refine .noting_bind htotal fun _ _ => .bind (decodeWithinTotal_accounts hdecode archive _ _ _ _
      htotal) fun outcome next hle hnext => .noting_bind hle fun entries _ => ?_
    subst hnext
    exact ih _ _ _ hle

theorem verifyAdditional_accounts :
    Decodes archive.limits (verifyAdditional decodeFolder archive) 0
      archive.limits.maxTotalOutputBytes fun output total => output = total := by
  unfold verifyAdditional
  split
  · exact .bind (processAdditionalFolders_accounts hdecode _ _ _ _ 0 0 (Nat.zero_le _))
      fun _ _ htotal houtcome => .pure htotal houtcome
  · exact .pure (Nat.zero_le _) rfl

theorem verify_accounts :
    Decodes archive.limits (verify decodeFolder archive) 0 archive.limits.maxTotalOutputBytes
      fun _ _ => True := by
  refine .bind (verifyAdditional_accounts hdecode archive) fun output total htotal houtput => ?_
  subst houtput
  split
  · exact .pure htotal trivial
  · exact verifyFolders_accounts hdecode archive _ _ 0 _ _ htotal

end Verify

end Accounted

/-! ## Natural-order extraction -/

namespace Archive

def writtenBy (memberIndex : Nat) : SinkRequest → Nat
  | .writeEntry index bytes => if index = memberIndex then bytes.length else 0
  | _ => 0

def writtenTo (memberIndex : Nat) (requests : List SinkRequest) : Nat :=
  (requests.map (writtenBy memberIndex)).sum

def written (requests : List SinkRequest) : Nat :=
  (requests.map fun
    | .writeEntry _ bytes => bytes.length
    | _ => 0).sum

def writes : Measure SinkRequest (Nat × (Nat → Nat)) where
  holds requests amount := written requests = amount.1 ∧
    (fun index => writtenTo index requests) = amount.2
  nil := ⟨rfl, rfl⟩
  append {front rest a b} hfront hrest := by
    refine ⟨?_, funext fun index => ?_⟩
    · rw [written, List.map_append, List.sum_append]
      exact congrArg₂ _ hfront.1 hrest.1
    · rw [writtenTo, List.map_append, List.sum_append]
      exact congrArg₂ _ (congrFun hfront.2 index) (congrFun hrest.2 index)

theorem writes_quiet {request : SinkRequest}
    (h : ∀ index bytes, request ≠ .writeEntry index bytes) :
    writes.holds [request] 0 := by
  cases request with
  | writeEntry index bytes => exact absurd rfl (h index bytes)
  | work units => exact ⟨rfl, rfl⟩
  | beginEntry index entry size => exact ⟨rfl, rfl⟩
  | finishEntry index => exact ⟨rfl, rfl⟩

def toMember (memberIndex bytes : Nat) : Nat × (Nat → Nat) :=
  (bytes, fun index => if index = memberIndex then bytes else 0)

theorem toMember_zero (memberIndex : Nat) : toMember memberIndex 0 = 0 := by
  refine Prod.ext rfl (funext fun index => ?_)
  show (if index = memberIndex then 0 else 0) = 0
  rw [ite_self]

theorem toMember_add (memberIndex a b : Nat) :
    toMember memberIndex (a + b) = toMember memberIndex a + toMember memberIndex b := by
  refine Prod.ext rfl (funext fun index => ?_)
  show (if index = memberIndex then a + b else 0) =
    (if index = memberIndex then a else 0) + if index = memberIndex then b else 0
  split <;> rfl

theorem writes_writeEntry (memberIndex : Nat) (bytes : List UInt8) :
    writes.holds [.writeEntry memberIndex bytes] (toMember memberIndex bytes.length) := by
  refine ⟨by simp [written, toMember], funext fun index => ?_⟩
  simp [writtenTo, writtenBy, toMember, eq_comm]

theorem working_spends {α : Type} (p : Metered α) :
    Spends writes (working p) fun amount result =>
      amount = 0 ∧ ∀ a, result = .ok a → p.CanReturn a :=
  Spends.mapRequest (fun _ => writes_quiet (fun _ _ => SinkRequest.noConfusion)) p

theorem writeChunks_spends (memberIndex : Nat) (pieces : List (List UInt8)) (crc : Crc32) :
    Spends writes (writeChunks memberIndex pieces crc) fun amount result =>
      ∃ bytes ≤ pieces.flatten.length, amount = toMember memberIndex bytes ∧
        ∀ crc, result = .ok crc → bytes = pieces.flatten.length := by
  induction pieces generalizing crc with
  | nil => exact .pure ⟨0, Nat.le_refl _, (toMember_zero _).symm, fun _ _ => rfl⟩
  | cons piece pieces ih =>
    have hzero : ∀ e : Error, ∃ bytes ≤ (piece :: pieces).flatten.length,
        (0 : Nat × (Nat → Nat)) = toMember memberIndex bytes ∧
          ∀ crc : Crc32, (Except.error e : Except Error Crc32) = .ok crc →
            bytes = (piece :: pieces).flatten.length :=
      fun e => ⟨0, Nat.zero_le _, (toMember_zero _).symm, fun _ h => (nomatch h)⟩
    have hlength : (piece :: pieces).flatten.length = piece.length + pieces.flatten.length := by
      rw [List.flatten_cons, List.length_append]
    refine .quiet_bind (working_spends _) (fun _ _ => ?_) hzero
    refine .request_bind (writes_writeEntry memberIndex piece) ((ih _).mono ?_) fun e =>
      ⟨piece.length, by omega, rfl, fun _ h => (nomatch h)⟩
    rintro _ result ⟨bytes, hle, rfl, hall⟩
    refine ⟨piece.length + bytes, by omega, (toMember_add _ _ _).symm, fun crc h => ?_⟩
    rw [hall crc h, hlength]

theorem deliver_spends (memberIndex : Nat) (member : FileEntry) (mapping : FileStream)
    (encrypted : Bool) (bytes : List UInt8) (memberSize : Nat) :
    Spends writes (deliver memberIndex member mapping encrypted bytes memberSize)
      fun amount _ => ∃ count ≤ bytes.length, amount = toMember memberIndex count := by
  have hzero : ∃ count ≤ bytes.length, (0 : Nat × (Nat → Nat)) = toMember memberIndex count :=
    ⟨0, Nat.zero_le _, (toMember_zero _).symm⟩
  refine .request_bind (writes_quiet fun _ _ h => (by cases h)) ?_ fun _ => hzero
  simp only [zero_add]
  refine .bind (writeChunks_spends memberIndex _ _) ?_ ?_
  · rintro crc _ ⟨count, hle, rfl, -⟩
    rw [flatten_chunks (by decide)] at hle
    refine .lift_bind (fun _ _ => .request (writes_quiet fun _ _ h => (by cases h)) fun _ => ?_)
      fun _ => ?_
    · exact ⟨count, hle, add_zero _⟩
    · exact ⟨count, hle, add_zero _⟩
  · rintro e _ ⟨count, hle, rfl, -⟩
    rw [flatten_chunks (by decide)] at hle
    exact ⟨count, hle, rfl⟩

/-- The bytes of the open folder that are left. -/
def ExtractState.room (state : ExtractState) : Nat :=
  state.current.elim 0 fun current => current.decoded.bytes.length - current.offset

/-- What is written and what is left of the open folder is charged to the total,
which keeps its limit. -/
structure Charged (archive : Archive) (state : ExtractState) (writtenSoFar : Nat) : Prop where
  covered : writtenSoFar + state.room ≤ state.totalOutput
  total : state.totalOutput ≤ archive.limits.maxTotalOutputBytes

variable {codecs : Codecs} {archive : Archive} {streams : StreamsInfo} {state : ExtractState}
  {writtenSoFar : Nat}

theorem enterFolder_charged {folderIndex : Nat} {entered : OpenFolder × Nat}
    (h : (archive.enterFolder codecs streams folderIndex state).CanReturn entered) :
    entered.2 = state.totalOutput + entered.1.decoded.bytes.length ∧
      entered.2 ≤ archive.limits.maxTotalOutputBytes := by
  simp only [enterFolder, decodeWithinTotal, bind_iff, lift_iff] at h
  obtain ⟨_, -, _, -, ⟨decoded, _⟩, ⟨_, -, _, -, total, hadd, _, hlimit, hpair⟩, _, -, h⟩ := h
  cases pure_iff.mp hpair
  cases pure_iff.mp h
  obtain ⟨-, rfl⟩ := checkedAdd_eq_ok.mp hadd
  exact ⟨rfl, checkLimit_eq_ok.mp hlimit⟩

theorem folderFor_charged {folderIndex : Nat} {entered : OpenFolder × Nat}
    (hstate : archive.Charged state writtenSoFar)
    (h : (archive.folderFor codecs streams folderIndex state).CanReturn entered) :
    writtenSoFar + (entered.1.decoded.bytes.length - entered.1.offset) ≤ entered.2 ∧
      entered.2 ≤ archive.limits.maxTotalOutputBytes := by
  have hcovered := hstate.covered
  have henter : (archive.enterFolder codecs streams folderIndex state).CanReturn entered →
      writtenSoFar + (entered.1.decoded.bytes.length - entered.1.offset) ≤ entered.2 ∧
        entered.2 ≤ archive.limits.maxTotalOutputBytes := by
    intro h
    obtain ⟨htotal, hlimit⟩ := enterFolder_charged h
    exact ⟨by omega, hlimit⟩
  unfold folderFor at h
  cases hcurrent : state.current with
  | none =>
    rw [hcurrent] at h
    exact henter h
  | some current =>
    rw [hcurrent] at h
    by_cases hindex : current.index = folderIndex
    · simp only [if_pos hindex] at h
      cases pure_iff.mp h
      rw [ExtractState.room, hcurrent, Option.elim_some] at hcovered
      exact ⟨hcovered, hstate.total⟩
    · simp only [if_neg hindex] at h
      exact henter h

theorem nextRange_bounds {current : OpenFolder} {mapping : FileStream} {bytes : List UInt8}
    {size finish : Nat}
    (h : archive.nextRange streams current mapping = .ok (bytes, size, finish)) :
    bytes.length ≤ archive.limits.maxEntryOutputBytes ∧
      current.offset + bytes.length = finish ∧ finish ≤ current.decoded.bytes.length := by
  simp only [nextRange, Except.bind_eq_ok, rejectIf_eq_ok, okOr_eq_ok, checkedSub_eq_some,
    getRange_eq_some, checkLimit_eq_ok] at h
  obtain ⟨_, -, _, -, _, -, finish', -, _, -, _, ⟨hle, rfl⟩, _, hlimit, _, ⟨-, hend, rfl⟩, h⟩ := h
  cases h
  rw [List.length_drop, List.length_take, Nat.min_eq_left hend]
  exact ⟨hlimit, by omega, hend⟩

theorem extractMember_spends (memberIndex : Nat) (member : FileEntry)
    (hstate : archive.Charged state writtenSoFar) :
    Spends writes (archive.extractMember codecs memberIndex member state) fun amount result =>
      ∃ count ≤ archive.limits.maxEntryOutputBytes, amount = toMember memberIndex count ∧
        writtenSoFar + count ≤ archive.limits.maxTotalOutputBytes ∧
        ∀ next, result = .ok next → archive.Charged next (writtenSoFar + count) := by
  have hsofar : writtenSoFar + 0 ≤ archive.limits.maxTotalOutputBytes :=
    (Nat.le_add_right _ _).trans (hstate.covered.trans hstate.total)
  have hzero : ∀ e : Error, ∃ count ≤ archive.limits.maxEntryOutputBytes,
      (0 : Nat × (Nat → Nat)) = toMember memberIndex count ∧
        writtenSoFar + count ≤ archive.limits.maxTotalOutputBytes ∧
        ∀ next, (Except.error e : Except Error ExtractState) = .ok next →
          archive.Charged next (writtenSoFar + count) :=
    fun e => ⟨0, Nat.zero_le _, (toMember_zero _).symm, hsofar, fun _ h => (nomatch h)⟩
  refine .quiet_bind (working_spends _) (fun _ _ => ?_) hzero
  split
  · rename_i mapping _
    refine .lift_bind (fun streams _ => ?_) hzero
    refine .quiet_bind (working_spends _) (fun entered hentered => ?_) hzero
    obtain ⟨hcharged, hlimit⟩ := folderFor_charged hstate hentered
    refine .lift_bind (fun range hrange => ?_) hzero
    obtain ⟨bytes, size, finish⟩ := range
    obtain ⟨hentry, hfinish, hend⟩ := nextRange_bounds hrange
    refine .bind (deliver_spends memberIndex member mapping _ bytes size) ?_ ?_
    · rintro _ _ ⟨count, hcount, rfl⟩
      have hstop : ∀ e : Error, ∃ count' ≤ archive.limits.maxEntryOutputBytes,
          toMember memberIndex count + 0 = toMember memberIndex count' ∧
            writtenSoFar + count' ≤ archive.limits.maxTotalOutputBytes ∧
            ∀ next, (Except.error e : Except Error ExtractState) = .ok next →
              archive.Charged next (writtenSoFar + count') :=
        fun e => ⟨count, by omega, add_zero _, by omega, fun _ h => (nomatch h)⟩
      refine .lift_bind (fun _ _ => .lift_bind (fun _ _ => .pure ?_) hstop) hstop
      refine ⟨count, by omega, add_zero _, by omega, ?_⟩
      rintro _ ⟨⟩
      refine ⟨?_, hlimit⟩
      show writtenSoFar + count + (entered.1.decoded.bytes.length - finish) ≤ entered.2
      omega
    · rintro e _ ⟨count, hcount, rfl⟩
      exact ⟨count, by omega, rfl, by omega, fun _ h => (nomatch h)⟩
  · split
    · refine .request_bind (writes_quiet fun _ _ h => (nomatch h)) ?_ hzero
      simp only [zero_add]
      refine .request_bind (writes_quiet fun _ _ h => (nomatch h)) ?_ hzero
      simp only [zero_add]
      refine .pure ⟨0, Nat.zero_le _, (toMember_zero _).symm, hsofar, ?_⟩
      rintro _ ⟨⟩
      exact hstate
    · refine .pure ⟨0, Nat.zero_le _, (toMember_zero _).symm, hsofar, ?_⟩
      rintro _ ⟨⟩
      exact hstate

/-- The induction goes over the members, whose indices differ: each adds to the
total and to its own count. -/
theorem extractMembers_spends (members : List (FileEntry × Nat))
    (hnodup : (members.map Prod.snd).Nodup) (hstate : archive.Charged state writtenSoFar) :
    Spends writes (archive.extractMembers codecs members state) fun amount _ =>
      writtenSoFar + amount.1 ≤ archive.limits.maxTotalOutputBytes ∧
        ∀ index, amount.2 index ≤ archive.limits.maxEntryOutputBytes ∧
          (index ∉ members.map Prod.snd → amount.2 index = 0) := by
  induction members generalizing state writtenSoFar with
  | nil =>
    exact .pure ⟨(Nat.le_add_right _ _).trans (hstate.covered.trans hstate.total),
      fun index => ⟨Nat.zero_le _, fun _ => rfl⟩⟩
  | cons entry members ih =>
    obtain ⟨member, memberIndex⟩ := entry
    rw [List.map_cons, List.nodup_cons] at hnodup
    refine .bind (extractMember_spends memberIndex member hstate) ?_ ?_
    · rintro next _ ⟨count, hcount, rfl, htotal, hnext⟩
      refine (ih hnodup.2 (hnext next rfl)).mono ?_
      rintro amount result ⟨hwritten, heach⟩
      refine ⟨by show writtenSoFar + (count + amount.1) ≤ _; omega, fun index => ?_⟩
      show (if index = memberIndex then count else 0) + amount.2 index ≤ _ ∧
        (_ → (if index = memberIndex then count else 0) + amount.2 index = 0)
      obtain ⟨hle, hother⟩ := heach index
      by_cases hindex : index = memberIndex
      · subst hindex
        rw [if_pos rfl, hother hnodup.1]
        exact ⟨hcount, fun h => absurd List.mem_cons_self h⟩
      · rw [if_neg hindex, Nat.zero_add]
        exact ⟨hle, fun h => hother fun hmem => h (List.mem_cons_of_mem _ hmem)⟩
    · rintro e _ ⟨count, hcount, rfl, htotal, -⟩
      refine ⟨htotal, fun index => ?_⟩
      show (if index = memberIndex then count else 0) ≤ _ ∧
        (_ → (if index = memberIndex then count else 0) = 0)
      by_cases hindex : index = memberIndex
      · subst hindex
        rw [if_pos rfl]
        exact ⟨hcount, fun h => absurd List.mem_cons_self h⟩
      · rw [if_neg hindex]
        exact ⟨Nat.zero_le _, fun _ => rfl⟩

theorem extractEntriesTo_spends :
    Spends writes (archive.extractEntriesTo codecs) fun amount _ =>
      amount.1 ≤ archive.limits.maxTotalOutputBytes ∧
        ∀ index, amount.2 index ≤ archive.limits.maxEntryOutputBytes := by
  have hnodup : (archive.entries.zipIdx.map Prod.snd).Nodup := by
    rw [List.zipIdx_map_snd]
    exact List.nodup_range'
  have hinitial : archive.Charged { current := none, totalOutput := 0, delivered := 0 } 0 :=
    ⟨Nat.le_refl _, Nat.zero_le _⟩
  refine .bind (extractMembers_spends archive.entries.zipIdx hnodup hinitial) ?_ ?_
  · rintro state amount ⟨htotal, heach⟩
    rw [Nat.zero_add] at htotal
    have hamount : amount.1 ≤ archive.limits.maxTotalOutputBytes ∧
        ∀ index, amount.2 index ≤ archive.limits.maxEntryOutputBytes :=
      ⟨htotal, fun index => (heach index).1⟩
    refine .lift_bind (fun _ _ => .pure ?_) fun _ => ?_
    · rwa [add_zero]
    · rwa [add_zero]
  · rintro e amount ⟨htotal, heach⟩
    rw [Nat.zero_add] at htotal
    exact ⟨htotal, fun index => (heach index).1⟩

/-- Whatever the sink, the budget and the cancellation answer, and however the
call ends: natural-order extraction writes no more than the output limits,
verification decodes no more than the total one, and a folder decodes to no more
than its maximum. -/
theorem outputLimits (codecs : Codecs) (archive : Archive) :
    (∀ trace result, Prog.Runs (archive.extractEntriesTo codecs) trace result →
      written (trace.map Prod.fst) ≤ archive.limits.maxTotalOutputBytes ∧
        ∀ memberIndex, writtenTo memberIndex (trace.map Prod.fst) ≤
          archive.limits.maxEntryOutputBytes) ∧
    (∀ trace result, Prog.Runs (Accounted.verify (decodeFolder (decodeCoder codecs)) archive)
      trace result → Accounted.decodedBytes (trace.map Prod.fst) ≤
        archive.limits.maxTotalOutputBytes) ∧
    ∀ (decodeCoder : CoderDecoder), decodeCoder.Bounded →
      ∀ archiveBytes streams folderIndex limits maximum decoded,
        (decodeFolder decodeCoder archiveBytes streams folderIndex limits maximum).CanReturn
          decoded → decoded.bytes.length ≤ maximum := by
  refine ⟨fun trace result hruns => ?_, fun trace result hruns => ?_,
    fun _ hbounded _ _ _ _ _ _ h => decodeFolder_length hbounded h⟩
  · obtain ⟨amount, ⟨hwritten, hwrittenTo⟩, htotal, heach⟩ :=
      extractEntriesTo_spends trace result hruns
    refine ⟨hwritten.trans_le htotal, fun memberIndex => ?_⟩
    exact (congrFun hwrittenTo memberIndex).trans_le (heach memberIndex)
  · obtain ⟨counts, htallies, -, hdecoded, -⟩ := Accounted.verify_accounts
      (decodeFolder_bounded (decodeCoder_bounded codecs)) archive trace result hruns
    exact htallies.decoded.trans_le ((Nat.zero_add _).ge.trans hdecoded)

end Archive

end Unpackio
