/-
The bounds of the header resolution.

`Accounts` is a postcondition over the expansions and the decoded bytes that a
run notes.  Its rules follow the program, and the loop keeps both of its counters
within their limits.
-/
import Unpackio.Archive.Accounted
import Unpackio.Execute.Maximum

namespace Unpackio

open Prog (noting Noted Measure Spends)

/-- Whatever its environment answers, a folder decodes to at most its maximum. -/
def FolderDecoder.Bounded (decodeFolder : FolderDecoder) : Prop :=
  ∀ archiveBytes streams folderIndex limits maximum decoded,
    (decodeFolder archiveBytes streams folderIndex limits maximum).CanReturn decoded →
      decoded.bytes.length ≤ maximum

theorem decodeFolder_bounded {decodeCoder : CoderDecoder} (h : decodeCoder.Bounded) :
    FolderDecoder.Bounded (decodeFolder decodeCoder) :=
  fun _ _ _ _ _ _ hdecoded => decodeFolder_length h hdecoded

namespace Accounted

/-! ## What a run notes -/

def decodedBy : Noted Nat DecodeNote → Nat
  | .note (.decoded bytes) => bytes
  | _ => 0

def decodedBytes (requests : List (Noted Nat DecodeNote)) : Nat := (requests.map decodedBy).sum

def expansions (requests : List (Noted Nat DecodeNote)) : Nat :=
  requests.count (.note .expanding)

/-- The counts of some requests, which parse no header beyond the limit. -/
structure Tallies (limits : Limits) (requests : List (Noted Nat DecodeNote))
    (expanded decoded : Nat) : Prop where
  expansions : expansions requests = expanded
  decoded : decodedBytes requests = decoded
  parsed : ∀ bytes, .note (.parsing bytes) ∈ requests → bytes ≤ limits.maxHeaderBytes

theorem tallies_nil (limits : Limits) : Tallies limits [] 0 0 :=
  ⟨rfl, rfl, fun _ h => absurd h List.not_mem_nil⟩

theorem Tallies.append {limits : Limits} {front rest : List (Noted Nat DecodeNote)}
    {expanded decoded expanded' decoded' : Nat} (hfront : Tallies limits front expanded decoded)
    (hrest : Tallies limits rest expanded' decoded') :
    Tallies limits (front ++ rest) (expanded + expanded') (decoded + decoded') where
  expansions := by
    rw [Accounted.expansions, List.count_append]
    exact congrArg₂ _ hfront.expansions hrest.expansions
  decoded := by
    rw [decodedBytes, List.map_append, List.sum_append]
    exact congrArg₂ _ hfront.decoded hrest.decoded
  parsed bytes h := by
    rcases List.mem_append.mp h with h | h
    · exact hfront.parsed bytes h
    · exact hrest.parsed bytes h

def tally (limits : Limits) : Measure (Noted Nat DecodeNote) (Nat × Nat) where
  holds requests counts := Tallies limits requests counts.1 counts.2
  nil := tallies_nil limits
  append := Tallies.append

theorem tallies_request (limits : Limits) (units : Nat) :
    (tally limits).holds [.request units] 0 := ⟨rfl, rfl, fun _ h => by simp at h⟩

/-- Every run notes some expansions and decoded bytes that stand in `K` to its
result, and no header beyond the limit. -/
def Accounts {α : Type} (limits : Limits) (p : Accounted α)
    (K : Nat → Nat → Except Error α → Prop) : Prop :=
  Spends (tally limits) p fun counts result => K counts.1 counts.2 result

namespace Accounts

variable {α β : Type} {limits : Limits}

theorem mono {p : Accounted α} {J K : Nat → Nat → Except Error α → Prop}
    (hp : Accounts limits p J) (h : ∀ expanded decoded result, J expanded decoded result →
      K expanded decoded result) : Accounts limits p K :=
  Spends.mono hp fun _ _ hJ => h _ _ _ hJ

theorem pure {a : α} {K : Nat → Nat → Except Error α → Prop} (h : K 0 0 (.ok a)) :
    Accounts limits (Pure.pure a) K := Spends.pure h

theorem throw {error : Error} {K : Nat → Nat → Except Error α → Prop} (h : K 0 0 (.error error)) :
    Accounts limits (MonadExcept.throw error) K := Spends.throw h

theorem bind {p : Accounted α} {f : α → Accounted β} {J : Nat → Nat → Except Error α → Prop}
    {K : Nat → Nat → Except Error β → Prop} (hp : Accounts limits p J)
    (hok : ∀ a expanded decoded, J expanded decoded (.ok a) →
      Accounts limits (f a) fun expanded' decoded' result =>
        K (expanded + expanded') (decoded + decoded') result)
    (herror : ∀ error expanded decoded, J expanded decoded (.error error) →
      K expanded decoded (.error error)) : Accounts limits (p >>= f) K :=
  Spends.bind hp (fun a counts hJ => hok a counts.1 counts.2 hJ)
    fun error counts hJ => herror error counts.1 counts.2 hJ

theorem noting (p : Metered α) : Accounts limits (Prog.noting p) fun expanded decoded result =>
    (expanded = 0 ∧ decoded = 0) ∧ ∀ a, result = .ok a → p.CanReturn a :=
  Spends.mono (Spends.mapRequest (tallies_request limits) p) fun _ _ h =>
    ⟨⟨congrArg Prod.fst h.1, congrArg Prod.snd h.1⟩, h.2⟩

theorem noting_bind {p : Metered α} {f : α → Accounted β} {K : Nat → Nat → Except Error β → Prop}
    (hok : ∀ a, p.CanReturn a → Accounts limits (f a) K) (herror : ∀ error, K 0 0 (.error error)) :
    Accounts limits (Prog.noting p >>= f) K :=
  Spends.quiet_bind (Spends.mapRequest (tallies_request limits) p) hok herror

theorem lift_bind {r : Except Error α} {f : α → Accounted β}
    {K : Nat → Nat → Except Error β → Prop} (hok : ∀ a, r = .ok a → Accounts limits (f a) K)
    (herror : ∀ error, K 0 0 (.error error)) : Accounts limits (liftM r >>= f) K :=
  Spends.lift_bind hok herror

theorem note_bind {n : DecodeNote} {f : Unit → Accounted β} {K : Nat → Nat → Except Error β → Prop}
    {expanded decoded : Nat} (hn : Tallies limits [.note n] expanded decoded)
    (hok : Accounts limits (f ()) fun expanded' decoded' result =>
      K (expanded + expanded') (decoded + decoded') result)
    (herror : ∀ error, K expanded decoded (.error error)) :
    Accounts limits (Prog.note n >>= f) K :=
  @Spends.request_bind _ _ _ _ _ (tally limits) _ (expanded, decoded) f _ hn hok herror

theorem map {p : Accounted α} {f : α → β} {J : Nat → Nat → Except Error α → Prop}
    {K : Nat → Nat → Except Error β → Prop} (hp : Accounts limits p J)
    (h : ∀ expanded decoded result, J expanded decoded result →
      K expanded decoded (f <$> result)) : Accounts limits (f <$> p) K :=
  Spends.map hp fun _ _ hJ => h _ _ _ hJ

theorem mapError {p : Accounted α} {g : Error → Error} {K : Nat → Nat → Except Error α → Prop}
    (hp : Accounts limits p K)
    (herror : ∀ expanded decoded error, K expanded decoded (.error error) →
      K expanded decoded (.error (g error))) : Accounts limits (p.mapError g) K :=
  Spends.mapError hp fun _ _ hK => herror _ _ _ hK

end Accounts

theorem tallies_expanding (limits : Limits) : Tallies limits [.note .expanding] 1 0 :=
  ⟨rfl, rfl, fun _ h => by simp at h⟩

theorem tallies_decoded (limits : Limits) (bytes : Nat) :
    Tallies limits [.note (.decoded bytes)] 0 bytes :=
  ⟨rfl, rfl, fun _ h => by simp at h⟩

theorem tallies_parsing {limits : Limits} {bytes : Nat} (h : bytes ≤ limits.maxHeaderBytes) :
    Tallies limits [.note (.parsing bytes)] 0 0 := by
  refine ⟨rfl, rfl, fun other hother => ?_⟩
  cases List.mem_singleton.mp hother
  exact h

/-- A part that expands no header.  It decodes from `start` bytes on up to a
maximum, and `P` holds of its value and the bytes up to there. -/
def Decodes {α : Type} (limits : Limits) (p : Accounted α) (start maximum : Nat)
    (P : α → Nat → Prop) : Prop :=
  Accounts limits p fun expanded decoded result => expanded = 0 ∧ start + decoded ≤ maximum ∧
    ∀ a, result = .ok a → P a (start + decoded)

namespace Decodes

variable {α β : Type} {limits : Limits} {start maximum : Nat} {P : α → Nat → Prop}
  {Q : β → Nat → Prop}

section

variable (hle : start ≤ maximum)
include hle

theorem pure {a : α} (h : P a start) : Decodes limits (Pure.pure a) start maximum P := by
  refine Accounts.pure ⟨rfl, hle, ?_⟩
  rintro _ ⟨⟩
  exact h

theorem throw {error : Error} : Decodes limits (MonadExcept.throw error) start maximum P :=
  Accounts.throw ⟨rfl, hle, fun _ h => (nomatch h)⟩

theorem lift_bind {r : Except Error α} {f : α → Accounted β}
    (hf : ∀ a, r = .ok a → Decodes limits (f a) start maximum Q) :
    Decodes limits (liftM r >>= f) start maximum Q :=
  Accounts.lift_bind hf fun _ => ⟨rfl, hle, fun _ h => (nomatch h)⟩

theorem noting_bind {p : Metered α} {f : α → Accounted β}
    (hf : ∀ a, p.CanReturn a → Decodes limits (f a) start maximum Q) :
    Decodes limits (Prog.noting p >>= f) start maximum Q :=
  Accounts.noting_bind hf fun _ => ⟨rfl, hle, fun _ h => (nomatch h)⟩

end

theorem noting (p : Metered α) (hle : start ≤ maximum) :
    Decodes limits (Prog.noting p) start maximum fun _ total => total = start :=
  (Accounts.noting p).mono fun _ _ _ h => by
    rw [h.1.1, h.1.2]
    exact ⟨rfl, hle, fun _ _ => rfl⟩

theorem bind {p : Accounted α} {f : α → Accounted β} (hp : Decodes limits p start maximum P)
    (hf : ∀ a total, total ≤ maximum → P a total →
      Decodes limits (f a) total maximum Q) :
    Decodes limits (p >>= f) start maximum Q := by
  refine Accounts.bind hp ?_ ?_
  · rintro a _ decoded ⟨rfl, hdecoded, hpost⟩
    refine (hf a _ hdecoded (hpost a rfl)).mono ?_
    rintro _ more result ⟨rfl, hmore, hlast⟩
    rw [Nat.add_assoc] at hmore hlast
    exact ⟨rfl, hmore, hlast⟩
  · rintro error _ decoded ⟨rfl, hdecoded, -⟩
    exact ⟨rfl, hdecoded, fun _ h => (nomatch h)⟩

theorem mapError {p : Accounted α} (g : Error → Error)
    (hp : Decodes limits p start maximum P) :
    Decodes limits (p.mapError g) start maximum P :=
  Accounts.mapError hp fun _ _ _ h => ⟨h.1, h.2.1, fun _ hok => (nomatch hok)⟩

theorem behind {p : Accounted α} {before room : Nat} {Q : α → Nat → Prop}
    (hp : Decodes limits p 0 room P) (hroom : before + room ≤ maximum)
    (h : ∀ a total, P a total → Q a (before + total)) :
    Decodes limits p before maximum Q := by
  refine Accounts.mono hp ?_
  rintro _ decoded result ⟨rfl, hdecoded, hpost⟩
  rw [Nat.zero_add] at hdecoded hpost
  exact ⟨rfl, by omega, fun a ha => h a _ (hpost a ha)⟩

end Decodes

section Resolve

variable {decodeFolder : FolderDecoder} (hdecode : decodeFolder.Bounded) {limits : Limits}

include hdecode

section

variable (archiveBytes : List UInt8) (streams : StreamsInfo)

theorem decoding_accounts (folderIndex : Nat) (maximum : Nat) :
    Decodes limits (decoding decodeFolder archiveBytes streams folderIndex limits maximum) 0
      maximum fun folder total => folder.bytes.length = total := by
  refine .noting_bind (Nat.zero_le _) fun folder hfolder => ?_
  have hlength := (Nat.zero_add _).trans_le (hdecode _ _ _ _ _ _ hfolder)
  refine .note_bind (tallies_decoded limits _) (.pure ⟨rfl, hlength, ?_⟩)
    fun error => ⟨rfl, hlength, fun _ h => (nomatch h)⟩
  rintro _ ⟨⟩
  exact (Nat.zero_add _).symm

theorem decoding_mapError_accounts (folderIndex : Nat) {total room maximum : Nat}
    (hroom : total + room ≤ maximum) (g : Error → Error) :
    Decodes limits ((decoding decodeFolder archiveBytes streams folderIndex limits
      room).mapError g) total maximum fun folder next => total + folder.bytes.length = next :=
  .behind (.mapError g (decoding_accounts hdecode archiveBytes streams folderIndex room)) hroom
    fun _ _ h => congrArg (total + ·) h

theorem decodeEncodedFolders_accounts (maximum : Nat) (folders : List Folder)
    (folderIndex total : Nat) (header : List UInt8) (htotal : total ≤ maximum)
    (hheader : header.length = total) :
    Decodes limits (decodeEncodedFolders decodeFolder archiveBytes streams limits maximum
      folders folderIndex total header) total maximum fun bytes next => bytes.length = next := by
  induction folders generalizing folderIndex total header with
  | nil => exact .pure htotal hheader
  | cons folder folders ih =>
    refine .noting_bind htotal fun _ _ => .lift_bind htotal fun remaining hremaining => ?_
    obtain ⟨hle, rfl⟩ := checkedSub_eq_ok.mp hremaining
    refine .bind (decoding_mapError_accounts hdecode _ _ _ (by omega) _)
      fun decodedFolder next hnext hlength => ?_
    subst hlength
    refine .noting_bind hnext fun _ _ => .lift_bind hnext fun sum hsum => .lift_bind hnext
      fun _ _ => .lift_bind hnext fun _ _ => .noting_bind hnext fun _ _ => ?_
    obtain ⟨-, rfl⟩ := checkedAdd_eq_ok.mp hsum
    exact ih _ _ _ hnext (by rw [List.length_append, hheader])

theorem decodeEncodedHeader_accounts (maximum : Nat) :
    Decodes limits (decodeEncodedHeader decodeFolder archiveBytes streams limits maximum) 0
      maximum fun bytes total => bytes.length = total :=
  .lift_bind (Nat.zero_le _) fun _ _ => .lift_bind (Nat.zero_le _) fun _ _ =>
    decodeEncodedFolders_accounts hdecode _ _ _ _ 0 0 [] (Nat.zero_le _) rfl

theorem processAdditionalFolders_accounts (maximum : Nat) (folders : List Folder)
    (folderIndex total : Nat) (htotal : total ≤ maximum) :
    Decodes limits (processAdditionalFolders decodeFolder archiveBytes streams limits maximum
      folders folderIndex total) total maximum fun outcome next => outcome.2 = next := by
  induction folders generalizing folderIndex total with
  | nil => exact .pure htotal rfl
  | cons folder folders ih =>
    refine .noting_bind htotal fun _ _ => .lift_bind htotal fun remainingHeader hheader =>
      .lift_bind htotal fun remainingTotal hremaining => ?_
    obtain ⟨-, rfl⟩ := checkedSub_eq_ok.mp hremaining
    refine .bind (decoding_mapError_accounts hdecode _ _ _ (by omega) _)
      fun decodedFolder next hnext hlength => ?_
    subst hlength
    refine .lift_bind hnext fun sum hsum => .lift_bind hnext fun _ _ => .lift_bind hnext
      fun _ _ => .noting_bind hnext fun _ _ => ?_
    obtain ⟨-, rfl⟩ := checkedAdd_eq_ok.mp hsum
    exact .bind (ih _ _ hnext) fun outcome last hlast houtcome => .pure hlast houtcome

theorem decodeAdditionalStreams_accounts (maximum : Nat) :
    Decodes limits (decodeAdditionalStreams decodeFolder archiveBytes streams limits maximum) 0
      maximum fun streams total => streams.totalBytes = total :=
  .bind (processAdditionalFolders_accounts hdecode _ _ _ _ 0 0 (Nat.zero_le _))
    fun _ _ htotal houtcome => .lift_bind htotal fun _ _ => .pure htotal houtcome

end

theorem resolveExternalProperties_accounts (header : ArchiveHeader) (archiveBytes : List UInt8)
    (maximum : Nat) :
    Decodes limits (resolveExternalProperties decodeFolder header archiveBytes limits maximum) 0
      maximum fun outcome total => outcome.2 = total := by
  unfold resolveExternalProperties
  split
  · exact .pure (Nat.zero_le _) rfl
  · split
    · exact .pure (Nat.zero_le _) rfl
    · exact .lift_bind (Nat.zero_le _) fun streams _ =>
        .bind (decodeAdditionalStreams_accounts hdecode _ _ _) fun _ _ htotal hdecoded =>
          .noting_bind htotal fun _ _ => .pure htotal hdecoded

/-! ## The rounds -/

omit hdecode in
theorem remainingOutput_eq_ok {limits : Limits} {decodedBytes remaining : Nat} {detail : String}
    (h : remainingOutput limits decodedBytes detail = .ok remaining) :
    decodedBytes ≤ limits.maxTotalOutputBytes ∧
      remaining = limits.maxTotalOutputBytes - decodedBytes := by
  obtain ⟨hle, hsub⟩ := checkedSub_eq_ok.mp h
  exact ⟨hle, hsub.symm⟩

theorem openPlainHeader_accounts (bytes : List UInt8) (header : ArchiveHeader)
    (decodedSoFar : Nat) (hsofar : decodedSoFar ≤ limits.maxTotalOutputBytes) :
    Decodes limits (openPlainHeader decodeFolder bytes limits header decodedSoFar) decodedSoFar
      limits.maxTotalOutputBytes fun _ _ => True := by
  refine .lift_bind hsofar fun remaining hremaining => ?_
  obtain ⟨-, rfl⟩ := remainingOutput_eq_ok hremaining
  exact .bind (P := fun _ _ => True) (.behind (resolveExternalProperties_accounts hdecode _ _ _)
    (by omega) fun _ _ _ => trivial) fun _ _ htotal _ => .lift_bind htotal fun _ _ =>
      .pure htotal trivial

section

omit hdecode

variable {total maximum : Nat}

theorem parseDecoded_accounts (decoded : List UInt8) (envelope : HeaderEnvelope)
    (archiveBytes : List UInt8) (hle : total ≤ maximum) :
    Decodes limits (parseDecoded decoded envelope archiveBytes limits) total maximum
      fun _ next => next = total :=
  .lift_bind hle fun _ hlimit => .note_bind (tallies_parsing (checkLimit_eq_ok.mp hlimit))
    ((Decodes.noting _ hle).mono fun _ _ _ h => by simpa only [Nat.zero_add] using h)
    fun _ => ⟨rfl, hle, fun _ h => (nomatch h)⟩

theorem parseExternal_accounts (headerBytes : List UInt8) (dataIndex : Nat)
    (folderBytes : List UInt8) (envelope : HeaderEnvelope) (archiveBytes : List UInt8)
    (hle : total ≤ maximum) :
    Decodes limits (parseExternal headerBytes dataIndex folderBytes envelope archiveBytes limits)
      total maximum fun _ next => next = total :=
  .lift_bind hle fun _ hlimit => .note_bind (tallies_parsing (checkLimit_eq_ok.mp hlimit))
    ((Decodes.noting _ hle).mono fun _ _ _ h => by simpa only [Nat.zero_add] using h)
    fun _ => ⟨rfl, hle, fun _ h => (nomatch h)⟩

end

variable (bytes : List UInt8) (envelope : HeaderEnvelope)

theorem openEncodedHeader_accounts (streams : StreamsInfo) (decodedSoFar : Nat)
    (hsofar : decodedSoFar ≤ limits.maxTotalOutputBytes) :
    Decodes limits (openEncodedHeader decodeFolder bytes envelope limits streams decodedSoFar)
      decodedSoFar limits.maxTotalOutputBytes fun opened total => opened.2 = total := by
  refine .lift_bind hsofar fun remaining hremaining => ?_
  obtain ⟨-, rfl⟩ := remainingOutput_eq_ok hremaining
  refine .bind (P := fun header total => decodedSoFar + header.length = total)
    (.behind (.mapError _ (decodeEncodedHeader_accounts hdecode _ _ _)) (by omega)
      fun _ _ h => congrArg (decodedSoFar + ·) h) fun header total htotal hlength => ?_
  refine .lift_bind htotal fun sum hsum => ?_
  obtain ⟨sum', hadd, hsum⟩ := Except.bind_eq_ok.mp hsum
  obtain ⟨_, -, hsum⟩ := Except.bind_eq_ok.mp hsum
  cases hsum
  obtain ⟨-, rfl⟩ := checkedAdd_eq_ok.mp hadd
  refine .bind (.mapError _ (parseDecoded_accounts _ _ _ htotal)) fun next _ _ hlast => ?_
  subst hlast
  exact .pure htotal hlength

theorem openExternalFolders_accounts (pending : PendingExternalFolderHeader) (decodedSoFar : Nat)
    (hsofar : decodedSoFar ≤ limits.maxTotalOutputBytes) :
    Decodes limits (openExternalFolders decodeFolder bytes envelope limits pending decodedSoFar)
      decodedSoFar limits.maxTotalOutputBytes fun _ _ => True := by
  refine .lift_bind hsofar fun remaining hremaining => ?_
  obtain ⟨-, rfl⟩ := remainingOutput_eq_ok hremaining
  refine .bind (P := fun _ _ => True) (.behind (decodeAdditionalStreams_accounts hdecode _ _ _)
    (by omega) fun _ _ _ => trivial) fun decodedStreams total htotal _ => .lift_bind htotal
      fun _ _ => .lift_bind htotal fun folderStream _ => ?_
  refine .bind (.mapError _ (parseExternal_accounts _ _ _ _ _ htotal))
    fun resolved next hnext _ => ?_
  cases resolved with
  | header header =>
    exact (Decodes.noting _ hnext).mono fun _ _ _ h => ⟨h.1, h.2.1, fun _ _ => trivial⟩
  | encodedHeader streams => exact .throw hnext
  | pendingExternalFolders pending => exact .throw hnext

theorem resolveRound_accounts (state : Resolution) (hdepth : state.depth ≤ limits.maxRecursionDepth)
    (hsofar : state.decodedBytes ≤ limits.maxTotalOutputBytes) :
    Accounts limits (resolveRound decodeFolder bytes envelope limits state)
      fun expanded decoded result => state.depth + expanded ≤ limits.maxRecursionDepth ∧
        state.decodedBytes + decoded ≤ limits.maxTotalOutputBytes ∧
        ∀ next, result = .ok (.inr next) → expanded = 1 ∧ next.depth = state.depth + 1 ∧
          next.decodedBytes = state.decodedBytes + decoded := by
  obtain ⟨depth, decodedSoFar, next⟩ := state
  have hstop : ∀ error : Error, depth + 0 ≤ limits.maxRecursionDepth ∧
      decodedSoFar + 0 ≤ limits.maxTotalOutputBytes ∧ ∀ next : Resolution,
        (Except.error error : Except Error (ArchiveHeader ⊕ Resolution)) = .ok (.inr next) →
          0 = 1 ∧ next.depth = depth + 1 ∧ next.decodedBytes = decodedSoFar + 0 :=
    fun error => ⟨hdepth, hsofar, fun _ h => (nomatch h)⟩
  cases next with
  | header header =>
    refine .map (openPlainHeader_accounts hdecode bytes header decodedSoFar hsofar) ?_
    rintro _ decoded result ⟨rfl, hdecoded, -⟩
    refine ⟨hdepth, hdecoded, fun next h => ?_⟩
    cases result <;> exact (nomatch h)
  | encodedHeader streams =>
    refine .lift_bind (fun deeper hdeeper => .lift_bind (fun _ hlimit => ?_) hstop) hstop
    obtain ⟨-, rfl⟩ := checkedAdd_eq_ok.mp hdeeper
    have hwithin := checkLimit_eq_ok.mp hlimit
    refine .note_bind (tallies_expanding limits) ?_
      fun _ => ⟨hwithin, hsofar, fun _ h => (nomatch h)⟩
    refine .bind (openEncodedHeader_accounts hdecode bytes envelope streams decodedSoFar hsofar)
      ?_ ?_
    · rintro ⟨next, total⟩ _ decoded ⟨rfl, hdecoded, htotal⟩
      have htotal := htotal _ rfl
      refine .pure ⟨hwithin, by simp only; omega, ?_⟩
      rintro _ ⟨⟩
      exact ⟨rfl, rfl, by simp only at htotal ⊢; omega⟩
    · rintro error _ decoded ⟨rfl, hdecoded, -⟩
      exact ⟨hwithin, by simp only; omega, fun _ h => (nomatch h)⟩
  | pendingExternalFolders pending =>
    refine .lift_bind (fun deeper hdeeper => .lift_bind (fun _ hlimit => ?_) hstop) hstop
    obtain ⟨-, rfl⟩ := checkedAdd_eq_ok.mp hdeeper
    have hwithin := checkLimit_eq_ok.mp hlimit
    refine .note_bind (tallies_expanding limits) ?_
      fun _ => ⟨hwithin, hsofar, fun _ h => (nomatch h)⟩
    refine .map (openExternalFolders_accounts hdecode bytes envelope pending decodedSoFar hsofar)
      ?_
    rintro _ decoded result ⟨rfl, hdecoded, -⟩
    refine ⟨hwithin, by simp only; omega, fun next h => ?_⟩
    cases result <;> exact (nomatch h)

/-- The induction goes over the rounds.  A round that goes on adds one to the
depth, which its limit stops. -/
theorem resolveLoop_accounts (rounds : Nat) (state : Resolution)
    (hdepth : state.depth ≤ limits.maxRecursionDepth)
    (hsofar : state.decodedBytes ≤ limits.maxTotalOutputBytes) :
    Accounts limits (resolveLoop decodeFolder bytes envelope limits rounds state)
      fun expanded decoded result => state.depth + expanded ≤ limits.maxRecursionDepth ∧
        state.decodedBytes + decoded ≤ limits.maxTotalOutputBytes ∧
        (limits.maxRecursionDepth < state.depth + rounds → result ≠ .ok none) := by
  induction rounds generalizing state with
  | zero => exact .pure ⟨hdepth, hsofar, fun h => absurd h (by omega)⟩
  | succ rounds ih =>
    refine .bind (resolveRound_accounts hdecode bytes envelope state hdepth hsofar) ?_ ?_
    · rintro (header | next) expanded decoded ⟨hexpanded, hdecoded, hnext⟩
      · exact .pure ⟨hexpanded, hdecoded, fun _ h => (nomatch h)⟩
      · obtain ⟨rfl, hnextDepth, hnextBytes⟩ := hnext next rfl
        refine (ih next (by omega) (by omega)).mono ?_
        rintro expanded' decoded' result ⟨hexpanded', hdecoded', hends⟩
        exact ⟨by omega, by omega, fun h => hends (by omega)⟩
    · rintro error expanded decoded ⟨hexpanded, hdecoded, -⟩
      exact ⟨hexpanded, hdecoded, fun _ h => (nomatch h)⟩

end Resolve

/-- The resolution of a header ends within one round more than its recursion
limit.  Whatever the folders decode to, it expands headers no more often than
that limit, decodes no more than the output limit in all, and parses no decoded
header beyond the header limit. -/
theorem resolveLoop_bounded (decodeFolder : FolderDecoder) (hdecode : decodeFolder.Bounded)
    (bytes : List UInt8) (envelope : HeaderEnvelope) (limits : Limits) (next : ParsedNextHeader)
    (rounds : Nat) (trace : List (Noted Nat DecodeNote × Except Error Unit))
    (result : Except Error (Option ArchiveHeader))
    (hruns : Prog.Runs (resolveLoop decodeFolder bytes envelope limits rounds ⟨0, 0, next⟩) trace
      result) :
    (limits.maxRecursionDepth < rounds → result ≠ .ok none) ∧
      expansions (trace.map Prod.fst) ≤ limits.maxRecursionDepth ∧
      decodedBytes (trace.map Prod.fst) ≤ limits.maxTotalOutputBytes ∧
      ∀ size, .note (.parsing size) ∈ trace.map Prod.fst → size ≤ limits.maxHeaderBytes := by
  obtain ⟨counts, htallies, hexpanded, hdecoded, hends⟩ :=
    resolveLoop_accounts hdecode bytes envelope rounds ⟨0, 0, next⟩ (Nat.zero_le _)
      (Nat.zero_le _) trace result hruns
  simp only [Nat.zero_add] at hexpanded hdecoded hends
  exact ⟨hends, htallies.expansions.trans_le hexpanded, htallies.decoded.trans_le hdecoded,
    htallies.parsed⟩

/-- An encoded header whose packed bytes are the header itself. -/
def selfReference : List UInt8 :=
  [0x17, 6, 0, 1, 9, 18, 0, 7, 0x0b, 1, 0, 1, 1, 0, 0x0c, 18, 0, 0]

def selfArchive : List UInt8 := List.replicate 32 0 ++ selfReference ++ selfReference

def selfEnvelope : HeaderEnvelope := ⟨0, ⟨0, 4⟩, 50, 18, 0, .encodedHeader⟩

def selfLimits : Limits :=
  { Limits.default with
    maxRecursionDepth := 2, maxTotalOutputBytes := 36, maxHeaderBytes := 18 }

/-- What the parser makes of it. -/
def selfStreams : StreamsInfo where
  packPosition := 0
  packStreams := [⟨32, some 18, none⟩]
  folders :=
    [{ coders := [⟨[0], 0, 1, 0, 1, [], none⟩], bindPairs := [], packedInputIndices := [0]
       unpackSizes := [some 18], rootOutputIndex := 0, topologicalCoderOrder := [0], crc := none
       substreams := [⟨some 18, none⟩], dictionaryBytes := 0, firstPackStream := 0 }]
  substreamCount := 1

def selfResolution : Accounted (Option ArchiveHeader) :=
  resolveLoop (decodeFolder (decodeCoder .copyOnly)) selfArchive selfEnvelope selfLimits 3
    ⟨0, 0, .encodedHeader selfStreams⟩

/-- The header decodes to itself, is decoded and parsed twice, and is refused then. -/
theorem resolveLoop_bounded_selfReference :
    (parseDecoded selfReference selfEnvelope selfArchive selfLimits).granted =
        .ok (.encodedHeader selfStreams) ∧
      ∃ (trace : List (Noted Nat DecodeNote × Except Error Unit))
        (result : Except Error (Option ArchiveHeader)),
        Prog.Runs selfResolution trace result ∧
        result = .error (.limitExceeded .recursionDepth 3 2) ∧
        (expansions (trace.map Prod.fst) = 2 ∧ decodedBytes (trace.map Prod.fst) = 36 ∧
          .note (.parsing 18) ∈ trace.map Prod.fst) ∧
        expansions (trace.map Prod.fst) ≤ selfLimits.maxRecursionDepth ∧
        decodedBytes (trace.map Prod.fst) ≤ selfLimits.maxTotalOutputBytes ∧
        ∀ size, .note (.parsing size) ∈ trace.map Prod.fst → size ≤ selfLimits.maxHeaderBytes := by
  have hbounds := resolveLoop_bounded _ (decodeFolder_bounded (decodeCoder_bounded .copyOnly))
    selfArchive selfEnvelope selfLimits (.encodedHeader selfStreams) 3 _ _
    (Prog.runs_asked selfResolution)
  refine ⟨by decide +kernel, _, _, Prog.runs_asked selfResolution, by decide +kernel, ?_,
    hbounds.2⟩
  rw [List.map_map]
  exact ⟨by decide +kernel, by decide +kernel, by decide +kernel⟩

end Accounted

end Unpackio
