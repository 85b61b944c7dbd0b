/-
What a sink sees of `extract_entries_to`, under any control and with any failure
of its own.

The events of a session are its requests with their answers.  The calls among
them are blocks, one for a member that is delivered, and only the last block may
be cut.
-/
import Unpackio.Archive.Refusal

namespace Unpackio

open List (append_nil map_append map_cons nil_append nil_prefix prefix_cons_inj)
open Prog (Runs)
open Prog.CanReturn (bind_iff lift_iff pure_iff)

namespace Archive

abbrev SinkEvent : Type := SinkRequest × Except Error Unit

/-- `EntrySink`, over a state of its own. -/
structure EntrySink (σ : Type) where
  beginEntry : σ → Nat → FileEntry → Nat → Except Error Unit × σ
  writeEntry : σ → Nat → List UInt8 → Except Error Unit × σ
  finishEntry : σ → Nat → Except Error Unit × σ

structure SinkSession (σ : Type) where
  control : ParseControl
  sink : σ
  events : List SinkEvent

namespace EntrySink

variable {σ : Type}

def respond (sink : EntrySink σ) (control : ParseControl) (state : σ) :
    SinkRequest → Except Error Unit × ParseControl × σ
  | .work units => ((control.answer units).1, (control.answer units).2, state)
  | .beginEntry memberIndex entry size =>
    ((sink.beginEntry state memberIndex entry size).1, control,
      (sink.beginEntry state memberIndex entry size).2)
  | .writeEntry memberIndex bytes =>
    ((sink.writeEntry state memberIndex bytes).1, control,
      (sink.writeEntry state memberIndex bytes).2)
  | .finishEntry memberIndex =>
    ((sink.finishEntry state memberIndex).1, control, (sink.finishEntry state memberIndex).2)

def answer (sink : EntrySink σ) (session : SinkSession σ) (request : SinkRequest) :
    Except Error Unit × SinkSession σ :=
  let (result, control, state) := sink.respond session.control session.sink request
  (result, ⟨control, state, session.events ++ [(request, result)]⟩)

end EntrySink

def SinkRequest.isCall : SinkRequest → Bool
  | .work _ => false
  | _ => true

def sinkCalls (events : List SinkEvent) : List SinkEvent :=
  events.filter fun event => event.1.isCall

/-- The calls for one member, with what they pass. -/
structure Block where
  memberIndex : Nat
  entry : FileEntry
  size : Nat
  writes : List (List UInt8)

namespace Block

def bytes (block : Block) : List UInt8 := block.writes.flatten

def member (block : Block) : FileEntry × Nat := (block.entry, block.memberIndex)

def calls (block : Block) : List SinkRequest :=
  .beginEntry block.memberIndex block.entry block.size ::
    (block.writes.map (.writeEntry block.memberIndex) ++ [.finishEntry block.memberIndex])

def events (block : Block) : List SinkEvent := block.calls.map fun call => (call, .ok ())

end Block

def FolderVerified (codecs : Codecs) (archive : Archive) (folderIndex : Nat)
    (decoded : List UInt8) : Prop :=
  ∃ streams folder maximum output, archive.header.mainStreams = some streams ∧
    streams.folders[folderIndex]? = some folder ∧
    (decodeFolder (decodeCoder codecs) archive.bytes streams folderIndex archive.limits
      maximum).CanReturn output ∧
    output.bytes = decoded ∧ ∀ expected, folder.crc = some expected →
      Crc32.checksum decoded = expected

/-- The bytes of a block have the announced size and the digest of the member,
and are a part of a folder that has its own digest. -/
structure Block.Verified (codecs : Codecs) (archive : Archive) (block : Block) : Prop where
  size : block.bytes.length = block.size
  member : ∀ mapping, block.entry.stream = some mapping →
    (∀ expected, mapping.crc = some expected → Crc32.checksum block.bytes = expected) ∧
      ∃ decoded, archive.FolderVerified codecs mapping.folderIndex decoded ∧
        block.bytes <:+: decoded

def Stops (events : List SinkEvent) (error : Error) : Prop :=
  ∀ front call refusal rest, events = front ++ (call, .error refusal) :: rest →
    rest = [] ∧ refusal = error

/-- The events are those of a block up to where the error ended it. -/
structure Block.CutBy (codecs : Codecs) (archive : Archive) (block : Block)
    (events : List SinkEvent) (error : Error) : Prop where
  started : events.map Prod.fst <+: block.calls
  stops : Stops events error
  verified : .finishEntry block.memberIndex ∈ events.map Prod.fst →
    block.Verified codecs archive

def isDelivered (member : FileEntry × Nat) : Bool :=
  member.1.stream.isSome || (member.1.emptyFile && !member.1.antiItem)

/-- The calls of a run are whole blocks and a tail.  Nothing at all follows a
refusal, the refusals of the control included, where the codecs are strict. -/
structure SinkProtocol (codecs : Codecs) (archive : Archive) (events : List SinkEvent)
    (result : Except Error Nat) (blocks : List Block) (tail : List SinkEvent) : Prop where
  calls : sinkCalls events = (blocks.map Block.events).flatten ++ tail
  members : ∀ block ∈ blocks, archive.entries[block.memberIndex]? = some block.entry
  increasing : (blocks.map Block.memberIndex).Pairwise (· < ·)
  verified : ∀ block ∈ blocks, block.Verified codecs archive
  cut : tail ≠ [] → ∃ (last : Block) (error : Error), last.CutBy codecs archive tail error ∧
    result = .error error ∧ archive.entries[last.memberIndex]? = some last.entry ∧
    ∀ block ∈ blocks, block.memberIndex < last.memberIndex
  returned : ∀ count, result = .ok count → tail = [] ∧
    blocks.map Block.member = archive.entries.zipIdx.filter isDelivered ∧
    count = (blocks.map fun block => block.bytes.length).sum
  refused : codecs.Strict → ∀ (front rest : List SinkEvent) (request : SinkRequest)
    (refusal : Error), events = front ++ (request, .error refusal) :: rest →
      rest = [] ∧ ∃ error, result = .error error

theorem sinkCalls_append (front rest : List SinkEvent) :
    sinkCalls (front ++ rest) = sinkCalls front ++ sinkCalls rest := List.filter_append front rest

theorem sinkCalls_work (inner : List (Nat × Except Error Unit)) :
    sinkCalls (inner.map fun event => (SinkRequest.work event.1, event.2)) = [] := by
  refine List.filter_eq_nil_iff.mpr fun event hevent => ?_
  obtain ⟨_, -, rfl⟩ := List.mem_map.mp hevent
  exact Bool.false_ne_true

variable {events : List SinkEvent} {memberIndex folderIndex : Nat} {entry : FileEntry}
  {mapping : FileStream} {streams : StreamsInfo} {codecs : Codecs} {archive : Archive}
  {state : ExtractState} {result : Except Error ExtractState}

theorem sinkCalls_working {α : Type} {p : Metered α} {result : Except Error α}
    (h : Runs (working p) events result) :
    sinkCalls events = [] ∧ ∃ inner, Runs p inner result := by
  obtain ⟨inner, rfl, hinner⟩ := h.of_mapRequest
  exact ⟨sinkCalls_work inner, inner, hinner⟩

theorem sinkCalls_request {request : SinkRequest} {result : Except Error Unit}
    (hcall : request.isCall = true) (h : Runs (Prog.request request) events result) :
    sinkCalls events = [(request, result)] := by
  rw [Runs.request_iff.mp h]
  exact List.filter_cons_of_pos hcall

theorem stops_nil (error : Error) : Stops [] error := fun front _ _ _ h => by
  cases front <;> exact (nomatch h)

theorem stops_refused (call : SinkRequest) (error : Error) :
    Stops [(call, .error error)] error := by
  intro front call' refusal rest h
  cases front with
  | nil =>
    cases h
    exact ⟨rfl, rfl⟩
  | cons event front => exact absurd (congrArg List.length h) (by simp)

theorem stops_cons {call : SinkRequest} {error : Error} (h : Stops events error) :
    Stops ((call, .ok ()) :: events) error := by
  intro front call' refusal rest heq
  cases front with
  | nil => exact (nomatch heq)
  | cons event front =>
    rw [List.cons_append, List.cons.injEq] at heq
    exact h front call' refusal rest heq.2

theorem stops_append {calls : List SinkRequest} {error : Error} (h : Stops events error) :
    Stops (calls.map (fun call => (call, .ok ())) ++ events) error := by
  induction calls with
  | nil => exact h
  | cons call calls ih => exact stops_cons ih

theorem writeChunks_runs {pieces : List (List UInt8)} {crc : Crc32} {result : Except Error Crc32}
    (h : Runs (writeChunks memberIndex pieces crc) events result) :
    (result = .ok (crc.update pieces.flatten) ∧ sinkCalls events =
      (pieces.map (.writeEntry memberIndex)).map fun call => (call, .ok ())) ∨
    ∃ error, result = .error error ∧
      (sinkCalls events).map Prod.fst <+: pieces.map (.writeEntry memberIndex) ∧
      Stops (sinkCalls events) error := by
  induction pieces generalizing crc events with
  | nil =>
    obtain ⟨rfl, rfl⟩ := Runs.pure_iff.mp h
    exact .inl ⟨rfl, rfl⟩
  | cons piece pieces ih =>
    rcases h.of_bind with ⟨_, front, rest, rfl, hwork, h⟩ | ⟨error, rfl, hwork⟩
    · have hquiet := (sinkCalls_working hwork).1
      rw [sinkCalls_append, hquiet, nil_append]
      rcases h.of_bind with ⟨_, front, rest, rfl, hwrite, h⟩ | ⟨error, rfl, hwrite⟩
      · rw [sinkCalls_append, sinkCalls_request rfl hwrite]
        rcases ih h with ⟨rfl, hcalls⟩ | ⟨error, rfl, hstarted, hstops⟩
        · left
          rw [hcalls, List.flatten_cons, Crc32.update_append]
          exact ⟨rfl, rfl⟩
        · exact .inr ⟨error, rfl, (prefix_cons_inj _).mpr hstarted, stops_cons hstops⟩
      · rw [sinkCalls_request rfl hwrite]
        exact .inr ⟨error, rfl, (prefix_cons_inj _).mpr nil_prefix,
          stops_refused _ error⟩
    · rw [(sinkCalls_working hwork).1]
      exact .inr ⟨error, rfl, nil_prefix, stops_nil error⟩

theorem deliver_runs {encrypted : Bool} {bytes : List UInt8} {size : Nat}
    {result : Except Error Unit} {block : Block}
    (hblock : block = ⟨memberIndex, entry, size, chunks ioChunkSize bytes⟩)
    (h : Runs (deliver memberIndex entry mapping encrypted bytes size) events result) :
    (result = .ok () ∧ sinkCalls events = block.events ∧
      ∀ expected, mapping.crc = some expected → Crc32.checksum bytes = expected) ∨
    ∃ error, result = .error error ∧ Stops (sinkCalls events) error ∧
      (sinkCalls events).map Prod.fst <+: block.calls ∧
      (.finishEntry memberIndex ∈ (sinkCalls events).map Prod.fst →
        ∀ expected, mapping.crc = some expected → Crc32.checksum bytes = expected) := by
  have hcalls : block.calls = .beginEntry memberIndex entry size ::
      ((chunks ioChunkSize bytes).map (.writeEntry memberIndex) ++ [.finishEntry memberIndex]) := by
    rw [hblock]
    rfl
  have hbytes : Crc32.new.update (chunks ioChunkSize bytes).flatten = Crc32.new.update bytes := by
    rw [flatten_chunks (by decide : 0 < ioChunkSize)]
  have hwrites : ∀ call ∈ (chunks ioChunkSize bytes).map (SinkRequest.writeEntry memberIndex),
      call ≠ .finishEntry memberIndex := by
    intro call hcall heq
    obtain ⟨_, -, rfl⟩ := List.mem_map.mp hcall
    exact (nomatch heq)
  rw [hcalls, Block.events, hcalls]
  rcases h.of_bind with ⟨_, front₁, rest₁, rfl, hbegin, h₁⟩ | ⟨error, rfl, hbegin⟩
  · rw [sinkCalls_append, sinkCalls_request rfl hbegin]
    rcases h₁.of_bind with ⟨crc, front₂, rest₂, rfl, hwrite, h₂⟩ | ⟨error, rfl, hwrite⟩
    · rcases writeChunks_runs hwrite with ⟨hcrc, hwritten⟩ | ⟨_, hcrc, -⟩
      · cases hcrc
        rw [sinkCalls_append, hwritten]
        rcases h₂.of_bind with ⟨_, front₃, rest₃, rfl, hrun, h₃⟩ | ⟨error, rfl, hrun⟩
        · obtain ⟨rfl, hcheck⟩ := Runs.lift_iff.mp hrun
          have hmatches : ∀ expected, mapping.crc = some expected →
              Crc32.checksum bytes = expected := by
            intro expected hexpected
            by_contra hne
            refine rejectIf_eq_ok.mp hcheck.symm ⟨expected, hexpected, ?_⟩
            rw [hbytes]
            exact hne
          rw [sinkCalls_append, sinkCalls_request rfl h₃]
          cases result with
          | ok _ =>
            left
            refine ⟨rfl, ?_, hmatches⟩
            rw [map_cons, map_append]
            rfl
          | error error =>
            refine .inr ⟨error, rfl, stops_cons (stops_append (stops_refused _ error)), ?_,
              fun _ => hmatches⟩
            simp [Function.comp_def, sinkCalls]
        · obtain ⟨rfl, -⟩ := Runs.lift_iff.mp hrun
          refine .inr ⟨error, rfl, stops_cons (stops_append (stops_nil error)), ?_, ?_⟩
          · simp [Function.comp_def, sinkCalls]
          · simp [Function.comp_def, sinkCalls]
      · exact (nomatch hcrc)
    · rcases writeChunks_runs hwrite with ⟨hcrc, -⟩ | ⟨_, hcrc, hstarted, hstops⟩
      · exact (nomatch hcrc)
      · cases hcrc
        refine .inr ⟨error, rfl, stops_cons hstops, (prefix_cons_inj _).mpr
          (hstarted.trans (List.prefix_append _ _)), fun hfinish => ?_⟩
        rcases List.mem_cons.mp hfinish with hfinish | hfinish
        · exact (nomatch hfinish)
        · exact absurd rfl (hwrites _ (hstarted.subset hfinish))
  · rw [sinkCalls_request rfl hbegin]
    refine .inr ⟨error, rfl, stops_refused _ error,
      (prefix_cons_inj _).mpr nil_prefix, fun hfinish => ?_⟩
    rw [List.map_singleton, List.mem_singleton] at hfinish
    exact (nomatch hfinish)

theorem checksumWithControl_canReturn {bytes : List UInt8} {crc : UInt32}
    (h : (checksumWithControl bytes).CanReturn crc) : crc = Crc32.checksum bytes := by
  have hgo : ∀ (pieces : List (List UInt8)) (state : Crc32),
      (checksumWithControl.go pieces state).CanReturn crc →
        crc = (state.update pieces.flatten).finalize := by
    intro pieces
    induction pieces with
    | nil => exact fun state h => (pure_iff.mp h).symm
    | cons piece pieces ih =>
      intro state h
      obtain ⟨_, -, h⟩ := bind_iff.mp h
      rw [List.flatten_cons, Crc32.update_append]
      exact ih _ h
  rw [hgo _ _ h, flatten_chunks (by decide : 0 < controlChunkSize)]
  rfl

theorem decodeFolder_canReturn {decodeCoder : CoderDecoder} {archiveBytes : List UInt8}
    {limits : Limits} {maximum : Nat} {decoded : DecodedFolder}
    (h : (decodeFolder decodeCoder archiveBytes streams folderIndex limits maximum).CanReturn
      decoded) (hmatch : decoded.crcMismatch = false) :
    ∃ folder, streams.folders[folderIndex]? = some folder ∧
      ∀ expected, folder.crc = some expected → Crc32.checksum decoded.bytes = expected := by
  simp only [decodeFolder, bind_iff, lift_iff, okOr_eq_ok] at h
  obtain ⟨folder, hfolder, _, -, _, -, _, -, _, -, _, -, _, -, bytes, -, mismatch, hcrc, h⟩ := h
  cases pure_iff.mp h
  refine ⟨folder, hfolder, fun expected hexpected => ?_⟩
  simp only [folderCrcMismatch, hexpected] at hcrc
  obtain ⟨actual, hactual, hcrc⟩ := bind_iff.mp hcrc
  cases pure_iff.mp hcrc
  rw [← checksumWithControl_canReturn hactual]
  simpa using hmatch

/-- The open folder has its digest. -/
def StateVerified (codecs : Codecs) (archive : Archive) (state : ExtractState) : Prop :=
  ∀ current, state.current = some current →
    archive.FolderVerified codecs current.index current.decoded.bytes

section

variable {entered : OpenFolder × Nat} (hstreams : archive.header.mainStreams = some streams)
include hstreams

theorem enterFolder_canReturn
    (h : (archive.enterFolder codecs streams folderIndex state).CanReturn entered) :
    entered.1.index = folderIndex ∧
      archive.FolderVerified codecs folderIndex entered.1.decoded.bytes := by
  simp only [enterFolder, decodeWithinTotal, decodeMemberFolder, bind_iff,
    lift_iff, rejectIf_eq_ok] at h
  obtain ⟨_, -, _, -, ⟨decoded, _⟩, ⟨_, -, _, ⟨maximum, -, hdecode⟩, _, -, _, -, hpair⟩, _,
    hmatch, h⟩ := h
  cases pure_iff.mp hpair
  cases pure_iff.mp h
  have hdecode := hdecode.of_mapError
  obtain ⟨folder, hfolder, hcrc⟩ := decodeFolder_canReturn hdecode (Bool.not_eq_true _ ▸ hmatch)
  exact ⟨rfl, streams, folder, maximum, decoded, hstreams, hfolder, hdecode, rfl, hcrc⟩

theorem folderFor_canReturn (hstate : archive.StateVerified codecs state)
    (h : (archive.folderFor codecs streams folderIndex state).CanReturn entered) :
    entered.1.index = folderIndex ∧
      archive.FolderVerified codecs folderIndex entered.1.decoded.bytes := by
  unfold folderFor at h
  cases hcurrent : state.current with
  | none =>
    rw [hcurrent] at h
    exact enterFolder_canReturn hstreams h
  | some current =>
    rw [hcurrent] at h
    by_cases hindex : current.index = folderIndex
    · simp only [if_pos hindex] at h
      cases pure_iff.mp h
      exact ⟨hindex, hindex ▸ hstate current hcurrent⟩
    · simp only [if_neg hindex] at h
      exact enterFolder_canReturn hstreams h

end

theorem nextRange_eq_ok {current : OpenFolder} {bytes : List UInt8} {size finish : Nat}
    (h : archive.nextRange streams current mapping = .ok (bytes, size, finish)) :
    bytes.length = size ∧ bytes <:+: current.decoded.bytes := by
  simp only [nextRange, Except.bind_eq_ok, rejectIf_eq_ok, okOr_eq_ok, checkedSub_eq_some,
    getRange_eq_some] at h
  obtain ⟨_, -, _, -, _, -, finish', -, _, -, _, ⟨hle, rfl⟩, _, -, _, ⟨-, hend, rfl⟩, h⟩ := h
  cases h
  refine ⟨?_, ?_⟩
  · rw [List.length_drop, List.length_take, Nat.min_eq_left hend]
  · exact (List.drop_suffix _ _).isInfix.trans (List.take_prefix _ _).isInfix

/-! ## The member loop -/

theorem cutBy_nil (codecs : Codecs) (archive : Archive) (block : Block) (error : Error) :
    block.CutBy codecs archive [] error :=
  ⟨ nil_prefix, stops_nil error, fun h => absurd h List.not_mem_nil⟩

/-- What one round of the loop can do: a whole block, nothing for a member that
is not delivered, or a part of a block and an error. -/
inductive MemberRuns (codecs : Codecs) (archive : Archive) (member : FileEntry × Nat)
    (state : ExtractState) (calls : List SinkEvent) : Except Error ExtractState → Prop
  | delivered (result : Except Error ExtractState) (block : Block)
      (hmember : block.member = member) (hdelivered : isDelivered member = true)
      (hverified : block.Verified codecs archive) (hcalls : calls = block.events)
      (hstate : ∀ next, result = .ok next → archive.StateVerified codecs next ∧
        next.delivered = state.delivered + block.bytes.length) :
      MemberRuns codecs archive member state calls result
  | skipped (hdelivered : isDelivered member = false) (hcalls : calls = []) :
      MemberRuns codecs archive member state calls (.ok state)
  | cut (block : Block) (error : Error) (hmember : block.member = member)
      (hcut : block.CutBy codecs archive calls error) :
      MemberRuns codecs archive member state calls (.error error)

theorem memberRuns_error {member : FileEntry × Nat} {calls : List SinkEvent} (error : Error)
    (hcalls : calls = []) : MemberRuns codecs archive member state calls (.error error) := by
  subst hcalls
  exact .cut ⟨member.2, member.1, 0, []⟩ error rfl (cutBy_nil codecs archive _ error)

theorem extractStream_runs (hstate : archive.StateVerified codecs state)
    (hstream : entry.stream = some mapping)
    (h : Runs (archive.extractStream codecs memberIndex entry mapping state) events result) :
    MemberRuns codecs archive (entry, memberIndex) state (sinkCalls events) result := by
  have hdelivered : isDelivered (entry, memberIndex) = true := by
    rw [isDelivered, hstream]
    rfl
  rcases h.of_bind with ⟨streams, front₁, rest₁, rfl, hlift, h₁⟩ | ⟨error, rfl, hlift⟩
  · obtain ⟨rfl, hstreams⟩ := Runs.lift_iff.mp hlift
    have hstreams := okOr_eq_ok.mp hstreams.symm
    rw [nil_append]
    rcases h₁.of_bind with ⟨⟨current, total⟩, front₂, rest₂, rfl, hfolder, h₂⟩ |
      ⟨error, rfl, hfolder⟩
    · obtain ⟨hquiet, _, hfolder⟩ := sinkCalls_working hfolder
      obtain ⟨hindex, hverified⟩ := folderFor_canReturn hstreams hstate ⟨_, hfolder⟩
      rw [sinkCalls_append, hquiet, nil_append]
      rcases h₂.of_bind with ⟨⟨bytes, size, finish⟩, front₃, rest₃, rfl, hlift, h₃⟩ |
        ⟨error, rfl, hlift⟩
      · obtain ⟨rfl, hrange⟩ := Runs.lift_iff.mp hlift
        obtain ⟨hsize, hpart⟩ := nextRange_eq_ok hrange.symm
        rw [nil_append]
        have hbytes : (Block.mk memberIndex entry size (chunks ioChunkSize bytes)).bytes = bytes :=
          flatten_chunks (by decide) bytes
        have hblock : (∀ expected, mapping.crc = some expected →
            Crc32.checksum bytes = expected) →
            (Block.mk memberIndex entry size (chunks ioChunkSize bytes)).Verified codecs
              archive := by
          intro hcrc
          refine ⟨by rw [hbytes]; exact hsize, fun other hother => ?_⟩
          cases hstream.symm.trans hother
          rw [hbytes]
          exact ⟨hcrc, _, hverified, hpart⟩
        rcases h₃.of_bind with ⟨_, front₄, rest₄, rfl, hdeliver, h₄⟩ | ⟨error, rfl, hdeliver⟩
        · rcases deliver_runs rfl hdeliver with ⟨-, hcalls, hcrc⟩ | ⟨_, hresult, -⟩
          · have hrest : ∀ next, result = .ok next → archive.StateVerified codecs next ∧
                next.delivered = state.delivered + size := by
              rintro next rfl
              obtain ⟨_, hadd, h₅⟩ := bind_iff.mp ⟨_, h₄⟩
              obtain ⟨_, -, h₆⟩ := bind_iff.mp h₅
              cases pure_iff.mp h₆
              have hadd := checkedAdd_eq_ok.mp (lift_iff.mp hadd)
              refine ⟨?_, hadd.2.symm⟩
              rintro _ ⟨⟩
              exact hindex ▸ hverified
            have hquiet : sinkCalls rest₄ = [] := by
              rcases h₄.of_bind with ⟨_, front₅, rest₅, rfl, hadd, h₅⟩ | ⟨_, -, hadd⟩
              · obtain ⟨rfl, -⟩ := Runs.lift_iff.mp hadd
                rcases h₅.of_bind with ⟨_, front₆, rest₆, rfl, hadd, h₆⟩ | ⟨_, -, hadd⟩
                · obtain ⟨rfl, -⟩ := Runs.lift_iff.mp hadd
                  obtain ⟨rfl, -⟩ := Runs.pure_iff.mp h₆
                  rfl
                · obtain ⟨rfl, -⟩ := Runs.lift_iff.mp hadd
                  rfl
              · obtain ⟨rfl, -⟩ := Runs.lift_iff.mp hadd
                rfl
            rw [sinkCalls_append, hquiet, append_nil]
            refine .delivered _ _ rfl hdelivered (hblock hcrc) hcalls fun next hnext => ?_
            rw [hbytes, hsize]
            exact hrest next hnext
          · exact (nomatch hresult)
        · rcases deliver_runs rfl hdeliver with ⟨hresult, -⟩ | ⟨_, hresult, hstops, hstarted, hcrc⟩
          · exact (nomatch hresult)
          · cases hresult
            exact .cut _ error rfl ⟨hstarted, hstops, fun hfinish => hblock (hcrc hfinish)⟩
      · obtain ⟨rfl, -⟩ := Runs.lift_iff.mp hlift
        exact memberRuns_error error rfl
    · exact memberRuns_error error (sinkCalls_working hfolder).1
  · obtain ⟨rfl, -⟩ := Runs.lift_iff.mp hlift
    exact memberRuns_error error rfl

theorem emptyBlock_verified (hstream : entry.stream = none) :
    (Block.mk memberIndex entry 0 []).Verified codecs archive :=
  ⟨rfl, fun _ hmapping => (nomatch hstream.symm.trans hmapping)⟩

theorem extractMember_runs (hstate : archive.StateVerified codecs state)
    (h : Runs (archive.extractMember codecs memberIndex entry state) events result) :
    MemberRuns codecs archive (entry, memberIndex) state (sinkCalls events) result := by
  rcases h.of_bind with ⟨_, front₁, rest₁, rfl, hwork, h₁⟩ | ⟨error, rfl, hwork⟩
  · rw [sinkCalls_append, (sinkCalls_working hwork).1, nil_append]
    cases hstream : entry.stream with
    | some mapping =>
      rw [hstream] at h₁
      exact extractStream_runs hstate hstream h₁
    | none =>
      rw [hstream] at h₁
      by_cases hempty : entry.emptyFile = true ∧ ¬entry.antiItem = true
      · simp only [if_pos hempty] at h₁
        have hdelivered : isDelivered (entry, memberIndex) = true := by
          simp [isDelivered, hempty.1, hempty.2]
        have hverified : (Block.mk memberIndex entry 0 []).Verified codecs archive :=
          emptyBlock_verified hstream
        rcases h₁.of_bind with ⟨_, front₂, rest₂, rfl, hbegin, h₂⟩ | ⟨error, rfl, hbegin⟩
        · rw [sinkCalls_append, sinkCalls_request rfl hbegin]
          rcases h₂.of_bind with ⟨_, front₃, rest₃, rfl, hfinish, h₃⟩ | ⟨error, rfl, hfinish⟩
          · obtain ⟨rfl, rfl⟩ := Runs.pure_iff.mp h₃
            rw [append_nil, sinkCalls_request rfl hfinish]
            refine .delivered _ _ rfl hdelivered hverified rfl fun next hnext => ?_
            cases hnext
            exact ⟨hstate, rfl⟩
          · rw [sinkCalls_request rfl hfinish]
            refine .cut _ error rfl ⟨?_, stops_cons (stops_refused _ error), fun _ => hverified⟩
            exact List.prefix_refl _
        · rw [sinkCalls_request rfl hbegin]
          refine .cut ⟨memberIndex, entry, 0, []⟩ error rfl
            ⟨(prefix_cons_inj _).mpr nil_prefix, stops_refused _ error,
              fun _ => hverified⟩
      · simp only [if_neg hempty] at h₁
        obtain ⟨rfl, rfl⟩ := Runs.pure_iff.mp h₁
        refine .skipped ?_ rfl
        simpa [isDelivered, hstream] using hempty
  · exact memberRuns_error error (sinkCalls_working hwork).1

/-- The blocks of the loop over some members, and the tail behind them. -/
structure MembersRun (codecs : Codecs) (archive : Archive) (members : List (FileEntry × Nat))
    (state : ExtractState) (calls : List SinkEvent) (result : Except Error ExtractState)
    (blocks : List Block) (tail : List SinkEvent) : Prop where
  calls : calls = (blocks.map Block.events).flatten ++ tail
  verified : ∀ block ∈ blocks, block.Verified codecs archive
  ending : tail = [] ∧ (blocks.map Block.member).Sublist members ∨
    ∃ (last : Block) (error : Error), last.CutBy codecs archive tail error ∧
      result = .error error ∧ (blocks.map Block.member ++ [last.member]).Sublist members
  returned : ∀ next, result = .ok next → tail = [] ∧
    blocks.map Block.member = members.filter isDelivered ∧
    next.delivered = state.delivered + (blocks.map fun block => block.bytes.length).sum

/-- The induction adds one member in front: its block, or nothing. -/
theorem extractMembers_runs {members : List (FileEntry × Nat)}
    (hstate : archive.StateVerified codecs state)
    (h : Runs (archive.extractMembers codecs members state) events result) :
    ∃ blocks tail, MembersRun codecs archive members state (sinkCalls events) result blocks
      tail := by
  induction members generalizing state events with
  | nil =>
    obtain ⟨rfl, rfl⟩ := Runs.pure_iff.mp h
    refine ⟨[], [], rfl, by simp, .inl ⟨rfl, List.Sublist.slnil⟩, fun next hnext => ?_⟩
    cases hnext
    exact ⟨rfl, rfl, rfl⟩
  | cons member members ih =>
    rcases h.of_bind with ⟨next, front, rest, rfl, hmember, hrest⟩ | ⟨error, rfl, hmember⟩
    · rw [sinkCalls_append]
      cases extractMember_runs hstate hmember with
      | delivered _ block hblock hdelivered hverified hcalls hnext =>
        obtain ⟨hstate', hcount⟩ := hnext next rfl
        obtain ⟨blocks, tail, hrun⟩ := ih hstate' hrest
        refine ⟨block :: blocks, tail, ?_, ?_, ?_, fun final hfinal => ?_⟩
        · rw [hcalls, hrun.calls, map_cons, List.flatten_cons, List.append_assoc]
        · intro other hother
          rcases List.mem_cons.mp hother with rfl | hother
          · exact hverified
          · exact hrun.verified other hother
        · rw [map_cons, hblock]
          rcases hrun.ending with ⟨htail, hsub⟩ | ⟨last, error, hcut, hresult, hsub⟩
          · exact .inl ⟨htail, hsub.cons_cons member⟩
          · exact .inr ⟨last, error, hcut, hresult, hsub.cons_cons member⟩
        · obtain ⟨htail, hmembers, hsum⟩ := hrun.returned final hfinal
          refine ⟨htail, ?_, ?_⟩
          · rw [map_cons, hblock, hmembers, List.filter_cons_of_pos hdelivered]
          · rw [hsum, hcount, map_cons, List.sum_cons]
            omega
      | skipped hdelivered hcalls =>
        obtain ⟨blocks, tail, hrun⟩ := ih hstate hrest
        refine ⟨blocks, tail, ?_, hrun.verified, ?_, fun final hfinal => ?_⟩
        · rw [hcalls, nil_append, hrun.calls]
        · rcases hrun.ending with ⟨htail, hsub⟩ | ⟨last, error, hcut, hresult, hsub⟩
          · exact .inl ⟨htail, hsub.cons member⟩
          · exact .inr ⟨last, error, hcut, hresult, hsub.cons member⟩
        · obtain ⟨htail, hmembers, hsum⟩ := hrun.returned final hfinal
          refine ⟨htail, ?_, hsum⟩
          rw [hmembers, List.filter_cons_of_neg (by rw [hdelivered]; exact Bool.false_ne_true)]
    · cases extractMember_runs hstate hmember with
      | delivered _ block hblock hdelivered hverified hcalls hnext =>
        refine ⟨[block], [], ?_, ?_, .inl ⟨rfl, ?_⟩, fun final hfinal => (nomatch hfinal)⟩
        · rw [hcalls, List.map_singleton, List.flatten_singleton, append_nil]
        · intro other hother
          rw [List.mem_singleton.mp hother]
          exact hverified
        · rw [List.map_singleton, hblock]
          exact (List.nil_sublist members).cons_cons member
      | cut block _ hblock hcut =>
        refine ⟨[], _, rfl, by simp, .inr ⟨block, error, hcut, rfl, ?_⟩,
          fun final hfinal => (nomatch hfinal)⟩
        rw [List.map_nil, nil_append, hblock]
        exact (List.nil_sublist members).cons_cons member

theorem zipIdx_increasing {α : Type} (l : List α) :
    (l.zipIdx.map Prod.snd).Pairwise (· < ·) := by
  rw [List.zipIdx_map_snd]
  exact List.pairwise_lt_range'

theorem mem_zipIdx {α : Type} {l : List α} (pair : α × Nat) (h : pair ∈ l.zipIdx) :
    l[pair.2]? = some pair.1 := by
  exact List.mem_zipIdx_iff_getElem?.mp h

section

variable {blocks : List Block} {entries : List FileEntry}
  (h : (blocks.map Block.member).Sublist entries.zipIdx)
include h

theorem blocks_increasing : (blocks.map Block.memberIndex).Pairwise (· < ·) := by
  have hmap : blocks.map Block.memberIndex = (blocks.map Block.member).map Prod.snd := by
    rw [List.map_map]
    rfl
  rw [hmap]
  exact (zipIdx_increasing entries).sublist (h.map Prod.snd)

theorem blocks_members (block : Block) (hblock : block ∈ blocks) :
    entries[block.memberIndex]? = some block.entry :=
  mem_zipIdx block.member (h.subset (List.mem_map_of_mem hblock))

end

/-- Every session of `extract_entries_to` keeps the protocol of its sink. -/
theorem extractEntriesTo_sinkProtocol {σ : Type} (codecs : Codecs) (archive : Archive)
    (sink : EntrySink σ) (control : ParseControl) (state : σ) :
    ∃ blocks tail, SinkProtocol codecs archive
      ((archive.extractEntriesTo codecs).run sink.answer ⟨control, state, []⟩).2.events
      ((archive.extractEntriesTo codecs).run sink.answer ⟨control, state, []⟩).1 blocks tail := by
  obtain ⟨events, hevents, hruns⟩ := Prog.runs_of_run sink.answer SinkSession.events
    (fun _ _ => rfl) (archive.extractEntriesTo codecs) ⟨control, state, []⟩
  rw [hevents, nil_append]
  generalize ((archive.extractEntriesTo codecs).run sink.answer ⟨control, state, []⟩).1 =
    result at hruns
  have hrefused : codecs.Strict → ∀ (front rest : List SinkEvent) (request : SinkRequest)
      (refusal : Error), events = front ++ (request, .error refusal) :: rest →
        rest = [] ∧ ∃ error, result = .error error :=
    fun hcodecs _ _ _ _ heq => (strict_extractEntriesTo hcodecs archive).refused hruns heq
  have hstart : archive.StateVerified codecs ⟨none, 0, 0⟩ := fun _ h => (nomatch h)
  have hlast : ∀ {blocks : List Block} {last : Block},
      (blocks.map Block.member ++ [last.member]).Sublist archive.entries.zipIdx →
        (blocks.map Block.member).Sublist archive.entries.zipIdx ∧
        archive.entries[last.memberIndex]? = some last.entry ∧
        ∀ block ∈ blocks, block.memberIndex < last.memberIndex := by
    intro blocks last hsub
    have hall : ((blocks ++ [last]).map Block.member).Sublist archive.entries.zipIdx := by
      rw [map_append]
      exact hsub
    have hincreasing := blocks_increasing hall
    rw [map_append, List.pairwise_append] at hincreasing
    refine ⟨(List.sublist_append_left _ _).trans hsub,
      blocks_members hall last (List.mem_append_right _ List.mem_cons_self),
      fun block hblock => hincreasing.2.2 _ (List.mem_map_of_mem hblock) _ List.mem_cons_self⟩
  rcases hruns.of_bind with ⟨final, front, rest, rfl, hmembers, hrest⟩ | ⟨error, rfl, hmembers⟩
  · obtain ⟨blocks, tail, hrun⟩ := extractMembers_runs hstart hmembers
    obtain ⟨rfl, hblocks, hcount⟩ := hrun.returned final rfl
    have hsub : (blocks.map Block.member).Sublist archive.entries.zipIdx := by
      rw [hblocks]
      exact List.filter_sublist
    have hquiet : sinkCalls rest = [] ∧ ∀ count, result = .ok count →
        count = final.delivered := by
      rcases hrest.of_bind with ⟨_, front', rest', rfl, hcheck, hpure⟩ | ⟨error, rfl, hcheck⟩
      · obtain ⟨rfl, -⟩ := Runs.lift_iff.mp hcheck
        obtain ⟨rfl, rfl⟩ := Runs.pure_iff.mp hpure
        exact ⟨rfl, fun count hresult => (Except.ok.inj hresult).symm⟩
      · obtain ⟨rfl, -⟩ := Runs.lift_iff.mp hcheck
        exact ⟨rfl, fun count hresult => (nomatch hresult)⟩
    refine ⟨blocks, [], ?_, blocks_members hsub, blocks_increasing hsub, hrun.verified,
      fun h => absurd rfl h, fun count hresult => ⟨rfl, hblocks, ?_⟩, hrefused⟩
    · rw [sinkCalls_append, hquiet.1, append_nil, hrun.calls]
    · rw [hquiet.2 count hresult, hcount]
      exact Nat.zero_add _
  · obtain ⟨blocks, tail, hrun⟩ := extractMembers_runs hstart hmembers
    rcases hrun.ending with ⟨rfl, hsub⟩ | ⟨last, cause, hcut, hresult, hsub⟩
    · exact ⟨blocks, [], hrun.calls, blocks_members hsub, blocks_increasing hsub, hrun.verified,
        fun h => absurd rfl h, fun count h => (nomatch h), hrefused⟩
    · obtain ⟨hblocks, hmember, hbefore⟩ := hlast hsub
      cases hresult
      exact ⟨blocks, tail, hrun.calls, blocks_members hblocks, blocks_increasing hblocks,
        hrun.verified, fun _ => ⟨last, error, hcut, rfl, hmember, hbefore⟩,
        fun count h => (nomatch h), hrefused⟩

end Archive

end Unpackio
