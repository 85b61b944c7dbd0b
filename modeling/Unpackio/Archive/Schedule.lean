/-
The member reader under any schedule of reads, those that fail included.

A read that fails has fed a part of its bytes to the checksum and has not moved.
What makes this safe is global: the control that refused it does not suffice for
the rest of the member any more.
-/
import Unpackio.Archive.Reader
import Unpackio.Archive.Refusal

namespace Unpackio

open ParseControl (answer)
open Prog (run_bind)

def WorkBudget.CanCharge (budget : WorkBudget) (units : Nat) : Prop :=
  (∀ remaining, budget.remaining = some remaining → units ≤ remaining) ∧
    budget.consumed + units < 2 ^ 64

def ParseControl.Stuck (control : ParseControl) (units : Nat) : Prop :=
  control.cancellation.checksLeft = some 0 ∨ ¬control.budget.CanCharge units

theorem WorkBudget.CanCharge.mono {budget : WorkBudget} {m n : Nat} (h : budget.CanCharge n)
    (hle : m ≤ n) : budget.CanCharge m :=
  ⟨fun remaining hremaining => Nat.le_trans hle (h.1 remaining hremaining),
    Nat.lt_of_le_of_lt (Nat.add_le_add_left hle _) h.2⟩

variable {control : ParseControl}

theorem ParseControl.Stuck.mono {m n : Nat} (h : control.Stuck m) (hle : m ≤ n) :
    control.Stuck n := by
  rcases h with h | h
  · exact .inl h
  · exact .inr fun hn => h (hn.mono hle)

theorem WorkBudget.charge_cases (budget : WorkBudget) (units : Nat) :
    (∃ next, budget.charge units = (.ok (), next) ∧ budget.CanCharge units ∧
      ∀ n, next.CanCharge n ↔ budget.CanCharge (units + n)) ∨
    ∃ error, budget.charge units = (.error error, budget) ∧ ¬budget.CanCharge units := by
  obtain ⟨remaining, consumed⟩ := budget
  cases remaining with
  | none =>
    by_cases hsum : consumed + units < 2 ^ 64
    · left
      refine ⟨⟨none, consumed + units⟩, ?_, ⟨fun _ h => (nomatch h), hsum⟩, fun n => ?_⟩
      · simp only [charge, checkedAdd_of_lt hsum]
      · simp only [CanCharge, reduceCtorEq, false_imp_iff, implies_true, true_and, Nat.add_assoc]
    · right
      refine ⟨.limitExceeded .workUnits units (2 ^ 64 - 1 - consumed), ?_, fun h => hsum h.2⟩
      simp only [charge, checkedAdd, if_neg hsum]
  | some remaining =>
    by_cases hle : units ≤ remaining
    · by_cases hsum : consumed + units < 2 ^ 64
      · left
        refine ⟨⟨some (remaining - units), consumed + units⟩, ?_,
          ⟨fun _ h => by cases h; exact hle, hsum⟩, fun n => ?_⟩
        · simp only [charge, checkedSub_of_le hle, checkedAdd_of_lt hsum]
        · simp only [CanCharge, Option.some.injEq, forall_eq']
          omega
      · right
        refine ⟨.limitExceeded .workUnits units (2 ^ 64 - 1 - consumed), ?_, fun h => hsum h.2⟩
        simp only [charge, checkedSub_of_le hle, checkedAdd, if_neg hsum]
    · right
      refine ⟨.limitExceeded .workUnits units remaining, ?_, fun h => hle (h.1 remaining rfl)⟩
      simp only [charge, checkedSub, if_neg hle]

theorem CancellationToken.check_cases (token : CancellationToken) :
    (∃ next, token.check = (.ok (), next) ∧ token.checksLeft ≠ some 0) ∨
      token.check = (.error .cancelled, token) ∧ token.checksLeft = some 0 := by
  obtain ⟨left⟩ := token
  match left with
  | none => exact .inl ⟨_, rfl, fun h => (nomatch h)⟩
  | some 0 => exact .inr ⟨rfl, rfl⟩
  | some (n + 1) => exact .inl ⟨_, rfl, fun h => (nomatch h)⟩

theorem ParseControl.answer_cases (control : ParseControl) (units : Nat) :
    (∃ next, control.answer units = (.ok (), next) ∧
      ∀ n, control.Stuck (units + n) → next.Stuck n ∧ 0 < n) ∨
    ∃ error next, control.answer units = (.error error, next) ∧ next.Stuck units ∧
      ∀ n, control.Stuck n → next.Stuck n := by
  rcases control.cancellation.check_cases with ⟨token, hcheck, hrunning⟩ | ⟨hcheck, hcancelled⟩
  · rcases control.budget.charge_cases units with ⟨budget, hcharge, hcan, hnext⟩ |
      ⟨error, hcharge, hcannot⟩
    · left
      refine ⟨⟨token, budget⟩, by simp only [answer, hcheck, hcharge], fun n hstuck => ?_⟩
      have hbudget : ¬control.budget.CanCharge (units + n) := hstuck.resolve_left hrunning
      refine ⟨.inr fun h => hbudget ((hnext n).mp h), ?_⟩
      rcases Nat.eq_zero_or_pos n with rfl | hpos
      · exact absurd hcan hbudget
      · exact hpos
    · right
      refine ⟨error, ⟨token, control.budget⟩, by simp only [answer, hcheck, hcharge],
        .inr hcannot, fun n hstuck => .inr (hstuck.resolve_left hrunning)⟩
  · right
    refine ⟨.cancelled, control, ?_, .inl hcancelled, fun n hstuck => hstuck⟩
    simp only [answer, hcheck]

namespace MemberReader

/-- A reader with all bytes that it has fed to its checksum. -/
structure Traced where
  reader : MemberReader
  hashed : List UInt8

def consumeKeeping : List (List UInt8) → Traced → Metered (Except Error Unit × Traced)
  | [], traced => return (.ok (), traced)
  | chunk :: chunks, traced => do
    match ← (checkpoint chunk.length).attempt with
    | .ok () =>
      consumeKeeping chunks
        { reader := { traced.reader with checksum := traced.reader.checksum.update chunk },
          hashed := traced.hashed ++ chunk }
    | .error error => return (.error error, traced)

def moveBy (source : List UInt8) (count : Nat) (result : Except Error Unit) (traced : Traced) :
    Except Error (List UInt8) × Traced :=
  match result with
  | .error error => (.error error, traced)
  | .ok () =>
    match okOr (checkedAdd traced.reader.position count)
      (formatError "member read position overflows") with
    | .error error => (.error error, traced)
    | .ok position =>
      (.ok source, { traced with reader := { traced.reader with position := position } })

def advanceKeeping (traced : Traced) (count : Nat) :
    Metered (Except Error (List UInt8) × Traced) :=
  match traced.reader.source count with
  | .error error => return (.error error, traced)
  | .ok source => do
    let (result, traced) ← consumeKeeping (chunks controlChunkSize source) traced
    return moveBy source count result traced

/-- `read_chunk` with the reader that it leaves, also where it fails. -/
def readChunkKeeping (traced : Traced) (outputLength : Nat) :
    Metered (Except Error (List UInt8) × Traced) :=
  match traced.reader.memberLength with
  | .error error => return (.error error, traced)
  | .ok memberLength =>
    if outputLength = 0 ∨ memberLength ≤ traced.reader.position then do
      let result ← (checkpoint 0).attempt
      return (result.map fun _ => [], traced)
    else
      match okOr (checkedSub memberLength traced.reader.position)
        (formatError "member read position exceeds its range") with
      | .error error => return (.error error, traced)
      | .ok remaining => advanceKeeping traced (min remaining outputLength)

def readSchedule : List Nat → Traced → Metered (List (Except Error (List UInt8)) × Traced)
  | [], traced => return ([], traced)
  | outputLength :: outputLengths, traced => do
    let (result, traced) ← readChunkKeeping traced outputLength
    let (results, traced) ← readSchedule outputLengths traced
    return (result :: results, traced)

theorem consume_moveBy (pieces : List (List UInt8)) (source : List UInt8) (count : Nat)
    (traced : Traced) :
    (do
      let checksum ← consume pieces traced.reader.checksum
      let position ← okOr (checkedAdd traced.reader.position count)
        (formatError "member read position overflows")
      return (source, { traced.reader with position := position, checksum := checksum }) :
      Metered (List UInt8 × MemberReader)) =
    (do
      let (result, traced) ← consumeKeeping pieces traced
      let bytes ← (moveBy source count result traced).1
      return (bytes, (moveBy source count result traced).2.reader)) := by
  induction pieces generalizing traced with
  | nil =>
    simp only [consume, consumeKeeping, pure_bind, moveBy]
    cases okOr (checkedAdd traced.reader.position count)
      (formatError "member read position overflows") with
    | error error => rfl
    | ok position => rfl
  | cons piece pieces ih =>
    show Prog.ask _ _ = Prog.ask _ _
    refine congrArg _ (funext fun answer => ?_)
    cases answer with
    | error error => rfl
    | ok _ => exact ih ⟨{ traced.reader with checksum := _ }, traced.hashed ++ piece⟩

theorem advance_eq (traced : Traced) (count : Nat) :
    traced.reader.advance count = (do
      let (result, traced) ← advanceKeeping traced count
      let bytes ← result
      return (bytes, traced.reader)) := by
  unfold advance advanceKeeping
  cases traced.reader.source count with
  | error error => rfl
  | ok source =>
    show consume _ _ >>= _ = (consumeKeeping _ _ >>= _) >>= _
    rw [bind_assoc]
    exact consume_moveBy _ source count traced

/-- Without the reader that a failure leaves, the read is `read_chunk`. -/
theorem readChunk_eq (traced : Traced) (outputLength : Nat) :
    traced.reader.readChunk outputLength = (do
      let (result, traced) ← readChunkKeeping traced outputLength
      let bytes ← result
      return (bytes, traced.reader)) := by
  unfold readChunk readChunkKeeping
  cases traced.reader.memberLength with
  | error error => rfl
  | ok memberLength =>
    by_cases hdone : outputLength = 0 ∨ memberLength ≤ traced.reader.position
    · simp only [if_pos hdone]
      show (if _ then _ else _) = _
      rw [if_pos hdone]
      show Prog.ask _ _ = Prog.ask _ _
      refine congrArg _ (funext fun answer => ?_)
      cases answer <;> rfl
    · simp only [if_neg hdone]
      show (if _ then _ else _) = _
      rw [if_neg hdone]
      cases okOr (checkedSub memberLength traced.reader.position)
        (formatError "member read position exceeds its range") with
      | error error => rfl
      | ok remaining => exact advance_eq traced _

variable {start : MemberReader}

def moved (start : MemberReader) (position : Nat) (checksum : Crc32) : MemberReader :=
  { start with position := position, checksum := checksum }

theorem InRange.moved (h : start.InRange) (position : Nat) (checksum : Crc32) :
    (start.moved position checksum).InRange := ⟨h.ordered, h.within, h.representable⟩

theorem run_consumeKeeping (pieces : List (List UInt8)) (position : Nat) (checksum : Crc32)
    (hashed : List UInt8) (control : ParseControl) :
    (∃ next, (consumeKeeping pieces ⟨start.moved position checksum, hashed⟩).run
        answer control =
          (.ok (.ok (), ⟨start.moved position (checksum.update pieces.flatten),
            hashed ++ pieces.flatten⟩), next) ∧
        ∀ n, control.Stuck (pieces.flatten.length + n) →
          next.Stuck n ∧ (pieces ≠ [] → 0 < n)) ∨
      ∃ error checksum' hashed' next,
        (consumeKeeping pieces ⟨start.moved position checksum, hashed⟩).run
          answer control =
          (.ok (.error error, ⟨start.moved position checksum', hashed'⟩), next) ∧
        next.Stuck pieces.flatten.length ∧ ∀ n, control.Stuck n → next.Stuck n := by
  induction pieces generalizing checksum hashed control with
  | nil =>
    left
    refine ⟨control, ?_, fun n hstuck => ⟨?_, fun h => absurd rfl h⟩⟩
    · rw [List.flatten_nil, List.append_nil]
      rfl
    · rwa [List.flatten_nil, List.length_nil, Nat.zero_add] at hstuck
  | cons piece pieces ih =>
    have hsum : (piece :: pieces).flatten.length = piece.length + pieces.flatten.length := by
      rw [List.flatten_cons, List.length_append]
    rcases control.answer_cases piece.length with ⟨next, hanswer, hstuck⟩ |
      ⟨error, next, hanswer, hstuck, hkept⟩
    · have hrun : (consumeKeeping (piece :: pieces) ⟨start.moved position checksum, hashed⟩).run
          answer control =
          (consumeKeeping pieces ⟨start.moved position (checksum.update piece),
            hashed ++ piece⟩).run answer next := by
        show Prog.run _ (Prog.ask _ _) _ = _
        rw [Prog.run, hanswer]
        rfl
      have hlater : ∀ n, control.Stuck n → next.Stuck n := fun n hn =>
        (hstuck n (hn.mono (Nat.le_add_left n piece.length))).1
      rw [hrun]
      rcases ih (checksum.update piece) (hashed ++ piece) next with ⟨final, hrest, hfinal⟩ |
        ⟨error, checksum', hashed', final, hrest, hfinal, hkept⟩
      · left
        refine ⟨final, ?_, fun n hn => ?_⟩
        · rw [hrest, List.flatten_cons, Crc32.update_append, List.append_assoc]
        · rw [hsum, Nat.add_assoc] at hn
          obtain ⟨hnext, hpos⟩ := hstuck _ hn
          obtain ⟨hn', hrest'⟩ := hfinal n hnext
          refine ⟨hn', fun _ => ?_⟩
          cases pieces with
          | nil => simpa using hpos
          | cons _ _ => exact hrest' (List.cons_ne_nil _ _)
      · right
        refine ⟨error, checksum', hashed', final, hrest, hfinal.mono ?_, fun n hn =>
          hkept n (hlater n hn)⟩
        omega
    · right
      refine ⟨error, checksum, hashed, next, ?_, hstuck.mono (by omega), hkept⟩
      show Prog.run _ (Prog.ask _ _) _ = _
      rw [Prog.run, hanswer]
      rfl

variable {position : Nat} {traced : Traced}

theorem run_advanceKeeping (h : start.InRange) {count : Nat} (hpos : 0 < count)
    (hcount : position + count ≤ start.range.length) (checksum : Crc32) (hashed : List UInt8)
    (control : ParseControl) :
    (∃ next, (advanceKeeping ⟨start.moved position checksum, hashed⟩ count).run
        answer control =
          (.ok (.ok ((start.range.drop position).take count),
            ⟨start.moved (position + count)
              (checksum.update ((start.range.drop position).take count)),
            hashed ++ (start.range.drop position).take count⟩), next) ∧
        ∀ n, control.Stuck (count + n) → next.Stuck n ∧ 0 < n) ∨
      ∃ error checksum' hashed' next,
        (advanceKeeping ⟨start.moved position checksum, hashed⟩ count).run
          answer control =
          (.ok (.error error, ⟨start.moved position checksum', hashed'⟩), next) ∧
        next.Stuck count ∧ ∀ n, control.Stuck n → next.Stuck n := by
  have hsource : (start.moved position checksum).source count =
      .ok ((start.range.drop position).take count) :=
    (h.moved position checksum).source_eq hcount
  have hlength : ((start.range.drop position).take count).length = count := by
    rw [List.length_take, List.length_drop]
    omega
  have hflatten := flatten_chunks (by decide : 0 < controlChunkSize)
    ((start.range.drop position).take count)
  have hpieces : chunks controlChunkSize ((start.range.drop position).take count) ≠ [] := by
    intro hnil
    rw [hnil, List.flatten_nil] at hflatten
    rw [← hflatten] at hlength
    exact absurd hlength (Nat.ne_of_lt hpos)
  have hrepresentable := h.representable
  have hwithin := h.within
  have hrange := h.length_range
  unfold advanceKeeping
  simp only [hsource, run_bind]
  rcases @run_consumeKeeping start
    (chunks controlChunkSize ((start.range.drop position).take count)) position checksum hashed
    control with ⟨next, hrun, hstuck⟩ | ⟨error, checksum', hashed', next, hrun, hstuck, hkept⟩
  · left
    rw [hflatten, hlength] at hstuck
    refine ⟨next, ?_, fun n hn => ⟨(hstuck n hn).1, (hstuck n hn).2 hpieces⟩⟩
    simp only [hrun, hflatten]
    show (Except.ok (moveBy _ _ _ _), _) = _
    rw [moveBy, show (start.moved position _).position = position from rfl,
      checkedAdd_of_lt (by omega), okOr_some]
    rfl
  · right
    rw [hflatten, hlength] at hstuck
    refine ⟨error, checksum', hashed', next, ?_, hstuck, hkept⟩
    simp only [hrun]
    rfl

/-- After some reads the reader has hashed what it passed, or it cannot be read
to its end under the control. -/
inductive Progress (start : MemberReader) (control : ParseControl) (position : Nat) :
    Traced → Prop
  | sound (hposition : position ≤ start.range.length) :
      Progress start control position ⟨start.passed position, start.range.take position⟩
  | doomed (hposition : position < start.range.length) (checksum : Crc32)
      (hashed : List UInt8) (hstuck : control.Stuck (start.range.length - position)) :
      Progress start control position ⟨start.moved position checksum, hashed⟩

theorem Progress.position_le (h : Progress start control position traced) :
    position ≤ start.range.length := by
  cases h with
  | sound hposition => exact hposition
  | doomed hposition _ _ _ => exact Nat.le_of_lt hposition

theorem run_readChunkKeeping (h : start.InRange)
    (hprogress : Progress start control position traced) (outputLength : Nat) :
    ∃ result traced' position' control',
      (readChunkKeeping traced outputLength).run answer control =
        (.ok (result, traced'), control') ∧ Progress start control' position' traced' ∧
      start.range.take position ++ (result.toOption.getD []) = start.range.take position' := by
  have hle := hprogress.position_le
  have hstate : ∃ checksum hashed, traced = ⟨start.moved position checksum, hashed⟩ := by
    cases hprogress with
    | sound _ => exact ⟨_, _, rfl⟩
    | doomed _ checksum hashed _ => exact ⟨checksum, hashed, rfl⟩
  obtain ⟨checksum, hashed, rfl⟩ := hstate
  unfold readChunkKeeping
  simp only [(h.moved position checksum).memberLength_eq]
  by_cases hempty : outputLength = 0 ∨
      (start.moved position checksum).range.length ≤ (start.moved position checksum).position
  · simp only [if_pos hempty]
    rcases control.answer_cases 0 with ⟨next, hanswer, hstuck⟩ |
      ⟨error, next, hanswer, hstuck, hkept⟩
    · refine ⟨.ok [], ⟨start.moved position checksum, hashed⟩, position, next, ?_, ?_,
        List.append_nil _⟩
      · show Prog.run _ (Prog.ask _ _) _ = _
        rw [Prog.run, hanswer]
        rfl
      · cases hprogress with
        | sound hposition => exact .sound hposition
        | doomed hposition _ _ hdoomed =>
          rw [← Nat.zero_add (start.range.length - position)] at hdoomed
          exact .doomed hposition _ _ (hstuck _ hdoomed).1
    · refine ⟨.error error, ⟨start.moved position checksum, hashed⟩, position, next, ?_, ?_,
        List.append_nil _⟩
      · show Prog.run _ (Prog.ask _ _) _ = _
        rw [Prog.run, hanswer]
        rfl
      · cases hprogress with
        | sound hposition => exact .sound hposition
        | doomed hposition _ _ hdoomed => exact .doomed hposition _ _ (hkept _ hdoomed)
  · simp only [if_neg hempty]
    have hlt : position < start.range.length :=
      Nat.lt_of_not_le fun hge => hempty (.inr hge)
    have hpos : 0 < outputLength := Nat.pos_of_ne_zero fun hzero => hempty (.inl hzero)
    have hremaining : okOr (checkedSub (start.moved position checksum).range.length
        (start.moved position checksum).position)
        (formatError "member read position exceeds its range") =
        .ok (start.range.length - position) := congrArg (okOr · _) (checkedSub_of_le hle)
    simp only [hremaining]
    have hcount : position + min (start.range.length - position) outputLength ≤
        start.range.length := by omega
    rcases run_advanceKeeping h (show 0 < min (start.range.length - position) outputLength by omega)
      hcount checksum hashed control with ⟨next, hrun, hstuck⟩ |
      ⟨error, checksum', hashed', next, hrun, hstuck, hkept⟩
    · refine ⟨_, _, position + min (start.range.length - position) outputLength, next, hrun, ?_,
        take_add_drop _ _ _⟩
      cases hprogress with
      | sound _ =>
        have hsound : Progress start next _ ⟨_, _⟩ := Progress.sound hcount
        rw [passed, ← take_add_drop, Crc32.update_append] at hsound
        exact hsound
      | doomed _ _ _ hdoomed =>
        have hsplit : start.range.length - position =
            min (start.range.length - position) outputLength + (start.range.length -
              (position + min (start.range.length - position) outputLength)) := by omega
        rw [hsplit] at hdoomed
        obtain ⟨hnext, hleft⟩ := hstuck _ hdoomed
        exact .doomed (by omega) _ _ hnext
    · refine ⟨_, _, position, next, hrun, ?_, List.append_nil _⟩
      exact .doomed hlt checksum' hashed' (hstuck.mono (by omega))

/-- The induction goes over the reads of the schedule. -/
theorem run_readSchedule (h : start.InRange) (outputLengths : List Nat)
    (hprogress : Progress start control position traced) :
    ∃ results traced' position' control',
      (readSchedule outputLengths traced).run answer control =
        (.ok (results, traced'), control') ∧ Progress start control' position' traced' ∧
      start.range.take position ++ (results.filterMap Except.toOption).flatten =
        start.range.take position' := by
  induction outputLengths generalizing control position traced with
  | nil => exact ⟨[], traced, position, control, rfl, hprogress, List.append_nil _⟩
  | cons outputLength outputLengths ih =>
    obtain ⟨result, traced₁, position₁, control₁, hrun₁, hprogress₁, hbytes₁⟩ :=
      run_readChunkKeeping h hprogress outputLength
    obtain ⟨results, traced₂, position₂, control₂, hrun₂, hprogress₂, hbytes₂⟩ := ih hprogress₁
    refine ⟨result :: results, traced₂, position₂, control₂, ?_, hprogress₂, ?_⟩
    · rw [readSchedule, run_bind]
      simp only [hrun₁, run_bind, hrun₂]
      rfl
    · rw [← hbytes₂, ← hbytes₁, List.append_assoc]
      refine congrArg _ ?_
      cases result with
      | error error => rfl
      | ok bytes => rfl

/-- A control that does not suffice for the rest of a member does not let it be
consumed.  The induction is on the rounds that are left. -/
theorem run_consumeRemainingLoop_stuck (h : start.InRange) (fuel : Nat)
    (hlt : position < start.range.length) (hfuel : start.range.length ≤ position + fuel)
    (checksum : Crc32) (control : ParseControl)
    (hstuck : control.Stuck (start.range.length - position)) :
    ∃ error next, (consumeRemainingLoop start.range.length fuel
      (start.moved position checksum)).run answer control = (.error error, next) := by
  induction fuel generalizing position checksum control with
  | zero => omega
  | succ fuel ih =>
    have hchunk : 0 < ioChunkSize := by decide
    have hif : (start.moved position checksum).position < start.range.length := hlt
    rw [consumeRemainingLoop, if_pos hif, run_bind]
    have hremaining : okOr (checkedSub start.range.length (start.moved position checksum).position)
        (formatError "member read position exceeds its range") =
        .ok (start.range.length - position) :=
      congrArg (okOr · _) (checkedSub_of_le (Nat.le_of_lt hlt))
    have hadvance := advance_eq ⟨start.moved position checksum, []⟩
      (min (start.range.length - position) ioChunkSize)
    simp only at hadvance
    rw [hremaining]
    show ∃ error next, Prog.run _ (advance _ _ >>= _) _ = _
    rw [run_bind, hadvance, run_bind]
    rcases run_advanceKeeping h (show 0 < min (start.range.length - position) ioChunkSize by omega)
      (show position + min (start.range.length - position) ioChunkSize ≤ start.range.length by
        omega) checksum [] control with ⟨next, hrun, hnext⟩ |
      ⟨error, checksum', hashed', next, hrun, -, -⟩
    · have hsplit : start.range.length - position =
          min (start.range.length - position) ioChunkSize + (start.range.length -
            (position + min (start.range.length - position) ioChunkSize)) := by omega
      rw [hsplit] at hstuck
      obtain ⟨hstuck', hleft⟩ := hnext _ hstuck
      rw [hrun]
      exact ih (by omega) (by omega) _ next hstuck'
    · rw [hrun]
      exact ⟨error, next, rfl⟩

theorem strict_consumeRemaining (reader : MemberReader) : reader.consumeRemaining.Strict := by
  have hconsume : ∀ (pieces : List (List UInt8)) (checksum : Crc32),
      (consume pieces checksum).Strict := by
    intro pieces
    induction pieces with
    | nil => exact fun checksum => .pure _
    | cons piece pieces ih => exact fun checksum => .bind (strict_checkpoint _) fun _ => ih _
  have hadvance : ∀ (reader : MemberReader) (count : Nat), (reader.advance count).Strict :=
    fun reader count => .step fun _ => .bind (hconsume _ _) fun _ => .step fun _ => .pure _
  have hloop : ∀ (memberLength fuel : Nat) (reader : MemberReader),
      (consumeRemainingLoop memberLength fuel reader).Strict := by
    intro memberLength fuel
    induction fuel with
    | zero => exact fun reader => .pure _
    | succ fuel ih =>
      exact fun reader => .ite (.step fun _ => .bind (hadvance _ _) fun _ => ih _)
        (.pure _)
  exact .step fun _ => hloop _ _ _

theorem strict_finishReading (reader : MemberReader) : reader.finishReading.Strict :=
  .bind (strict_consumeRemaining reader) fun _ => .lift _

theorem strict_intoBytes (reader : MemberReader) : reader.intoBytes.Strict :=
  .bind (strict_consumeRemaining reader) fun _ => .step fun _ => .ite (.pure _) (.step fun _ =>
    .lift _)

theorem Progress.of_consumed (h : start.InRange)
    (hprogress : Progress start control position traced)
    (hconsume : ∀ error next, traced.reader.consumeRemaining.run answer control ≠
      (.error error, next)) : traced = ⟨start.passed position, start.range.take position⟩ := by
  cases hprogress with
  | sound hposition => rfl
  | doomed hposition checksum hashed hstuck =>
    obtain ⟨error, final, hloop⟩ := run_consumeRemainingLoop_stuck h start.range.length hposition
      (by omega) checksum control hstuck
    have hlength := (h.moved position checksum).memberLength_eq
    refine absurd ?_ (hconsume error final)
    rw [consumeRemaining, run_bind, hlength]
    exact hloop

/-- Reads of a member, then `finish` or `into_bytes`: the reads return a prefix
of the member, and either end succeeds only when every byte was hashed once and
the digests of the member and its folder match. -/
theorem readSchedule_integrity (start : MemberReader) (h : start.InRange)
    (hposition : start.position = 0) (hchecksum : start.checksum = .new)
    (outputLengths : List Nat) (control : ParseControl) :
    ∃ results traced next,
      (readSchedule outputLengths ⟨start, []⟩).run answer control =
        (.ok (results, traced), next) ∧
      (results.filterMap Except.toOption).flatten <+: start.range ∧
      (∀ final, traced.reader.finishReading.run answer next = (.ok (), final) →
        traced.hashed = start.range.take traced.reader.position ∧
        traced.reader.consumeRemaining.granted = .ok (start.passed start.range.length) ∧
        start.Intact) ∧
      ∀ bytes final, traced.reader.intoBytes.run answer next = (.ok bytes, final) →
        traced.hashed = start.range.take traced.reader.position ∧
        traced.reader.consumeRemaining.granted = .ok (start.passed start.range.length) ∧
        start.Intact ∧ bytes = start.range := by
  have hinitial : Progress start control 0 ⟨start, []⟩ := by
    have hsound : Progress start control 0 ⟨_, _⟩ := Progress.sound (Nat.zero_le _)
    have hpassed : start.passed 0 = start := by
      rw [passed, List.take_zero, Crc32.update_nil, ← hposition, ← hchecksum]
    rwa [hpassed, List.take_zero] at hsound
  obtain ⟨results, traced, position, next, hrun, hprogress, hbytes⟩ :=
    run_readSchedule h outputLengths hinitial
  rw [List.take_zero, List.nil_append] at hbytes
  have hle := hprogress.position_le
  refine ⟨results, traced, next, hrun, hbytes ▸ List.take_prefix _ _, fun final hfinish => ?_,
    fun bytes final hinto => ?_⟩
  · have hsound := hprogress.of_consumed h fun error control' hconsume => by
      rw [finishReading, run_bind, hconsume] at hfinish
      cases hfinish
    subst hsound
    obtain ⟨trace, hruns⟩ := Prog.runs_run answer
      (start.passed position).finishReading next
    rw [show (start.passed position).finishReading.run answer next = _ from hfinish]
      at hruns
    exact ⟨rfl, consumeRemaining_granted h hle,
      (finishReading_granted h hle).mp ((strict_finishReading _).granted_of_runs hruns)⟩
  · have hsound := hprogress.of_consumed h fun error control' hconsume => by
      rw [intoBytes, run_bind, hconsume] at hinto
      cases hinto
    subst hsound
    obtain ⟨trace, hruns⟩ := Prog.runs_run answer
      (start.passed position).intoBytes next
    rw [show (start.passed position).intoBytes.run answer next = _ from hinto]
      at hruns
    exact ⟨rfl, consumeRemaining_granted h hle,
      (intoBytes_granted h hle).mp ((strict_intoBytes _).granted_of_runs hruns)⟩

/-- Two bytes in the middle of a folder of four. -/
def middleReader : MemberReader := .new [1, 2, 3, 4] 1 3 (some 0xeae621c7) false false 0

/-- The budget grants one byte: the third read fails. -/
def middleRun : Except Error (List (Except Error (List UInt8)) × Traced) × ParseControl :=
  (readSchedule [1, 0, 5] ⟨middleReader, []⟩).run answer ⟨⟨some 4⟩, .bounded 1⟩

theorem readSchedule_integrity_middleReader :
    ∃ results traced next,
      middleRun = (.ok (results, traced), next) ∧
      results.map Except.toOption = [some [2], some [], none] ∧
      (results.filterMap Except.toOption).flatten <+: middleReader.range ∧
      (∀ final, traced.reader.finishReading.run answer next = (.ok (), final) →
        traced.hashed = middleReader.range.take traced.reader.position ∧
        traced.reader.consumeRemaining.granted =
          .ok (middleReader.passed middleReader.range.length) ∧ middleReader.Intact) ∧
      ∀ bytes final, traced.reader.intoBytes.run answer next = (.ok bytes, final) →
        traced.hashed = middleReader.range.take traced.reader.position ∧
        traced.reader.consumeRemaining.granted =
          .ok (middleReader.passed middleReader.range.length) ∧
        middleReader.Intact ∧ bytes = middleReader.range := by
  obtain ⟨results, traced, next, hrun, hreads⟩ := readSchedule_integrity middleReader
    ⟨by decide, by decide, by decide⟩ rfl rfl [1, 0, 5] ⟨⟨some 4⟩, .bounded 1⟩
  have hresults : (middleRun.1.map fun result => result.1.map Except.toOption) =
      .ok [some [2], some [], none] := by decide +kernel
  rw [middleRun, hrun] at hresults
  exact ⟨results, traced, next, hrun, Except.ok.inj hresults, hreads⟩

end MemberReader

end Unpackio
