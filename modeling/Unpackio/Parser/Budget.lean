/-
The work budget and the cancellation token only gate the header pipeline.

A program that passes refusals on makes the requests of its granted run until one
is refused.  So two budgets differ only in where they refuse, and what either
consumes is the sum of one list of units.
-/
import Unpackio.Parser.Passes

namespace Unpackio

open ParseControl (answer)
open Prog (runAsked)

variable {α : Type}

def ParseControl.unlimited : ParseControl := ⟨⟨none⟩, .unlimited⟩

def ParseControl.bounded (units : Nat) : ParseControl := ⟨⟨none⟩, .bounded units⟩

theorem CancellationToken.check_error {token : CancellationToken} {e : Error}
    (h : token.check.1 = .error e) : e = .cancelled := by
  obtain ⟨_ | _ | left⟩ := token <;> cases h
  rfl

theorem WorkBudget.charge_error {budget : WorkBudget} {units : Nat} {e : Error}
    (h : (budget.charge units).1 = .error e) :
    ∃ maximum, e = .limitExceeded .workUnits units maximum := by
  unfold charge at h
  split at h
  · split at h
    · cases h
      exact ⟨_, rfl⟩
    · split at h <;> cases h
      exact ⟨_, rfl⟩
  · split at h <;> cases h
    exact ⟨_, rfl⟩

theorem ParseControl.answer_fatal (control : ParseControl) (units : Nat) (e : Error)
    (h : (control.answer units).1 = .error e) : candidateErrorIsFatal e = true := by
  unfold answer at h
  split at h
  · rename_i heq
    cases h
    have hcheck := CancellationToken.check_error (congrArg Prod.fst heq)
    rw [hcheck]
    rfl
  · obtain ⟨maximum, rfl⟩ := WorkBudget.charge_error h
    rfl

/-- The outcome under a bound of `limit` units, against that without one: the
outcome is the same and as many units are consumed, or the units do not suffice.
Where the units without a bound fill the 64-bit counter, the refused charge states
what the bound has left. -/
structure Gated (limit : Nat) (free bounded : Except Error α × ParseControl) : Prop where
  enough : free.2.budget.consumed ≤ limit →
    bounded.2.budget.consumed = free.2.budget.consumed ∧
      (bounded.1 = free.1 ∨ ∃ requested, 2 ^ 64 ≤ free.2.budget.consumed + requested ∧
        free.1 = .error (.limitExceeded .workUnits requested
          (2 ^ 64 - 1 - free.2.budget.consumed)) ∧
        bounded.1 = .error (.limitExceeded .workUnits requested
          (limit - free.2.budget.consumed)))
  short : limit < free.2.budget.consumed → ∃ requested maximum, maximum < requested ∧
    bounded.1 = .error (.limitExceeded .workUnits requested maximum)

section

variable {limit consumed units : Nat}

theorem answer_free (hfits : consumed + units < 2 ^ 64) :
    answer ⟨⟨none⟩, ⟨none, consumed⟩⟩ units =
      (.ok (), ⟨⟨none⟩, ⟨none, consumed + units⟩⟩) := by
  simp only [answer, CancellationToken.check, WorkBudget.charge,
    checkedAdd_of_lt hfits]

theorem answer_free_full (hfull : 2 ^ 64 ≤ consumed + units) :
    answer ⟨⟨none⟩, ⟨none, consumed⟩⟩ units =
      (.error (.limitExceeded .workUnits units (2 ^ 64 - 1 - consumed)),
        ⟨⟨none⟩, ⟨none, consumed⟩⟩) := by
  simp only [answer, CancellationToken.check, WorkBudget.charge, checkedAdd,
    if_neg (Nat.not_lt.mpr hfull)]

theorem answer_bounded (hlimit : limit < 2 ^ 64) (hfits : consumed + units ≤ limit) :
    answer ⟨⟨none⟩, ⟨some (limit - consumed), consumed⟩⟩ units =
      (.ok (), ⟨⟨none⟩, ⟨some (limit - (consumed + units)), consumed + units⟩⟩) := by
  simp only [answer, CancellationToken.check, WorkBudget.charge,
    checkedSub_of_le (show units ≤ limit - consumed by omega), Nat.sub_sub,
    checkedAdd_of_lt (show consumed + units < 2 ^ 64 by omega)]

theorem answer_bounded_full (hle : consumed ≤ limit) (hfull : limit < consumed + units) :
    answer ⟨⟨none⟩, ⟨some (limit - consumed), consumed⟩⟩ units =
      (.error (.limitExceeded .workUnits units (limit - consumed)),
        ⟨⟨none⟩, ⟨some (limit - consumed), consumed⟩⟩) := by
  simp only [answer, CancellationToken.check, WorkBudget.charge, checkedSub,
    if_neg (show ¬units ≤ limit - consumed by omega)]

end

theorem le_consumed_runAsked (requests : List Nat) (result : Except Error α) (consumed : Nat) :
    consumed ≤ (runAsked answer requests result
      ⟨⟨none⟩, ⟨none, consumed⟩⟩).2.budget.consumed := by
  induction requests generalizing consumed with
  | nil => exact Nat.le_refl _
  | cons units requests ih =>
    by_cases hfits : consumed + units < 2 ^ 64
    · simp only [runAsked, answer_free hfits]
      exact Nat.le_trans (Nat.le_add_right _ _) (ih _)
    · simp only [runAsked, answer_free_full (Nat.not_lt.mp hfits)]
      exact Nat.le_refl _

/-- The invariant is that the bounded budget has left what the limit exceeds the
consumed units by. -/
theorem gated_runAsked (requests : List Nat) (result : Except Error α) {limit consumed : Nat}
    (hlimit : limit < 2 ^ 64) (hle : consumed ≤ limit) :
    Gated limit
      (runAsked answer requests result ⟨⟨none⟩, ⟨none, consumed⟩⟩)
      (runAsked answer requests result
        ⟨⟨none⟩, ⟨some (limit - consumed), consumed⟩⟩) := by
  induction requests generalizing consumed with
  | nil => exact ⟨fun _ => ⟨rfl, .inl rfl⟩, fun hshort => absurd hle (Nat.not_le.mpr hshort)⟩
  | cons units requests ih =>
    by_cases hfull : 2 ^ 64 ≤ consumed + units
    · simp only [runAsked, answer_free_full hfull,
        answer_bounded_full hle (show limit < consumed + units by omega)]
      exact ⟨fun _ => ⟨rfl, .inr ⟨units, hfull, rfl, rfl⟩⟩,
        fun hshort => absurd hle (Nat.not_le.mpr hshort)⟩
    · have hfits : consumed + units < 2 ^ 64 := by omega
      by_cases hbound : consumed + units ≤ limit
      · simp only [runAsked, answer_free hfits, answer_bounded hlimit hbound]
        exact ih hbound
      · have hover : limit < consumed + units := by omega
        have hmore := le_consumed_runAsked requests result (consumed + units)
        simp only [runAsked, answer_free hfits, answer_bounded_full hle hover]
        exact ⟨fun henough => absurd (Nat.le_trans hmore henough) (Nat.not_le.mpr hover),
          fun _ => ⟨units, limit - consumed, by omega, rfl⟩⟩

theorem answer_running (left units : Nat) (budget : WorkBudget) :
    answer ⟨⟨some (left + 1)⟩, budget⟩ units =
      ((answer ⟨⟨none⟩, budget⟩ units).1,
        ⟨⟨some left⟩, (answer ⟨⟨none⟩, budget⟩ units).2.budget⟩) := rfl

/-- The outcome when the token is cancelled after `left` checks, against that when
it never is and `checks` are made. -/
def Interrupted (checks left : Nat) (free cancelled : Except Error α × ParseControl) : Prop :=
  if left < checks then cancelled.1 = .error .cancelled
  else cancelled = (free.1, ⟨⟨some (left - checks)⟩, free.2.budget⟩)

theorem interrupted_runAsked (requests : List Nat) (result : Except Error α)
    (budget : WorkBudget) :
    ∃ checks, ∀ left, Interrupted checks left
      (runAsked answer requests result ⟨⟨none⟩, budget⟩)
      (runAsked answer requests result ⟨⟨some left⟩, budget⟩) := by
  induction requests generalizing budget with
  | nil => exact ⟨0, fun left => rfl⟩
  | cons units requests ih =>
    -- The first check is made in either case, and a refused charge ends both runs.
    cases hcharge : budget.charge units with
    | mk charged next =>
      have hfree : answer ⟨⟨none⟩, budget⟩ units = (charged, ⟨⟨none⟩, next⟩) := by
        simp only [answer, CancellationToken.check, hcharge]
      cases charged with
      | error e =>
        refine ⟨1, fun left => ?_⟩
        cases left with
        | zero => exact rfl
        | succ left =>
          simp only [runAsked, answer_running, hfree]
          exact rfl
      | ok _ =>
        obtain ⟨checks, hchecks⟩ := ih next
        refine ⟨checks + 1, fun left => ?_⟩
        cases left with
        | zero => exact rfl
        | succ left =>
          simp only [runAsked, answer_running, hfree]
          have h := hchecks left
          unfold Interrupted at h ⊢
          rw [Nat.add_sub_add_right]
          simpa only [Nat.add_lt_add_iff_right] using h

theorem parseArchive_run (bytes : List UInt8) (limits : Limits) (control : ParseControl) :
    (parseArchive bytes limits).run answer control =
      runAsked answer (parseArchive bytes limits).asked
        (parseArchive bytes limits).granted control :=
  (passes_parseArchive bytes limits).run_eq ParseControl.answer_fatal control

/-- With as many units as the run without a bound consumes, or more, the run with
a bound has the same result and consumes as many; with fewer units they do not
suffice.  A token that is cancelled ends the run at its next check. -/
theorem parseArchive_gated (bytes : List UInt8) (limits : Limits) (units : UInt64)
    (budget : WorkBudget) :
    Gated units.toNat
      ((parseArchive bytes limits).run answer .unlimited)
      ((parseArchive bytes limits).run answer (.bounded units.toNat)) ∧
    ∃ checks, ∀ left, Interrupted checks left
      ((parseArchive bytes limits).run answer ⟨⟨none⟩, budget⟩)
      ((parseArchive bytes limits).run answer ⟨⟨some left⟩, budget⟩) := by
  simp only [parseArchive_run]
  exact ⟨gated_runAsked _ _ units.toNat_lt (Nat.zero_le _), interrupted_runAsked _ _ budget⟩

/-- PackInfo declares 2^64 - 1 packed streams, and their sizes are to follow. -/
def fullCounterArchive : List UInt8 :=
  [0x37, 0x7a, 0xbc, 0xaf, 0x27, 0x1c, 0x00, 0x04, 0x04, 0x78, 0x95, 0xb4, 0x00, 0x00, 0x00, 0x00,
   0x00, 0x00, 0x00, 0x00, 0x0e, 0x00, 0x00, 0x00, 0x00, 0x00, 0x00, 0x00, 0xc4, 0xdb, 0x80, 0xdb,
   0x01, 0x04, 0x06, 0x00, 0xff, 0xff, 0xff, 0xff, 0xff, 0xff, 0xff, 0xff, 0xff, 0x09]

def manyStreams : Limits := { Limits.default with maxTotalStreams := 2 ^ 64 - 1 }

theorem fullCounterArchive_consumed :
    ((parseArchive fullCounterArchive manyStreams).run answer
      .unlimited).2.budget.consumed = 88 := by
  decide +kernel

/-- The charge for the sizes does not fit the 64-bit counter.  The error then
states what is left of the counter or of the bound. -/
theorem bounded_result_differs :
    ¬∀ (bytes : List UInt8) (limits : Limits) (units : UInt64),
      let free := (parseArchive bytes limits).run answer .unlimited
      free.2.budget.consumed < 2 ^ 64 - 1 → free.2.budget.consumed ≤ units.toNat →
        ((parseArchive bytes limits).run answer (.bounded units.toNat)).1 =
          free.1 := by
  intro h
  have hsame := h fullCounterArchive manyStreams 1000
    (by rw [fullCounterArchive_consumed]; decide) (by rw [fullCounterArchive_consumed]; decide)
  have hfree : ((parseArchive fullCounterArchive manyStreams).run answer
      .unlimited).1 = .error (.limitExceeded .workUnits (2 ^ 64 - 1) (2 ^ 64 - 1 - 88)) := by
    decide +kernel
  have hbounded : ((parseArchive fullCounterArchive manyStreams).run answer
      (.bounded 1000)).1 = .error (.limitExceeded .workUnits (2 ^ 64 - 1) (1000 - 88)) := by
    decide +kernel
  have hunits : (1000 : UInt64).toNat = 1000 := rfl
  rw [hunits, hfree, hbounded] at hsame
  exact absurd hsame (by decide)

end Unpackio
