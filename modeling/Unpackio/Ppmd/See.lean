/-
The counters of the escape estimation of PPMd7, `See2Context` of `decode/ppmd.rs`,
and those of the reference decoder.

The reference keeps the summary modulo `2 ^ 16`.  This decoder adds with a check,
and so follows the reference up to the first carry and no further.
-/
import Unpackio.ParseUtil

namespace Unpackio
namespace Ppmd

open Except (ok_bind)

def periodBits : Nat := 7

structure See2Context where
  summ : Nat
  shift : Nat
  count : Nat
  deriving DecidableEq, Repr

namespace See2Context

def new (value : Nat) : Except Error See2Context := do
  let shift := 3
  let summ ← okOr (checkedShl 32 value shift) (formatError "PPMd SEE initial summary overflows")
  let summ ← okOr (tryFrom 16 summ) (formatError "PPMd SEE initial summary is out of range")
  return ⟨summ, shift, 4⟩

def mean (context : See2Context) : Except Error (Nat × See2Context) := do
  let result := context.summ >>> context.shift
  let resultU16 ← okOr (tryFrom 16 result) (formatError "PPMd SEE mean is out of range")
  let summ ← okOr (checkedSub context.summ resultU16) (formatError "PPMd SEE summary underflows")
  return (if result = 0 then 1 else result, { context with summ })

def update (context : See2Context) : Except Error See2Context := do
  if context.shift < periodBits then do
    let count ← okOr (checkedSub context.count 1) (formatError "PPMd SEE update count underflows")
    if count = 0 then do
      let summ ← okOr (tryFrom 16 (context.summ + context.summ))
        (formatError "PPMd SEE summary overflows")
      let count ← okOr (checkedShl 8 3 context.shift)
        (formatError "PPMd SEE update count overflows")
      let shift ← okOr (tryFrom 8 (context.shift + 1)) (formatError "PPMd SEE shift overflows")
      return ⟨summ, shift, count⟩
    else return { context with count }
  else return context

/-- What `add_see_summary` does to the counter of its slot. -/
def addSummary (context : See2Context) (amount : Nat) : Except Error See2Context := do
  let amount ← okOr (tryFrom 16 amount)
    (formatError "PPMd SEE summary increment is out of range")
  let summ ← okOr (tryFrom 16 (context.summ + amount)) (formatError "PPMd SEE summary overflows")
  return { context with summ }

end See2Context

/-- What the model does to a counter. -/
inductive SeeOperation where
  | mean
  | update
  | escape (amount : Nat)
  deriving DecidableEq, Repr

namespace SeeOperation

def apply (context : See2Context) : SeeOperation → Except Error See2Context
  | mean => do
    let (_, context) ← context.mean
    return context
  | update => context.update
  | escape amount => context.addSummary amount

/-- The counters of the reference decoder: the summary is a 16-bit number, the
count and the shift are bytes, and nothing is checked. -/
def reference (context : See2Context) : SeeOperation → See2Context
  | mean => { context with summ := context.summ - context.summ >>> context.shift }
  | update =>
    if context.shift < periodBits then
      let count := (context.count + 255) % 2 ^ 8
      if count = 0 then
        ⟨context.summ <<< 1 % 2 ^ 16, (context.shift + 1) % 2 ^ 8, 3 <<< context.shift % 2 ^ 8⟩
      else { context with count }
    else context
  | escape amount => { context with summ := (context.summ + amount) % 2 ^ 16 }

/-- Nothing is carried out of the summary: it is not doubled from `2 ^ 15` on, and
no amount takes it to `2 ^ 16`. -/
def NoCarry (context : See2Context) : SeeOperation → Prop
  | mean => True
  | update => context.shift < periodBits → context.count = 1 → context.summ < 2 ^ 15
  | escape amount => context.summ + amount < 2 ^ 16

instance (context : See2Context) (operation : SeeOperation) :
    Decidable (NoCarry context operation) :=
  match operation with
  | mean => inferInstanceAs (Decidable True)
  | update => inferInstanceAs (Decidable (_ → _ → _))
  | escape _ => inferInstanceAs (Decidable (_ < _))

end SeeOperation

def runSee : See2Context → List SeeOperation → Except Error See2Context
  | context, [] => return context
  | context, operation :: rest => do
    let context ← operation.apply context
    runSee context rest

def referenceSee (context : See2Context) (operations : List SeeOperation) : See2Context :=
  operations.foldl SeeOperation.reference context

def NoCarries : See2Context → List SeeOperation → Prop
  | _, [] => True
  | context, operation :: rest =>
    operation.NoCarry context ∧ NoCarries (operation.reference context) rest

/-- The numbers are those of a 16-bit summary, and the count has not run out. -/
structure See2Context.Fits (context : See2Context) : Prop where
  summ : context.summ < 2 ^ 16
  shift : context.shift ≤ periodBits
  positive : 0 < context.count
  count : context.count < 2 ^ 8

theorem new_eq {i : Nat} (hi : i < 25) :
    See2Context.new (5 * i + 10) = .ok ⟨(5 * i + 10) * 8, 3, 4⟩ := by
  have hshift : checkedShl 32 (5 * i + 10) 3 = some ((5 * i + 10) * 8) := by
    rw [checkedShl, if_pos (by decide), Nat.shiftLeft_eq, Nat.mod_eq_of_lt (by omega)]
  rw [See2Context.new, hshift, okOr_bind, tryFrom_of_lt (by omega)]
  rfl

theorem fits_new {i : Nat} (hi : i < 25) : See2Context.Fits ⟨(5 * i + 10) * 8, 3, 4⟩ :=
  ⟨show (5 * i + 10) * 8 < 2 ^ 16 by omega, show 3 ≤ 7 by decide, show 0 < 4 by decide,
    show 4 < 2 ^ 8 by decide⟩

section Step

variable {context : See2Context} (hfits : context.Fits)
include hfits

theorem count_after : (context.count + 255) % 2 ^ 8 = context.count - 1 := by
  have hpositive := hfits.positive
  have hcount := hfits.count
  omega

omit hfits in
/-- The next count is `3 * 2 ^ shift`. -/
theorem next_count (hshift : context.shift < periodBits) :
    3 <<< context.shift % 2 ^ 8 = 3 * 2 ^ context.shift ∧ 0 < 3 * 2 ^ context.shift ∧
      3 * 2 ^ context.shift < 2 ^ 8 := by
  have hpow : 2 ^ context.shift ≤ 2 ^ 6 :=
    Nat.pow_le_pow_right (by decide) (Nat.le_of_lt_succ hshift)
  have hpositive := Nat.two_pow_pos context.shift
  have hlt : 3 * 2 ^ context.shift < 2 ^ 8 := by omega
  exact ⟨by rw [Nat.shiftLeft_eq, Nat.mod_eq_of_lt hlt], by omega, hlt⟩

theorem fits_reference (operation : SeeOperation) : (operation.reference context).Fits := by
  have hsumm := hfits.summ
  cases operation with
  | mean =>
    exact ⟨Nat.lt_of_le_of_lt (Nat.sub_le _ _) hsumm, hfits.shift, hfits.positive, hfits.count⟩
  | escape amount =>
    exact ⟨Nat.mod_lt _ (by decide), hfits.shift, hfits.positive, hfits.count⟩
  | update =>
    rw [SeeOperation.reference]
    by_cases hshift : context.shift < periodBits
    · rw [if_pos hshift, count_after hfits]
      by_cases hzero : context.count - 1 = 0
      · obtain ⟨hnext, hpositive, hlt⟩ := next_count hshift
        rw [if_pos hzero, hnext]
        refine ⟨Nat.mod_lt _ (by decide), ?_, hpositive, hlt⟩
        show (context.shift + 1) % 2 ^ 8 ≤ periodBits
        exact Nat.le_trans (Nat.mod_le _ _) hshift
      · have hcount := hfits.count
        rw [if_neg hzero]
        exact ⟨hsumm, hfits.shift, Nat.pos_of_ne_zero hzero,
          show context.count - 1 < 2 ^ 8 by omega⟩
    · rw [if_neg hshift]
      exact hfits

theorem apply_mean :
    SeeOperation.mean.apply context = .ok (SeeOperation.mean.reference context) := by
  have hle : context.summ >>> context.shift ≤ context.summ := Nat.shiftRight_le _ _
  have hlt : context.summ >>> context.shift < 2 ^ 16 := Nat.lt_of_le_of_lt hle hfits.summ
  have hsub : checkedSub context.summ (context.summ >>> context.shift) =
      some (context.summ - context.summ >>> context.shift) := if_pos hle
  rw [SeeOperation.apply, See2Context.mean, tryFrom_of_lt hlt, okOr_bind, hsub]
  rfl

omit hfits in
theorem apply_escape {amount : Nat} (hamount : amount < 2 ^ 16) :
    ((SeeOperation.escape amount).NoCarry context ∧ (SeeOperation.escape amount).apply context =
      .ok ((SeeOperation.escape amount).reference context)) ∨
    (¬(SeeOperation.escape amount).NoCarry context ∧ (SeeOperation.escape amount).apply context =
      .error (formatError "PPMd SEE summary overflows")) := by
  rw [SeeOperation.apply, See2Context.addSummary, tryFrom_of_lt hamount, okOr_bind]
  by_cases hcarry : context.summ + amount < 2 ^ 16
  · refine .inl ⟨hcarry, ?_⟩
    rw [tryFrom_of_lt hcarry, SeeOperation.reference, Nat.mod_eq_of_lt hcarry]
    rfl
  · have htry : tryFrom 16 (context.summ + amount) = none := if_neg hcarry
    rw [htry]
    exact .inr ⟨hcarry, rfl⟩

theorem apply_update :
    (SeeOperation.update.NoCarry context ∧
      SeeOperation.update.apply context = .ok (SeeOperation.update.reference context)) ∨
    (¬SeeOperation.update.NoCarry context ∧
      SeeOperation.update.apply context = .error (formatError "PPMd SEE summary overflows")) := by
  have hpositive := hfits.positive
  rw [SeeOperation.apply, See2Context.update, SeeOperation.reference]
  by_cases hshift : context.shift < periodBits
  · have hsub : checkedSub context.count 1 = some (context.count - 1) := if_pos hpositive
    rw [if_pos hshift, if_pos hshift, count_after hfits, hsub, okOr_bind]
    by_cases hzero : context.count - 1 = 0
    · rw [if_pos hzero, if_pos hzero]
      by_cases hcarry : context.summ < 2 ^ 15
      · have hdouble : context.summ + context.summ < 2 ^ 16 := by omega
        have hone : context.summ <<< 1 = context.summ + context.summ := by
          rw [Nat.shiftLeft_eq, Nat.pow_one, Nat.mul_two]
        have hbound : context.shift + 1 < 2 ^ 8 := Nat.lt_of_le_of_lt hshift (by decide)
        have htimes : checkedShl 8 3 context.shift = some (3 <<< context.shift % 2 ^ 8) :=
          if_pos (Nat.lt_succ_of_lt hshift)
        refine .inl ⟨fun _ _ => hcarry, ?_⟩
        rw [tryFrom_of_lt hdouble, okOr_bind, htimes, okOr_bind, tryFrom_of_lt hbound,
          Nat.mod_eq_of_lt hbound, hone, Nat.mod_eq_of_lt hdouble]
        rfl
      · have htry : tryFrom 16 (context.summ + context.summ) = none := if_neg (by omega)
        rw [htry]
        exact .inr ⟨fun h => hcarry (h hshift (by omega)), rfl⟩
    · rw [if_neg hzero, if_neg hzero]
      exact .inl ⟨fun _ hone => absurd hone (by omega), rfl⟩
  · rw [if_neg hshift, if_neg hshift]
    exact .inl ⟨fun h => absurd h hshift, rfl⟩

theorem apply_eq {operation : SeeOperation}
    (hamount : ∀ amount, operation = .escape amount → amount < 2 ^ 16) :
    (operation.NoCarry context ∧ operation.apply context = .ok (operation.reference context)) ∨
    (¬operation.NoCarry context ∧
      operation.apply context = .error (formatError "PPMd SEE summary overflows")) := by
  cases operation with
  | mean => exact .inl ⟨trivial, apply_mean hfits⟩
  | update => exact apply_update hfits
  | escape amount => exact apply_escape (hamount amount rfl)

end Step

theorem runSee_eq {operations : List SeeOperation}
    (hamounts : ∀ amount, .escape amount ∈ operations → amount < 2 ^ 16) {context : See2Context}
    (hfits : context.Fits) :
    (NoCarries context operations ∧
      runSee context operations = .ok (referenceSee context operations)) ∨
    (¬NoCarries context operations ∧
      runSee context operations = .error (formatError "PPMd SEE summary overflows")) := by
  induction operations generalizing context with
  | nil => exact .inl ⟨trivial, rfl⟩
  | cons operation rest ih =>
    have hhead := @apply_eq context hfits operation
      (fun amount h => hamounts amount (h ▸ List.mem_cons_self))
    rw [runSee, NoCarries]
    rcases hhead with ⟨hcarry, happly⟩ | ⟨hcarry, happly⟩
    · have hrest := ih (fun amount h => hamounts amount (List.mem_cons_of_mem _ h))
        (fits_reference hfits operation)
      rw [happly, ok_bind]
      rcases hrest with ⟨hnone, hrun⟩ | ⟨hsome, hrun⟩
      · exact .inl ⟨⟨hcarry, hnone⟩, hrun⟩
      · exact .inr ⟨fun h => hsome h.2, hrun⟩
    · rw [happly]
      exact .inr ⟨fun h => hcarry h.1, rfl⟩

/-- The counters are those of the reference in exactly the runs without a carry. -/
theorem runSee_follows_iff {i : Nat} (hi : i < 25) {operations : List SeeOperation}
    (hamounts : ∀ amount, .escape amount ∈ operations → 1 ≤ amount ∧ amount ≤ 31744) :
    ∃ start, See2Context.new (5 * i + 10) = .ok start ∧
      (runSee start operations = .ok (referenceSee start operations) ↔
        NoCarries start operations) := by
  have hsmall : ∀ amount, .escape amount ∈ operations → amount < 2 ^ 16 :=
    fun amount h => Nat.lt_of_le_of_lt (hamounts amount h).2 (by decide)
  refine ⟨_, new_eq hi, ?_⟩
  rcases runSee_eq hsmall (fits_new hi) with ⟨hcarries, hrun⟩ | ⟨hcarries, hrun⟩
  · exact iff_of_true hrun hcarries
  · rw [hrun]
    exact iff_of_false (fun h => nomatch h) hcarries

theorem runSee_follows_iff_update :
    ∃ start, See2Context.new (5 * 24 + 10) = .ok start ∧
      (runSee start [.mean, .escape 31744, .mean, .update] =
        .ok (referenceSee start [.mean, .escape 31744, .mean, .update]) ↔
          NoCarries start [.mean, .escape 31744, .mean, .update]) :=
  runSee_follows_iff (by decide) (by
    intro amount h
    simp only [List.mem_cons, List.not_mem_nil, or_false, reduceCtorEq, false_or,
      SeeOperation.escape.injEq] at h
    subst h
    decide)

/-- Three escapes from one slot: the reference carries, and this decoder fails. -/
theorem runSee_refuses_carry :
    ∃ start, See2Context.new (5 * 0 + 10) = .ok start ∧
      referenceSee start
        [.mean, .escape 31744, .mean, .escape 31744, .mean, .escape 31744] = ⟨18343, 3, 4⟩ ∧
      runSee start [.mean, .escape 31744, .mean, .escape 31744, .mean, .escape 31744] =
        .error (formatError "PPMd SEE summary overflows") :=
  ⟨⟨80, 3, 4⟩, rfl, by decide, rfl⟩

end Ppmd
end Unpackio
