/-
Passes that replace a list piece by piece, and loops that make them in place.

A step sees the state and the whole rest of the list, and puts back as many
elements as it takes.  What a step sees of the elements behind its piece has not
been replaced yet.  So one pass undoes another when each of its steps undoes a
step of the other in front of the replaced rest.
-/
import Unpackio.Foundation.Runs

namespace Rewriting

variable {σ α : Type}

/-- From the state and the rest of the list: the piece that is put back, the next
state, and the rest behind it. -/
abbrev Step (σ α : Type) : Type := σ → List α → Option (List α × σ × List α)

/-- A pass of at most `fuel` steps. -/
def passFrom (next : Step σ α) : Nat → σ → List α → List α
  | 0, _, list => list
  | fuel + 1, state, list =>
    match next state list with
    | none => list
    | some (piece, state, rest) => piece ++ passFrom next fuel state rest

/-- Every step takes an element or more, and puts as many back. -/
def Balanced (next : Step σ α) : Prop :=
  ∀ state list piece state' rest, next state list = some (piece, state', rest) →
    0 < piece.length ∧ piece.length + rest.length = list.length

def pass (next : Step σ α) (state : σ) (list : List α) : List α :=
  passFrom next list.length state list

section Pass

variable {next : Step σ α} (hnext : Balanced next)
include hnext

theorem passFrom_eq_passFrom {fuel more : Nat} {list : List α} (hfuel : list.length ≤ fuel)
    (hmore : list.length ≤ more) (state : σ) :
    passFrom next fuel state list = passFrom next more state list := by
  induction fuel generalizing more state list with
  | zero =>
    have hnil := List.length_eq_zero_iff.mp (Nat.le_zero.mp hfuel)
    subst hnil
    cases more with
    | zero => rfl
    | succ more =>
      rw [passFrom, passFrom]
      cases hstep : next state [] with
      | none => rfl
      | some step =>
        have hcount := hnext state [] step.1 step.2.1 step.2.2 hstep
        rw [List.length_nil] at hcount
        omega
  | succ fuel ih =>
    rw [passFrom]
    cases hstep : next state list with
    | none =>
      cases more with
      | zero => rfl
      | succ more => rw [passFrom, hstep]
    | some step =>
      obtain ⟨piece, state', rest⟩ := step
      have hcount := hnext state list piece state' rest hstep
      cases more with
      | zero => omega
      | succ more =>
        rw [passFrom, hstep]
        exact congrArg (piece ++ ·) (ih (by omega) (by omega) state')

theorem pass_of_some {state state' : σ} {list piece rest : List α}
    (h : next state list = some (piece, state', rest)) :
    pass next state list = piece ++ pass next state' rest := by
  have hcount := hnext state list piece state' rest h
  have hpositive : list.length = list.length - 1 + 1 := by omega
  rw [pass, hpositive, passFrom, h]
  exact congrArg (piece ++ ·) (passFrom_eq_passFrom hnext (by omega) (Nat.le_refl _) state')

omit hnext in
theorem pass_of_none {state : σ} {list : List α} (h : next state list = none) :
    pass next state list = list := by
  rw [pass]
  cases list.length with
  | zero => rfl
  | succ fuel => rw [passFrom, h]

/-- Induction over the steps of a pass. -/
theorem pass_induction {motive : σ → List α → Prop}
    (hstop : ∀ state list, next state list = none → motive state list)
    (hstep : ∀ state list piece state' rest, next state list = some (piece, state', rest) →
      motive state' rest → motive state list) (state : σ) (list : List α) : motive state list := by
  induction hcount : list.length using Nat.strongRecOn generalizing state list with
  | _ count ih =>
    cases h : next state list with
    | none => exact hstop state list h
    | some step =>
      have hlength := hnext state list step.1 step.2.1 step.2.2 h
      exact hstep state list step.1 step.2.1 step.2.2 h
        (ih step.2.2.length (by omega) step.2.1 step.2.2 rfl)

theorem length_pass (state : σ) (list : List α) : (pass next state list).length = list.length := by
  induction state, list using pass_induction hnext with
  | hstop state list h => rw [pass_of_none h]
  | hstep state list piece state' rest h ih =>
    rw [pass_of_some hnext h, List.length_append, ih]
    exact (hnext state list piece state' rest h).2

end Pass

/-- A pass is undone when every step is undone in front of the replaced rest.
`Good` holds of every state on the way. -/
theorem pass_pass {forward backward : Step σ α} (hforward : Balanced forward)
    (hbackward : Balanced backward) {Good : σ → Prop}
    (hgood : ∀ state list piece state' rest, Good state →
      forward state list = some (piece, state', rest) → Good state')
    (hstop : ∀ state list, Good state → forward state list = none → backward state list = none)
    (hstep : ∀ state list piece state' rest, Good state →
      forward state list = some (piece, state', rest) → ∃ original, list = original ++ rest ∧
        backward state (piece ++ pass forward state' rest) =
          some (original, state', pass forward state' rest))
    {state : σ} (hstate : Good state) (list : List α) :
    pass backward state (pass forward state list) = list := by
  induction state, list using pass_induction hforward with
  | hstop state list h => rw [pass_of_none h, pass_of_none (hstop state list hstate h)]
  | hstep state list piece state' rest h ih =>
    obtain ⟨original, rfl, hundo⟩ := hstep state list piece state' rest hstate h
    rw [pass_of_some hforward h, pass_of_some hbackward hundo,
      ih (hgood state _ piece state' rest hstate h)]

/-- From a state and a list, the pass makes this front and comes to that state and
rest. -/
inductive Makes (next : Step σ α) : σ → List α → List α → σ → List α → Prop where
  | refl (state : σ) (list : List α) : Makes next state list [] state list
  | step {state state' last : σ} {list piece rest made left : List α}
      (hstep : next state list = some (piece, state', rest))
      (hrest : Makes next state' rest made last left) :
      Makes next state list (piece ++ made) last left

namespace Makes

variable {next : Step σ α} {state state' last : σ} {list rest left made all : List α}

section

variable (hnext : Balanced next) (h : Makes next state list made state' rest)
include hnext h

theorem pass_eq : pass next state list = made ++ pass next state' rest := by
  induction h with
  | refl => rfl
  | step hstep _ ih => rw [pass_of_some hnext hstep, ih, List.append_assoc]

theorem length_eq : made.length + rest.length = list.length := by
  induction h with
  | refl => exact Nat.zero_add _
  | step hstep _ ih =>
    rw [List.length_append, Nat.add_assoc, ih]
    exact (hnext _ _ _ _ _ hstep).2

end

/-- A pass that stops goes through every place before. -/
theorem rest_of_stop (h : Makes next state list made state' rest)
    (hall : Makes next state list all last left) (hstop : next last left = none) :
    ∃ more, all = made ++ more ∧ Makes next state' rest more last left := by
  induction h generalizing all with
  | refl => exact ⟨all, rfl, hall⟩
  | step hstep _ ih =>
    cases hall with
    | refl =>
      rw [hstop] at hstep
      cases hstep
    | step hstep' hrest =>
      rw [hstep] at hstep'
      cases hstep'
      obtain ⟨more, rfl, hmore⟩ := ih hrest
      exact ⟨more, (List.append_assoc _ _ _).symm, hmore⟩

end Makes

theorem exists_stop {next : Step σ α} (hnext : Balanced next) (state : σ) (list : List α) :
    ∃ made last left, Makes next state list made last left ∧ next last left = none := by
  induction state, list using pass_induction hnext with
  | hstop state list h => exact ⟨[], state, list, .refl state list, h⟩
  | hstep state list piece state' rest h ih =>
    obtain ⟨made, last, left, hmade, hstop⟩ := ih
    exact ⟨piece ++ made, last, left, .step h hmade, hstop⟩

end Rewriting

namespace Prog

variable {E ε σ τ α : Type}

/-- `while condition { body }`, for at most `fuel` rounds. -/
def whileLoop (condition : σ → Bool) (body : σ → Prog E ε σ) : Nat → σ → Prog E ε σ
  | 0, state => return state
  | fuel + 1, state =>
    if condition state then do
      let state ← body state
      whileLoop condition body fuel state
    else return state

variable {condition : σ → Bool}

theorem whileLoop_stop {body : σ → Prog E ε σ} {state : σ} (h : condition state = false)
    (fuel : Nat) : whileLoop condition body fuel state = pure state := by
  cases fuel with
  | zero => rfl
  | succ fuel => rw [whileLoop, h, if_neg Bool.false_ne_true]

theorem whileLoop_round {body : σ → Prog E ε σ} {state state' : σ} (h : condition state = true)
    (hbody : (body state).granted = .ok state') (fuel : Nat) :
    (whileLoop condition body (fuel + 1) state).granted =
      (whileLoop condition body fuel state').granted := by
  rw [whileLoop, if_pos h, granted_bind, hbody]
  rfl

/-- What every round keeps holds at the end, and the loop has ended by its
condition.  `measure` goes down in every round. -/
theorem whileLoop_keeps {condition : σ → Bool} {body : σ → Prog E ε σ} {measure : σ → Nat}
    {Kept : σ → Prop} (hzero : ∀ state, measure state = 0 → condition state = false)
    (hbody : ∀ state state', condition state = true → Kept state →
      (body state).granted = .ok state' → measure state' < measure state ∧ Kept state')
    {fuel : Nat} {state last : σ} (hfuel : measure state ≤ fuel) (hkept : Kept state)
    (h : (whileLoop condition body fuel state).granted = .ok last) :
    condition last = false ∧ Kept last := by
  induction fuel generalizing state with
  | zero =>
    cases h
    exact ⟨hzero _ (Nat.le_zero.mp hfuel), hkept⟩
  | succ fuel ih =>
    cases hcondition : condition state with
    | false =>
      rw [whileLoop_stop hcondition] at h
      cases h
      exact ⟨hcondition, hkept⟩
    | true =>
      rw [whileLoop, if_pos hcondition, granted_bind_eq_ok] at h
      obtain ⟨state', hround, hrest⟩ := h
      obtain ⟨hless, hkept'⟩ := hbody state state' hcondition hkept hround
      exact ih (by omega) hkept' hrest

theorem strict_whileLoop {body : σ → Prog E ε σ} (hbody : ∀ state, (body state).Strict) (fuel : Nat)
    (state : σ) : (whileLoop condition body fuel state).Strict := by
  induction fuel generalizing state with
  | zero => exact .pure _
  | succ fuel ih => exact .ite (.bind (hbody state) fun next => ih next) (.pure _)

/-- A loop whose rounds are the steps of a pass makes that pass in place.
`Stands state front inner rest` says that the loop has made `front`, and that the
pass stands in front of `rest`. -/
theorem whileLoop_granted {body : σ → Prog E ε σ} {next : Rewriting.Step τ α}
    (hnext : Rewriting.Balanced next) {Stands : σ → List α → τ → List α → Prop}
    (hstop : ∀ state front inner rest, Stands state front inner rest → next inner rest = none →
      condition state = false)
    (hstep : ∀ state front inner rest piece inner' rest', Stands state front inner rest →
      next inner rest = some (piece, inner', rest') → condition state = true ∧
        ∃ state', (body state).granted = .ok state' ∧ Stands state' (front ++ piece) inner' rest')
    {fuel : Nat} {state : σ} {front rest : List α} {inner : τ} (hfuel : rest.length ≤ fuel)
    (h : Stands state front inner rest) :
    ∃ state' front' inner' rest', (whileLoop condition body fuel state).granted = .ok state' ∧
      Stands state' front' inner' rest' ∧
        front' ++ rest' = front ++ Rewriting.pass next inner rest := by
  induction fuel generalizing state front inner rest with
  | zero =>
    have hnil := List.length_eq_zero_iff.mp (Nat.le_zero.mp hfuel)
    subst hnil
    exact ⟨state, front, inner, [], rfl, h, rfl⟩
  | succ fuel ih =>
    rw [whileLoop]
    cases hround : next inner rest with
    | none =>
      rw [hstop state front inner rest h hround]
      exact ⟨state, front, inner, rest, rfl, h, by rw [Rewriting.pass_of_none hround]⟩
    | some step =>
      obtain ⟨hcondition, state', hbody, hstands⟩ :=
        hstep state front inner rest step.1 step.2.1 step.2.2 h hround
      have hcount := hnext inner rest step.1 step.2.1 step.2.2 hround
      obtain ⟨last, front', inner', rest', hrest, hlast, heq⟩ := ih (by omega) hstands
      refine ⟨last, front', inner', rest', ?_, hlast, ?_⟩
      · rw [if_pos hcondition, granted_bind, hbody]
        exact hrest
      · rw [heq, Rewriting.pass_of_some hnext hround, List.append_assoc]

end Prog
