/-
Two programs that ask the same.

`Coupled R p q` says that `p` and `q` make the same requests, whatever the answers
are, and that they end with one error or with values that are related by `R`.  It
composes along `>>=`, so two programs over different states are followed side by side.
-/
import Unpackio.Foundation.Prog

namespace Prog

variable {E ε α β γ δ σ τ : Type}

/-- The two ask the same, and end with the same error or with related values. -/
def Coupled (R : α → β → Prop) : Prog E ε α → Prog E ε β → Prop
  | .done (.ok a), .done (.ok b) => R a b
  | .done (.error e), .done (.error f) => e = f
  | .ask q k, .ask r l => q = r ∧ ∀ answer, Coupled R (k answer) (l answer)
  | _, _ => False

namespace Coupled

variable {R : α → β → Prop}

theorem pure {a : α} {b : β} (h : R a b) :
    Coupled R (Pure.pure a : Prog E ε α) (Pure.pure b) := h

theorem refl {R : α → α → Prop} (h : ∀ a, R a a) (p : Prog E ε α) : Coupled R p p := by
  induction p with
  | done r =>
    cases r with
    | error e => rfl
    | ok a => exact h a
  | ask q k ih => exact ⟨rfl, ih⟩

variable {p : Prog E ε α} {q : Prog E ε β}

theorem mono {R' : α → β → Prop} (h : Coupled R p q) (himp : ∀ a b, R a b → R' a b) :
    Coupled R' p q := by
  induction p generalizing q with
  | done r =>
    cases q with
    | done s =>
      cases r with
      | error e =>
        cases s with
        | error f => exact h
        | ok b => exact h.elim
      | ok a =>
        cases s with
        | error f => exact h.elim
        | ok b => exact himp a b h
    | ask => cases r <;> exact h.elim
  | ask q k ih =>
    cases q with
    | done s => cases s <;> exact h.elim
    | ask r l => exact ⟨h.1, fun answer => ih answer (h.2 answer)⟩

theorem bind {R' : γ → δ → Prop} {k : α → Prog E ε γ} {l : β → Prog E ε δ} (h : Coupled R p q)
    (hk : ∀ a b, R a b → Coupled R' (k a) (l b)) : Coupled R' (p >>= k) (q >>= l) := by
  induction p generalizing q with
  | done r =>
    cases q with
    | done s =>
      cases r with
      | error e =>
        cases s with
        | error f => exact h
        | ok b => exact h.elim
      | ok a =>
        cases s with
        | error f => exact h.elim
        | ok b => exact hk a b h
    | ask => cases r <;> exact h.elim
  | ask q k' ih =>
    cases q with
    | done s => cases s <;> exact h.elim
    | ask r l' => exact ⟨h.1, fun answer => ih answer (h.2 answer)⟩

theorem step {p : Prog E ε γ} {k : γ → Prog E ε α} {l : γ → Prog E ε β}
    (hk : ∀ c, Coupled R (k c) (l c)) : Coupled R (p >>= k) (p >>= l) :=
  bind (refl (fun _ => rfl) p) fun a b h => by
    subst h
    exact hk a

/-- A checked value that is there, in front of the first. -/
theorem left {a : γ} {k : γ → Prog E ε α} {r : Except ε γ} (hr : r = .ok a)
    (hk : Coupled R (k a) q) :
    Coupled R ((liftM r : Prog E ε γ) >>= k) q := by
  subst hr
  exact hk

/-- A checked value that is there, in front of the second. -/
theorem right {b : γ} {l : γ → Prog E ε β} {r : Except ε γ} (hr : r = .ok b)
    (hl : Coupled R p (l b)) : Coupled R p ((liftM r : Prog E ε γ) >>= l) := by
  subst hr
  exact hl

theorem foldlM_range {f : σ → Nat → Prog E ε σ} {g : τ → Nat → Prog E ε τ}
    {R : Nat → σ → τ → Prop} {total : Nat} {s : σ} {t : τ} (hst : R 0 s t)
    (hstep : ∀ index < total, ∀ s t, R index s t → Coupled (R (index + 1)) (f s index)
      (g t index)) :
    Coupled (R total) ((List.range total).foldlM f s) ((List.range total).foldlM g t) := by
  induction total with
  | zero => exact .pure hst
  | succ total ih =>
    rw [List.range_succ, List.foldlM_append, List.foldlM_append]
    refine .bind (ih fun index hlt => hstep index (Nat.lt_succ_of_lt hlt)) fun s t hst => ?_
    rw [List.foldlM_cons, List.foldlM_cons]
    exact .bind (hstep total (Nat.lt_succ_self total) s t hst) fun s t hst => .pure hst

/-- What is read alike of related values makes one program of the two. -/
theorem map_eq {f : α → γ} {g : β → γ} (h : Coupled R p q) (hfg : ∀ a b, R a b → f a = g b) :
    f <$> p = g <$> q := by
  rw [← bind_pure_comp, ← bind_pure_comp]
  induction p generalizing q with
  | done r =>
    cases q with
    | done s =>
      cases r with
      | error e =>
        cases s with
        | error f => exact congrArg (fun e => Prog.done (.error e)) h
        | ok b => exact h.elim
      | ok a =>
        cases s with
        | error f => exact h.elim
        | ok b => exact congrArg (fun c => Prog.done (.ok c)) (hfg a b h)
    | ask => cases r <;> exact h.elim
  | ask q k ih =>
    cases q with
    | done s => cases s <;> exact h.elim
    | ask r l =>
      obtain ⟨rfl, h⟩ := h
      exact congrArg (Prog.ask q) (funext fun answer => ih answer (h answer))

end Coupled

theorem foldlM_congr {f g : σ → α → Prog E ε σ} {l : List α} (h : ∀ a ∈ l, ∀ s, f s a = g s a)
    (s : σ) : l.foldlM f s = l.foldlM g s := by
  induction l generalizing s with
  | nil => rfl
  | cons a l ih =>
    rw [List.foldlM_cons, List.foldlM_cons, h a (List.mem_cons_self ..)]
    exact bind_congr fun s => ih (fun b hb => h b (List.mem_cons_of_mem _ hb)) s

theorem foldlM_flatMap {l : List α} {list : α → List β} {f : σ → β → Prog E ε σ} (s : σ) :
    (l.flatMap list).foldlM f s = l.foldlM (fun s a => (list a).foldlM f s) s := by
  induction l generalizing s with
  | nil => rfl
  | cons a l ih =>
    rw [List.flatMap_cons, List.foldlM_append, List.foldlM_cons]
    exact bind_congr fun s => ih s

end Prog
