/-
Programs that ask their environment for permission while they run.

A `Prog` is a tree.  A leaf is a result, and an inner node names one request and
says how to go on for either answer, so a refusal can be handled like any other
error.  Two readings are used: `granted`, where every request is allowed, and
`run`, where a state decides each answer.

`Except.Ensures` says what holds of a result, if there is one.  `Carries f p q` says
that where `p` ends with a value, `q` ends with its image under `f`.  Both compose
along `>>=`, each step with what is known of the value before it.
-/
import Mathlib.Algebra.Group.Int.Defs
import Mathlib.Algebra.GroupWithZero.Nat

/-- A computation with errors in `ε` that may pass requests in `E` to its
environment before it ends. -/
inductive Prog (E ε α : Type) where
  | done (result : Except ε α)
  | ask (request : E) (resume : Except ε Unit → Prog E ε α)

namespace Prog

variable {E F ε σ α β γ : Type}

def bind : Prog E ε α → (α → Prog E ε β) → Prog E ε β
  | .done (.ok a), f => f a
  | .done (.error e), _ => .done (.error e)
  | .ask q k, f => .ask q fun r => bind (k r) f

instance : Monad (Prog E ε) where
  pure a := .done (.ok a)
  bind := bind

theorem bind_pure_right (p : Prog E ε α) : p.bind (fun a => .done (.ok a)) = p := by
  induction p with
  | done r => cases r <;> rfl
  | ask q k ih => simp only [bind, ih]

theorem bind_assoc (p : Prog E ε α) (f : α → Prog E ε β) (g : β → Prog E ε γ) :
    (p.bind f).bind g = p.bind fun a => (f a).bind g := by
  induction p with
  | done r => cases r <;> rfl
  | ask q k ih => simp only [bind, ih]

instance : LawfulMonad (Prog E ε) :=
  LawfulMonad.mk' _ bind_pure_right (fun _ _ => rfl) bind_assoc

/-- Pass one request on and end with its answer. -/
def request (q : E) : Prog E ε Unit := .ask q .done

def handle : Prog E ε α → (ε → Prog E ε α) → Prog E ε α
  | .done (.ok a), _ => .done (.ok a)
  | .done (.error e), h => h e
  | .ask q k, h => .ask q fun r => handle (k r) h

instance : MonadExceptOf ε (Prog E ε) where
  throw e := .done (.error e)
  tryCatch := handle

instance : MonadLift (Except ε) (Prog E ε) where
  monadLift := .done

/-- End with the result of a program, its error included, as a value. -/
def attempt : Prog E ε α → Prog E ε (Except ε α)
  | .done r => .done (.ok r)
  | .ask q k => .ask q fun r => attempt (k r)

def mapError (g : ε → ε) : Prog E ε α → Prog E ε α
  | .done r => .done (r.mapError g)
  | .ask q k => .ask q fun r => mapError g (k r)

def mapRequest (g : E → F) : Prog E ε α → Prog F ε α
  | .done r => .done r
  | .ask q k => .ask (g q) fun r => mapRequest g (k r)

def granted : Prog E ε α → Except ε α
  | .done r => r
  | .ask _ k => granted (k (.ok ()))

@[simp] theorem granted_done (r : Except ε α) : (done r : Prog E ε α).granted = r := rfl

@[simp] theorem granted_pure (a : α) : (pure a : Prog E ε α).granted = .ok a := rfl

@[simp] theorem granted_throw (e : ε) : (throw e : Prog E ε α).granted = .error e := rfl

@[simp] theorem granted_request (q : E) : (request q : Prog E ε Unit).granted = .ok () := rfl

@[simp] theorem granted_lift (r : Except ε α) :
    (liftM r : Prog E ε α).granted = r := rfl

@[simp] theorem granted_monadLift (r : Except ε α) :
    (MonadLift.monadLift r : Prog E ε α).granted = r := rfl

@[simp] theorem granted_bind (p : Prog E ε α) (f : α → Prog E ε β) :
    (p >>= f).granted = p.granted >>= fun a => (f a).granted := by
  induction p with
  | done r => cases r <;> rfl
  | ask q k ih => exact ih (.ok ())

theorem granted_lift_bind (r : Except ε α) (f : α → Prog E ε β) :
    (liftM r >>= f).granted = r >>= fun a => (f a).granted := granted_bind _ _

theorem granted_foldlM (f : β → α → Prog E ε β) (l : List α) (b : β) :
    (l.foldlM f b).granted = l.foldlM (fun b a => (f b a).granted) b := by
  induction l generalizing b with
  | nil => rfl
  | cons a l ih =>
    rw [List.foldlM_cons, List.foldlM_cons, granted_bind]
    exact bind_congr ih

@[simp] theorem granted_map (f : α → β) (p : Prog E ε α) :
    (f <$> p).granted = f <$> p.granted := by
  rw [← bind_pure_comp, granted_bind]
  cases p.granted <;> rfl

@[simp] theorem granted_attempt (p : Prog E ε α) :
    p.attempt.granted = .ok p.granted := by
  induction p with
  | done r => rfl
  | ask q k ih => exact ih (.ok ())

@[simp] theorem granted_mapError (g : ε → ε) (p : Prog E ε α) :
    (p.mapError g).granted = p.granted.mapError g := by
  induction p with
  | done r => rfl
  | ask q k ih => exact ih (.ok ())

@[simp] theorem granted_mapRequest (g : E → F) (p : Prog E ε α) :
    (p.mapRequest g).granted = p.granted := by
  induction p with
  | done r => rfl
  | ask q k ih => exact ih (.ok ())

@[simp] theorem granted_ite (c : Prop) [Decidable c] (p q : Prog E ε α) :
    (if c then p else q).granted = if c then p.granted else q.granted :=
  apply_ite granted c p q

/-- Run a program against an environment that answers each request from its
state.  The state is kept on every path, the failing ones included. -/
def run (answer : σ → E → Except ε Unit × σ) : Prog E ε α → σ → Except ε α × σ
  | .done r, s => (r, s)
  | .ask q k, s => run answer (k (answer s q).1) (answer s q).2

theorem run_bind (answer : σ → E → Except ε Unit × σ) (p : Prog E ε α)
    (f : α → Prog E ε β) (s : σ) :
    (p >>= f).run answer s =
      match p.run answer s with
      | (.ok a, t) => (f a).run answer t
      | (.error e, t) => (.error e, t) := by
  induction p generalizing s with
  | done r => cases r <;> rfl
  | ask q k ih => exact ih _ _

/-- Total weight of the requests on the path where every one is granted. -/
def work (weight : E → Nat) : Prog E ε α → Nat
  | .done _ => 0
  | .ask q k => weight q + work weight (k (.ok ()))

end Prog

namespace Except

variable {ε α β : Type}

theorem bind_eq_ok {x : Except ε α} {f : α → Except ε β} {b : β} :
    (x >>= f) = .ok b ↔ ∃ a, x = .ok a ∧ f a = .ok b := by
  cases x with
  | error e => exact ⟨fun h => (nomatch h), fun ⟨_, h, _⟩ => (nomatch h)⟩
  | ok a => exact ⟨fun h => ⟨a, rfl, h⟩, fun ⟨_, h, hf⟩ => by cases h; exact hf⟩

theorem bind_eq_ok_congr {x : Except ε α} {f g : α → Except ε β} {b : β}
    (h : ∀ a, f a = .ok b ↔ g a = .ok b) : (x >>= f) = .ok b ↔ (x >>= g) = .ok b := by
  cases x with
  | error e => exact Iff.rfl
  | ok a => exact h a

@[simp] theorem ok_bind (a : α) (f : α → Except ε β) : (.ok a >>= f : Except ε β) = f a := rfl

@[simp] theorem error_bind (e : ε) (f : α → Except ε β) :
    (.error e >>= f : Except ε β) = .error e := rfl

theorem map_eq_ok {x : Except ε α} {f : α → β} {b : β} :
    f <$> x = .ok b ↔ ∃ a, x = .ok a ∧ f a = b := by
  cases x with
  | error e => exact ⟨fun h => (nomatch h), fun ⟨_, h, _⟩ => (nomatch h)⟩
  | ok a =>
    refine ⟨fun h => ⟨a, rfl, Except.ok.inj h⟩, fun ⟨_, h, hf⟩ => ?_⟩
    cases h
    exact congrArg _ hf

theorem mapError_eq_ok {x : Except ε α} {g : ε → ε} {a : α} :
    x.mapError g = .ok a ↔ x = .ok a := by
  cases x with
  | error e => exact ⟨fun h => (nomatch h), fun h => (nomatch h)⟩
  | ok b => exact Iff.rfl

/-! ## What a result ensures -/

variable {σ : Type}

/-- If there is a value, it is of the kind. -/
def Ensures (post : α → Prop) (r : Except ε α) : Prop := ∀ a, r = .ok a → post a

namespace Ensures

variable {post : α → Prop}

theorem pure {a : α} (h : post a) : Ensures post (Pure.pure a : Except ε α) := by
  rintro b ⟨⟩
  exact h

theorem throw (e : ε) : Ensures post (MonadExcept.throw e : Except ε α) := by
  rintro b ⟨⟩

theorem self (r : Except ε α) : Ensures (fun a => r = .ok a) r := fun _ h => h

theorem mono {stronger : α → Prop} {r : Except ε α} (h : Ensures stronger r)
    (himp : ∀ a, stronger a → post a) : Ensures post r := fun a ha => himp a (h a ha)

theorem bind {r : Except ε α} {f : α → Except ε β} {last : β → Prop} (hr : Ensures post r)
    (hf : ∀ a, post a → Ensures last (f a)) : Ensures last (r >>= f) := by
  intro b hb
  obtain ⟨a, ha, hb⟩ := bind_eq_ok.mp hb
  exact hf a (hr a ha) b hb

/-- A step whose value does not matter. -/
theorem skip {r : Except ε α} {f : α → Except ε β} {last : β → Prop}
    (hf : ∀ a, Ensures last (f a)) : Ensures last (r >>= f) :=
  bind (self r) fun a _ => hf a

theorem ite {c : Prop} [Decidable c] {r s : Except ε α} (hr : c → Ensures post r)
    (hs : ¬c → Ensures post s) : Ensures post (if c then r else s) := by
  by_cases h : c
  · rw [if_pos h]
    exact hr h
  · rw [if_neg h]
    exact hs h

/-- A fold over the numbers below a bound, with an invariant of what is done. -/
theorem foldlM_range {f : σ → Nat → Except ε σ} {invariant : Nat → σ → Prop} {total : Nat} {s : σ}
    (hs : invariant 0 s)
    (hstep : ∀ index < total, ∀ s, invariant index s → Ensures (invariant (index + 1))
      (f s index)) :
    Ensures (invariant total) ((List.range total).foldlM f s) := by
  induction total with
  | zero => exact .pure hs
  | succ total ih =>
    rw [List.range_succ, List.foldlM_append]
    refine .bind (ih fun index hlt => hstep index (Nat.lt_succ_of_lt hlt)) fun s hs => ?_
    rw [List.foldlM_cons]
    refine .bind (hstep total (Nat.lt_succ_self total) s hs) fun s hs => ?_
    exact .pure hs

/-- A fold over the indices of a slice, with an invariant of the part that is done. -/
theorem foldlM_slice {f : σ → Nat → Except ε σ} {list slice : List α} {start : Nat}
    (hslice : slice <+: list.drop start) (invariant : List α → σ → Prop)
    (hstep : ∀ done a s, invariant done s → list[start + done.length]? = some a →
      Ensures (invariant (done ++ [a])) (f s (start + done.length))) {s : σ} (hs : invariant [] s) :
    Ensures (invariant slice) ((List.range' start slice.length).foldlM f s) := by
  suffices hrest : ∀ rest done s, slice = done ++ rest → invariant done s →
      Ensures (invariant slice)
        ((List.range' (start + done.length) rest.length).foldlM f s) from
    hrest slice [] s rfl hs
  intro rest
  induction rest with
  | nil =>
    rintro done s hdone hs
    rw [List.append_nil] at hdone
    exact .pure (hdone ▸ hs)
  | cons a rest ih =>
    intro done s hdone hs
    obtain ⟨tail, htail⟩ := hslice
    have hget : list[start + done.length]? = some a := by
      rw [← List.getElem?_drop, ← htail, hdone, List.append_assoc,
        List.getElem?_append_right (Nat.le_refl _), Nat.sub_self]
      rfl
    rw [List.length_cons, List.range'_succ, List.foldlM_cons]
    refine .bind (hstep done a s hs hget) fun next hnext => ?_
    have hlength : start + done.length + 1 = start + (done ++ [a]).length := by
      rw [List.length_append, Nat.add_assoc]
      rfl
    rw [hlength]
    exact ih (done ++ [a]) next (by rw [hdone, List.append_assoc]; rfl) hnext

theorem mapM {f : α → Except ε β} {g : α → β} {l : List α}
    (h : ∀ a ∈ l, Ensures (fun b => b = g a) (f a)) :
    Ensures (fun values => values = l.map g) (l.mapM f) := by
  induction l with
  | nil => exact .pure rfl
  | cons a l ih =>
    rw [List.mapM_cons]
    refine .bind (h a (List.mem_cons_self ..)) fun b hb => ?_
    refine .bind (ih fun a ha => h a (List.mem_cons_of_mem _ ha)) fun values hvalues => ?_
    exact .pure (by rw [hb, hvalues, List.map_cons])

end Ensures

end Except

namespace Prog

variable {E ε α β γ δ : Type}

theorem granted_bind_eq_ok {p : Prog E ε α} {f : α → Prog E ε β} {b : β} :
    (p >>= f).granted = .ok b ↔ ∃ a, p.granted = .ok a ∧ (f a).granted = .ok b := by
  rw [granted_bind, Except.bind_eq_ok]

/-- What follows a step whose value does not matter. -/
theorem granted_rest {p : Prog E ε α} {f : α → Prog E ε β} {b : β}
    (h : (p >>= f).granted = .ok b) : ∃ a, (f a).granted = .ok b := by
  obtain ⟨a, -, h⟩ := granted_bind_eq_ok.mp h
  exact ⟨a, h⟩

theorem granted_lift_eq_ok {r : Except ε α} {a : α} :
    (liftM r : Prog E ε α).granted = .ok a ↔ r = .ok a := Iff.rfl

theorem granted_pure_eq_ok {a b : α} : (pure a : Prog E ε α).granted = .ok b ↔ a = b :=
  ⟨fun h => Except.ok.inj h, fun h => congrArg Except.ok h⟩

/-! ## Programs that succeed wherever another one does -/

theorem lift_ok_bind (a : α) (k : α → Prog E ε β) :
    ((liftM (.ok a : Except ε α) : Prog E ε α) >>= k) = k a := rfl

/-- Where every request is granted, the value of `p` gives that of `q`. -/
def Carries (f : α → β) (p : Prog E ε α) (q : Prog E ε β) : Prop :=
  ∀ a, p.granted = .ok a → q.granted = .ok (f a)

namespace Carries

variable {f : α → β} {g : γ → δ} {p : Prog E ε α} {q : Prog E ε β}

theorem pure {a : α} {b : β} (h : b = f a) :
    Carries f (Pure.pure a : Prog E ε α) (Pure.pure b) := by
  intro c hc
  cases hc
  rw [h]
  rfl

theorem throw (e : ε) (f : α → β) (q : Prog E ε β) :
    Carries f (MonadExcept.throw e : Prog E ε α) q := fun _ h => (nomatch h)

theorem bind {k : α → Prog E ε γ} {l : β → Prog E ε δ} (hp : Carries f p q)
    (hk : ∀ a, p.granted = .ok a → Carries g (k a) (l (f a))) :
    Carries g (p >>= k) (q >>= l) := by
  intro c hc
  rw [granted_bind] at hc ⊢
  obtain ⟨a, ha, hc⟩ := Except.bind_eq_ok.mp hc
  rw [hp a ha, Except.ok_bind]
  exact hk a ha c hc

theorem step {k : α → Prog E ε γ} {l : α → Prog E ε δ}
    (hk : ∀ a, p.granted = .ok a → Carries g (k a) (l a)) : Carries g (p >>= k) (p >>= l) :=
  bind (f := fun a => a) (fun _ h => h) hk

/-- A checked value in front of both, of which the rest of a successful `p` says more. -/
theorem value_of_rest {x : Except ε α} {y : Except ε β} {k : α → Prog E ε γ}
    {l : β → Prog E ε δ}
    (hk : ∀ a c, x = .ok a → (k a).granted = .ok c → ∃ b, y = .ok b ∧ Carries g (k a) (l b)) :
    Carries g ((liftM x : Prog E ε α) >>= k) ((liftM y : Prog E ε β) >>= l) := by
  intro c hc
  rw [granted_bind, granted_lift] at hc ⊢
  obtain ⟨a, ha, hc⟩ := Except.bind_eq_ok.mp hc
  obtain ⟨b, hb, hl⟩ := hk a c ha hc
  rw [hb, Except.ok_bind]
  exact hl c hc

theorem value {x : Except ε α} {y : Except ε β} {k : α → Prog E ε γ} {l : β → Prog E ε δ}
    (hk : ∀ a, x = .ok a → ∃ b, y = .ok b ∧ Carries g (k a) (l b)) :
    Carries g ((liftM x : Prog E ε α) >>= k) ((liftM y : Prog E ε β) >>= l) :=
  value_of_rest fun a _ ha _ => hk a ha

theorem ite {c : Prop} [Decidable c] {p' : Prog E ε α} {q' : Prog E ε β}
    (hp : c → Carries f p q) (hq : ¬c → Carries f p' q') :
    Carries f (if c then p else p') (if c then q else q') := by
  by_cases h : c
  · rw [if_pos h, if_pos h]
    exact hp h
  · rw [if_neg h, if_neg h]
    exact hq h

end Carries

end Prog
