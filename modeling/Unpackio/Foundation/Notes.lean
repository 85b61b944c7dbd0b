/-
Notes that a program leaves for its reader, and what the requests of a run amount to.

A note is a request that nothing answers for: `silence` takes the notes out
again, and a program is checked against its silenced form.  `Ensures` states what
the requests and the result of every run have in common, and its rules follow the
program.  A measure relates the requests of a run to an amount, and amounts add up
where runs follow each other.  `Spends` relates the amount of every run to its
result.
-/
import Unpackio.Foundation.Runs

namespace Prog

variable {E F N ε α β : Type}

/-- A request of the program, or a note. -/
inductive Noted (E N : Type) where
  | request (q : E)
  | note (n : N)
  deriving DecidableEq

/-- A program without notes, among others with notes. -/
def noting (p : Prog E ε α) : Prog (Noted E N) ε α := p.mapRequest .request

def note (n : N) : Prog (Noted E N) ε Unit := request (.note n)

def silence : Prog (Noted E N) ε α → Prog E ε α
  | .done r => .done r
  | .ask (.request q) k => .ask q fun r => silence (k r)
  | .ask (.note _) k => silence (k (.ok ()))

@[simp] theorem silence_pure (a : α) : (pure a : Prog (Noted E N) ε α).silence = pure a := rfl

@[simp] theorem silence_throw (e : ε) :
    (throw e : Prog (Noted E N) ε α).silence = throw e := rfl

@[simp] theorem silence_lift (r : Except ε α) :
    (liftM r : Prog (Noted E N) ε α).silence = liftM r := rfl

@[simp] theorem silence_note (n : N) : (note n : Prog (Noted E N) ε Unit).silence = pure () := rfl

@[simp] theorem silence_bind (p : Prog (Noted E N) ε α) (f : α → Prog (Noted E N) ε β) :
    (p >>= f).silence = p.silence >>= fun a => (f a).silence := by
  induction p with
  | done r => cases r <;> rfl
  | ask q k ih =>
    cases q with
    | request q => exact congrArg (ask q) (funext fun r => ih r)
    | note n => exact ih (.ok ())

@[simp] theorem silence_map (f : α → β) (p : Prog (Noted E N) ε α) :
    (f <$> p).silence = f <$> p.silence := by
  rw [← bind_pure_comp, silence_bind, ← bind_pure_comp]
  rfl

@[simp] theorem silence_noting (p : Prog E ε α) :
    (noting p : Prog (Noted E N) ε α).silence = p := by
  induction p with
  | done r => rfl
  | ask q k ih => exact congrArg (ask q) (funext fun r => ih r)

@[simp] theorem silence_mapError (g : ε → ε) (p : Prog (Noted E N) ε α) :
    (p.mapError g).silence = p.silence.mapError g := by
  induction p with
  | done r => rfl
  | ask q k ih =>
    cases q with
    | request q => exact congrArg (ask q) (funext fun r => ih r)
    | note n => exact ih (.ok ())

@[simp] theorem silence_ite (c : Prop) [Decidable c] (p q : Prog (Noted E N) ε α) :
    (if c then p else q).silence = if c then p.silence else q.silence :=
  apply_ite silence c p q

/-! ## What every run ensures -/

/-- The requests and the result of every run satisfy `Q`. -/
def Ensures (p : Prog E ε α) (Q : List E → Except ε α → Prop) : Prop :=
  ∀ trace result, Runs p trace result → Q (trace.map Prod.fst) result

namespace Ensures

variable {p : Prog E ε α} {f : α → Prog E ε β} {Q : List E → Except ε α → Prop}

theorem mono {P : List E → Except ε α → Prop} (hp : Ensures p P)
    (h : ∀ requests result, P requests result → Q requests result) : Ensures p Q :=
  fun trace result hruns => h _ _ (hp trace result hruns)

theorem done {r : Except ε α} (h : Q [] r) : Ensures (.done r) Q := by
  intro trace result hruns
  obtain ⟨rfl, rfl⟩ := Runs.done_iff.mp hruns
  exact h

theorem pure {a : α} (h : Q [] (.ok a)) : Ensures (Pure.pure a) Q := done h

theorem lift {r : Except ε α} (h : Q [] r) : Ensures (liftM r) Q := done h

theorem request {q : E} {Q : List E → Except ε Unit → Prop} (h : ∀ r, Q [q] r) :
    Ensures (Prog.request q) Q := by
  intro trace result hruns
  rw [Runs.request_iff.mp hruns]
  exact h result

theorem bind {P : List E → Except ε α → Prop} {Q : List E → Except ε β → Prop}
    (hp : Ensures p P)
    (hok : ∀ a front, P front (.ok a) → Ensures (f a) fun rest r => Q (front ++ rest) r)
    (herror : ∀ e front, P front (.error e) → Q front (.error e)) : Ensures (p >>= f) Q := by
  intro trace result hruns
  rcases hruns.of_bind with ⟨a, front, rest, rfl, hfront, hrest⟩ | ⟨e, rfl, hp'⟩
  · rw [List.map_append]
    exact hok a _ (hp _ _ hfront) _ _ hrest
  · exact herror e _ (hp _ _ hp')

theorem map {f : α → β} {Q : List E → Except ε β → Prop}
    (hp : Ensures p fun requests result => Q requests (f <$> result)) : Ensures (f <$> p) Q := by
  rw [← bind_pure_comp]
  refine bind hp (fun a front h => pure ?_) fun e front h => h
  rwa [List.append_nil]

theorem mapError {g : ε → ε}
    (hp : Ensures p fun requests result => Q requests (result.mapError g)) :
    Ensures (p.mapError g) Q := by
  intro trace result hruns
  obtain ⟨inner, rfl, hinner⟩ := hruns.of_mapError
  exact hp _ _ hinner

theorem mapRequest {g : E → F} {Q : List F → Except ε α → Prop}
    (hp : Ensures p fun requests result => Q (requests.map g) result) :
    Ensures (p.mapRequest g) Q := by
  intro trace result hruns
  obtain ⟨inner, rfl, hinner⟩ := hruns.of_mapRequest
  have h : Q ((inner.map Prod.fst).map g) result := hp _ _ hinner
  rw [List.map_map] at h ⊢
  exact h

end Ensures

/-! ## Measures -/

/-- A relation between requests and amounts that follows their order. -/
structure Measure (E τ : Type) [AddMonoid τ] where
  holds : List E → τ → Prop
  nil : holds [] 0
  append : ∀ {front rest : List E} {a b : τ}, holds front a → holds rest b →
    holds (front ++ rest) (a + b)

variable {τ : Type} [AddMonoid τ]

/-- Requests that each amount to nothing amount to nothing. -/
theorem Measure.holds_map (m : Measure F τ) (g : E → F) (h : ∀ q, m.holds [g q] 0)
    (requests : List E) : m.holds (requests.map g) 0 := by
  induction requests with
  | nil => exact m.nil
  | cons q requests ih =>
    have hcons := m.append (h q) ih
    rwa [add_zero] at hcons

/-- Every run has an amount that stands in `K` to its result. -/
def Spends (m : Measure E τ) (p : Prog E ε α) (K : τ → Except ε α → Prop) : Prop :=
  Ensures p fun requests result => ∃ amount, m.holds requests amount ∧ K amount result

namespace Spends

variable {m : Measure E τ} {p : Prog E ε α} {f : α → Prog E ε β} {J K : τ → Except ε α → Prop}

theorem mono (hp : Spends m p J) (h : ∀ amount result, J amount result → K amount result) :
    Spends m p K :=
  Ensures.mono hp fun _ _ ⟨amount, hamount, hJ⟩ => ⟨amount, hamount, h _ _ hJ⟩

theorem lift {r : Except ε α} (h : K 0 r) : Spends m (liftM r) K := Ensures.lift ⟨0, m.nil, h⟩

theorem pure {a : α} (h : K 0 (.ok a)) : Spends m (Pure.pure a) K := lift h

theorem throw {e : ε} (h : K 0 (.error e)) : Spends m (MonadExcept.throw e) K := lift h

theorem request {q : E} {amount : τ} {K : τ → Except ε Unit → Prop} (hq : m.holds [q] amount)
    (h : ∀ r, K amount r) : Spends m (Prog.request q) K :=
  Ensures.request fun r => ⟨amount, hq, h r⟩

theorem bind {K : τ → Except ε β → Prop} (hp : Spends m p J)
    (hok : ∀ a amount, J amount (.ok a) →
      Spends m (f a) fun rest result => K (amount + rest) result)
    (herror : ∀ e amount, J amount (.error e) → K amount (.error e)) :
    Spends m (p >>= f) K := by
  refine Ensures.bind hp ?_ ?_
  · rintro a front ⟨amount, hfront, hJ⟩
    refine Ensures.mono (hok a amount hJ) ?_
    rintro rest result ⟨amount', hrest, hK⟩
    exact ⟨_, m.append hfront hrest, hK⟩
  · rintro e front ⟨amount, hfront, hJ⟩
    exact ⟨amount, hfront, herror e amount hJ⟩

/-- A first part that amounts to nothing. -/
theorem quiet_bind {P : α → Prop} {K : τ → Except ε β → Prop}
    (hp : Spends m p fun amount result => amount = 0 ∧ ∀ a, result = .ok a → P a)
    (hok : ∀ a, P a → Spends m (f a) K) (herror : ∀ e, K 0 (.error e)) :
    Spends m (p >>= f) K := by
  refine bind hp ?_ ?_
  · rintro a _ ⟨rfl, ha⟩
    simp only [zero_add]
    exact hok a (ha a rfl)
  · rintro e _ ⟨rfl, -⟩
    exact herror e

theorem lift_bind {r : Except ε α} {K : τ → Except ε β → Prop}
    (hok : ∀ a, r = .ok a → Spends m (f a) K) (herror : ∀ e, K 0 (.error e)) :
    Spends m (liftM r >>= f) K :=
  quiet_bind (lift ⟨rfl, fun _ h => h⟩) hok herror

theorem request_bind {q : E} {amount : τ} {f : Unit → Prog E ε β} {K : τ → Except ε β → Prop}
    (hq : m.holds [q] amount)
    (hok : Spends m (f ()) fun rest result => K (amount + rest) result)
    (herror : ∀ e, K amount (.error e)) : Spends m (Prog.request q >>= f) K := by
  refine bind (request (K := fun amount' _ => amount' = amount) hq fun _ => rfl) ?_ ?_
  · rintro _ _ rfl
    exact hok
  · rintro e _ rfl
    exact herror e

theorem map {f : α → β} {K : τ → Except ε β → Prop} (hp : Spends m p J)
    (h : ∀ amount result, J amount result → K amount (f <$> result)) : Spends m (f <$> p) K :=
  Ensures.map (Ensures.mono hp fun _ _ ⟨amount, hamount, hJ⟩ => ⟨amount, hamount, h _ _ hJ⟩)

/-- A postcondition that says nothing of an error survives its translation. -/
theorem mapError {g : ε → ε} (hp : Spends m p K)
    (herror : ∀ amount e, K amount (.error e) → K amount (.error (g e))) :
    Spends m (p.mapError g) K := by
  refine Ensures.mapError (Ensures.mono hp ?_)
  rintro requests result ⟨amount, hamount, hK⟩
  refine ⟨amount, hamount, ?_⟩
  cases result with
  | ok a => exact hK
  | error e => exact herror _ _ hK

/-- A program whose requests amount to nothing under their new names. -/
theorem mapRequest {m : Measure F τ} {g : E → F} (hquiet : ∀ q, m.holds [g q] 0)
    (p : Prog E ε α) : Spends m (p.mapRequest g) fun amount result =>
      amount = 0 ∧ ∀ a, result = .ok a → p.CanReturn a := by
  refine Ensures.mapRequest fun trace result hruns =>
    ⟨0, m.holds_map g hquiet _, rfl, ?_⟩
  rintro a rfl
  exact ⟨trace, hruns⟩

end Spends

end Prog
