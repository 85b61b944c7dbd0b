/-
Rules for programs over a state that keep an invariant.

`Ends` says what a program ends with where every request is granted, and that it
passes refusals on.  `Keeps` says so of a program with a state, from every state
that meets the invariant.  Both compose along `>>=`.
-/
import Unpackio.Foundation.Passes

/-- The result is a value of the kind. -/
def Except.Gives {ε α : Type} (post : α → Prop) (r : Except ε α) : Prop := ∃ a, r = .ok a ∧ post a

namespace Except.Gives

variable {ε α β : Type} {post : α → Prop}

theorem pure {a : α} (h : post a) : Gives post (Pure.pure a : Except ε α) := ⟨a, rfl, h⟩

theorem ok {a : α} (h : post a) : Gives post (.ok a : Except ε α) := ⟨a, rfl, h⟩

theorem bind {r : Except ε α} {f : α → Except ε β} {last : β → Prop} (hr : Gives post r)
    (hf : ∀ a, post a → Gives last (f a)) : Gives last (r >>= f) := by
  obtain ⟨a, rfl, ha⟩ := hr
  exact hf a ha

theorem mono {r : Except ε α} {stronger : α → Prop} (h : Gives stronger r)
    (himp : ∀ a, stronger a → post a) : Gives post r := by
  obtain ⟨a, rfl, ha⟩ := h
  exact ⟨a, rfl, himp a ha⟩

theorem ite {c : Prop} [Decidable c] {r s : Except ε α} (hr : c → Gives post r)
    (hs : ¬c → Gives post s) : Gives post (if c then r else s) := by
  by_cases h : c
  · rw [if_pos h]
    exact hr h
  · rw [if_neg h]
    exact hs h

/-- A fold whose invariant counts the steps. -/
theorem foldlM {f : β → α → Except ε β} {list : List α} {invariant : Nat → β → Prop} {n total : Nat}
    (htotal : n + list.length = total)
    (hstep : ∀ a ∈ list, ∀ k < total, ∀ b, invariant k b → Gives (invariant (k + 1))
      (f b a)) {b : β}
    (hb : invariant n b) : Gives (invariant total) (list.foldlM f b) := by
  induction list generalizing n b with
  | nil => exact htotal ▸ .pure hb
  | cons a list ih =>
    rw [List.length_cons] at htotal
    rw [List.foldlM_cons]
    refine .bind (hstep a List.mem_cons_self n (by omega) b hb) fun next hnext => ?_
    exact ih (by omega) (fun other hother => hstep other (List.mem_cons_of_mem _ hother)) hnext

end Except.Gives

namespace Prog

variable {E ε α β σ : Type}

/-- Where every request is granted the program ends with such a value or such an
error, and a refusal is its result. -/
structure Ends (own : ε → Prop) (post : α → Prop) (p : Prog E ε α) : Prop where
  yields : Yields own post p
  passes : Passes (fun _ => True) p

namespace Ends

variable {own : ε → Prop} {post : α → Prop} {p : Prog E ε α}

theorem pure {a : α} (h : post a) : Ends own post (Pure.pure a : Prog E ε α) :=
  ⟨.pure h, .pure a⟩

theorem mono {stronger : α → Prop} (h : Ends own stronger p) (himp : ∀ a, stronger a → post a) :
    Ends own post p :=
  ⟨h.yields.mono himp, h.passes⟩

theorem widen {wider : ε → Prop} (h : Ends own post p) (himp : ∀ e, own e → wider e) :
    Ends wider post p :=
  ⟨⟨h.yields.1, fun e he => himp e (h.yields.2 e he)⟩, h.passes⟩

/-- What follows a step is known behind the results of a granted run only.  That is
enough, because behind a refusal nothing follows. -/
theorem bind {m : α → Prop} {last : β → Prop} {f : α → Prog E ε β} (hp : Ends own m p)
    (hf : ∀ a, m a → Ends own last (f a)) : Ends own last (p >>= f) := by
  refine ⟨.bind hp.yields fun a ha => (hf a ha).yields, ?_⟩
  obtain ⟨⟨hok, -⟩, hpasses⟩ := hp
  induction p with
  | done r =>
    cases r with
    | error e => exact trivial
    | ok a => exact (hf a (hok a rfl)).passes
  | ask q k ih =>
    refine ⟨fun e he => ?_, ih (.ok ()) hpasses.2 hok⟩
    show (k (.error e)).bind f = _
    rw [hpasses.1 e he]
    rfl

theorem request {last : β → Prop} {q : E} {f : Unit → Prog E ε β} (hf : Ends own last (f ())) :
    Ends own last (Prog.request q >>= f) :=
  ⟨.request hf.yields, ⟨fun _ _ => rfl, hf.passes⟩⟩

theorem lift {r : Except ε α} (hok : ∀ a, r = .ok a → post a) (herror : ∀ e, r = .error e → own e) :
    Ends own post (liftM r : Prog E ε α) :=
  ⟨.lift hok herror, .lift r⟩

theorem gives {r : Except ε α} (h : r.Gives post) : Ends own post (liftM r : Prog E ε α) := by
  obtain ⟨a, rfl, ha⟩ := h
  exact pure ha

theorem ite {c : Prop} [Decidable c] {q : Prog E ε α} (hp : c → Ends own post p)
    (hq : ¬c → Ends own post q) : Ends own post (if c then p else q) := by
  by_cases h : c
  · rw [if_pos h]
    exact hp h
  · rw [if_neg h]
    exact hq h

/-- A checked value in front, whatever error it may be. -/
theorem skip {last : β → Prop} {r : Except ε α} {f : α → Prog E ε β}
    (hf : ∀ a, Ends (fun _ => True) last (f a)) :
    Ends (fun _ => True) last ((liftM r : Prog E ε α) >>= f) :=
  .bind (m := fun _ => True) (.lift (fun _ _ => trivial) fun _ _ => trivial) fun a _ => hf a

theorem bind_congr {f g : α → Prog E ε β} (h : Ends own post p) (hfg : ∀ a, post a → f a = g a) :
    p >>= f = p >>= g := by
  obtain ⟨⟨hok, -⟩, hpasses⟩ := h
  induction p with
  | done r =>
    cases r with
    | error e => rfl
    | ok a => exact hfg a (hok a rfl)
  | ask q k ih =>
    refine congrArg (Prog.ask q) (funext fun answer => ?_)
    cases answer with
    | ok => exact ih (.ok ()) hpasses.2 hok
    | error e =>
      show (k (.error e)).bind f = (k (.error e)).bind g
      rw [hpasses.1 e trivial]
      rfl

end Ends

/-- From a state that meets the invariant, the program ends in one. -/
def Keeps (own : ε → Prop) (invariant : σ → Prop) (post : α → Prop)
    (p : StateT σ (Prog E ε) α) : Prop :=
  ∀ s, invariant s → Ends own (fun r => post r.1 ∧ invariant r.2) (p s)

namespace Keeps

variable {own : ε → Prop} {invariant : σ → Prop} {post : α → Prop} {p : StateT σ (Prog E ε) α}

theorem pure {a : α} (h : post a) :
    Keeps own invariant post (Pure.pure a : StateT σ (Prog E ε) α) :=
  fun _ hs => .pure ⟨h, hs⟩

theorem bind {m : α → Prop} {last : β → Prop} {f : α → StateT σ (Prog E ε) β}
    (hp : Keeps own invariant m p) (hf : ∀ a, m a → Keeps own invariant last (f a)) :
    Keeps own invariant last (p >>= f) :=
  fun s hs => .bind (hp s hs) fun r hr => hf r.1 hr.1 r.2 hr.2

theorem mono {stronger : α → Prop} (h : Keeps own invariant stronger p)
    (himp : ∀ a, stronger a → post a) : Keeps own invariant post p :=
  fun s hs => (h s hs).mono fun _ hr => ⟨himp _ hr.1, hr.2⟩

theorem lift {r : Except ε α} (hok : ∀ a, r = .ok a → post a) (herror : ∀ e, r = .error e → own e) :
    Keeps own invariant post (liftM r : StateT σ (Prog E ε) α) := by
  intro s hs
  cases r with
  | error e =>
    have hrun : (liftM (Except.error e) : StateT σ (Prog E ε) α) s = .done (.error e) := rfl
    rw [hrun]
    exact ⟨.of_error rfl (herror e rfl), trivial⟩
  | ok a => exact .pure ⟨hok a rfl, hs⟩

theorem gives {r : Except ε α} (h : r.Gives post) :
    Keeps own invariant post (liftM r : StateT σ (Prog E ε) α) := by
  obtain ⟨a, rfl, ha⟩ := h
  exact pure ha

theorem ite {c : Prop} [Decidable c] {q : StateT σ (Prog E ε) α}
    (hp : c → Keeps own invariant post p) (hq : ¬c → Keeps own invariant post q) :
    Keeps own invariant post (if c then p else q) := by
  by_cases h : c
  · rw [if_pos h]
    exact hp h
  · rw [if_neg h]
    exact hq h

end Keeps

end Prog
