/-
Programs that pass refusals on unchanged, and what they end with.

A program that passes the errors of some kind on has, under any environment that
refuses with such errors only, one of two kinds of run: the granted one, or a
front of the granted one that ends at a refusal, with that refusal as the result.
`Yields` says what the granted one ends with.  It composes along `>>=`, so a program
is followed step by step, each with what the steps before it have left.
-/
import Unpackio.Foundation.Runs

namespace Prog

variable {E F ε σ α β : Type}

/-- A refusal of the given kind ends the program, wherever it is, and is its
result. -/
def Passes (fatal : ε → Prop) : Prog E ε α → Prop
  | .done _ => True
  | .ask _ resume => (∀ e, fatal e → resume (.error e) = .done (.error e)) ∧
    Passes fatal (resume (.ok ()))

def runAsked (answer : σ → E → Except ε Unit × σ) : List E → Except ε α → σ → Except ε α × σ
  | [], result, s => (result, s)
  | q :: requests, result, s =>
    match answer s q with
    | (.ok (), t) => runAsked answer requests result t
    | (.error e, t) => (.error e, t)

/-- An error of the program is one of its own, of this kind, or a refusal. -/
def FailsWith (own : ε → Prop) (p : Prog E ε α) : Prop :=
  ∀ (trace : List (E × Except ε Unit)) (e : ε), Runs p trace (.error e) →
    own e ∨ ∃ q, (q, .error e) ∈ trace

namespace Passes

variable {fatal : ε → Prop} {p : Prog E ε α} {f : α → Prog E ε β}
  {trace : List (E × Except ε Unit)} {result : Except ε α}

theorem pure (a : α) : Passes fatal (Pure.pure a : Prog E ε α) := trivial

theorem lift (r : Except ε α) : Passes fatal (liftM r : Prog E ε α) := trivial

theorem throw (e : ε) : Passes fatal (MonadExcept.throw e : Prog E ε α) := trivial

theorem request (q : E) : Passes fatal (Prog.request q : Prog E ε Unit) :=
  ⟨fun _ _ => rfl, trivial⟩

theorem bind (hp : Passes fatal p) (hf : ∀ a, Passes fatal (f a)) :
    Passes fatal (p >>= f) := by
  induction p with
  | done r =>
    cases r with
    | error e => exact trivial
    | ok a => exact hf a
  | ask q k ih =>
    refine ⟨fun e he => ?_, ih (.ok ()) hp.2⟩
    show (k (.error e)).bind f = _
    rw [hp.1 e he]
    rfl

theorem step {r : Except ε α} (hf : ∀ a, Passes fatal (f a)) : Passes fatal (liftM r >>= f) :=
  bind (lift r) hf

theorem map {f : α → β} (hp : Passes fatal p) : Passes fatal (f <$> p) := by
  rw [← bind_pure_comp]
  exact bind hp fun _ => pure _

theorem mapRequest (g : E → F) (hp : Passes fatal p) : Passes fatal (p.mapRequest g) := by
  induction p with
  | done r => exact trivial
  | ask q k ih =>
    refine ⟨fun e he => ?_, ih (.ok ()) hp.2⟩
    show (k (.error e)).mapRequest g = _
    rw [hp.1 e he]
    rfl

theorem ite {c : Prop} [Decidable c] {q : Prog E ε α} (hp : Passes fatal p)
    (hq : Passes fatal q) : Passes fatal (if c then p else q) := by
  split
  · exact hp
  · exact hq

theorem forM {l : List β} {f : β → Prog E ε Unit} (h : ∀ b ∈ l, Passes fatal (f b)) :
    Passes fatal (l.forM f) := by
  induction l with
  | nil => exact trivial
  | cons b l ih =>
    exact bind (h b List.mem_cons_self) fun _ => ih fun c hc => h c (List.mem_cons_of_mem b hc)

theorem mapM {l : List α} (h : ∀ a ∈ l, Passes fatal (f a)) : Passes fatal (l.mapM f) := by
  induction l with
  | nil => exact pure _
  | cons a l ih =>
    rw [List.mapM_cons]
    exact bind (h a List.mem_cons_self) fun _ =>
      bind (ih fun b hb => h b (List.mem_cons_of_mem a hb)) fun _ => pure _

theorem foldlM {l : List β} {f : α → β → Prog E ε α} {a : α}
    (h : ∀ a, ∀ b ∈ l, Passes fatal (f a b)) : Passes fatal (l.foldlM f a) := by
  induction l generalizing a with
  | nil => exact pure _
  | cons b l ih =>
    rw [List.foldlM_cons]
    exact bind (h a b List.mem_cons_self) fun _ =>
      ih fun a c hc => h a c (List.mem_cons_of_mem b hc)

theorem attempt_bind {f : Except ε α → Prog E ε β} (hp : Passes fatal p)
    (hf : ∀ r, Passes fatal (f r)) (hpass : ∀ e, fatal e → f (.error e) = .done (.error e)) :
    Passes fatal (p.attempt >>= f) := by
  induction p with
  | done r => exact hf r
  | ask q k ih =>
    refine ⟨fun e he => ?_, ih (.ok ()) hp.2⟩
    show (k (.error e)).attempt.bind f = _
    rw [hp.1 e he]
    exact hpass e he

theorem strict (hp : Passes (fun _ => True) p) : Strict p := by
  induction p with
  | done r => exact trivial
  | ask q k ih => exact ⟨fun e => ⟨e, hp.1 e trivial⟩, ih (.ok ()) hp.2⟩

/-! ### Runs -/

theorem run_eq {answer : σ → E → Except ε Unit × σ}
    (hanswer : ∀ s q e, (answer s q).1 = .error e → fatal e) (hp : Passes fatal p) (s : σ) :
    p.run answer s = runAsked answer p.asked p.granted s := by
  induction p generalizing s with
  | done r => rfl
  | ask q k ih =>
    have hfatal := hanswer s q
    rw [run, asked, runAsked]
    revert hfatal
    cases answer s q with
    | mk result t =>
      intro hfatal
      cases result with
      | error e => exact congrArg (fun p => run answer p t) (hp.1 e (hfatal e rfl))
      | ok _ => exact ih (.ok ()) hp.2 t

theorem runs (hp : Passes fatal p) (h : Runs p trace result)
    (hfatal : ∀ event ∈ trace, ∀ e, event.2 = .error e → fatal e) :
    (trace = p.asked.map (fun q => (q, .ok ())) ∧ result = p.granted) ∨
      ∃ front q e, trace = front.map (fun q => (q, .ok ())) ++ [(q, .error e)] ∧
        front ++ [q] <+: p.asked ∧ result = .error e := by
  induction h with
  | done result => exact .inl ⟨rfl, rfl⟩
  | ask request answer resume rest ih =>
    obtain ⟨hanswer, hrest⟩ := List.forall_mem_cons.mp hfatal
    cases answer with
    | error e =>
      rw [hp.1 e (hanswer e rfl)] at rest
      obtain ⟨rfl, rfl⟩ := Runs.done_iff.mp rest
      exact .inr ⟨[], request, e, rfl, (List.prefix_cons_inj _).mpr List.nil_prefix, rfl⟩
    | ok _ =>
      rcases ih hp.2 hrest with ⟨rfl, rfl⟩ | ⟨front, q, e, rfl, hfront, rfl⟩
      · exact .inl ⟨rfl, rfl⟩
      · exact .inr ⟨request :: front, q, e, rfl, (List.prefix_cons_inj _).mpr hfront, rfl⟩

section

variable (hp : Passes (fun _ => True) p) (h : Runs p trace result)
include hp h

theorem error_cases {e : ε} (herror : result = .error e) :
    p.granted = .error e ∨ ∃ q, (q, .error e) ∈ trace := by
  rcases hp.runs h fun _ _ _ _ => trivial with ⟨-, rfl⟩ | ⟨front, q, e', rfl, -, rfl⟩
  · exact .inl herror
  · cases herror
    exact .inr ⟨q, List.mem_append_right _ (List.mem_singleton_self _)⟩

theorem granted_of_ok {a : α} (hresult : result = .ok a) : p.granted = .ok a := by
  rcases hp.runs h fun _ _ _ _ => trivial with ⟨-, rfl⟩ | ⟨_, _, _, -, -, rfl⟩
  · exact hresult
  · exact (nomatch hresult)

end

theorem failsWith {own : ε → Prop} (hp : Passes (fun _ => True) p)
    (hown : ∀ e, p.granted = .error e → own e) : FailsWith own p := by
  intro trace e h
  rcases hp.error_cases h rfl with hgranted | hrefused
  · exact .inl (hown e hgranted)
  · exact .inr hrefused

theorem granted_of_canReturn {a : α} (hp : Passes (fun _ => True) p) (h : p.CanReturn a) :
    p.granted = .ok a := by
  obtain ⟨trace, h⟩ := h
  exact hp.granted_of_ok h rfl

end Passes

/-- Where every request is granted, the program ends with such a value or with
such an error. -/
def Yields (own : ε → Prop) (post : α → Prop) (p : Prog E ε α) : Prop :=
  (∀ a, p.granted = .ok a → post a) ∧ ∀ e, p.granted = .error e → own e

namespace Yields

variable {own : ε → Prop} {post : α → Prop} {p : Prog E ε α}

theorem pure {a : α} (h : post a) : Yields own post (Pure.pure a : Prog E ε α) :=
  ⟨fun _ heq => Except.ok.inj heq ▸ h, fun _ heq => (nomatch heq)⟩

theorem of_ok {a : α} (hp : p.granted = .ok a) (h : post a) : Yields own post p := by
  refine ⟨fun b hb => ?_, fun e he => ?_⟩
  · rw [hp] at hb
    cases hb
    exact h
  · rw [hp] at he
    cases he

theorem of_error {e : ε} (hp : p.granted = .error e) (h : own e) : Yields own post p := by
  refine ⟨fun b hb => ?_, fun e' he => ?_⟩
  · rw [hp] at hb
    cases hb
  · rw [hp] at he
    cases he
    exact h

theorem mono {stronger : α → Prop} (h : Yields own stronger p) (himp : ∀ a, stronger a → post a) :
    Yields own post p :=
  ⟨fun a ha => himp a (h.1 a ha), h.2⟩

theorem bind {m : α → Prop} {last : β → Prop} {f : α → Prog E ε β} (hp : Yields own m p)
    (hf : ∀ a, m a → Yields own last (f a)) : Yields own last (p >>= f) := by
  cases hresult : p.granted with
  | error e =>
    refine of_error ?_ (hp.2 e hresult)
    rw [granted_bind, hresult]
    rfl
  | ok a =>
    have hrun : (p >>= f).granted = (f a).granted := by
      rw [granted_bind, hresult]
      rfl
    obtain ⟨hok, herror⟩ := hf a (hp.1 a hresult)
    exact ⟨fun b hb => hok b (hrun ▸ hb), fun e he => herror e (hrun ▸ he)⟩

/-- Go on behind a step whose result is known. -/
theorem bind_ok {last : β → Prop} {f : α → Prog E ε β} {a : α} (hp : p.granted = .ok a)
    (hf : Yields own last (f a)) : Yields own last (p >>= f) :=
  bind (of_ok hp rfl : Yields own (fun b => a = b) p) fun _ heq => heq ▸ hf

/-- A step whose value does not matter, whatever error it may have. -/
theorem skip {last : β → Prop} {f : α → Prog E ε β}
    (hf : ∀ a, Yields (fun _ => True) last (f a)) : Yields (fun _ => True) last (p >>= f) :=
  bind (m := fun _ => True) ⟨fun _ _ => trivial, fun _ _ => trivial⟩ fun a _ => hf a

theorem request {last : β → Prop} {q : E} {f : Unit → Prog E ε β} (hf : Yields own last (f ())) :
    Yields own last (Prog.request q >>= f) :=
  bind_ok (granted_request q) hf

theorem lift {r : Except ε α} (hok : ∀ a, r = .ok a → post a) (herror : ∀ e, r = .error e → own e) :
    Yields own post (liftM r : Prog E ε α) :=
  ⟨hok, herror⟩

theorem ite {c : Prop} [Decidable c] {q : Prog E ε α} (hp : c → Yields own post p)
    (hq : ¬c → Yields own post q) : Yields own post (if c then p else q) := by
  by_cases h : c
  · rw [if_pos h]
    exact hp h
  · rw [if_neg h]
    exact hq h

/-- An error under any environment is of the kind or a refusal. -/
theorem failsWith (h : Yields own post p) (hp : Passes (fun _ => True) p) : FailsWith own p :=
  hp.failsWith h.2

end Yields

end Prog
