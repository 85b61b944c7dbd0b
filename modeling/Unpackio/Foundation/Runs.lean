/-
What a program can do against any environment.

`Runs` pairs a program with the requests it passed, their answers and the result
it ended with.  Nothing is assumed of the answers, so a fact about every `Runs`
is a fact about every environment.  `CanReturn` forgets the requests.
-/
import Unpackio.Foundation.Prog

namespace Prog

variable {E F ε σ α β : Type}

/-- `p` passed the requests of the trace, got the answers there, and ended with
the result. -/
inductive Runs : Prog E ε α → List (E × Except ε Unit) → Except ε α → Prop
  | done (result : Except ε α) : Runs (.done result) [] result
  | ask (request : E) (answer : Except ε Unit) (resume : Except ε Unit → Prog E ε α)
      {trace : List (E × Except ε Unit)} {result : Except ε α}
      (rest : Runs (resume answer) trace result) :
      Runs (.ask request resume) ((request, answer) :: trace) result

variable {p : Prog E ε α} {f : α → Prog E ε β} {a : α} {trace : List (E × Except ε Unit)}
  {result : Except ε α}

namespace Runs

theorem done_iff {r : Except ε α} : Runs (.done r) trace result ↔ trace = [] ∧ result = r := by
  constructor
  · intro h
    cases h
    exact ⟨rfl, rfl⟩
  · rintro ⟨rfl, rfl⟩
    exact .done _

theorem pure_iff :
    Runs (pure a : Prog E ε α) trace result ↔ trace = [] ∧ result = .ok a := done_iff

theorem lift_iff {r : Except ε α} :
    Runs (liftM r : Prog E ε α) trace result ↔ trace = [] ∧ result = r := done_iff

theorem request_iff {q : E} {result : Except ε Unit} :
    Runs (request q : Prog E ε Unit) trace result ↔ trace = [(q, result)] := by
  constructor
  · intro h
    cases h with
    | ask _ answer _ rest =>
      obtain ⟨rfl, rfl⟩ := done_iff.mp rest
      rfl
  · rintro rfl
    exact .ask q result _ (.done result)

theorem bind {front rest : List (E × Except ε Unit)} {result : Except ε β}
    (hp : Runs p front (.ok a)) (hf : Runs (f a) rest result) :
    Runs (p >>= f) (front ++ rest) result := by
  induction p generalizing front with
  | done r =>
    obtain ⟨rfl, rfl⟩ := done_iff.mp hp
    exact hf
  | ask q k ih =>
    cases hp with
    | ask _ answer _ hp => exact .ask q answer _ (ih answer hp)

/-- A run of a sequence is a run of its first part, with a run of the second
part behind it unless the first one failed. -/
theorem of_bind {result : Except ε β} (h : Runs (p >>= f) trace result) :
    (∃ a front rest, trace = front ++ rest ∧ Runs p front (.ok a) ∧ Runs (f a) rest result) ∨
      ∃ e, result = .error e ∧ Runs p trace (.error e) := by
  induction p generalizing trace with
  | done r =>
    cases r with
    | error e =>
      obtain ⟨rfl, rfl⟩ := done_iff.mp h
      exact .inr ⟨e, rfl, .done _⟩
    | ok a => exact .inl ⟨a, [], trace, rfl, .done _, h⟩
  | ask q k ih =>
    cases h with
    | ask _ answer _ h =>
      rcases ih answer h with ⟨a, front, rest, rfl, hp, hf⟩ | ⟨e, he, hp⟩
      · exact .inl ⟨a, (q, answer) :: front, rest, rfl, .ask q answer _ hp, hf⟩
      · exact .inr ⟨e, he, .ask q answer _ hp⟩

theorem of_mapRequest {g : E → F} {trace : List (F × Except ε Unit)}
    (h : Runs (p.mapRequest g) trace result) :
    ∃ inner, trace = inner.map (fun event => (g event.1, event.2)) ∧ Runs p inner result := by
  induction p generalizing trace with
  | done r =>
    obtain ⟨rfl, rfl⟩ := done_iff.mp h
    exact ⟨[], rfl, .done _⟩
  | ask q k ih =>
    cases h with
    | ask _ answer _ h =>
      obtain ⟨inner, rfl, hinner⟩ := ih answer h
      exact ⟨(q, answer) :: inner, rfl, .ask q answer _ hinner⟩

theorem of_mapError {g : ε → ε} (h : Runs (p.mapError g) trace result) :
    ∃ inner, result = inner.mapError g ∧ Runs p trace inner := by
  induction p generalizing trace with
  | done r =>
    obtain ⟨rfl, rfl⟩ := done_iff.mp h
    exact ⟨r, rfl, .done _⟩
  | ask q k ih =>
    cases h with
    | ask _ answer _ h =>
      obtain ⟨inner, hresult, hinner⟩ := ih answer h
      exact ⟨inner, hresult, .ask q answer _ hinner⟩

theorem eq_granted (h : Runs p trace result)
    (hgranted : ∀ event ∈ trace, event.2 = .ok ()) : result = p.granted := by
  induction h with
  | done result => rfl
  | ask request answer resume rest ih =>
    have hanswer : answer = .ok () := hgranted _ List.mem_cons_self
    subst hanswer
    exact ih fun event hevent => hgranted event (List.mem_cons_of_mem _ hevent)

end Runs

theorem not_mem_granted {requests : List E} {q : E} {e : ε} :
    (q, .error e) ∉ requests.map fun q => (q, (.ok () : Except ε Unit)) := by
  intro hmem
  obtain ⟨_, -, heq⟩ := List.mem_map.mp hmem
  exact (nomatch congrArg Prod.snd heq)

theorem runs_of_run (answer : σ → E → Except ε Unit × σ) (events : σ → List (E × Except ε Unit))
    (hrecord : ∀ s q, events (answer s q).2 = events s ++ [(q, (answer s q).1)])
    (p : Prog E ε α) (s : σ) :
    ∃ trace, events (p.run answer s).2 = events s ++ trace ∧
      Runs p trace (p.run answer s).1 := by
  induction p generalizing s with
  | done r => exact ⟨[], (List.append_nil _).symm, .done r⟩
  | ask q k ih =>
    obtain ⟨trace, hevents, hruns⟩ := ih (answer s q).1 (answer s q).2
    refine ⟨(q, (answer s q).1) :: trace, ?_, .ask q _ k hruns⟩
    rw [run, hevents, hrecord, List.append_assoc]
    rfl

theorem runs_run (answer : σ → E → Except ε Unit × σ) (p : Prog E ε α) (s : σ) :
    ∃ trace, Runs p trace (p.run answer s).1 := by
  induction p generalizing s with
  | done r => exact ⟨[], .done r⟩
  | ask q k ih =>
    obtain ⟨trace, hruns⟩ := ih (answer s q).1 (answer s q).2
    exact ⟨(q, (answer s q).1) :: trace, .ask q _ k hruns⟩

/-- Some environment lets `p` end with `a`. -/
def CanReturn (p : Prog E ε α) (a : α) : Prop := ∃ trace, Runs p trace (.ok a)

namespace CanReturn

theorem pure_iff {a b : α} : (pure a : Prog E ε α).CanReturn b ↔ a = b := by
  constructor
  · rintro ⟨trace, h⟩
    exact (Except.ok.inj (Runs.pure_iff.mp h).2).symm
  · rintro rfl
    exact ⟨[], .done _⟩

theorem lift_iff {r : Except ε α} : (liftM r : Prog E ε α).CanReturn a ↔ r = .ok a := by
  constructor
  · rintro ⟨trace, h⟩
    exact (Runs.lift_iff.mp h).2.symm
  · rintro rfl
    exact ⟨[], .done _⟩

theorem bind_iff {b : β} :
    (p >>= f).CanReturn b ↔ ∃ a, p.CanReturn a ∧ (f a).CanReturn b := by
  constructor
  · rintro ⟨trace, h⟩
    rcases h.of_bind with ⟨a, front, rest, -, hp, hf⟩ | ⟨e, he, -⟩
    · exact ⟨a, ⟨front, hp⟩, ⟨rest, hf⟩⟩
    · exact (nomatch he)
  · rintro ⟨a, ⟨front, hp⟩, ⟨rest, hf⟩⟩
    exact ⟨front ++ rest, hp.bind hf⟩

theorem of_granted (h : p.granted = .ok a) : p.CanReturn a := by
  induction p with
  | done r => exact ⟨[], h ▸ .done _⟩
  | ask q k ih =>
    obtain ⟨trace, hruns⟩ := ih (.ok ()) h
    exact ⟨(q, .ok ()) :: trace, .ask q _ k hruns⟩

theorem of_mapError {g : ε → ε} (h : (p.mapError g).CanReturn a) : p.CanReturn a := by
  obtain ⟨trace, h⟩ := h
  obtain ⟨inner, hresult, hinner⟩ := h.of_mapError
  rw [eq_comm, Except.mapError_eq_ok] at hresult
  exact ⟨trace, hresult ▸ hinner⟩

end CanReturn

/-- The requests that `p` passes when every one is granted. -/
def asked : Prog E ε α → List E
  | .done _ => []
  | .ask request resume => request :: asked (resume (.ok ()))

theorem asked_bind (h : p.granted = .ok a) : (p >>= f).asked = p.asked ++ (f a).asked := by
  induction p with
  | done r =>
    subst h
    rfl
  | ask q k ih => exact congrArg (q :: ·) (ih (.ok ()) h)

section

variable {f : α → Prog E ε Unit} {l : List α} (h : ∀ a ∈ l, (f a).granted = .ok ())
include h

theorem granted_forM_eq : (l.forM f).granted = .ok () := by
  induction l with
  | nil => rfl
  | cons a l ih =>
    show (f a >>= fun _ => l.forM f).granted = .ok ()
    rw [granted_bind, h a List.mem_cons_self]
    exact ih fun b hb => h b (List.mem_cons_of_mem a hb)

theorem asked_forM : (l.forM f).asked = l.flatMap fun a => (f a).asked := by
  induction l with
  | nil => rfl
  | cons a l ih =>
    show (f a >>= fun _ => l.forM f).asked = _
    rw [asked_bind (h a List.mem_cons_self), List.flatMap_cons]
    exact congrArg _ (ih fun b hb => h b (List.mem_cons_of_mem a hb))

end

theorem asked_mapRequest {F : Type} (g : E → F) (p : Prog E ε α) :
    (p.mapRequest g).asked = p.asked.map g := by
  induction p with
  | done r => rfl
  | ask q k ih => exact congrArg (g q :: ·) (ih (.ok ()))

theorem runs_asked (p : Prog E ε α) :
    Runs p (p.asked.map fun request => (request, .ok ())) p.granted := by
  induction p with
  | done r => exact .done r
  | ask q k ih => exact .ask q _ k (ih (.ok ()))

def Strict : Prog E ε α → Prop
  | .done _ => True
  | .ask _ resume => (∀ refusal, ∃ e, resume (.error refusal) = .done (.error e)) ∧
    Strict (resume (.ok ()))

namespace Strict

theorem pure (a : α) : Strict (Pure.pure a : Prog E ε α) := trivial

theorem lift (r : Except ε α) : Strict (liftM r : Prog E ε α) := trivial

theorem throw (e : ε) : Strict (MonadExcept.throw e : Prog E ε α) := trivial

theorem request (q : E) : Strict (Prog.request q : Prog E ε Unit) :=
  ⟨fun refusal => ⟨refusal, rfl⟩, trivial⟩

theorem bind (hp : Strict p) (hf : ∀ a, Strict (f a)) : Strict (p >>= f) := by
  induction p with
  | done r =>
    cases r with
    | error e => exact trivial
    | ok a => exact hf a
  | ask q k ih =>
    refine ⟨fun refusal => ?_, ih (.ok ()) hp.2⟩
    obtain ⟨e, he⟩ := hp.1 refusal
    exact ⟨e, show (k (.error refusal)).bind f = _ by rw [he]; rfl⟩

theorem step {r : Except ε α} (hf : ∀ a, Strict (f a)) : Strict (liftM r >>= f) :=
  bind (lift r) hf

theorem mapError (g : ε → ε) (hp : Strict p) : Strict (p.mapError g) := by
  induction p with
  | done r => exact trivial
  | ask q k ih =>
    refine ⟨fun refusal => ?_, ih (.ok ()) hp.2⟩
    obtain ⟨e, he⟩ := hp.1 refusal
    exact ⟨g e, show (k (.error refusal)).mapError g = _ by rw [he]; rfl⟩

theorem mapRequest (g : E → F) (hp : Strict p) : Strict (p.mapRequest g) := by
  induction p with
  | done r => exact trivial
  | ask q k ih =>
    refine ⟨fun refusal => ?_, ih (.ok ()) hp.2⟩
    obtain ⟨e, he⟩ := hp.1 refusal
    exact ⟨e, show (k (.error refusal)).mapRequest g = _ by rw [he]; rfl⟩

theorem ite {c : Prop} [Decidable c] {q : Prog E ε α} (hp : Strict p) (hq : Strict q) :
    Strict (if c then p else q) := by
  split
  · exact hp
  · exact hq

variable (hp : Strict p)
include hp

/-- Every request of a run that ends well was granted. -/
theorem granted_of_runs (h : Runs p trace (.ok a)) : p.granted = .ok a := by
  induction p generalizing trace with
  | done r => exact (Runs.done_iff.mp h).2.symm
  | ask q k ih =>
    cases h with
    | ask _ answer _ hrest =>
      cases answer with
      | ok _ => exact ih (.ok ()) hp.2 hrest
      | error refusal =>
        obtain ⟨e, he⟩ := hp.1 refusal
        rw [he] at hrest
        exact (nomatch (Runs.done_iff.mp hrest).2)

theorem refused (h : Runs p trace result) {front rest : List (E × Except ε Unit)} {q : E}
    {refusal : ε} (heq : trace = front ++ (q, .error refusal) :: rest) :
    rest = [] ∧ ∃ e, result = .error e := by
  induction h generalizing front with
  | done r => exact absurd (congrArg List.length heq) (by simp)
  | ask q' answer k hrest ih =>
    cases front with
    | nil =>
      obtain ⟨⟨-, rfl⟩, rfl⟩ := List.cons.inj heq
      obtain ⟨e, he⟩ := hp.1 refusal
      rw [he] at hrest
      obtain ⟨rfl, rfl⟩ := Runs.done_iff.mp hrest
      exact ⟨rfl, e, rfl⟩
    | cons event front =>
      have htail := (List.cons.inj heq).2
      cases answer with
      | ok _ => exact ih hp.2 htail
      | error refusal' =>
        obtain ⟨e, he⟩ := hp.1 refusal'
        rw [he] at hrest
        rw [(Runs.done_iff.mp hrest).1] at htail
        exact absurd (congrArg List.length htail) (by simp)

end Strict

end Prog
