/-
Parsers whose success depends on what they take and on what follows it.

A parser stands between the elements behind it and those ahead.  `Takes` says that
it takes given elements wherever they stand, before anything that may follow them.
`Delimits` says that every success is of this kind, so that a parser finds the end
of its own input.
-/
import Unpackio.Foundation.Prog

namespace Delimited

variable {σ τ ε α β : Type}

/-- The states of a parser between two lists, and a bound on the input. -/
structure Track (σ τ : Type) where
  place : List τ → List τ → σ
  bound : Nat

variable (track : Track σ τ)

/-- `p` takes `taken` and yields `a`, before anything that may follow. -/
def Takes (follows : List τ → Prop) (p : StateT σ (Except ε) α) (taken : List τ) (a : α) : Prop :=
  ∀ front rest, follows rest → (front ++ taken ++ rest).length < track.bound →
    p (track.place front (taken ++ rest)) = .ok (a, track.place (front ++ taken) rest)

/-- Every success of `p` takes something.  What may follow depends on the result. -/
def Delimits (follows : α → List τ → Prop) (p : StateT σ (Except ε) α) : Prop :=
  ∀ front tail a next, (front ++ tail).length < track.bound →
    p (track.place front tail) = .ok (a, next) →
      ∃ taken rest, tail = taken ++ rest ∧ next = track.place (front ++ taken) rest ∧
        Takes track (follows a) p taken a

abbrev anything : α → List τ → Prop := fun _ _ => True

variable {track} {p : StateT σ (Except ε) α} {f : α → StateT σ (Except ε) β}

theorem run_bind (p : StateT σ (Except ε) α) (f : α → StateT σ (Except ε) β) (state : σ) :
    (p >>= f) state = p state >>= fun result => f result.1 result.2 := rfl

namespace Takes

theorem pure (follows : List τ → Prop) (a : α) :
    Takes track follows (Pure.pure a : StateT σ (Except ε) α) [] a := by
  intro front rest _ _
  rw [List.append_nil]
  rfl

theorem bind {follows : List τ → Prop} {first second : List τ} {a : α} {b : β}
    (hp : Takes track (fun _ => True) p first a) (hf : Takes track follows (f a) second b) :
    Takes track follows (p >>= f) (first ++ second) b := by
  intro front rest hrest hbound
  have hfirst := hp front (second ++ rest) trivial (by simpa only [List.append_assoc] using hbound)
  have hsecond := hf (front ++ first) rest hrest (by simpa only [List.append_assoc] using hbound)
  rw [run_bind, List.append_assoc first, hfirst, Except.ok_bind]
  rw [hsecond, List.append_assoc front]

theorem lift {r : Except ε α} {a : α} (h : r = .ok a) (follows : List τ → Prop) :
    Takes track follows (liftM r : StateT σ (Except ε) α) [] a := by
  subst h
  exact pure follows a

theorem seq {follows : List τ → Prop} {taken : List τ} {a : α} {b : β}
    (hp : Takes track (fun _ => True) p [] a) (hf : Takes track follows (f a) taken b) :
    Takes track follows (p >>= f) taken b :=
  bind hp hf

theorem imp {follows further : List τ → Prop} {taken : List τ} {a : α}
    (h : Takes track further p taken a) (himp : ∀ rest, follows rest → further rest) :
    Takes track follows p taken a :=
  fun front rest hrest => h front rest (himp rest hrest)

end Takes

namespace Delimits

theorem pure (follows : α → List τ → Prop) (a : α) :
    Delimits track follows (Pure.pure a : StateT σ (Except ε) α) := by
  intro front tail b next _ h
  cases h
  exact ⟨[], tail, rfl, by rw [List.append_nil], .pure _ a⟩

theorem bind {follows : β → List τ → Prop} (hp : Delimits track anything p)
    (hf : ∀ a, Delimits track follows (f a)) : Delimits track follows (p >>= f) := by
  intro front tail b next hbound h
  rw [run_bind] at h
  obtain ⟨⟨a, middle⟩, hfirst, hsecond⟩ := Except.bind_eq_ok.mp h
  obtain ⟨first, rest, rfl, rfl, htakes⟩ := hp front tail a middle hbound hfirst
  obtain ⟨second, rest, rfl, rfl, htakes'⟩ := hf a (front ++ first) rest b next
    (by simpa only [List.append_assoc] using hbound) hsecond
  exact ⟨first ++ second, rest, by rw [List.append_assoc], by rw [List.append_assoc],
    htakes.bind htakes'⟩

theorem lift (follows : α → List τ → Prop) (r : Except ε α) :
    Delimits track follows (liftM r : StateT σ (Except ε) α) := by
  cases r with
  | error e => exact fun _ _ _ _ _ h => (nomatch h)
  | ok a => exact pure follows a

theorem ite {follows : α → List τ → Prop} {c : Prop} [Decidable c] {q : StateT σ (Except ε) α}
    (hp : Delimits track follows p) (hq : Delimits track follows q) :
    Delimits track follows (if c then p else q) := by
  split
  · exact hp
  · exact hq

theorem imp {follows further : α → List τ → Prop} (h : Delimits track further p)
    (himp : ∀ a rest, follows a rest → further a rest) : Delimits track follows p := by
  intro front tail a next hbound hrun
  obtain ⟨taken, rest, htail, hnext, htakes⟩ := h front tail a next hbound hrun
  exact ⟨taken, rest, htail, hnext, htakes.imp (himp a)⟩

end Delimits

def untilLast (exhausted : ε) (round : StateT σ (Except ε) Bool) : Nat → StateT σ (Except ε) Unit
  | 0 => throw exhausted
  | fuel + 1 => do
    let last ← round
    if last then return () else untilLast exhausted round fuel

section

variable {exhausted : ε} {round : StateT σ (Except ε) Bool} {follows : List τ → Prop}

theorem untilLast_last {taken : List τ} (h : Takes track follows round taken true) (fuel : Nat) :
    Takes track follows (untilLast exhausted round (fuel + 1)) taken () := by
  intro front rest hrest hbound
  rw [untilLast, run_bind, h front rest hrest hbound]
  rfl

theorem untilLast_next {first second : List τ} {fuel : Nat}
    (hround : Takes track (fun _ => True) round first false)
    (hloop : Takes track follows (untilLast exhausted round fuel) second ()) :
    Takes track follows (untilLast exhausted round (fuel + 1)) (first ++ second) () :=
  hround.bind hloop

/-- The induction is on the fuel, and any fuel above what is taken gives the same. -/
theorem untilLast_delimits (hbound : 0 < track.bound)
    (hround : Delimits track (fun last rest => last = true → follows rest) round)
    (hprogress : ∀ front next, round (track.place front []) ≠ .ok (false, next)) (fuel : Nat)
    {front tail : List τ} {next : σ} (hlen : (front ++ tail).length < track.bound)
    (h : untilLast exhausted round fuel (track.place front tail) = .ok ((), next)) :
    ∃ taken rest, tail = taken ++ rest ∧ next = track.place (front ++ taken) rest ∧
      ∀ more, taken.length < more →
        Takes track follows (untilLast exhausted round more) taken () := by
  induction fuel generalizing front tail with
  | zero => exact (nomatch h)
  | succ fuel ih =>
    rw [untilLast, run_bind] at h
    obtain ⟨⟨last, middle⟩, hfirst, hsecond⟩ := Except.bind_eq_ok.mp h
    obtain ⟨first, rest, rfl, rfl, htakes⟩ := hround front tail last middle hlen hfirst
    cases last with
    | true =>
      cases hsecond
      refine ⟨first, rest, rfl, rfl, fun more hmore => ?_⟩
      obtain ⟨more, rfl⟩ := Nat.exists_eq_add_of_lt (Nat.zero_lt_of_lt hmore)
      rw [Nat.zero_add]
      exact untilLast_last (htakes.imp fun rest hrest _ => hrest) more
    | false =>
      have hfree : Takes track (fun _ => True) round first false :=
        htakes.imp fun _ _ hlast => (nomatch hlast)
      have htaken : first ≠ [] := by
        rintro rfl
        exact hprogress [] _ (hfree [] [] trivial hbound)
      obtain ⟨second, rest, rfl, rfl, hloop⟩ := ih
        (by simpa only [List.append_assoc] using hlen) hsecond
      refine ⟨first ++ second, rest, by rw [List.append_assoc], by rw [List.append_assoc],
        fun more hmore => ?_⟩
      have hpos := List.length_pos_iff.mpr htaken
      rw [List.length_append] at hmore
      obtain ⟨more, rfl⟩ := Nat.exists_eq_add_of_lt (Nat.zero_lt_of_lt hmore)
      rw [Nat.zero_add] at hmore ⊢
      exact untilLast_next hfree (hloop more (by omega))

end

/-- Two rounds that agree while an invariant holds. -/
theorem untilLast_congr {exhausted : ε} {first second : StateT σ (Except ε) Bool} {I : σ → Prop}
    (heq : ∀ state, I state → first state = second state)
    (hkept : ∀ state next, I state → first state = .ok (false, next) → I next) (fuel : Nat)
    {state : σ} (h : I state) :
    untilLast exhausted first fuel state = untilLast exhausted second fuel state := by
  induction fuel generalizing state with
  | zero => rfl
  | succ fuel ih =>
    have hnext := hkept state
    rw [untilLast, untilLast, run_bind, run_bind, ← heq state h]
    revert hnext
    cases first state with
    | error e => exact fun _ => rfl
    | ok result =>
      obtain ⟨last, next⟩ := result
      cases last with
      | true => exact fun _ => rfl
      | false => exact fun hnext => ih (hnext next h rfl)

end Delimited
