/-
Programs that read a bit string from its front to its back.

The state of such a program is a place: an input and the number of its bits that
are behind.  `Reads` says what a program makes of bits that stand at its place.
`Cuts` says what is left of a successful run when the input ends earlier: the
same run, or the error of a cut input.
-/
import Unpackio.Foundation.Prog

namespace Cursor

variable {σ E ε α β : Type}

/-- The states of a reader, the order in which it takes the bits of its input, and its
error where the input ends. -/
structure Medium (σ ε : Type) where
  place : List UInt8 → Nat → σ
  bits : List UInt8 → List Bool
  cut : ε
  bound : Nat

variable (medium : Medium σ ε)

/-- `p` takes the bits at `start` and yields `a`. -/
def Reads (p : StateT σ (Prog E ε) α) (start : Nat) (bits : List Bool) (a : α) : Prop :=
  ∀ input : List UInt8, input.length < medium.bound →
    bits <+: (medium.bits input).drop start →
      (p (medium.place input start)).granted =
        .ok (a, medium.place input (start + bits.length))

/-- A successful run of `p` takes `least` bits or more.  Where the input is cut
before its end, the run has the error of a cut input. -/
def Cuts (least : Nat) (p : StateT σ (Prog E ε) α) : Prop :=
  ∀ (front rest : List UInt8) (start : Nat) (a : α) (state : σ),
    (front ++ rest).length < medium.bound → start ≤ 8 * front.length →
      (p (medium.place (front ++ rest) start)).granted = .ok (a, state) →
        ∃ finish, state = medium.place (front ++ rest) finish ∧ start + least ≤ finish ∧
          finish ≤ 8 * (front ++ rest).length ∧
          (p (medium.place front start)).granted =
            if finish ≤ 8 * front.length then .ok (a, medium.place front finish)
            else .error medium.cut

variable {medium} {p : StateT σ (Prog E ε) α} {f : α → StateT σ (Prog E ε) β}

theorem granted_bind (p : StateT σ (Prog E ε) α) (f : α → StateT σ (Prog E ε) β) (state : σ) :
    ((p >>= f) state).granted =
      (p state).granted >>= fun result => (f result.1 result.2).granted :=
  Prog.granted_bind _ _

theorem granted_lift (m : Prog E ε α) (state : σ) :
    ((liftM m : StateT σ (Prog E ε) α) state).granted = m.granted >>= fun a => .ok (a, state) :=
  Prog.granted_bind m fun a => Pure.pure (a, state)

theorem granted_except (m : Except ε α) (state : σ) :
    ((liftM m : StateT σ (Prog E ε) α) state).granted = m >>= fun a => .ok (a, state) :=
  granted_lift (liftM m) state

theorem granted_get (state : σ) :
    ((get : StateT σ (Prog E ε) σ) state).granted = .ok (state, state) := rfl

theorem granted_set (next state : σ) :
    ((set next : StateT σ (Prog E ε) PUnit) state).granted = .ok (⟨⟩, next) := rfl

theorem granted_pure (a : α) (state : σ) :
    ((Pure.pure a : StateT σ (Prog E ε) α) state).granted = .ok (a, state) := rfl

variable {start : Nat}

namespace Reads

theorem pure (a : α) (start : Nat) :
    Reads medium (Pure.pure a : StateT σ (Prog E ε) α) start [] a := fun _ _ _ => rfl

variable {bits : List Bool}

theorem bind {others : List Bool} {a : α} {b : β} (hp : Reads medium p start bits a)
    (hf : Reads medium (f a) (start + bits.length) others b) :
    Reads medium (p >>= f) start (bits ++ others) b := by
  intro input hinput hbits
  obtain ⟨rest, hrest⟩ := hbits
  have hfirst := hp input hinput ⟨others ++ rest, by rw [← List.append_assoc, hrest]⟩
  have hsecond := hf input hinput ⟨rest, by
    rw [← List.drop_drop, ← hrest, List.append_assoc, List.drop_left]⟩
  rw [granted_bind, hfirst, List.length_append, ← Nat.add_assoc]
  exact hsecond

theorem bind_left {a : α} {b : β} (hp : Reads medium p start [] a)
    (hf : Reads medium (f a) start bits b) : Reads medium (p >>= f) start bits b :=
  bind hp hf

theorem bind_right {a : α} {b : β} (hp : Reads medium p start bits a)
    (hf : Reads medium (f a) (start + bits.length) [] b) : Reads medium (p >>= f) start bits b := by
  have h := bind hp hf
  rwa [List.append_nil] at h

theorem lift {m : Prog E ε α} {a : α} (h : m.granted = .ok a) (start : Nat) :
    Reads medium (liftM m : StateT σ (Prog E ε) α) start [] a := by
  intro input _ _
  rw [granted_lift, h]
  rfl

/-- A step that needs nothing from its environment. -/
theorem except {m : Except ε α} {a : α} (h : m = .ok a) (start : Nat) :
    Reads medium (liftM m : StateT σ (Prog E ε) α) start [] a := by
  intro input _ _
  rw [granted_except, h]
  rfl

theorem of_eq {others : List Bool} {a : α} (h : Reads medium p start bits a) (heq : bits = others) :
    Reads medium p start others a :=
  heq ▸ h

end Reads

namespace Cuts

theorem pure (a : α) : Cuts medium 0 (Pure.pure a : StateT σ (Prog E ε) α) := by
  intro front rest start value state _ hstart h
  cases h
  exact ⟨start, rfl, Nat.le_refl _, by rw [List.length_append]; omega, (if_pos hstart).symm⟩

theorem throw (e : ε) (least : Nat) :
    Cuts medium least (MonadExcept.throw e : StateT σ (Prog E ε) α) :=
  fun _ _ _ _ _ _ _ h => (nomatch h)

theorem lift (m : Prog E ε α) : Cuts medium 0 (liftM m : StateT σ (Prog E ε) α) := by
  intro front rest start value state _ hstart h
  rw [granted_lift] at h ⊢
  obtain ⟨a, ha, h⟩ := Except.bind_eq_ok.mp h
  cases h
  exact ⟨start, rfl, Nat.le_refl _, by rw [List.length_append]; omega, by
    rw [ha, if_pos hstart]
    rfl⟩

theorem except (m : Except ε α) : Cuts medium 0 (liftM m : StateT σ (Prog E ε) α) :=
  lift (liftM m)

variable {least : Nat}

theorem mono {more : Nat} (h : Cuts medium more p) (hle : least ≤ more) : Cuts medium least p := by
  intro front rest start a state hbound hstart hrun
  obtain ⟨finish, hstate, hleast, hfinish, hfront⟩ := h front rest start a state hbound hstart hrun
  exact ⟨finish, hstate, by omega, hfinish, hfront⟩

theorem bind {more : Nat} (hp : Cuts medium least p) (hf : ∀ a, Cuts medium more (f a)) :
    Cuts medium (least + more) (p >>= f) := by
  intro front rest start b state hbound hstart h
  rw [granted_bind] at h
  obtain ⟨⟨a, middle⟩, hfirst, hsecond⟩ := Except.bind_eq_ok.mp h
  obtain ⟨finish, rfl, hleast, hfinish, hfront⟩ :=
    hp front rest start a middle hbound hstart hfirst
  rw [granted_bind, hfront]
  by_cases hinside : finish ≤ 8 * front.length
  · obtain ⟨last, rfl, hmore, hlast, hcut⟩ :=
      hf a front rest finish b state hbound hinside hsecond
    exact ⟨last, rfl, by omega, hlast, by rw [if_pos hinside]; exact hcut⟩
  · -- The first part is cut, and the second only goes on from behind the cut.
    obtain ⟨last, hstate, hmore, hlast, -⟩ := hf a (front ++ rest) [] finish b state
      (by rwa [List.append_nil]) hfinish (by rwa [List.append_nil])
    rw [List.append_nil] at hstate hlast
    exact ⟨last, hstate, by omega, hlast, by rw [if_neg hinside, if_neg (by omega)]; rfl⟩

theorem ite {c : Prop} [Decidable c] {q : StateT σ (Prog E ε) α} (hp : Cuts medium least p)
    (hq : Cuts medium least q) : Cuts medium least (if c then p else q) := by
  by_cases h : c
  · rwa [if_pos h]
  · rwa [if_neg h]

/-- A step that may take nothing, in front of the rest. -/
theorem seq (hp : Cuts medium 0 p) (hf : ∀ a, Cuts medium least (f a)) :
    Cuts medium least (p >>= f) := by
  have h := bind hp hf
  rwa [Nat.zero_add] at h

/-- Steps that may take nothing, behind the first. -/
theorem andThen (hp : Cuts medium least p) (hf : ∀ a, Cuts medium 0 (f a)) :
    Cuts medium least (p >>= f) :=
  bind hp hf

end Cuts

end Cursor
