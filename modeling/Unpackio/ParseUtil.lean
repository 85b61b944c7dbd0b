/-
Checked arithmetic, byte ranges, and the operation control, from
`parse_util.rs` and `cancel.rs`.

Machine integers are natural numbers, and each checked operation of the source
is an option that is empty where the result does not fit in 64 bits.  `usize`
and `u64` have one width, so the conversions between them are identities.
Allocation failures are not modelled.
-/
import Unpackio.Foundation.Prog
import Unpackio.Error

namespace Unpackio

def checkedAdd (a b : Nat) : Option Nat := if a + b < 2 ^ 64 then some (a + b) else none

def checkedSub (a b : Nat) : Option Nat := if b ≤ a then some (a - b) else none

variable {a b size start : Nat} {α : Type}

theorem checkedAdd_eq_some {c : Nat} : checkedAdd a b = some c ↔ a + b < 2 ^ 64 ∧ a + b = c := by
  unfold checkedAdd
  by_cases h : a + b < 2 ^ 64
  · rw [if_pos h, Option.some.injEq, and_iff_right h]
  · rw [if_neg h]
    exact ⟨fun hnone => (nomatch hnone), fun hand => absurd hand.1 h⟩

theorem checkedAdd_of_lt (h : a + b < 2 ^ 64) :
    checkedAdd a b = some (a + b) := if_pos h

theorem checkedSub_eq_some {c : Nat} : checkedSub a b = some c ↔ b ≤ a ∧ a - b = c := by
  unfold checkedSub
  by_cases h : b ≤ a <;> simp [h]

theorem checkedSub_of_le (h : b ≤ a) : checkedSub a b = some (a - b) := if_pos h

/-- `checked_mul`. -/
def checkedMul (a b : Nat) : Option Nat := if a * b < 2 ^ 64 then some (a * b) else none

theorem checkedMul_eq_some {c : Nat} : checkedMul a b = some c ↔ a * b < 2 ^ 64 ∧ a * b = c := by
  rw [checkedMul, Option.ite_none_right_eq_some, Option.some_inj]

theorem checkedMul_of_lt (h : a * b < 2 ^ 64) : checkedMul a b = some (a * b) := if_pos h

/-- `checked_shl` of an unsigned number of the given size. -/
def checkedShl (size value shift : Nat) : Option Nat :=
  if shift < size then some (value <<< shift % 2 ^ size) else none

/-- A conversion into an unsigned number of the given size. -/
def tryFrom (size value : Nat) : Option Nat := if value < 2 ^ size then some value else none

theorem checkedShl_of_lt {shift : Nat} (h : shift < size) (hfits : a * 2 ^ shift < 2 ^ size) :
    checkedShl size a shift = some (a * 2 ^ shift) := by
  rw [checkedShl, if_pos h, Nat.shiftLeft_eq, Nat.mod_eq_of_lt hfits]

theorem checkedShl_one {shift : Nat} (h : shift < size) :
    checkedShl size 1 shift = some (2 ^ shift) := by
  rw [checkedShl, if_pos h, Nat.one_shiftLeft,
    Nat.mod_eq_of_lt (Nat.pow_lt_pow_right (by decide) h)]

theorem tryFrom_eq_some {value result : Nat} :
    tryFrom size value = some result ↔ value < 2 ^ size ∧ value = result := by
  rw [tryFrom, Option.ite_none_right_eq_some, Option.some_inj]

theorem tryFrom_of_lt {value : Nat} (h : value < 2 ^ size) :
    tryFrom size value = some value := if_pos h

def formatError (detail : String) : Error := .format detail

/-- `ok_or_else`. -/
def okOr {α : Type} : Option α → Error → Except Error α
  | some a, _ => .ok a
  | none, e => .error e

/-- `if condition { return Err(error) }`. -/
def rejectIf (condition : Prop) [Decidable condition] (e : Error) : Except Error Unit :=
  if condition then .error e else .ok ()

def checkLimit (value maximum : Nat) (limit : LimitKind) : Except Error Unit :=
  rejectIf (maximum < value) (.limitExceeded limit value maximum)

@[simp] theorem okOr_some (a : α) (e : Error) : okOr (some a) e = .ok a := rfl

theorem okOr_bind {β : Type} (a : α) (e : Error) (f : α → Except Error β) :
    (okOr (some a) e >>= f) = f a := rfl

@[simp] theorem okOr_none (e : Error) : okOr (none : Option α) e = .error e := rfl

theorem checkedAdd_bind (h : a + b < 2 ^ 64) (e : Error) {β : Type} (f : Nat → Except Error β) :
    (okOr (checkedAdd a b) e >>= f) = f (a + b) := by
  rw [checkedAdd_of_lt h]
  rfl

theorem okOr_eq_ok {o : Option α} {e : Error} {a : α} : okOr o e = .ok a ↔ o = some a := by
  cases o <;> simp [okOr]

theorem checkedAdd_eq_ok {c : Nat} {e : Error} :
    okOr (checkedAdd a b) e = .ok c ↔ a + b < 2 ^ 64 ∧ a + b = c :=
  okOr_eq_ok.trans checkedAdd_eq_some

theorem checkedSub_eq_ok {c : Nat} {e : Error} :
    okOr (checkedSub a b) e = .ok c ↔ b ≤ a ∧ a - b = c :=
  okOr_eq_ok.trans checkedSub_eq_some

theorem rejectIf_eq_ok {c : Prop} [Decidable c] {e : Error} {u : Unit} :
    rejectIf c e = .ok u ↔ ¬c := by
  unfold rejectIf
  by_cases h : c <;> simp [h]

theorem rejectIf_of_not {c : Prop} [Decidable c] (h : ¬c) (e : Error) :
    rejectIf c e = .ok () := if_neg h

theorem rejectIf_of {c : Prop} [Decidable c] (h : c) (e : Error) :
    rejectIf c e = .error e := if_pos h

theorem checkLimit_eq_ok {value maximum : Nat} {limit : LimitKind} {u : Unit} :
    checkLimit value maximum limit = .ok u ↔ value ≤ maximum := by
  rw [checkLimit, rejectIf_eq_ok, Nat.not_lt]

theorem checkLimit_of_le {value maximum : Nat} (h : value ≤ maximum) (limit : LimitKind) :
    checkLimit value maximum limit = .ok () := checkLimit_eq_ok.mpr h

-- A property of all bytes of a list is decided along the list, not for all bytes that there are.
instance (priority := 2000) decidableForallMem {α : Type} (p : α → Prop) [DecidablePred p]
    (l : List α) : Decidable (∀ a ∈ l, p a) := List.decidableBAll p l

/-- `bytes.get(start..finish)`. -/
def getRange {α : Type} (bytes : List α) (start finish : Nat) : Option (List α) :=
  if start ≤ finish ∧ finish ≤ bytes.length then some ((bytes.take finish).drop start) else none

theorem getRange_eq_some {bytes out : List α} {finish : Nat} :
    getRange bytes start finish = some out ↔
      start ≤ finish ∧ finish ≤ bytes.length ∧ (bytes.take finish).drop start = out := by
  unfold getRange
  by_cases h : start ≤ finish ∧ finish ≤ bytes.length
  · simp [h]
  · rw [if_neg h]
    exact ⟨fun h' => (nomatch h'), fun h' => absurd ⟨h'.1, h'.2.1⟩ h⟩

theorem getRange_append_right (front bytes : List α) (start finish : Nat) :
    getRange (front ++ bytes) (front.length + start) (front.length + finish) =
      getRange bytes start finish := by
  unfold getRange
  by_cases h : start ≤ finish ∧ finish ≤ bytes.length
  · rw [if_pos h, if_pos (by rw [List.length_append]; omega), List.take_length_add_append,
      List.drop_length_add_append]
  · rw [if_neg h, if_neg (by rw [List.length_append]; omega)]

def checkedRange (bytes : List UInt8) (start length : Nat)
    (overflowDetail truncatedDetail : String) : Except Error (List UInt8) := do
  let finish ← okOr (checkedAdd start length) (formatError overflowDetail)
  okOr (getRange bytes start finish) (formatError truncatedDetail)

theorem checkedRange_eq_ok {bytes out : List UInt8} {length : Nat} {o t : String} :
    checkedRange bytes start length o t = .ok out ↔
      start + length < 2 ^ 64 ∧ start + length ≤ bytes.length ∧
        (bytes.take (start + length)).drop start = out := by
  simp only [checkedRange, Except.bind_eq_ok, okOr_eq_ok, checkedAdd_eq_some, getRange_eq_some]
  constructor
  · rintro ⟨_, ⟨hlt, rfl⟩, _, hle, hout⟩
    exact ⟨hlt, hle, hout⟩
  · rintro ⟨hlt, hle, hout⟩
    exact ⟨_, ⟨hlt, rfl⟩, by omega, hle, hout⟩

theorem checkedRange_iff_drop {bytes out : List UInt8} (hlen : bytes.length < 2 ^ 64) {length : Nat}
    {o t : String} :
    checkedRange bytes start length o t = .ok out ↔
      start + length ≤ bytes.length ∧ out.length = length ∧
        bytes.drop start = out ++ bytes.drop (start + length) := by
  rw [checkedRange_eq_ok]
  have hsplit : start + length ≤ bytes.length →
      bytes.drop start = (bytes.take (start + length)).drop start ++
        bytes.drop (start + length) := by
    intro hle
    have h := congrArg (List.drop start) (List.take_append_drop (start + length) bytes)
    rwa [List.drop_append_of_le_length (by rw [List.length_take]; omega), eq_comm] at h
  have hcount : start + length ≤ bytes.length →
      ((bytes.take (start + length)).drop start).length = length := by
    intro hle
    rw [List.length_drop, List.length_take]
    omega
  constructor
  · rintro ⟨-, hle, rfl⟩
    exact ⟨hle, hcount hle, hsplit hle⟩
  · rintro ⟨hle, hout, hdrop⟩
    refine ⟨by omega, hle, ?_⟩
    rw [hsplit hle] at hdrop
    exact List.append_inj_left hdrop ((hcount hle).trans hout.symm)

theorem drop_of_append {bytes out rest : List α} (h : bytes.drop start = out ++ rest) :
    bytes.drop (start + out.length) = rest := by
  rw [← List.drop_drop, h, List.drop_left]

theorem checkedRange_of_drop {bytes out rest : List UInt8} (hlen : bytes.length < 2 ^ 64)
    (hstart : start ≤ bytes.length) (h : bytes.drop start = out ++ rest) (o t : String) :
    checkedRange bytes start out.length o t = .ok out := by
  have hcount := congrArg List.length h
  rw [List.length_drop, List.length_append] at hcount
  refine (checkedRange_iff_drop hlen).mpr ⟨by omega, rfl, ?_⟩
  rw [drop_of_append h, h]

theorem getRange_of_drop {bytes out rest : List α} {finish : Nat} (hstart : start ≤ bytes.length)
    (h : bytes.drop start = out ++ rest) (hfinish : start + out.length = finish) :
    getRange bytes start finish = some out := by
  have hcount := congrArg List.length h
  rw [List.length_drop, List.length_append] at hcount
  refine getRange_eq_some.mpr ⟨by omega, by omega, ?_⟩
  rw [List.drop_take, h, ← hfinish, Nat.add_sub_cancel_left, List.take_left]

/-- `bytes.chunks(size)`. -/
def chunks {α : Type} (size : Nat) (bytes : List α) : List (List α) :=
  (List.range ((bytes.length + size - 1) / size)).map fun i => (bytes.drop (i * size)).take size

theorem chunks_nil (h : 0 < size) : chunks size ([] : List α) = [] := by
  rw [chunks, List.length_nil, Nat.zero_add, Nat.div_eq_of_lt (by omega)]
  rfl

theorem chunks_of_ne_nil (h : 0 < size) {bytes : List α} (hne : bytes ≠ []) :
    chunks size bytes = bytes.take size :: chunks size (bytes.drop size) := by
  have hpos : 0 < bytes.length := List.length_pos_iff.mpr hne
  have hcount : (bytes.length + size - 1) / size =
      ((bytes.drop size).length + size - 1) / size + 1 := by
    rw [List.length_drop]
    rcases Nat.le_total size bytes.length with hle | hle
    · rw [← Nat.add_div_right _ h]
      congr 1
      omega
    · rw [Nat.sub_eq_zero_of_le hle, Nat.zero_add, Nat.div_eq_of_lt (by omega : size - 1 < size)]
      exact Nat.div_eq_of_lt_le (by omega) (by omega)
  rw [chunks, hcount, List.range_succ_eq_map, List.map_cons, Nat.zero_mul, List.drop_zero,
    List.map_map, chunks]
  refine congrArg _ (List.map_congr_left fun i _ => ?_)
  simp only [Function.comp_apply, List.drop_drop, Nat.succ_eq_add_one, Nat.add_mul, Nat.one_mul]
  rw [Nat.add_comm]

theorem flatten_chunks (h : 0 < size) (bytes : List α) : (chunks size bytes).flatten = bytes := by
  induction hn : bytes.length using Nat.strongRecOn generalizing bytes with
  | _ n ih =>
    by_cases hne : bytes = []
    · rw [hne, chunks_nil h]
      rfl
    · have hpos : 0 < bytes.length := List.length_pos_iff.mpr hne
      rw [chunks_of_ne_nil h hne, List.flatten_cons,
        ih (bytes.drop size).length (by rw [List.length_drop]; omega) _ rfl,
        List.take_append_drop]

def controlChunkSize : Nat := 4096

def ioChunkSize : Nat := 8192

/-- A cancellation token, as the number of checks that still find it running.
No number means that it is never cancelled. -/
structure CancellationToken where
  checksLeft : Option Nat
  deriving DecidableEq, Repr

def CancellationToken.check : CancellationToken → Except Error Unit × CancellationToken
  | ⟨none⟩ => (.ok (), ⟨none⟩)
  | ⟨some 0⟩ => (.error .cancelled, ⟨some 0⟩)
  | ⟨some (n + 1)⟩ => (.ok (), ⟨some n⟩)

structure WorkBudget where
  remaining : Option Nat
  consumed : Nat
  deriving DecidableEq, Repr

namespace WorkBudget

def bounded (units : Nat) : WorkBudget := { remaining := some units, consumed := 0 }

def unlimited : WorkBudget := { remaining := none, consumed := 0 }

def charge (budget : WorkBudget) (units : Nat) : Except Error Unit × WorkBudget :=
  match budget.remaining with
  | some remaining =>
    match checkedSub remaining units with
    | none => (.error (.limitExceeded .workUnits units remaining), budget)
    | some left =>
      match checkedAdd budget.consumed units with
      | none => (.error (.limitExceeded .workUnits units (2 ^ 64 - 1 - budget.consumed)), budget)
      | some consumed => (.ok (), { remaining := some left, consumed := consumed })
  | none =>
    match checkedAdd budget.consumed units with
    | none => (.error (.limitExceeded .workUnits units (2 ^ 64 - 1 - budget.consumed)), budget)
    | some consumed => (.ok (), { remaining := none, consumed := consumed })

end WorkBudget

structure ParseControl where
  cancellation : CancellationToken
  budget : WorkBudget
  deriving DecidableEq, Repr

/-- `ParseControl::checkpoint`: the token is checked, then the budget charged. -/
def ParseControl.answer (control : ParseControl) (units : Nat) :
    Except Error Unit × ParseControl :=
  match control.cancellation.check with
  | (.error e, cancellation) => (.error e, { control with cancellation := cancellation })
  | (.ok (), cancellation) =>
    let (result, budget) := control.budget.charge units
    (result, { cancellation := cancellation, budget := budget })

/-- A computation under an operation control.  A request is a checkpoint with
its work units. -/
abbrev Metered (α : Type) : Type := Prog Nat Error α

def checkpoint (units : Nat) : Metered Unit := Prog.request units

@[simp] theorem checkpoint_granted (units : Nat) : (checkpoint units).granted = .ok () := rfl

theorem checkpoint_bind (units : Nat) (f : Unit → Metered α) :
    (checkpoint units >>= f).granted = (f ()).granted := rfl

/-- `ParseControl::consume_bytes`. -/
def consumeBytes (bytes : List UInt8) : Metered Unit :=
  if bytes.isEmpty then checkpoint 0
  else (chunks controlChunkSize bytes).forM fun chunk => checkpoint chunk.length

theorem granted_forM (f : α → Metered Unit) (l : List α) (h : ∀ a ∈ l, (f a).granted = .ok ()) :
    (l.forM f).granted = .ok () := by
  induction l with
  | nil => rfl
  | cons a l ih =>
    show ((f a >>= fun _ => l.forM f).granted) = .ok ()
    rw [Prog.granted_bind, h a List.mem_cons_self, Except.ok_bind]
    exact ih fun b hb => h b (List.mem_cons_of_mem a hb)

@[simp] theorem consumeBytes_granted (bytes : List UInt8) :
    (consumeBytes bytes).granted = .ok () := by
  rw [consumeBytes, Prog.granted_ite]
  split
  · rfl
  · exact granted_forM _ _ fun _ _ => rfl

/-- `copy_bytes`. -/
def copyBytes (bytes : List UInt8) : Metered (List UInt8) := do
  checkpoint bytes.length
  (chunks controlChunkSize bytes).forM fun _ => checkpoint 0
  return bytes

@[simp] theorem copyBytes_granted (bytes : List UInt8) :
    (copyBytes bytes).granted = .ok bytes := by
  have hloop : ((chunks controlChunkSize bytes).forM fun _ => checkpoint 0).granted = .ok () :=
    granted_forM _ _ fun _ _ => rfl
  simp only [copyBytes, Prog.granted_bind, checkpoint_granted, Except.ok_bind, hloop,
    Prog.granted_pure]

end Unpackio
