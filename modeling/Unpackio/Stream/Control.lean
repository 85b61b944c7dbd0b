/-
The extraction control of the stream formats, from `stream/mod.rs`.

The writer, the cancellation token and the work budget are the environment.
`written` is what the writer gets of a list of requests, and `Emits` says what a
program writes and returns when nothing is refused.
-/
import Unpackio.ParseUtil
import Unpackio.Foundation.Runs

namespace Unpackio

inductive StreamRequest where
  | check
  | checkpoint (work : Nat)
  | write (bytes : List UInt8)
  deriving DecidableEq, Repr

abbrev Streamed (α : Type) : Type := Prog StreamRequest Error α

def streamFormatError (format detail : String) : Error := .streamFormat format detail

structure ExtractionControl where
  limits : Limits
  outputBytes : Nat
  deriving DecidableEq, Repr

namespace ExtractionControl

def new (limits : Limits) : ExtractionControl := { limits := limits, outputBytes := 0 }

def checkpoint (work : Nat) : Streamed Unit := Prog.request (.checkpoint work)

def checkedOutputTotal (control : ExtractionControl) (additional : Nat) : Except Error Nat := do
  let next ← okOr (checkedAdd control.outputBytes additional)
    (streamFormatError "compressed" "output size overflows")
  checkLimit next control.limits.maxEntryOutputBytes .entryOutputBytes
  checkLimit next control.limits.maxTotalOutputBytes .totalOutputBytes
  return next

def writeOutput (control : ExtractionControl) (bytes : List UInt8) :
    Streamed ExtractionControl := do
  Prog.request .check
  let next ← control.checkedOutputTotal bytes.length
  Prog.request (.write bytes)
  return { control with outputBytes := next }

end ExtractionControl

/-- The output limits allow `total` bytes. -/
structure Limits.Allows (limits : Limits) (total : Nat) : Prop where
  entryLimit : total ≤ limits.maxEntryOutputBytes
  totalLimit : total ≤ limits.maxTotalOutputBytes
  fits : total < 2 ^ 64

theorem Limits.Allows.mono {limits : Limits} {total smaller : Nat} (h : limits.Allows total)
    (hle : smaller ≤ total) : limits.Allows smaller :=
  ⟨Nat.le_trans hle h.entryLimit, Nat.le_trans hle h.totalLimit, Nat.lt_of_le_of_lt hle h.fits⟩

theorem ExtractionControl.checkedOutputTotal_of_allows {control : ExtractionControl}
    {additional : Nat} (h : control.limits.Allows (control.outputBytes + additional)) :
    control.checkedOutputTotal additional = .ok (control.outputBytes + additional) := by
  rw [checkedOutputTotal, checkedAdd_bind h.fits, checkLimit_of_le h.entryLimit, Except.ok_bind,
    checkLimit_of_le h.totalLimit]
  rfl

def written (requests : List StreamRequest) : List UInt8 :=
  requests.flatMap fun
    | .write bytes => bytes
    | _ => []

@[simp] theorem written_nil : written [] = [] := rfl

@[simp] theorem written_append (front rest : List StreamRequest) :
    written (front ++ rest) = written front ++ written rest := List.flatMap_append

/-- When nothing is refused, `p` writes the bytes and returns `a`. -/
def Emits {α : Type} (p : Streamed α) (bytes : List UInt8) (a : α) : Prop :=
  p.granted = .ok a ∧ written p.asked = bytes

variable {bytes : List UInt8}

namespace Emits

variable {α β : Type}

theorem pure (a : α) : Emits (Pure.pure a) [] a := ⟨rfl, rfl⟩

theorem lift {r : Except Error α} {a : α} (h : r = .ok a) : Emits (liftM r) [] a := ⟨h, rfl⟩

theorem check : Emits (Prog.request .check) [] () := ⟨rfl, rfl⟩

theorem checkpoint (work : Nat) : Emits (ExtractionControl.checkpoint work) [] () := ⟨rfl, rfl⟩

theorem write (bytes : List UInt8) : Emits (Prog.request (.write bytes)) bytes () :=
  ⟨rfl, List.append_nil bytes⟩

variable {f : α → Streamed β}

theorem bind {p : Streamed α} {front rest : List UInt8} {a : α} {b : β} (hp : Emits p front a)
    (hf : Emits (f a) rest b) : Emits (p >>= f) (front ++ rest) b := by
  constructor
  · rw [Prog.granted_bind, hp.1]
    exact hf.1
  · rw [Prog.asked_bind hp.1, written_append, hp.2, hf.2]

theorem quiet_bind {p : Streamed α} {a : α} {b : β} (hp : Emits p [] a) (hf : Emits (f a) bytes b) :
    Emits (p >>= f) bytes b := hp.bind hf

theorem bind_quiet {p : Streamed α} {a : α} {b : β} (hp : Emits p bytes a) (hf : Emits (f a) [] b) :
    Emits (p >>= f) bytes b := by
  have h := hp.bind hf
  rwa [List.append_nil] at h

theorem lift_bind {r : Except Error α} {a : α} {b : β} (hr : r = .ok a) (hf : Emits (f a) bytes b) :
    Emits (liftM r >>= f) bytes b :=
  (lift hr).bind hf

end Emits

theorem ExtractionControl.writeOutput_emits {control : ExtractionControl}
    (h : control.limits.Allows (control.outputBytes + bytes.length)) :
    Emits (control.writeOutput bytes) bytes
      { control with outputBytes := control.outputBytes + bytes.length } := by
  refine Emits.check.quiet_bind (.lift_bind (checkedOutputTotal_of_allows h) ?_)
  exact (Emits.write bytes).bind_quiet (.pure _)

end Unpackio
