/-
Checkpoints that pass refusals on, for the operations of `parse_util.rs`,
`cancel.rs`, `bounded.rs` and `checksum.rs`.

A parser passes refusals of a kind on when it does so from every reader, and
from every state.
-/
import Unpackio.Checksum
import Unpackio.Raw
import Unpackio.Foundation.Passes

namespace Unpackio

open Prog (Passes)

variable {fatal : Error → Prop} {α β : Type}

section

variable (fatal : Error → Prop) (bytes : List UInt8)

theorem passes_consumeBytes : Passes fatal (consumeBytes bytes) := by
  unfold consumeBytes
  exact .ite (.request _) (.forM fun _ _ => .request _)

theorem passes_copyBytes : Passes fatal (copyBytes bytes) :=
  .bind (.request _) fun _ => .bind (.forM fun _ _ => .request _) fun _ => .pure _

theorem passes_checksumWithControl : Passes fatal (checksumWithControl bytes) := by
  have hgo : ∀ (pieces : List (List UInt8)) (crc : Crc32),
      Passes fatal (checksumWithControl.go pieces crc) := by
    intro pieces
    induction pieces with
    | nil => exact fun _ => .pure _
    | cons chunk rest ih => exact fun crc => .bind (.request _) fun _ => ih _
  exact hgo _ _

end

/-- A parser that passes refusals on, whatever its reader. -/
def ReadingPasses (fatal : Error → Prop) (p : Reading α) : Prop :=
  ∀ reader, Passes fatal (p reader)

namespace ReadingPasses

variable {p q : Reading α}

theorem pure (a : α) : ReadingPasses fatal (Pure.pure a) := fun _ => .pure _

theorem bind {f : α → Reading β} (hp : ReadingPasses fatal p)
    (hf : ∀ a, ReadingPasses fatal (f a)) : ReadingPasses fatal (p >>= f) :=
  fun reader => .bind (hp reader) fun result => hf result.1 result.2

theorem map {f : α → β} (hp : ReadingPasses fatal p) : ReadingPasses fatal (f <$> p) :=
  fun reader => .bind (hp reader) fun _ => .pure _

theorem lift (r : Except Error α) : ReadingPasses fatal (liftM r) :=
  fun _ => .bind (.lift r) fun _ => .pure _

theorem step {r : Except Error α} {f : α → Reading β} (hf : ∀ a, ReadingPasses fatal (f a)) :
    ReadingPasses fatal (liftM r >>= f) := bind (lift r) hf

theorem throw (e : Error) : ReadingPasses fatal (MonadExcept.throw e : Reading α) :=
  fun _ => .bind (.throw e) fun _ => .pure _

theorem checkpoint (units : Nat) : ReadingPasses fatal (liftM (Unpackio.checkpoint units)) :=
  fun _ => .bind (.request units) fun _ => .pure _

theorem reading (f : BoundedReader → Except Error (α × BoundedReader)) :
    ReadingPasses fatal (Unpackio.reading f) := fun reader => .lift (f reader)

theorem ite {c : Prop} [Decidable c] (hp : ReadingPasses fatal p) (hq : ReadingPasses fatal q) :
    ReadingPasses fatal (if c then p else q) := by
  split
  · exact hp
  · exact hq

end ReadingPasses

/-- A header parser that passes refusals on, whatever its state and reader. -/
def ParsingPasses (fatal : Error → Prop) (p : Parsing α) : Prop :=
  ∀ state, ReadingPasses fatal (p state)

namespace ParsingPasses

variable {p q : Parsing α}

theorem pure (a : α) : ParsingPasses fatal (Pure.pure a) := fun _ => .pure _

theorem bind {f : α → Parsing β} (hp : ParsingPasses fatal p)
    (hf : ∀ a, ParsingPasses fatal (f a)) : ParsingPasses fatal (p >>= f) :=
  fun state => ReadingPasses.bind (hp state) fun result => hf result.1 result.2

theorem lift (r : Except Error α) : ParsingPasses fatal (liftM r) :=
  fun _ _ => .bind (.bind (.lift r) fun _ => .pure _) fun _ => .pure _

theorem step {r : Except Error α} {f : α → Parsing β} (hf : ∀ a, ParsingPasses fatal (f a)) :
    ParsingPasses fatal (liftM r >>= f) := bind (lift r) hf

theorem throw (e : Error) : ParsingPasses fatal (MonadExcept.throw e : Parsing α) :=
  fun _ _ => .bind (.bind (.throw e) fun _ => .pure _) fun _ => .pure _

theorem reading {p : Reading α} (hp : ReadingPasses fatal p) : ParsingPasses fatal (liftM p) :=
  fun _ reader => .bind (hp reader) fun _ => .pure _

theorem checkpoint (units : Nat) : ParsingPasses fatal (liftM (Unpackio.checkpoint units)) :=
  fun _ _ => .bind (.bind (.request units) fun _ => .pure _) fun _ => .pure _

theorem get : ParsingPasses fatal (MonadState.get : Parsing ParseState) := fun _ => .pure _

theorem set (next : ParseState) : ParsingPasses fatal (MonadStateOf.set next : Parsing PUnit) :=
  fun _ => .pure _

theorem ite {c : Prop} [Decidable c] (hp : ParsingPasses fatal p) (hq : ParsingPasses fatal q) :
    ParsingPasses fatal (if c then p else q) := by
  split
  · exact hp
  · exact hq

end ParsingPasses

end Unpackio
