/-
What the ZIP, ARJ, CPIO, DEB and RPM readers have in common: a member is decoded
and checked as a whole, and then delivered in chunks.

Each reader gives its own accounting and its own checks as `fetch`, which takes
the output so far and gives it back with the bytes of the member.
-/
import Unpackio.ParseUtil

namespace Unpackio
namespace Extraction

/-- What `extract_entries_to` asks of its environment: the checkpoints of the
control and the calls to the sink. -/
inductive EntryRequest (Entry : Type) where
  | work (units : Nat)
  | beginEntry (entry : Entry)
  | writeEntry (entryIndex : Nat) (bytes : List UInt8)
  | finishEntry (entryIndex : Nat)
  deriving DecidableEq, Repr

/-- What `extract_entry_to` asks: the checkpoints and the calls to the writer. -/
inductive CopyRequest where
  | work (units : Nat)
  | writeAll (bytes : List UInt8)
  deriving DecidableEq, Repr

abbrev Extracting (Entry α : Type) : Type := Prog (EntryRequest Entry) Error α

abbrev Copying (α : Type) : Type := Prog CopyRequest Error α

variable {Entry : Type}

def EntryRequest.isCall : EntryRequest Entry → Bool
  | .work _ => false
  | _ => true

/-- The chunk loop of `extract_entry_to`. -/
def copyChunks (data : List UInt8) : Copying Unit :=
  (chunks ioChunkSize data).forM fun chunk => do
    (consumeBytes chunk).mapRequest CopyRequest.work
    Prog.request (.writeAll chunk)

/-- The chunk loop of `extract_entries_to`. -/
def writeChunks (entryIndex : Nat) (data : List UInt8) : Extracting Entry Unit :=
  (chunks ioChunkSize data).forM fun chunk => do
    (consumeBytes chunk).mapRequest EntryRequest.work
    Prog.request (.writeEntry entryIndex chunk)

/-- The entry loop of `extract_entries_to`. -/
def extractLoop (index : Entry → Nat) (fetch : Nat → Entry → Metered (Nat × List UInt8)) :
    List Entry → Nat → Extracting Entry Nat
  | [], total => return total
  | entry :: entries, total => do
    let (total, data) ← (fetch total entry).mapRequest EntryRequest.work
    Prog.request (.beginEntry entry)
    writeChunks (index entry) data
    Prog.request (.finishEntry (index entry))
    extractLoop index fetch entries total

/-- The entry loop of `verify`. -/
def verifyLoop (visit : Nat → Entry → Metered Nat) : List Entry → Nat → Metered Unit
  | [], _ => return ()
  | entry :: entries, total => do
    let total ← visit total entry
    verifyLoop visit entries total

end Extraction
end Unpackio
