/-
The traces of the extraction loops.

With every request granted the calls are one block for each member that can be
fetched.  Any other run makes a front of these calls, and the first refusal ends
it.
-/
import Unpackio.Checkpoints
import Unpackio.Extraction
import Unpackio.Foundation.Follows

namespace Unpackio
namespace Extraction

open Prog (Follows Passes asked_bind granted_bind granted_mapRequest)

variable {Entry : Type}

abbrev PassesAll {E α : Type} (p : Prog E Error α) : Prop := Passes (fun _ => True) p

/-! ## One member -/

theorem copyChunks_passes (data : List UInt8) : PassesAll (copyChunks data) :=
  .forM fun chunk _ => .bind (.mapRequest _ (passes_consumeBytes _ chunk)) fun _ => .request _

theorem writeChunks_passes (entryIndex : Nat) (data : List UInt8) :
    PassesAll (writeChunks entryIndex data : Extracting Entry Unit) :=
  .forM fun chunk _ => .bind (.mapRequest _ (passes_consumeBytes _ chunk)) fun _ => .request _

theorem copyChunk_granted (chunk : List UInt8) :
    ((consumeBytes chunk).mapRequest CopyRequest.work >>= fun _ =>
      (Prog.request (.writeAll chunk) : Copying Unit)).granted = .ok () := by
  rw [granted_bind, granted_mapRequest, consumeBytes_granted]
  rfl

@[simp] theorem copyChunks_granted (data : List UInt8) : (copyChunks data).granted = .ok () :=
  Prog.granted_forM_eq fun chunk _ => copyChunk_granted chunk

theorem writeChunks_follows (entryIndex : Nat) (data : List UInt8) :
    Follows EntryRequest.isCall (writeChunks entryIndex data : Extracting Entry Unit)
      ((chunks ioChunkSize data).map (.writeEntry entryIndex)) (.ok ()) := by
  rw [List.map_eq_flatMap]
  refine .forM fun chunk _ => ?_
  have hwork : Follows EntryRequest.isCall
      ((consumeBytes chunk).mapRequest (@EntryRequest.work Entry)) [] (.ok ()) :=
    consumeBytes_granted chunk ▸ .hidden (fun _ => rfl) _
  exact hwork.bind (.request rfl)

def written (requests : List CopyRequest) : List UInt8 :=
  requests.flatMap fun
    | .work _ => []
    | .writeAll bytes => bytes

def calls (requests : List (EntryRequest Entry)) : List (EntryRequest Entry) :=
  requests.filter EntryRequest.isCall

theorem written_work {α : Type} (p : Metered α) :
    written (p.mapRequest CopyRequest.work).asked = [] := by
  rw [Prog.asked_mapRequest]
  refine List.flatMap_eq_nil_iff.mpr fun request hrequest => ?_
  obtain ⟨_, -, rfl⟩ := List.mem_map.mp hrequest
  rfl

theorem written_copyChunks (data : List UInt8) : written (copyChunks data).asked = data := by
  have hchunk : ∀ chunk : List UInt8, written ((consumeBytes chunk).mapRequest CopyRequest.work >>=
      fun _ => (Prog.request (.writeAll chunk) : Copying Unit)).asked = chunk := by
    intro chunk
    have hwork : ((consumeBytes chunk).mapRequest CopyRequest.work).granted = .ok () := by
      rw [granted_mapRequest, consumeBytes_granted]
    have hquiet := written_work (consumeBytes chunk)
    rw [written] at hquiet
    rw [asked_bind hwork, written, List.flatMap_append, hquiet]
    exact List.append_nil chunk
  rw [copyChunks, Prog.asked_forM fun chunk _ => copyChunk_granted chunk, written,
    List.flatMap_assoc]
  refine (congrArg List.flatten (List.map_congr_left fun chunk _ => hchunk chunk)).trans ?_
  rw [List.map_id', flatten_chunks (by decide : 0 < ioChunkSize)]

section Loop

variable (index : Entry → Nat) (fetch : Nat → Entry → Metered (Nat × List UInt8))

def fetched : List Entry → Nat → List (Entry × List UInt8)
  | [], _ => []
  | entry :: entries, total =>
    match (fetch total entry).granted with
    | .ok (total, data) => (entry, data) :: fetched entries total
    | .error _ => []

/-- The output of all the members. -/
def fetchTotal : List Entry → Nat → Except Error Nat
  | [], total => .ok total
  | entry :: entries, total => do
    let (total, _) ← (fetch total entry).granted
    fetchTotal entries total

/-- The calls for one member. -/
def block (item : Entry × List UInt8) : List (EntryRequest Entry) :=
  .beginEntry item.1 :: ((chunks ioChunkSize item.2).map (.writeEntry (index item.1)) ++
    [.finishEntry (index item.1)])

theorem extractLoop_follows (entries : List Entry) (total : Nat) :
    Follows EntryRequest.isCall (extractLoop index fetch entries total)
      ((fetched fetch entries total).flatMap (block index)) (fetchTotal fetch entries total) := by
  induction entries generalizing total with
  | nil => exact .done _
  | cons entry entries ih =>
    have hfetch : Follows EntryRequest.isCall
        ((fetch total entry).mapRequest (@EntryRequest.work Entry)) []
          (fetch total entry).granted := .hidden (fun _ => rfl) _
    rw [extractLoop, fetched, fetchTotal]
    cases hresult : (fetch total entry).granted with
    | error e =>
      rw [hresult] at hfetch
      exact hfetch.bind_error
    | ok result =>
      rw [hresult] at hfetch
      have hblock : (.beginEntry entry :: ((chunks ioChunkSize result.2).map
          (EntryRequest.writeEntry (index entry)) ++ (.finishEntry (index entry) ::
            (fetched fetch entries result.1).flatMap (block index)))) =
          ((entry, result.2) :: fetched fetch entries result.1).flatMap (block index) := by
        rw [List.flatMap_cons, block]
        simp only [List.cons_append, List.append_assoc, List.nil_append]
      rw [← hblock]
      refine hfetch.bind (.bind (.request rfl) ?_)
      refine .bind (writeChunks_follows (index entry) result.2) (.bind (.request rfl) ?_)
      exact ih result.1

variable {fetch}

theorem extractLoop_granted (entries : List Entry) (total : Nat) :
    (extractLoop index fetch entries total).granted = fetchTotal fetch entries total :=
  (extractLoop_follows index fetch entries total).asked.2

theorem fetchTotal_error {entries : List Entry} {total : Nat} {e : Error}
    (h : fetchTotal fetch entries total = .error e) :
    ∃ entry ∈ entries, ∃ total, (fetch total entry).granted = .error e := by
  induction entries generalizing total with
  | nil => exact (nomatch h)
  | cons entry entries ih =>
    rw [fetchTotal] at h
    cases hfetch : (fetch total entry).granted with
    | error e' =>
      rw [hfetch] at h
      cases h
      exact ⟨entry, List.mem_cons_self, total, hfetch⟩
    | ok result =>
      rw [hfetch, Except.ok_bind] at h
      obtain ⟨found, hmem, total', hfound⟩ := ih h
      exact ⟨found, List.mem_cons_of_mem _ hmem, total', hfound⟩

theorem extractLoop_passes (h : ∀ total entry, PassesAll (fetch total entry))
    (entries : List Entry) (total : Nat) : PassesAll (extractLoop index fetch entries total) := by
  induction entries generalizing total with
  | nil => exact .pure _
  | cons entry entries ih =>
    exact .bind (.mapRequest _ (h total entry)) fun _ => .bind (.request _) fun _ =>
      .bind (writeChunks_passes _ _) fun _ => .bind (.request _) fun _ => ih _

theorem verifyLoop_granted {visit : Nat → Entry → Metered Nat} {entries : List Entry}
    (h : ∀ entry ∈ entries, ∀ total,
      (visit total entry).granted = Prod.fst <$> (fetch total entry).granted) (total : Nat) :
    (verifyLoop visit entries total).granted =
      (fetchTotal fetch entries total).map fun _ => () := by
  induction entries generalizing total with
  | nil => rfl
  | cons entry entries ih =>
    rw [verifyLoop, fetchTotal, granted_bind, h entry List.mem_cons_self]
    cases (fetch total entry).granted with
    | error e => rfl
    | ok result => exact ih (fun other hmem => h other (List.mem_cons_of_mem _ hmem)) _

theorem verifyLoop_passes {visit : Nat → Entry → Metered Nat}
    (h : ∀ total entry, PassesAll (visit total entry)) (entries : List Entry) (total : Nat) :
    PassesAll (verifyLoop visit entries total) := by
  induction entries generalizing total with
  | nil => exact .pure _
  | cons entry entries ih => exact .bind (h total entry) fun _ => ih _

end Loop

end Extraction
end Unpackio
