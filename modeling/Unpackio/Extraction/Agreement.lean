/-
The three ways through the members of an archive agree.

`Fetches` says how a reader goes through its members: the batch path and the
verification use one accounting, `fetch`, and whatever it gives for a member is
what the path to that single member writes.  From this follow the trace of the
batch path, its total, and what a failing sink can see.
-/
import Unpackio.Extraction.Traces

namespace Unpackio
namespace Extraction

open Prog (Follows Runs HiddenGranted granted_lift_bind)

variable {Entry : Type}

/-- A reader of some format, with what its integrity checks establish of the
bytes of a member. -/
structure Reader (Entry : Type) where
  entries : List Entry
  index : Entry → Nat
  Intact : Entry → List UInt8 → Prop
  extractEntryTo : Nat → Copying Nat
  extractEntriesTo : Extracting Entry Nat
  verify : Metered Unit

namespace Reader

variable (reader : Reader Entry)

/-- On its own, the member at this index passes its checks and gives these
bytes. -/
structure Delivers (entryIndex : Nat) (entry : Entry) (data : List UInt8) : Prop where
  entry_eq : reader.entries[entryIndex]? = some entry
  intact : reader.Intact entry data
  granted : (reader.extractEntryTo entryIndex).granted = .ok data.length
  written_eq : written (reader.extractEntryTo entryIndex).asked = data

/-- The calls that deliver the members with these bytes, in order. -/
def deliveries (items : List (Entry × List UInt8)) : List (EntryRequest Entry) :=
  items.flatMap (block reader.index)

/-- The calls that come before the last one for a member. -/
def opening (item : Entry × List UInt8) : List (EntryRequest Entry) :=
  .beginEntry item.1 :: (chunks ioChunkSize item.2).map (.writeEntry (reader.index item.1))

/-- The single path, the batch path and the verification agree. -/
structure Agrees : Prop where
  index_eq : ∀ (i : Nat) (entry : Entry), reader.entries[i]? = some entry → reader.index entry = i
  verify_iff : reader.verify.granted = .ok () ↔
    ∃ total, reader.extractEntriesTo.granted = .ok total
  delivers : ∀ total, reader.extractEntriesTo.granted = .ok total →
    ∃ items : List (Entry × List UInt8), items.map Prod.fst = reader.entries ∧
      calls reader.extractEntriesTo.asked = reader.deliveries items ∧
      (∀ i item, items[i]? = some item → reader.Delivers i item.1 item.2) ∧
      total = (items.map fun item => item.2.length).sum
  -- The remaining parts are about runs whose checkpoints are all granted, and a
  -- sink that may refuse any call.
  refused : ∀ trace result, Runs reader.extractEntriesTo trace result →
    HiddenGranted EntryRequest.isCall trace → ∀ front q e rest,
      Prog.events EntryRequest.isCall trace = front ++ (q, .error e) :: rest →
        rest = [] ∧ result = .error e
  finished : ∀ trace result, Runs reader.extractEntriesTo trace result →
    HiddenGranted EntryRequest.isCall trace → ∀ front i answer rest,
      Prog.events EntryRequest.isCall trace = front ++ (.finishEntry i, answer) :: rest →
        ∃ earlier entry data, reader.Delivers i entry data ∧
          front = (earlier ++ reader.opening (entry, data)).map fun q => (q, .ok ())

end Reader

section Loop

variable (index : Entry → Nat) {fetch : Nat → Entry → Metered (Nat × List UInt8)}

theorem fetched_of_fetchTotal {entries : List Entry} {before total : Nat}
    (h : fetchTotal fetch entries before = .ok total) :
    (fetched fetch entries before).map Prod.fst = entries := by
  induction entries generalizing before with
  | nil => rfl
  | cons entry entries ih =>
    obtain ⟨result, hresult, h⟩ := Except.bind_eq_ok.mp h
    rw [fetched, hresult, List.map_cons, ih h]

theorem split_at_finish {opening front rest more : List (EntryRequest Entry)} {i j : Nat}
    (hopening : ∀ k, .finishEntry k ∉ opening)
    (h : front ++ .finishEntry i :: rest = opening ++ .finishEntry j :: more) :
    (i = j ∧ front = opening) ∨
      ∃ later, front = opening ++ .finishEntry j :: later ∧ later ++ .finishEntry i :: rest =
        more := by
  rcases List.append_eq_append_iff.mp h with ⟨middle, rfl, hmiddle⟩ | ⟨middle, rfl, hmiddle⟩
  · cases middle with
    | nil =>
      obtain ⟨hhead, -⟩ := List.cons.inj hmiddle
      cases hhead
      exact .inl ⟨rfl, (List.append_nil front).symm⟩
    | cons q middle =>
      obtain ⟨rfl, -⟩ := List.cons.inj hmiddle
      exact absurd (List.mem_append_right _ List.mem_cons_self) (hopening i)
  · cases middle with
    | nil =>
      obtain ⟨hhead, -⟩ := List.cons.inj hmiddle
      cases hhead
      exact .inl ⟨rfl, List.append_nil opening⟩
    | cons q middle =>
      obtain ⟨rfl, hmore⟩ := List.cons.inj hmiddle
      exact .inr ⟨middle, rfl, hmore.symm⟩

end Loop

namespace Reader

variable {reader : Reader Entry}

theorem finish_notMem_opening (item : Entry × List UInt8) (k : Nat) :
    .finishEntry k ∉ reader.opening item := by
  intro hmem
  rcases List.mem_cons.mp hmem with hbegin | hwrite
  · exact (nomatch hbegin)
  · obtain ⟨_, -, hwrite⟩ := List.mem_map.mp hwrite
    exact (nomatch hwrite)

theorem block_eq_opening (item : Entry × List UInt8) :
    block reader.index item = reader.opening item ++ [.finishEntry (reader.index item.1)] := rfl

theorem deliveries_finish {items : List (Entry × List UInt8)}
    {front rest : List (EntryRequest Entry)} {i : Nat}
    (h : front ++ .finishEntry i :: rest = reader.deliveries items) :
    ∃ (before after : List (Entry × List UInt8)) (item : Entry × List UInt8),
      items = before ++ item :: after ∧ reader.index item.1 = i ∧
        front = reader.deliveries before ++ reader.opening item := by
  induction items generalizing front with
  | nil => exact absurd (congrArg List.length h) (by simp [deliveries])
  | cons item items ih =>
    rw [deliveries, List.flatMap_cons, block_eq_opening, List.append_assoc,
      List.singleton_append] at h
    rcases split_at_finish (finish_notMem_opening item) h with ⟨rfl, rfl⟩ | ⟨later, rfl, hlater⟩
    · exact ⟨[], items, item, rfl, rfl, rfl⟩
    · obtain ⟨before, after, found, rfl, hindex, rfl⟩ := ih hlater
      refine ⟨item :: before, after, found, rfl, hindex, ?_⟩
      rw [deliveries, deliveries, List.flatMap_cons, block_eq_opening]
      simp only [List.append_assoc, List.cons_append, List.nil_append]

/-- A reader that goes through its members with one accounting, each of them as
the path to the single member gives it. -/
structure Fetches (reader : Reader Entry) (fetch : Nat → Entry → Metered (Nat × List UInt8)) :
    Prop where
  index_eq : ∀ (i : Nat) (entry : Entry), reader.entries[i]? = some entry → reader.index entry = i
  extract_eq : reader.extractEntriesTo = extractLoop reader.index fetch reader.entries 0
  verify_eq : reader.verify.granted = (fetchTotal fetch reader.entries 0).map fun _ => ()
  fetch_eq : ∀ (i : Nat) (entry : Entry), reader.entries[i]? = some entry →
    ∀ before total data, (fetch before entry).granted = .ok (total, data) →
      total = before + data.length ∧ reader.Delivers i entry data

namespace Fetches

variable {fetch : Nat → Entry → Metered (Nat × List UInt8)} (h : reader.Fetches fetch)
include h

section

variable {entries : List Entry} (done : List Entry) (hentries : reader.entries = done ++ entries)
include done hentries

theorem fetched_delivers (before i : Nat) (item : Entry × List UInt8)
    (hitem : (fetched fetch entries before)[i]? = some item) :
    reader.Delivers (done.length + i) item.1 item.2 := by
  induction entries generalizing done before i with
  | nil => cases hitem
  | cons entry entries ih =>
    rw [fetched] at hitem
    cases hresult : (fetch before entry).granted with
    | error e =>
      rw [hresult] at hitem
      cases hitem
    | ok result =>
      rw [hresult] at hitem
      cases i with
      | zero =>
        cases hitem
        have hentry : reader.entries[done.length]? = some entry := by
          rw [hentries, List.getElem?_append_right (Nat.le_refl _), Nat.sub_self]
          rfl
        exact (h.fetch_eq done.length entry hentry before result.1 result.2 hresult).2
      | succ i =>
        have hrest := ih (done ++ [entry]) (by rw [hentries, List.append_assoc]; rfl)
          result.1 i hitem
        rw [List.length_append, List.length_singleton, Nat.add_assoc, Nat.add_comm 1] at hrest
        exact hrest

theorem fetchTotal_eq {before total : Nat} (htotal : fetchTotal fetch entries before = .ok total) :
    total = before + ((fetched fetch entries before).map fun item => item.2.length).sum := by
  induction entries generalizing done before with
  | nil => exact (Except.ok.inj htotal).symm
  | cons entry entries ih =>
    obtain ⟨result, hresult, htotal⟩ := Except.bind_eq_ok.mp htotal
    have hentry : reader.entries[done.length]? = some entry := by
      rw [hentries, List.getElem?_append_right (Nat.le_refl _), Nat.sub_self]
      rfl
    have hrest := ih (done ++ [entry]) (by rw [hentries, List.append_assoc]; rfl) htotal
    rw [fetched, hresult, List.map_cons, List.sum_cons, hrest,
      (h.fetch_eq done.length entry hentry before result.1 result.2 hresult).1, Nat.add_assoc]

end

theorem agrees : reader.Agrees := by
  have hfollows := extractLoop_follows reader.index fetch reader.entries 0
  rw [← h.extract_eq] at hfollows
  obtain ⟨hasked, hgranted⟩ := hfollows.asked
  have hdelivers := h.fetched_delivers [] rfl 0
  refine ⟨h.index_eq, ?_, ?_, ?_, ?_⟩
  · rw [h.verify_eq, hgranted]
    cases fetchTotal fetch reader.entries 0 with
    | error e => exact ⟨fun hok => (nomatch hok), fun ⟨_, hok⟩ => (nomatch hok)⟩
    | ok total => exact ⟨fun _ => ⟨total, rfl⟩, fun _ => rfl⟩
  · intro total htotal
    rw [hgranted] at htotal
    refine ⟨fetched fetch reader.entries 0, fetched_of_fetchTotal htotal, hasked,
      fun i item hitem => ?_, ?_⟩
    · have hitem := hdelivers i item hitem
      rwa [List.length_nil, Nat.zero_add] at hitem
    · have hsum := h.fetchTotal_eq [] rfl htotal
      rwa [Nat.zero_add] at hsum
  · intro trace result hruns hhidden front q e rest hevents
    exact (hfollows trace result hruns hhidden).refused hevents
  · intro trace result hruns hhidden front i answer rest hevents
    have hends := hfollows trace result hruns hhidden
    obtain ⟨more, hmore⟩ := hends.isPrefix
    rw [hevents, List.map_append, List.map_cons, List.append_assoc, List.cons_append] at hmore
    obtain ⟨before, after, item, hitems, hindex, hfront⟩ := deliveries_finish hmore
    have hitem : (fetched fetch reader.entries 0)[before.length]? = some item := by
      rw [hitems, List.getElem?_append_right (Nat.le_refl _), Nat.sub_self]
      rfl
    have hitem := hdelivers before.length item hitem
    rw [List.length_nil, Nat.zero_add] at hitem
    have hposition : before.length = i :=
      (h.index_eq before.length item.1 hitem.entry_eq).symm.trans hindex
    refine ⟨reader.deliveries before, item.1, item.2, hposition ▸ hitem, ?_⟩
    rw [hends.granted_of_append hevents, hfront]

end Fetches

end Reader

/-- The numbers of the members are their places, from `first` on. -/
def Numbered (index : Entry → Nat) (first : Nat) (entries : List Entry) : Prop :=
  ∀ (i : Nat) (entry : Entry), entries[i]? = some entry → index entry = first + i

namespace Numbered

variable {index : Entry → Nat} {first : Nat} {entries : List Entry}

theorem nil : Numbered index first [] := fun _ _ h => nomatch h

theorem append {more : List Entry} (h : Numbered index first entries)
    (hmore : Numbered index (first + entries.length) more) :
    Numbered index first (entries ++ more) := by
  intro i entry hentry
  rcases Nat.lt_or_ge i entries.length with hlt | hge
  · rw [List.getElem?_append_left hlt] at hentry
    exact h i entry hentry
  · rw [List.getElem?_append_right hge] at hentry
    rw [hmore _ entry hentry, Nat.add_assoc, Nat.add_sub_cancel' hge]

theorem concat {entry : Entry} (h : Numbered index first entries)
    (hindex : index entry = first + entries.length) :
    Numbered index first (entries ++ [entry]) := by
  refine h.append fun i other hother => ?_
  obtain ⟨hlast, rfl⟩ := List.getElem?_eq_some_iff.mp hother
  rw [List.length_singleton, Nat.lt_one_iff] at hlast
  subst hlast
  exact hindex

end Numbered

/-- With every request granted, the copy writes these bytes and returns this size. -/
structure Copies (p : Copying Nat) (size : Nat) (data : List UInt8) : Prop where
  granted : p.granted = .ok size
  written_eq : written p.asked = data

namespace Copies

variable {α : Type} {size : Nat} {data : List UInt8} {f : α → Copying Nat} {a : α}

theorem done (size : Nat) : Copies (pure size) size [] := ⟨rfl, rfl⟩

theorem chunks {f : Unit → Copying Nat} (h : Copies (f ()) size []) :
    Copies (copyChunks data >>= f) size data := by
  have hrest := h.written_eq
  rw [written] at hrest
  refine ⟨?_, ?_⟩
  · rw [Prog.granted_bind, copyChunks_granted]
    exact h.granted
  · rw [Prog.asked_bind (copyChunks_granted data), written, List.flatMap_append, hrest,
      List.append_nil]
    exact written_copyChunks data

theorem copied (size : Nat) (data : List UInt8) :
    Copies (copyChunks data >>= fun _ => pure size) size data := .chunks (.done size)

theorem lift {r : Except Error α} (hr : r = .ok a) (h : Copies (f a) size data) :
    Copies (liftM r >>= f) size data := by
  rw [hr]
  exact h

theorem work {p : Metered α} (hp : p.granted = .ok a) (h : Copies (f a) size data) :
    Copies (p.mapRequest CopyRequest.work >>= f) size data := by
  have hwork : (p.mapRequest CopyRequest.work).granted = .ok a :=
    (Prog.granted_mapRequest _ _).trans hp
  have hquiet := written_work p
  rw [written] at hquiet
  refine ⟨?_, ?_⟩
  · rw [Prog.granted_bind, hwork]
    exact h.granted
  · rw [Prog.asked_bind hwork, written, List.flatMap_append, hquiet]
    exact h.written_eq

end Copies

def sizedFetch (account : Nat → Entry → Except Error Nat) (load : Entry → Metered (List UInt8))
    (total : Nat) (entry : Entry) : Metered (Nat × List UInt8) := do
  let total ← account total entry
  let data ← load entry
  return (total, data)

theorem sizedFetch_eq_ok {account : Nat → Entry → Except Error Nat}
    {load : Entry → Metered (List UInt8)} {before total : Nat} {entry : Entry}
    {data : List UInt8} :
    (sizedFetch account load before entry).granted = .ok (total, data) ↔
      account before entry = .ok total ∧ (load entry).granted = .ok data := by
  rw [sizedFetch, granted_lift_bind]
  constructor
  · intro h
    obtain ⟨sum, hsum, h⟩ := Except.bind_eq_ok.mp h
    rw [Prog.granted_bind] at h
    obtain ⟨bytes, hbytes, h⟩ := Except.bind_eq_ok.mp h
    cases h
    exact ⟨hsum, hbytes⟩
  · rintro ⟨hsum, hbytes⟩
    rw [hsum, Except.ok_bind, Prog.granted_bind, hbytes]
    rfl

/-- What a reader with declared sizes has to show of its parts. -/
structure Reader.Sized (reader : Reader Entry) (size : Entry → Nat)
    (account : Nat → Entry → Except Error Nat) (load : Entry → Metered (List UInt8)) : Prop where
  index_eq : Numbered reader.index 0 reader.entries
  extract_eq : reader.extractEntriesTo =
    extractLoop reader.index (sizedFetch account load) reader.entries 0
  verify_eq : reader.verify.granted =
    (fetchTotal (sizedFetch account load) reader.entries 0).map fun _ => ()
  account_eq : ∀ (before : Nat) (entry : Entry) (total : Nat),
    account before entry = .ok total → total = before + size entry
  load_eq : ∀ entry ∈ reader.entries, ∀ data, (load entry).granted = .ok data →
    data.length = size entry ∧ reader.Intact entry data
  copies : ∀ (i : Nat) (entry : Entry), reader.entries[i]? = some entry →
    ∀ before total data, account before entry = .ok total → (load entry).granted = .ok data →
      Copies (reader.extractEntryTo i) (size entry) data

theorem Reader.Sized.fetches {reader : Reader Entry} {size : Entry → Nat}
    {account : Nat → Entry → Except Error Nat} {load : Entry → Metered (List UInt8)}
    (h : reader.Sized size account load) : reader.Fetches (sizedFetch account load) := by
  refine ⟨fun i entry hentry => ?_, h.extract_eq, h.verify_eq, ?_⟩
  · rw [h.index_eq i entry hentry, Nat.zero_add]
  · intro i entry hentry before total data hfetch
    obtain ⟨htotal, hdata⟩ := sizedFetch_eq_ok.mp hfetch
    obtain ⟨hlength, hintact⟩ := h.load_eq entry (List.mem_of_getElem? hentry) data hdata
    have hcopies := h.copies i entry hentry before total data htotal hdata
    refine ⟨?_, hentry, hintact, ?_, hcopies.written_eq⟩
    · rw [hlength]
      exact h.account_eq before entry total htotal
    · rw [hlength]
      exact hcopies.granted

end Extraction
end Unpackio
