/-
Runs of which only the visible requests can go wrong.

A program follows a list of requests when every such run makes these visible
requests in order and ends at the first one that is refused, with the refusal as
its result.  Nothing is asked of what the program does when a hidden request is
refused.
-/
import Unpackio.Foundation.Runs

namespace Prog

variable {E F ε α β : Type} (visible : E → Bool)

/-- The visible requests of a run, with their answers. -/
def events (trace : List (E × Except ε Unit)) : List (E × Except ε Unit) :=
  trace.filter fun event => visible event.1

def HiddenGranted (trace : List (E × Except ε Unit)) : Prop :=
  ∀ event ∈ trace, visible event.1 = false → event.2 = .ok ()

def EndsAt (requests : List E) (granted : Except ε α) (events : List (E × Except ε Unit))
    (result : Except ε α) : Prop :=
  (events = requests.map (fun q => (q, .ok ())) ∧ result = granted) ∨
    ∃ front q e, front ++ [q] <+: requests ∧
      events = front.map (fun q => (q, .ok ())) ++ [(q, .error e)] ∧ result = .error e

def Follows (p : Prog E ε α) (requests : List E) (granted : Except ε α) : Prop :=
  ∀ trace result, Runs p trace result → HiddenGranted visible trace →
    EndsAt requests granted (events visible trace) result

variable {visible}

theorem events_append (front rest : List (E × Except ε Unit)) :
    events visible (front ++ rest) = events visible front ++ events visible rest :=
  List.filter_append front rest

variable {front rest : List (E × Except ε Unit)}

theorem hiddenGranted_append :
    HiddenGranted visible (front ++ rest) ↔
      HiddenGranted visible front ∧ HiddenGranted visible rest := List.forall_mem_append

namespace EndsAt

theorem append {requests more : List E} {a : α} {granted : Except ε β} {b : α} {result : Except ε β}
    (hfront : EndsAt requests (.ok a) front (.ok b))
    (hrest : a = b → EndsAt more granted rest result) :
    EndsAt (requests ++ more) granted (front ++ rest) result := by
  rcases hfront with ⟨rfl, hresult⟩ | ⟨_, _, _, -, -, hresult⟩
  · rcases hrest (Except.ok.inj hresult).symm with ⟨rfl, rfl⟩ | ⟨first, q, e, hprefix, rfl, rfl⟩
    · exact .inl ⟨(List.map_append).symm, rfl⟩
    · refine .inr ⟨requests ++ first, q, e, ?_, ?_, rfl⟩
      · rw [List.append_assoc]
        exact (List.prefix_append_right_inj requests).mpr hprefix
      · rw [List.map_append, List.append_assoc]
  · exact (nomatch hresult)

theorem of_error {requests : List E} (more : List E) {a : α} (granted : Except ε β)
    {events : List (E × Except ε Unit)} {e : ε} (h : EndsAt requests (.ok a) events (.error e)) :
    EndsAt (requests ++ more) granted events (.error e) := by
  rcases h with ⟨-, hresult⟩ | ⟨front, q, e', hprefix, hevents, hresult⟩
  · exact (nomatch hresult)
  · cases hresult
    exact .inr ⟨front, q, e, hprefix.trans (List.prefix_append requests more), hevents, rfl⟩

section

variable {requests : List E} {granted result : Except ε α} {events : List (E × Except ε Unit)}
  (h : EndsAt requests granted events result)
include h

theorem isPrefix : events.map Prod.fst <+: requests := by
  rcases h with ⟨rfl, -⟩ | ⟨front, q, e, hprefix, rfl, -⟩
  · rw [List.map_map]
    exact (List.map_id' requests).symm ▸ List.prefix_rfl
  · rw [List.map_append, List.map_map, List.map_singleton]
    exact (List.map_id' front).symm ▸ hprefix

theorem granted_of_append {event : E × Except ε Unit} (hevents : events = front ++ event :: rest) :
    front = (front.map Prod.fst).map fun q => (q, .ok ()) := by
  have hgranted : ∀ earlier ∈ front, earlier.2 = .ok () := by
    intro earlier hearlier
    rcases h with ⟨rfl, -⟩ | ⟨first, q, e, -, rfl, -⟩
    · have hmem : earlier ∈ requests.map fun q => (q, (.ok () : Except ε Unit)) := by
        rw [hevents]
        exact List.mem_append_left _ hearlier
      obtain ⟨_, -, rfl⟩ := List.mem_map.mp hmem
      rfl
    · have hlast := congrArg List.dropLast hevents
      rw [List.dropLast_concat, List.dropLast_append_of_ne_nil (List.cons_ne_nil _ _)] at hlast
      have hmem : earlier ∈ first.map fun q => (q, (.ok () : Except ε Unit)) := by
        rw [hlast]
        exact List.mem_append_left _ hearlier
      obtain ⟨_, -, rfl⟩ := List.mem_map.mp hmem
      rfl
  rw [List.map_map]
  refine (List.map_id' front).symm.trans (List.map_congr_left fun earlier hearlier => ?_)
  exact Prod.ext rfl (hgranted earlier hearlier)

theorem refused {q : E} {e : ε} (hevents : events = front ++ (q, .error e) :: rest) :
    rest = [] ∧ result = .error e := by
  cases rest with
  | cons next rest =>
    rw [← List.singleton_append, ← List.append_assoc] at hevents
    have hgranted := h.granted_of_append hevents
    have hmem : (q, .error e) ∈ front ++ [(q, (.error e : Except ε Unit))] :=
      List.mem_append_right _ (List.mem_singleton_self _)
    rw [hgranted] at hmem
    exact absurd hmem not_mem_granted
  | nil =>
    refine ⟨rfl, ?_⟩
    rcases h with ⟨rfl, -⟩ | ⟨first, q', e', -, rfl, hresult⟩
    · have hmem : (q, .error e) ∈ requests.map fun q => (q, (.ok () : Except ε Unit)) := by
        rw [hevents]
        exact List.mem_append_right _ (List.mem_singleton_self _)
      exact absurd hmem not_mem_granted
    · have hlast := (List.append_inj' hevents rfl).2
      cases hlast
      exact hresult

end

end EndsAt

namespace Follows

theorem done (r : Except ε α) : Follows visible (.done r) [] r := by
  intro trace result h _
  obtain ⟨rfl, rfl⟩ := Runs.done_iff.mp h
  exact .inl ⟨rfl, rfl⟩

theorem request {q : E} (hq : visible q = true) :
    Follows visible (Prog.request q : Prog E ε Unit) [q] (.ok ()) := by
  intro trace result h _
  have htrace := Runs.request_iff.mp h
  subst htrace
  have hevents : events visible [(q, result)] = [(q, result)] := List.filter_cons_of_pos hq
  rw [hevents]
  cases result with
  | ok _ => exact .inl ⟨rfl, rfl⟩
  | error e => exact .inr ⟨[], q, e, List.prefix_rfl, rfl, rfl⟩

theorem hidden {g : F → E} (hg : ∀ q, visible (g q) = false) (p : Prog F ε α) :
    Follows visible (p.mapRequest g) [] p.granted := by
  intro trace result h hhidden
  obtain ⟨inner, rfl, hinner⟩ := h.of_mapRequest
  refine .inl ⟨?_, hinner.eq_granted fun event hevent => ?_⟩
  · refine List.filter_eq_nil_iff.mpr fun event hevent => ?_
    obtain ⟨source, -, rfl⟩ := List.mem_map.mp hevent
    exact ne_true_of_eq_false (hg source.1)
  · exact hhidden _ (List.mem_map_of_mem hevent) (hg event.1)

theorem bind {p : Prog E ε α} {f : α → Prog E ε β} {requests more : List E} {a : α}
    {granted : Except ε β} (hp : Follows visible p requests (.ok a))
    (hf : Follows visible (f a) more granted) :
    Follows visible (p >>= f) (requests ++ more) granted := by
  intro trace result h hhidden
  rcases h.of_bind with ⟨b, front, rest, rfl, hfront, hrest⟩ | ⟨e, rfl, hfront⟩
  · obtain ⟨hhiddenFront, hhiddenRest⟩ := hiddenGranted_append.mp hhidden
    rw [events_append]
    refine (hp front (.ok b) hfront hhiddenFront).append fun hab => ?_
    subst hab
    exact hf rest result hrest hhiddenRest
  · exact (hp trace (.error e) hfront hhidden).of_error more granted

theorem bind_error {p : Prog E ε α} {f : α → Prog E ε β} {requests : List E} {e : ε}
    (hp : Follows visible p requests (.error e)) :
    Follows visible (p >>= f) requests (.error e) := by
  intro trace result h hhidden
  rcases h.of_bind with ⟨b, front, rest, rfl, hfront, -⟩ | ⟨e', rfl, hfront⟩
  · have hends := hp front (.ok b) hfront (hiddenGranted_append.mp hhidden).1
    rcases hends with ⟨-, hresult⟩ | ⟨_, _, _, -, -, hresult⟩
    · exact (nomatch hresult)
    · exact (nomatch hresult)
  · rcases hp trace (.error e') hfront hhidden with ⟨hevents, hresult⟩ | ⟨first, q, e'', hprefix,
      hevents, hresult⟩
    · cases hresult
      exact .inl ⟨hevents, rfl⟩
    · cases hresult
      exact .inr ⟨first, q, e', hprefix, hevents, rfl⟩

theorem forM {l : List β} {f : β → Prog E ε Unit} {requests : β → List E}
    (h : ∀ b ∈ l, Follows visible (f b) (requests b) (.ok ())) :
    Follows visible (l.forM f) (l.flatMap requests) (.ok ()) := by
  induction l with
  | nil => exact done _
  | cons b l ih =>
    rw [List.flatMap_cons]
    exact bind (h b List.mem_cons_self) (ih fun c hc => h c (List.mem_cons_of_mem b hc))

theorem asked {p : Prog E ε α} {requests : List E} {granted : Except ε α}
    (h : Follows visible p requests granted) :
    p.asked.filter visible = requests ∧ p.granted = granted := by
  have hevents : events visible (p.asked.map fun q => (q, (.ok () : Except ε Unit))) =
      (p.asked.filter visible).map fun q => (q, .ok ()) := List.filter_map
  have hhidden : HiddenGranted visible (p.asked.map fun q => (q, (.ok () : Except ε Unit))) := by
    intro event hevent _
    obtain ⟨_, -, rfl⟩ := List.mem_map.mp hevent
    rfl
  rcases h _ _ p.runs_asked hhidden with ⟨heq, hgranted⟩ | ⟨front, q, e, -, heq, -⟩
  · have hrequests := congrArg (List.map Prod.fst) (hevents.symm.trans heq)
    rw [List.map_map, List.map_map] at hrequests
    exact ⟨(List.map_id' _).symm.trans (hrequests.trans (List.map_id' _)), hgranted⟩
  · have hmem : (q, .error e) ∈ (p.asked.filter visible).map fun q =>
        (q, (.ok () : Except ε Unit)) := by
      rw [← hevents, heq]
      exact List.mem_append_right _ (List.mem_singleton_self _)
    exact absurd hmem not_mem_granted

end Follows

end Prog
