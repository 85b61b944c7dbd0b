/-
Networks of nodes that compute from the values of other nodes.

`Evaluates` is the recursive meaning of a network: a node has a value when all
the nodes it reads have one and its own computation succeeds on them.  `run`
fires the nodes in a given order and keeps the values found so far.  In an order
that respects the edges the two agree.
-/
import Mathlib.Data.List.Basic

/-- Nodes are natural numbers.  An input of a node is a constant or the value of
a node. -/
structure Network (V ε : Type) where
  arity : Nat → Nat
  source : Nat → Nat → V ⊕ Nat
  apply : Nat → List V → Except ε V

namespace Network

variable {V ε : Type} (net : Network V ε)

/-- Node `c` reads the value of node `d`. -/
def Uses (c d : Nat) : Prop := ∃ k < net.arity c, net.source c k = .inr d

def input (values : Nat → V) (c k : Nat) : V :=
  match net.source c k with
  | .inl constant => constant
  | .inr d => values d

def inputs (values : Nat → V) (c : Nat) : List V :=
  (List.range (net.arity c)).map (net.input values c)

/-- The value of a node under the recursive reading of the network. -/
inductive Evaluates : Nat → V → Prop where
  | node (c : Nat) (values : Nat → V) (v : V) :
      (∀ d, net.Uses c d → Evaluates d (values d)) →
      net.apply c (net.inputs values c) = .ok v → Evaluates c v

variable {net}

theorem inputs_congr {values values' : Nat → V} {c : Nat}
    (h : ∀ d, net.Uses c d → values d = values' d) :
    net.inputs values c = net.inputs values' c := by
  refine List.map_congr_left fun k hk => ?_
  rw [List.mem_range] at hk
  unfold input
  cases hsource : net.source c k with
  | inl constant => rfl
  | inr d => exact h d ⟨k, hk, hsource⟩

theorem Evaluates.unique {c : Nat} {v w : V} (hv : net.Evaluates c v) (hw : net.Evaluates c w) :
    v = w := by
  induction hv generalizing w with
  | node c values v _ happly ih =>
    cases hw with
    | node _ values' _ hfeeds happly' =>
      have hsame : net.inputs values c = net.inputs values' c :=
        inputs_congr fun d hd => ih d hd (hfeeds d hd)
      rw [hsame, happly'] at happly
      exact (Except.ok.inj happly).symm

theorem evaluates_iff {c : Nat} {values : Nat → V}
    (hvalues : ∀ d, net.Uses c d → net.Evaluates d (values d)) (v : V) :
    net.Evaluates c v ↔ net.apply c (net.inputs values c) = .ok v := by
  constructor
  · intro h
    cases h with
    | node _ values' _ hfeeds happly =>
      have hsame : net.inputs values c = net.inputs values' c :=
        inputs_congr fun d hd => (hvalues d hd).unique (hfeeds d hd)
      rw [hsame, happly]
  · exact fun happly => .node c values v hvalues happly

variable (net) in
def run : List Nat → (Nat → V) → Except ε (Nat → V)
  | [], values => .ok values
  | c :: order, values =>
    match net.apply c (net.inputs values c) with
    | .ok v => run order (Function.update values c v)
    | .error e => .error e

variable (net) in
/-- `order` goes on after the nodes `done`: a node stands behind every node it
uses, and no node stands twice. -/
def Follows (done : List Nat) : List Nat → Prop
  | [] => True
  | c :: order =>
    c ∉ done ∧ (∀ d, net.Uses c d → d ∈ done) ∧ Follows (done ++ [c]) order

variable (net) in
/-- The values of the nodes `done` are those of the recursive reading. -/
def Settled (done : List Nat) (values : Nat → V) : Prop :=
  ∀ d ∈ done, net.Evaluates d (values d)

theorem settled_nil (values : Nat → V) : net.Settled [] values :=
  fun _ hd => absurd hd List.not_mem_nil

theorem Settled.fire {done : List Nat} {values : Nat → V} {c : Nat} {v : V}
    (h : net.Settled done values) (hc : c ∉ done) (huses : ∀ d, net.Uses c d → d ∈ done)
    (happly : net.apply c (net.inputs values c) = .ok v) :
    net.Settled (done ++ [c]) (Function.update values c v) := by
  intro d hd
  rw [List.mem_append, List.mem_singleton] at hd
  rcases hd with hd | rfl
  · have hne : d ≠ c := fun heq => hc (heq ▸ hd)
    rw [Function.update_of_ne hne]
    exact h d hd
  · rw [Function.update_self]
    exact .node d values v (fun e he => h e (huses e he)) happly

section

variable {done order : List Nat} {values : Nat → V} (hfollows : net.Follows done order)
  (h : net.Settled done values)
include hfollows h

theorem run_settled {values' : Nat → V} (hrun : net.run order values = .ok values') :
    net.Settled (done ++ order) values' := by
  induction order generalizing done values with
  | nil =>
    rw [List.append_nil, ← Except.ok.inj hrun]
    exact h
  | cons c order ih =>
    obtain ⟨hc, huses, hrest⟩ := hfollows
    rw [run] at hrun
    cases happly : net.apply c (net.inputs values c) with
    | error e =>
      rw [happly] at hrun
      cases hrun
    | ok v =>
      rw [happly] at hrun
      have hnext := ih hrest (h.fire hc huses happly) hrun
      rwa [List.append_assoc] at hnext

theorem run_error {e : ε} (hrun : net.run order values = .error e) :
    ∃ c ∈ order, (∃ inputs, net.apply c inputs = .error e) ∧ ∀ v, ¬net.Evaluates c v := by
  induction order generalizing done values with
  | nil => cases hrun
  | cons c order ih =>
    obtain ⟨hc, huses, hrest⟩ := hfollows
    rw [run] at hrun
    cases happly : net.apply c (net.inputs values c) with
    | error e' =>
      rw [happly] at hrun
      cases hrun
      refine ⟨c, List.mem_cons_self, ⟨_, happly⟩, fun v hv => ?_⟩
      rw [evaluates_iff fun d hd => h d (huses d hd), happly] at hv
      cases hv
    | ok v =>
      rw [happly] at hrun
      obtain ⟨d, hd, herror⟩ := ih hrest (h.fire hc huses happly) hrun
      exact ⟨d, List.mem_cons_of_mem c hd, herror⟩

end

theorem follows_of_idxOf {order : List Nat} (hnodup : order.Nodup)
    (hbefore : ∀ c ∈ order, ∀ d, net.Uses c d → d ∈ order ∧ order.idxOf d < order.idxOf c) :
    net.Follows [] order := by
  have hsplit : ∀ done rest, order = done ++ rest → net.Follows done rest := by
    intro done rest
    induction rest generalizing done with
    | nil => exact fun _ => trivial
    | cons c rest ih =>
      intro horder
      have hmem : c ∈ order := by
        rw [horder]
        exact List.mem_append_right _ List.mem_cons_self
      rw [horder] at hnodup
      have hnot : c ∉ done := fun hc =>
        (List.nodup_append.mp hnodup).2.2 c hc c List.mem_cons_self rfl
      refine ⟨hnot, fun d hd => ?_, ih _ (by rw [horder, List.append_assoc]; rfl)⟩
      obtain ⟨-, hlt⟩ := hbefore c hmem d hd
      rw [horder, List.idxOf_append_of_notMem hnot, List.idxOf_cons_self, Nat.add_zero] at hlt
      by_contra hd'
      rw [List.idxOf_append_of_notMem hd'] at hlt
      omega
  exact hsplit [] order rfl

end Network
