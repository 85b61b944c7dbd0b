/-
Validation and scheduling of folder coder graphs, from `graph.rs`.

The vectors of used ports are lists of booleans and the loops are recursions on
the list they walk.
-/
import Unpackio.Raw

namespace Unpackio

structure BindPair where
  inputIndex : Nat
  outputIndex : Nat
  deriving DecidableEq, Repr

structure ValidatedGraph where
  bindPairs : List BindPair
  packedInputIndices : List Nat
  rootOutputIndex : Nat
  topologicalCoderOrder : List Nat
  deriving DecidableEq, Repr

def ownerForPort (owners : List Nat) (index : Nat) (detail : String) : Except Error Nat :=
  okOr owners[index]? (formatError detail)

/-- The owner loop of `validate_folder_graph`, from one coder index on. -/
def streamOwners : List RawCoder → Nat → Metered (List Nat × List Nat)
  | [], _ => return ([], [])
  | coder :: coders, coderIndex => do
    let portCount ← okOr (checkedAdd coder.inputStreams coder.outputStreams)
      (formatError "coder port count overflows")
    checkpoint portCount
    let (inputOwners, outputOwners) ← streamOwners coders (coderIndex + 1)
    return (List.replicate coder.inputStreams coderIndex ++ inputOwners,
      List.replicate coder.outputStreams coderIndex ++ outputOwners)

def validateBindPair (raw : RawBindPair) (inputUsed outputUsed : List Bool) :
    Except Error (BindPair × List Bool × List Bool) := do
  let input ← okOr inputUsed[raw.input]? (formatError "bind-pair input index is out of range")
  rejectIf (input = true) (formatError "bind-pair input index is duplicated")
  let output ← okOr outputUsed[raw.output]? (formatError "bind-pair output index is out of range")
  rejectIf (output = true) (formatError "bind-pair output index is duplicated")
  return (⟨raw.input, raw.output⟩, inputUsed.set raw.input true, outputUsed.set raw.output true)

def validateBindPairs : List RawBindPair → List Bool → List Bool →
    Except Error (List BindPair × List Bool × List Bool)
  | [], inputUsed, outputUsed => .ok ([], inputUsed, outputUsed)
  | raw :: raws, inputUsed, outputUsed => do
    let (pair, inputUsed, outputUsed) ← validateBindPair raw inputUsed outputUsed
    let (pairs, inputUsed, outputUsed) ← validateBindPairs raws inputUsed outputUsed
    return (pair :: pairs, inputUsed, outputUsed)

def findRoot : List (Bool × Nat) → Option Nat → Except Error (Option Nat)
  | [], root => .ok root
  | (true, _) :: used, root => findRoot used root
  | (false, index) :: used, none => findRoot used (some index)
  | (false, _) :: _, some _ => .error (formatError "folder has multiple root output streams")

def packedInputs (raw : RawFolder) (inputUsed : List Bool) : Except Error (List Nat) :=
  match raw.packedIndices with
  | some indices => .ok indices
  | none => do
    let index ← okOr (inputUsed.findIdx? fun bound => !bound)
      (formatError "folder has no unbound packed input")
    return [index]

def markPacked (inputUsed : List Bool) : List Nat → List Bool → Except Error (List Bool)
  | [], packedUsed => .ok packedUsed
  | index :: indices, packedUsed => do
    let isPacked ← okOr packedUsed[index]? (formatError "packed-input index is out of range")
    rejectIf (isPacked = true) (formatError "packed-input index is duplicated")
    let isBound ← okOr inputUsed[index]? (formatError "packed-input index is out of range")
    rejectIf (isBound = true) (formatError "packed-input index is already bound")
    markPacked inputUsed indices (packedUsed.set index true)

def checkPartition (inputUsed packedUsed : List Bool) : Except Error Unit :=
  rejectIf ((inputUsed.zip packedUsed).any fun (bound, packed) => bound == packed)
    (formatError "folder inputs are not partitioned into bound and packed streams")

/-- The edge loop of `topological_order`: the edges between coders, and how many
enter each coder. -/
def collectEdges (inputOwners outputOwners : List Nat) :
    List RawBindPair → List Nat → Except Error (List (Nat × Nat) × List Nat)
  | [], indegree => .ok ([], indegree)
  | pair :: pairs, indegree => do
    let source ← ownerForPort outputOwners pair.output "bind-pair output index is out of range"
    let destination ← ownerForPort inputOwners pair.input "bind-pair input index is out of range"
    let degree ← okOr indegree[destination]?
      (formatError "coder dependency index is out of range")
    let degree ← okOr (checkedAdd degree 1) (formatError "coder dependency count overflows")
    let (edges, indegree) ← collectEdges inputOwners outputOwners pairs
      (indegree.set destination degree)
    return ((source, destination) :: edges, indegree)

def releaseEdges (coder : Nat) : List (Nat × Nat) → List Nat → Metered (List Nat × List Nat)
  | [], indegree => return ([], indegree)
  | (source, destination) :: edges, indegree => do
    checkpoint 1
    if source ≠ coder then releaseEdges coder edges indegree
    else do
      let degree ← okOr indegree[destination]?
        (formatError "coder dependency index is out of range")
      let degree ← okOr (checkedSub degree 1) (formatError "coder dependency count underflows")
      let (ready, indegree) ← releaseEdges coder edges (indegree.set destination degree)
      return (if degree = 0 then destination :: ready else ready, indegree)

/-- The worklist loop, on the part of `ready` from the cursor on.  A coder
becomes ready once, so the coder count bounds the rounds. -/
def orderReady (edges : List (Nat × Nat)) :
    Nat → List Nat → List Nat → List Nat → Metered (List Nat)
  | _, [], _, order => return order
  | 0, _ :: _, _, _ => throw (formatError "topological queue index overflows")
  | fuel + 1, coder :: ready, indegree, order => do
    checkpoint 1
    let (fresh, indegree) ← releaseEdges coder edges indegree
    orderReady edges fuel (ready ++ fresh) indegree (order ++ [coder])

def topologicalOrder (coderCount : Nat) (inputOwners outputOwners : List Nat)
    (bindPairs : List RawBindPair) : Metered (List Nat) := do
  let (edges, indegree) ← collectEdges inputOwners outputOwners bindPairs
    (List.replicate coderCount 0)
  let ready := (List.range coderCount).filter fun index => indegree.getD index 0 = 0
  let order ← orderReady edges coderCount ready indegree []
  rejectIf (order.length ≠ coderCount) (formatError "folder coder graph contains a cycle")
  return order

def validateFolderGraph (raw : RawFolder) : Metered ValidatedGraph := do
  let portCount ← okOr (checkedAdd raw.inputStreams raw.outputStreams)
    (formatError "folder port count overflows")
  checkpoint portCount
  let (inputOwners, outputOwners) ← streamOwners raw.coders 0
  rejectIf (inputOwners.length ≠ raw.inputStreams ∨ outputOwners.length ≠ raw.outputStreams)
    (formatError "folder stream-owner totals are inconsistent")
  let (bindPairs, inputUsed, outputUsed) ← validateBindPairs raw.bindPairs
    (List.replicate raw.inputStreams false) (List.replicate raw.outputStreams false)
  let root ← findRoot outputUsed.zipIdx none
  let rootOutputIndex ← okOr root (formatError "folder has no root output stream")
  let packedIndices ← packedInputs raw inputUsed
  rejectIf (packedIndices.length ≠ raw.packedStreams)
    (formatError "folder packed-input count is inconsistent")
  let packedUsed ← markPacked inputUsed packedIndices (List.replicate raw.inputStreams false)
  checkPartition inputUsed packedUsed
  let order ← topologicalOrder raw.coders.length inputOwners outputOwners raw.bindPairs
  return { bindPairs := bindPairs, packedInputIndices := packedIndices,
           rootOutputIndex := rootOutputIndex, topologicalCoderOrder := order }

end Unpackio
