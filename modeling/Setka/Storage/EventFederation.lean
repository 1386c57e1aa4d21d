/-
# Setka.Storage.EventFederation — walks over the links of the chain cover index.

What the queries of `databases/main/event_federation.py` fetch of the links, and how `_materialize` follows them. The
two database engines are sent different SQL for the same rows.
-/
import Setka.State.AuthDifference
import Setka.Storage.ChainCover

namespace Setka.Storage.EventFederation

open Setka.Api Setka.Lib Setka.State Setka.Storage.ChainCover

/-! ## §1 Links -/

/-- From an origin chain to its links: the origin sequence number, the target chain and the target
sequence number. -/
abbrev Links : Type := Dict ℕ (List (ℕ × Position))

/-- `MAX_CHAIN_LENGTH`. -/
def maxChainLength : ℕ := 2 ^ 53 - 1

/-- One link of the chain that `_materialize` has taken from its stack, with sequence number `s`. -/
def materializeLink (backwards : Bool) (s : ℕ) (st : List Position × Dict ℕ ℕ)
    (link : ℕ × Position) : List Position × Dict ℕ ℕ :=
  let (sequenceNumber, targetChainId, targetSequenceNumber) := link
  let visited :=
    ((targetChainId, targetSequenceNumber) :: st.1, st.2.set targetChainId targetSequenceNumber)
  if backwards then
    if s < sequenceNumber then st
    else if st.2.getD targetChainId 0 < targetSequenceNumber then visited
    else st
  else
    if sequenceNumber < s then st
    else if targetSequenceNumber < st.2.getD targetChainId maxChainLength then visited
    else st

/-- One turn of its `while stack`, the top of the stack first. -/
def materializeTurn (backwards : Bool) (links : Links) (st : List Position × Dict ℕ ℕ) :
    Run Error (Option (List Position × Dict ℕ ℕ)) :=
  match st.1 with
  | [] => pure none
  | (c, s) :: stack =>
    pure (some ((links.getD c []).foldl (materializeLink backwards s) (stack, st.2)))

/-- `_materialize`. -/
def materialize (backwards : Bool) (links : Links) (origin : Position) (materialized : Dict ℕ ℕ) :
    Run Error (Dict ℕ ℕ) := do
  let st ← Run.loop (materializeTurn backwards links) ([origin], materialized)
  pure st.2

/-- `_generate_forward_links`. -/
def generateForwardLinks (links : Links) : Links :=
  links.items.foldl (fun newLinks (originChainId, chainLinks) =>
    chainLinks.foldl (fun newLinks (originSeqNum, targetChainId, targetSeqNum) =>
      newLinks.appendTo targetChainId (targetSeqNum, originChainId, originSeqNum))
      newLinks) Dict.empty

/-- `accumulate_forwards_reachable_events`. -/
def accumulateForwardsReachableEvents (conflictedForwardsReachable : Dict ℕ ℕ) (backLinks : Links)
    (conflictedChainPositions : Dict String Position) : Run Error (Dict ℕ ℕ) :=
  let fwdLinks := generateForwardLinks backLinks
  conflictedChainPositions.values.foldlM (fun reachable (chainId, seq) =>
    materialize false fwdLinks (chainId, seq)
      (reachable.set chainId (min seq (reachable.getD chainId maxChainLength))))
    conflictedForwardsReachable

/-! ## §2 Fetching links -/

/-- One round of the recursive query. -/
def expandChains (rows : List ChainLink) (chains : Finset ℕ) : Finset ℕ :=
  chains ∪ ((rows.filter fun l => l.originChainId ∈ chains).map ChainLink.targetChainId).toFinset

/-- `WITH RECURSIVE links(chain_id)`: the chains of the batch that have links, and all chains that
links lead to from there. Every round but the last adds the target of a row. -/
def recursiveChains (rows : List ChainLink) (batch : List ℕ) : Finset ℕ :=
  (expandChains rows)^[rows.length]
    ((rows.filter fun l => l.originChainId ∈ batch).map ChainLink.originChainId).toFinset

/-- The links of these chains. -/
def queryLinks (rows : List ChainLink) (batch : List ℕ) : Links :=
  let chains := recursiveChains rows batch
  (rows.filter fun l => l.originChainId ∈ chains).foldl (fun links l =>
    links.appendTo l.originChainId (l.originSequenceNumber, l.target)) Dict.empty

/-- `batch_iter`. -/
def batchIter {α : Type} (size : ℕ) (l : List α) : List (List α) := l.toChunks size

end Setka.Storage.EventFederation
