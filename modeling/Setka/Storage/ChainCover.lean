/-
# Setka.Storage.ChainCover — places on chains, and the stored links between them.
-/
import Setka.Lib.ChainWalk

namespace Setka.Storage.ChainCover

/-- A chain id and a sequence number. -/
abbrev Position : Type := ℕ × ℕ

/-- A row of `event_auth_chain_links`. -/
structure ChainLink where
  originChainId : ℕ
  originSequenceNumber : ℕ
  targetChainId : ℕ
  targetSequenceNumber : ℕ
  deriving DecidableEq

def ChainLink.origin (l : ChainLink) : Position := (l.originChainId, l.originSequenceNumber)

def ChainLink.target (l : ChainLink) : Position := (l.targetChainId, l.targetSequenceNumber)

end Setka.Storage.ChainCover
