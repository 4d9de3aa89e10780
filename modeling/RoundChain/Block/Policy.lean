import RoundChain.Block.Pending
import RoundChain.Config.Basic

/-!
# Boundary policies

A policy looks at the open block whenever a round ends and says whether the block
closes there. The configured rule is one policy; any other function of the block
and the settings will do.
-/

namespace RoundChain

/-- Says whether a block closes at the end of its last round. -/
abbrev BoundaryPolicy := PendingBlock → StreamConfig → Bool

/-- A rule's verdict on a block. -/
def BoundaryRule.closes (rule : BoundaryRule) (block : PendingBlock) : Bool :=
  match rule with
  | .rounds count => count.toNat ≤ block.roundCount
  | .items count => count ≤ block.items.length
  | .period ms => ms ≤ block.lastTime.millisSince block.firstTime

namespace BoundaryPolicy

/-- The rule in the settings. -/
def configured : BoundaryPolicy := fun block config => config.boundary.closes block

/-- Never closes a block. -/
def never : BoundaryPolicy := fun _ _ => false

/-- Closes at every round whose number `k` divides. -/
def everyRound (k : UInt64) : BoundaryPolicy := fun block _ => block.lastRound % k == 0

end BoundaryPolicy

end RoundChain
