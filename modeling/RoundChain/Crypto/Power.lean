/-!
# Repeated operations

`power` combines a value with itself a given number of times by repeated
doubling: it serves the powers of a field element and the multiples of a point
alike.
-/

namespace RoundChain

/-- `x` taken `n` times under `op`, with `neutral` for none. The number of operations grows with the
length of `n`. -/
@[specialize] def power {α : Type} (op : α → α → α) (neutral x : α) (n : Nat) : α :=
  if n = 0 then neutral
  else
    let rest := power op neutral (op x x) (n / 2)
    if n % 2 = 1 then op x rest else rest
termination_by n
decreasing_by omega

end RoundChain
