/-!
# Calls that stop

A call either answers with a value, is refused with a cause, or stops because it
exceeded a limit of the program: a sum left the range of its word, or more places
were asked for than can be counted. The last is kept apart from every refusal: a
refused call can be followed by another, a stopped program cannot.
-/

namespace RoundChain

/-- What no call can exceed. -/
inductive Limit where
  /-- The range of a word, which a sum would leave. -/
  | word
  /-- The places that can be handed out at the same time. -/
  | places
  deriving DecidableEq, Repr

/-- The places that can be handed out at the same time, at most. -/
def Limit.mostPlaces : Nat := 2305843009213693951

/-- What a program says that stops at a limit. -/
def Limit.message : Limit → String
  | .word => "attempt to add with overflow"
  | .places => s!"a semaphore may not have more than MAX_PERMITS permits ({mostPlaces})"

/-- How a call stops short of a value. -/
inductive Stop (ε : Type) where
  /-- The call is refused, with its cause. -/
  | refused (cause : ε)
  /-- A limit of the program is exceeded. -/
  | exceeded (limit : Limit)
  deriving DecidableEq, Repr

/-- The outcome of a call that checks its limits. -/
abbrev Checked (ε α : Type) := Except (Stop ε) α

/-- A refusal with its cause. -/
def refuse {ε α : Type} (cause : ε) : Checked ε α := .error (.refused cause)

namespace Checked

/-- A call that checks no limit, among those that do. -/
def ofExcept {ε α : Type} : Except ε α → Checked ε α
  | .ok a => .ok a
  | .error e => refuse e

/-- The same outcome with its cause told in other terms. -/
def mapCause {ε δ α : Type} (f : ε → δ) : Checked ε α → Checked δ α
  | .ok a => .ok a
  | .error (.refused e) => refuse (f e)
  | .error (.exceeded limit) => .error (.exceeded limit)

end Checked

/-! ### Sums of words -/

/-- The sum of two words, if it is one. -/
def addWords {ε : Type} (a b : UInt64) : Checked ε UInt64 :=
  if a.toNat + b.toNat < UInt64.size then .ok (a + b) else .error (.exceeded .word)

/-- The next word; the greatest has none. -/
def nextWord {ε : Type} (n : UInt64) : Checked ε UInt64 :=
  if n.toNat + 1 < UInt64.size then .ok (n + 1) else .error (.exceeded .word)

/-- The number of words. -/
theorem size_word : UInt64.size = 18446744073709551616 := rfl

theorem addWords_eq_ok_iff {ε : Type} {a b c : UInt64} :
    addWords (ε := ε) a b = .ok c ↔ c.toNat = a.toNat + b.toNat := by
  unfold addWords
  have hsize := size_word
  have hc := c.toNat_lt
  split
  · rename_i h
    have hs : (a + b).toNat = a.toNat + b.toNat := by rw [UInt64.toNat_add]; omega
    constructor
    · intro e; cases e; exact hs
    · intro e; congr 1; apply UInt64.toNat_inj.mp; rw [hs, e]
  · constructor
    · intro e; cases e
    · intro e; omega

theorem nextWord_eq_ok_iff {ε : Type} {n m : UInt64} :
    nextWord (ε := ε) n = .ok m ↔ m.toNat = n.toNat + 1 := by
  unfold nextWord
  have hsize := size_word
  have hm := m.toNat_lt
  split
  · rename_i h
    have hn : (n + 1).toNat = n.toNat + 1 := by
      rw [UInt64.toNat_add]; simp; omega
    constructor
    · intro e; cases e; exact hn
    · intro e; congr 1; apply UInt64.toNat_inj.mp; rw [hn, e]
  · constructor
    · intro e; cases e
    · intro e; omega

theorem nextWord_eq_exceeded_iff {ε : Type} {n : UInt64} :
    nextWord (ε := ε) n = .error (.exceeded .word) ↔ n.toNat + 1 = UInt64.size := by
  unfold nextWord
  have hsize := size_word
  have hn := n.toNat_lt
  split <;> simp <;> omega

end RoundChain
