import RoundChain.Error

/-!
# Promised values

A value can be promised before it exists. A promise has two ends: one reader, who
takes the value once, and possibly one writer, who supplies it once. Either end can
be given up. A reader whose writer gave up is told so; a writer whose reader gave
up learns it when it asks or writes.
-/

namespace RoundChain

/-- What the reader of a promise holds. -/
inductive PromisedValue (α : Type) where
  /-- The value was there from the start. -/
  | ready (value : α)
  /-- A writer supplies the value; it may have done so already. -/
  | written (value : Option α)
  /-- The value comes by itself. -/
  | computed (value : α)
  deriving DecidableEq, Repr

/-- A promise: what its reader holds, unless the reader took the value or gave up, and whether there
is a writer who has not written. -/
structure Promise (α : Type) where
  reader : Option (PromisedValue α)
  hasWriter : Bool
  deriving DecidableEq, Repr

/-- What a reader finds who takes the value. -/
inductive Taken (α : Type) where
  | value (a : α)
  /-- The value is still to be written. -/
  | pending
  /-- The writer gave up. -/
  | abandoned
  deriving DecidableEq, Repr

namespace Promise

variable {α : Type}

/-- A value that is there. -/
def resolved (value : α) : Promise α := ⟨some (.ready value), false⟩

/-- A value that a writer will supply. -/
def pending : Promise α := ⟨some (.written none), true⟩

/-- A value that comes by itself. -/
def future (value : α) : Promise α := ⟨some (.computed value), false⟩

instance : Inhabited (Promise α) := ⟨pending⟩

/-- The cause a reader is told whose writer gave up. -/
def abandonedError : StreamError := .abandoned "completer dropped before resolving"

/-! ### The reader's end -/

/-- Whether the value was there from the start. -/
def isReady (p : Promise α) : Option Bool :=
  p.reader.map fun
    | .ready _ => true
    | _ => false

/-- The value, if it was there from the start. -/
def readyValue? (p : Promise α) : Option α :=
  match p.reader with
  | some (.ready value) => some value
  | _ => none

/-- What taking the value finds, for a reader who is there. -/
def outcome (p : Promise α) (held : PromisedValue α) : Taken α :=
  match held with
  | .ready value | .computed value | .written (some value) => .value value
  | .written none => if p.hasWriter then .pending else .abandoned

/-- Takes the value; the reader is gone afterwards, even if it found none. -/
def take (p : Promise α) : Option (Taken α) × Promise α :=
  (p.reader.map p.outcome, { p with reader := none })

/-- Gives up the reader's end, if it is there. -/
def dropReader (p : Promise α) : Bool × Promise α := (p.reader.isSome, { p with reader := none })

/-! ### The writer's end -/

/-- Supplies the value, and says whether the reader was there. -/
def write (p : Promise α) (value : α) : Option Bool × Promise α :=
  if p.hasWriter then
    (some p.reader.isSome,
      { reader := p.reader.map fun _ => .written (some value), hasWriter := false })
  else (none, p)

/-- Whether the writer's reader is gone. -/
def isAbandoned (p : Promise α) : Option Bool := if p.hasWriter then some p.reader.isNone else none

/-- Gives up the writer's end, if it is there. -/
def dropWriter (p : Promise α) : Bool × Promise α := (p.hasWriter, { p with hasWriter := false })

/-! ### Diagnostics -/

/-- What the reader holds, as diagnostics show it. -/
def describeReader [ToString α] (p : Promise α) : Option String :=
  p.reader.map fun
    | .ready value => "Deferred::Ready(" ++ toString value ++ ")"
    | .written _ => "Deferred::Waiting"
    | .computed _ => "Deferred::Future"

/-- The writer's end, as diagnostics show it. -/
def describeWriter (p : Promise α) : Option String :=
  p.isAbandoned.map fun gone => s!"Completer \x7b abandoned: {gone} \x7d"

end Promise

end RoundChain
