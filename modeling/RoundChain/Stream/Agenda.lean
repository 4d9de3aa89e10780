/-!
# Agendas

An agenda says what is to be done next. Some of it is due at once, in the order in
which it was entered; some of it is due now, but only once nothing else is; and some
of it is due after a delay. Time stands still while anything is due, and then jumps
to the next entry, so a delay costs nothing.

## The model

`Agenda.next?` takes the next entry out. Entries for one time keep the order in
which they were made. What is due at once already is not entered a second time.
-/

namespace RoundChain

/-- How an entry is made. -/
structure Urgency where
  /-- Milliseconds until it is due. -/
  delay : Nat
  /-- Whether it waits until nothing else is due at its time. -/
  yields : Bool
  deriving DecidableEq, Repr

/-- What is to be done, and when. -/
structure Agenda (α : Type) where
  /-- The time, in milliseconds from the beginning. -/
  now : Nat
  /-- What is due, oldest first. -/
  due : List α
  /-- What is due once nothing else is, oldest first. -/
  yielding : List α
  /-- What is due at later times, the next first, and whether it yields then. -/
  later : List (Nat × Bool × α)
  deriving DecidableEq, Repr

namespace Agenda

variable {α : Type} [BEq α]

/-- The agenda without entries. -/
def empty : Agenda α := ⟨0, [], [], []⟩

/-- Adds an entry behind all those of its time and before it. -/
def insertLater (entry : Nat × Bool × α) : List (Nat × Bool × α) → List (Nat × Bool × α)
  | [] => [entry]
  | first :: rest =>
    if entry.1 < first.1 then entry :: first :: rest else first :: insertLater entry rest

/-- Makes an entry that is due now. -/
def enterNow (agenda : Agenda α) (yields : Bool) (a : α) : Agenda α :=
  if yields then { agenda with yielding := agenda.yielding ++ [a] }
  else if agenda.due.contains a then agenda
  else { agenda with due := agenda.due ++ [a] }

/-- Makes an entry. -/
def enter (agenda : Agenda α) (urgency : Urgency) (a : α) : Agenda α :=
  if urgency.delay = 0 then agenda.enterNow urgency.yields a
  else
    { agenda with later := insertLater (agenda.now + urgency.delay, urgency.yields, a) agenda.later }

/-- Makes entries in order. -/
def enterAll (agenda : Agenda α) (entries : List (Urgency × α)) : Agenda α :=
  entries.foldl (fun agenda (urgency, a) => agenda.enter urgency a) agenda

/-- Moves on to the time of the next entry: everything that is due then becomes due. -/
def advance (agenda : Agenda α) : Agenda α :=
  match agenda.later with
  | [] => agenda
  | (time, _) :: _ =>
    let (reached, later) := agenda.later.span (·.1 == time)
    reached.foldl (fun agenda (_, yields, a) => agenda.enterNow yields a)
      { agenda with now := time, later }

/-- The next entry among those due, and the agenda without it. -/
def nextDue? (agenda : Agenda α) : Option (α × Agenda α) :=
  match agenda.due, agenda.yielding with
  | a :: due, _ => some (a, { agenda with due })
  | [], a :: yielding => some (a, { agenda with yielding })
  | [], [] => none

/-- The next entry, and the agenda without it; time moves on if it has to. -/
def next? (agenda : Agenda α) : Option (α × Agenda α) :=
  match agenda.nextDue? with
  | some r => some r
  | none => agenda.advance.nextDue?

end Agenda

end RoundChain
