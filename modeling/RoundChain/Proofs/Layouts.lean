import RoundChain.Proofs.StateHashes

/-!
# How rounds fill blocks

What a session has made of its rounds is a `Layout`: the open block, the closed ones, and the calls so far. In a
session whose calls all succeed there is little that can happen to a layout, and `Layout.Grows` says it once: a
round opens a block or joins the open one, an item is added, and the end of a round leaves the block open or closes
it, as the rule has it.

Two facts are kept by calls that are `Paced`, with rounds of consecutive numbers and as many items in each. The open
block has the items of its rounds, `PendingBlock.Fills`; and the rounds of the blocks, one block after the other, are
all rounds so far. Together they are `Layout.Partitioned`, and `Layout.Partitioned.grows` is the step.
-/

namespace RoundChain

variable {σ ω : Type}

/-! ### The pace of calls -/

/-- How many rounds were started and ended, and how many items were written. -/
structure Tally where
  started : Nat
  ended : Nat
  written : Nat
  deriving DecidableEq, Repr

namespace Tally

/-- Nothing yet. -/
def zero : Tally := ⟨0, 0, 0⟩

/-- One more call. -/
def add (t : Tally) : IntakeCall → Tally
  | .startRound .. => { t with started := t.started + 1 }
  | .endRound _ => { t with ended := t.ended + 1 }
  | .writeItem _ => { t with written := t.written + 1 }
  | _ => t

/-- More calls. -/
def addAll (t : Tally) (calls : List IntakeCall) : Tally := calls.foldl add t

/-- A round starts after all rounds before it, with the number that is next; rounds that start or end find all
rounds so far with their items. -/
def Allows (first perRound : Nat) (t : Tally) : IntakeCall → Prop
  | .startRound round _ =>
    round.toNat = first + t.started ∧ t.ended = t.started ∧ t.written = t.started * perRound
  | .endRound round =>
    round.toNat + 1 = first + t.started ∧ t.ended + 1 = t.started ∧ t.written = t.started * perRound
  | _ => True

/-- Calls that bring rounds from `first` on, each with `perRound` items. -/
def Paced (first perRound : Nat) : Tally → List IntakeCall → Prop
  | _, [] => True
  | t, call :: rest => t.Allows first perRound call ∧ Paced first perRound (t.add call) rest

variable {first perRound : Nat} {t : Tally} {a b : List IntakeCall} {call : IntakeCall}

@[simp] theorem addAll_nil (t : Tally) : t.addAll [] = t := rfl

@[simp] theorem addAll_cons (t : Tally) (call : IntakeCall) (calls : List IntakeCall) :
    t.addAll (call :: calls) = (t.add call).addAll calls :=
  rfl

@[simp] theorem addAll_append (t : Tally) (a b : List IntakeCall) : t.addAll (a ++ b) = (t.addAll a).addAll b :=
  List.foldl_append

theorem paced_append_iff : Paced first perRound t (a ++ b) ↔
    Paced first perRound t a ∧ Paced first perRound (t.addAll a) b := by
  induction a generalizing t with
  | nil => simp [Paced]
  | cons call rest ih => simp [Paced, ih, and_assoc]

/-- The last of paced calls comes in its turn. -/
theorem Paced.allows (h : Paced first perRound t (a ++ [call])) : (t.addAll a).Allows first perRound call :=
  (paced_append_iff.mp h).2.1

end Tally

/-- A call that brings neither a round nor an item, nor the end of a round. -/
def IntakeCall.isAside : IntakeCall → Bool
  | .startRound .. | .writeItem _ | .endRound _ => false
  | _ => true

theorem Tally.add_of_isAside {call : IntakeCall} (h : call.isAside = true) (t : Tally) : t.add call = t := by
  cases call <;> first | rfl | cases h

/-! ### The rounds of a block -/

/-- The rounds of an open block, the one that is open included. -/
def PendingBlock.rounds (block : PendingBlock) : List Nat :=
  List.range' block.firstRound.toNat (block.lastRound.toNat + 1 - block.firstRound.toNat)

/-- The rounds of a closed block. -/
def ClosedBlock.rounds (block : ClosedBlock) : List Nat :=
  List.range' block.firstRound.toNat (block.lastRound.toNat + 1 - block.firstRound.toNat)

namespace PendingBlock

variable {block : PendingBlock}

/-- A block begins with one round and its header. -/
theorem start_eq_ok_rounds {number : UInt64} {previous : BlockHash} {round : UInt64} {time : Timestamp}
    {version : SoftwareVersion} {startState : StartState}
    (h : start number previous round time version startState = .ok block) :
    block.firstRound = round ∧ block.lastRound = round ∧ block.roundCount = 1 ∧ block.items.length = 1 := by
  obtain ⟨framed, -, rfl⟩ := push_eq_ok_iff.mp (append_eq_ok_iff.mp h).2
  exact ⟨rfl, rfl, rfl, rfl⟩

/-- An item leaves the rounds of a block. -/
theorem append_eq_ok_rounds {extended : PendingBlock} {item : Item} (h : block.append item = .ok extended) :
    extended.firstRound = block.firstRound ∧ extended.lastRound = block.lastRound ∧
      extended.roundCount = block.roundCount ∧ extended.items.length = block.items.length + 1 := by
  obtain ⟨framed, -, rfl⟩ := push_eq_ok_iff.mp (append_eq_ok_iff.mp h).2
  exact ⟨rfl, rfl, rfl, by simp [extend]⟩

/-- A block closes with its rounds, and two items more. -/
theorem sealed_eq_ok_rounds {time : Timestamp} {captured position : ChangeBatch} {closed : ClosedBlock}
    (h : block.sealed time captured position = .ok closed) :
    closed.firstRound = block.firstRound ∧ closed.lastRound = block.lastRound ∧
      closed.items.length = block.items.length + 2 := by
  obtain ⟨first, h₁, h⟩ := bind_eq_ok_iff.mp h
  obtain ⟨second, h₂, h⟩ := bind_eq_ok_iff.mp h
  cases h
  obtain ⟨hfirst, hlast, -, hitems⟩ := append_eq_ok_rounds h₁
  obtain ⟨hfirst', hlast', -, hitems'⟩ := append_eq_ok_rounds h₂
  refine ⟨hfirst'.trans hfirst, hlast'.trans hlast, ?_⟩
  rw [close, hitems', hitems]

end PendingBlock

/-! ### Layouts -/

/-- What a session has made of its rounds: its blocks, and the calls that it was asked for. -/
structure Layout where
  opened : Option PendingBlock
  closed : List ClosedBlock
  asked : List IntakeCall

namespace Layout

/-- What one call that succeeds does to a layout under a rule. -/
inductive Grows (rule : BoundaryRule) : Layout → Layout → Prop where
  | aside {opened : Option PendingBlock} {closed : List ClosedBlock} {asked : List IntakeCall} {call : IntakeCall} :
      call.isAside = true → Grows rule ⟨opened, closed, asked⟩ ⟨opened, closed, asked ++ [call]⟩
  | opens {closed : List ClosedBlock} {asked : List IntakeCall} {number round : UInt64} {previous : BlockHash}
      {time : Timestamp} {version : SoftwareVersion} {startState : StartState} {block : PendingBlock} :
      PendingBlock.start number previous round time version startState = .ok block →
      Grows rule ⟨none, closed, asked⟩ ⟨some block, closed, asked ++ [.startRound round time]⟩
  | joins {closed : List ClosedBlock} {asked : List IntakeCall} {round : UInt64} {time : Timestamp}
      {block : PendingBlock} :
      Grows rule ⟨some block, closed, asked⟩
        ⟨some (block.beginRound round time), closed, asked ++ [.startRound round time]⟩
  | appends {closed : List ClosedBlock} {asked : List IntakeCall} {item : Item} {block extended : PendingBlock} :
      block.append item = .ok extended →
      Grows rule ⟨some block, closed, asked⟩ ⟨some extended, closed, asked ++ [.writeItem item]⟩
  | keeps {closed : List ClosedBlock} {asked : List IntakeCall} {round : UInt64} {block : PendingBlock} :
      rule.closes block = false →
      Grows rule ⟨some block, closed, asked⟩ ⟨some block, closed, asked ++ [.endRound round]⟩
  | closes {closed : List ClosedBlock} {asked : List IntakeCall} {round : UInt64} {time : Timestamp}
      {captured position : ChangeBatch} {block : PendingBlock} {ended : ClosedBlock} :
      rule.closes block = true → block.sealed time captured position = .ok ended →
      Grows rule ⟨some block, closed, asked⟩ ⟨none, closed ++ [ended], asked ++ [.endRound round]⟩

end Layout

namespace StreamState

variable {s t : StreamState}

/-- **What a call that succeeds does to blocks.** -/
theorem Takes.grows {call : IntakeCall} {answer : Checked StreamError Unit} {more : Made}
    (ht : Takes s call answer t more) (hok : answer = .ok ()) (hrule : s.policy = .configured)
    (closed : List ClosedBlock) (asked : List IntakeCall) :
    Layout.Grows s.config.boundary ⟨s.pending, closed, asked⟩
      ⟨t.pending, closed ++ more.closed, asked ++ [call]⟩ := by
  have hcloses : ∀ block, s.policy block s.config = s.config.boundary.closes block := by
    intro block
    rw [hrule]
    rfl
  have haside : ∀ {call : IntakeCall}, call.isAside = true → Layout.Grows s.config.boundary
      ⟨s.pending, closed, asked⟩ ⟨s.pending, closed ++ [], asked ++ [call]⟩ := by
    intro call hcall
    rw [List.append_nil]
    exact .aside hcall
  cases ht with
  | refused _ => cases hok
  | anchored _ _ => exact haside rfl
  | notified => exact haside rfl
  | captured => exact haside rfl
  | begun _ => exact haside rfl
  | flushed _ => exact haside rfl
  | starts _ _ hstarts =>
    rw [List.append_nil]
    cases hstarts with
    | joined _ hpending =>
      rw [hpending]
      exact .joins
    | opened _ hpending hstart =>
      rw [hpending]
      exact .opens hstart
  | appends _ hpending happend =>
    rw [hpending, List.append_nil]
    exact .appends happend
  | ends hends =>
    cases hends with
    | @kept time hphase hsome hnot =>
      obtain ⟨block, hpending⟩ := Option.isSome_iff_exists.mp hsome
      have hstays : s.config.boundary.closes block = false := by
        rw [← hcloses, ← Bool.not_eq_true]
        intro hholds
        have hclosing := closing?_eq_some_iff.mpr ⟨hphase, hpending, hholds⟩
        rw [hnot] at hclosing
        cases hclosing
      have hstill : s.core.afterRound.pending = some block := hpending
      rw [hpending, hstill, List.append_nil]
      exact .keeps hstays
    | closed hclosing _ hsealed _ =>
      obtain ⟨-, hpending, hholds⟩ := closing?_eq_some_iff.mp hclosing
      rw [hpending]
      exact .closes (hcloses _ ▸ hholds) hsealed
    | _ => cases hok

end StreamState

/-! ### Blocks of paced calls -/

open Tally (Paced)

/-- An open block has its rounds and their items, those so far of the last one included. -/
structure PendingBlock.Fills (first perRound : Nat) (t : Tally) (block : PendingBlock) : Prop where
  pos : 0 < block.roundCount
  count : block.firstRound.toNat + block.roundCount = first + t.started
  last : block.lastRound.toNat + 1 = first + t.started
  later : first ≤ block.firstRound.toNat
  items : block.items.length + (block.firstRound.toNat - first) * perRound = 1 + t.written

section

variable {first perRound : Nat} {t : Tally} {block : PendingBlock}

theorem PendingBlock.Fills.rounds_eq (h : block.Fills first perRound t) :
    block.rounds = List.range' block.firstRound.toNat block.roundCount := by
  have hcount := h.count
  have hlast := h.last
  rw [rounds, show block.lastRound.toNat + 1 - block.firstRound.toNat = block.roundCount by omega]

/-- When a round starts or ends, all rounds of the block have all of their items. -/
theorem PendingBlock.Fills.length_items (h : block.Fills first perRound t)
    (hwritten : t.written = t.started * perRound) : block.items.length = 1 + block.roundCount * perRound := by
  have hcount := h.count
  have hlater := h.later
  have hitems := h.items
  have hstarted : t.started = (block.firstRound.toNat - first) + block.roundCount := by omega
  rw [hwritten, hstarted, Nat.add_mul] at hitems
  omega

theorem PendingBlock.fills_of_start {number : UInt64} {previous : BlockHash} {round : UInt64} {time : Timestamp}
    {version : SoftwareVersion} {startState : StartState}
    (hstart : start number previous round time version startState = .ok block)
    (hround : round.toNat = first + t.started) (hwritten : t.written = t.started * perRound) :
    block.Fills first perRound { t with started := t.started + 1 } := by
  obtain ⟨hfirst, hlast, hcount, hitems⟩ := start_eq_ok_rounds hstart
  constructor
  · omega
  · simp only [hfirst, hcount, hround, Nat.add_assoc]
  · simp only [hlast, hround, Nat.add_assoc]
  · rw [hfirst]
    omega
  · rw [hfirst, hitems, hround, Nat.add_sub_cancel_left, hwritten]

theorem PendingBlock.Fills.joined (h : block.Fills first perRound t) {round : UInt64} (time : Timestamp)
    (hround : round.toNat = first + t.started) :
    (block.beginRound round time).Fills first perRound { t with started := t.started + 1 } := by
  have hcount := h.count
  constructor
  · exact Nat.succ_pos _
  · simp only [beginRound]
    omega
  · simp only [beginRound]
    omega
  · exact h.later
  · exact h.items

/-- The round that starts is one more of the block. -/
theorem PendingBlock.Fills.rounds_joined (h : block.Fills first perRound t) {round : UInt64} (time : Timestamp)
    (hround : round.toNat = first + t.started) :
    (block.beginRound round time).rounds = block.rounds ++ [first + t.started] := by
  rw [(h.joined time hround).rounds_eq, h.rounds_eq, ← h.count]
  simp [beginRound, List.range'_concat]

theorem PendingBlock.Fills.appended (h : block.Fills first perRound t) {extended : PendingBlock} {item : Item}
    (happend : block.append item = .ok extended) :
    extended.Fills first perRound { t with written := t.written + 1 } := by
  obtain ⟨hfirst, hlast, hcount, hitems⟩ := append_eq_ok_rounds happend
  have hheld := h.items
  constructor
  · exact hcount ▸ h.pos
  · rw [hfirst, hcount]
    exact h.count
  · rw [hlast]
    exact h.last
  · rw [hfirst]
    exact h.later
  · rw [hfirst, hitems]
    simp only
    omega

end

namespace Layout

/-- The open block has its rounds and their items, and the rounds of all blocks are the rounds so far. -/
structure Partitioned (first perRound : Nat) (l : Layout) : Prop where
  fills : ∀ block, l.opened = some block → block.Fills first perRound (Tally.zero.addAll l.asked)
  tiled : l.closed.flatMap ClosedBlock.rounds ++ (l.opened.map PendingBlock.rounds).getD [] =
    List.range' first (Tally.zero.addAll l.asked).started
  nonempty : ∀ block ∈ l.closed, block.firstRound.toNat ≤ block.lastRound.toNat

variable {first perRound : Nat} {rule : BoundaryRule} {l l' : Layout}

theorem partitioned_start (first perRound : Nat) : Partitioned first perRound ⟨none, [], []⟩ :=
  ⟨nofun, rfl, nofun⟩

/-- **A call that comes in its turn keeps the rounds of the blocks together.** -/
theorem Partitioned.grows (h : l.Partitioned first perRound) (hl : Grows rule l l')
    (hpaced : Paced first perRound .zero l'.asked) : l'.Partitioned first perRound := by
  obtain ⟨hfills, htiled, hnonempty⟩ := h
  cases hl with
  | @aside opened closed asked call haside =>
    have hsame : Tally.zero.addAll (asked ++ [call]) = Tally.zero.addAll asked := by
      simp [Tally.add_of_isAside haside]
    exact ⟨hsame ▸ hfills, hsame ▸ htiled, hnonempty⟩
  | @opens closed asked number round previous time version startState block hstart =>
    obtain ⟨hround, -, hwritten⟩ := hpaced.allows
    obtain ⟨hfirst, -, hcount, -⟩ := PendingBlock.start_eq_ok_rounds hstart
    have hblock := PendingBlock.fills_of_start hstart hround hwritten
    refine ⟨fun other hother => ?_, ?_, hnonempty⟩
    · obtain rfl := Option.some.inj hother
      simpa [Tally.add] using hblock
    · simp only [Option.map_none, Option.getD_none, List.append_nil] at htiled
      simp [Tally.add, List.range'_concat, htiled, hblock.rounds_eq, hfirst, hcount, hround]
  | @joins closed asked round time block =>
    obtain ⟨hround, -⟩ := hpaced.allows
    have hblock := (hfills block rfl).joined time hround
    have hrounds := (hfills block rfl).rounds_joined time hround
    refine ⟨fun other hother => ?_, ?_, hnonempty⟩
    · obtain rfl := Option.some.inj hother
      simpa [Tally.add] using hblock
    · simp only [Option.map_some, Option.getD_some] at htiled hrounds ⊢
      rw [hrounds, ← List.append_assoc, htiled]
      simp [Tally.add, List.range'_concat]
  | @appends closed asked item block extended happend =>
    obtain ⟨hfirst, hlast, -⟩ := PendingBlock.append_eq_ok_rounds happend
    have hblock := (hfills block rfl).appended happend
    have hsame : extended.rounds = block.rounds := by rw [PendingBlock.rounds, PendingBlock.rounds, hfirst, hlast]
    refine ⟨fun other hother => ?_, ?_, hnonempty⟩
    · obtain rfl := Option.some.inj hother
      simpa [Tally.add] using hblock
    · simpa [Tally.add, hsame] using htiled
  | @keeps closed asked round block _ =>
    refine ⟨fun other hother => ?_, ?_, hnonempty⟩
    · obtain ⟨hpos, hcount, hlast, hlater, hitems⟩ := hfills other hother
      constructor <;> simpa [Tally.add]
    · simpa [Tally.add] using htiled
  | @closes closed asked round time captured position block ended _ hsealed =>
    obtain ⟨hfirst, hlast, -⟩ := PendingBlock.sealed_eq_ok_rounds hsealed
    have hsame : ended.rounds = block.rounds := by rw [ClosedBlock.rounds, PendingBlock.rounds, hfirst, hlast]
    obtain ⟨hpos, hcount, hlastRound, -⟩ := hfills block rfl
    refine ⟨nofun, ?_, fun other hother => ?_⟩
    · simpa [Tally.add, hsame] using htiled
    · rcases List.mem_append.mp hother with hother | hother
      · exact hnonempty other hother
      · obtain rfl := List.mem_singleton.mp hother
        rw [hfirst, hlast]
        omega

end Layout

end RoundChain
