import RoundChain.Node.Run
import RoundChain.Proofs.Growth
import RoundChain.Proofs.Recovered
import RoundChain.Proofs.VerifiedBlocks

/-!
# Sessions of a node

What a node feeds to its stream, where its stream begins, and what its stream closes. The
calls of a node are the `RoundSource.script` of its source as far as it came. A node begins
where the block files that it found end, `Node.Starts.position_of_chain`, and every block
that it closes is `Readable`.

## The model

`Node.begun` is the session of a node that has started, as a course with its history, and
`Node.course` what becomes of it. The hash that a node begins a new chain at is noted there
as its first call.
-/

namespace RoundChain

/-! ### Rounds as calls -/

/-- Makes calls one after the other, up to the first that does not succeed. -/
def StreamState.takeAll (s : StreamState) : List IntakeCall → StreamCall Unit
  | [] => (.ok (), s)
  | call :: rest => (s.take call).andThen fun () s => s.takeAll rest

theorem StreamState.takeAll_append (s : StreamState) (a b : List IntakeCall) :
    s.takeAll (a ++ b) = (s.takeAll a).andThen fun () s => s.takeAll b := by
  induction a generalizing s with
  | nil => rfl
  | cons call rest ih =>
    simp only [List.cons_append, takeAll]
    cases hcall : (s.take call).1 with
    | ok _ =>
      rw [StreamCall.andThen_of_ok hcall, StreamCall.andThen_of_ok hcall]
      exact ih _
    | error e =>
      rw [StreamCall.andThen_of_error hcall, StreamCall.andThen_of_error hcall]
      rfl

namespace RoundSource

/-- The calls that feed the next round. -/
def roundCalls (d : RoundSource) : List IntakeCall :=
  .startRound d.nextRound d.clock :: ((d.roundItems d.nextRound).map .writeItem ++
    [.capture (roundChanges d.nextRound d.clock), .endRound d.nextRound,
      .notify d.nextRound (stateHash d.nextRound)])

/-- The calls of a source that feeds at most `rounds` rounds, as long as they succeed. -/
def script : Nat → RoundSource → List IntakeCall
  | 0, _ => []
  | rounds + 1, d =>
    if d.finished then []
    else if d.advance.1 = .ok () then d.roundCalls ++ script rounds d.advance.2
    else d.roundCalls

theorem writeItems_eq (s : StreamState) (items : List Item) :
    writeItems s items = s.takeAll (items.map .writeItem) := by
  induction items generalizing s with
  | nil => rfl
  | cons item rest ih =>
    rw [writeItems, List.map_cons, StreamState.takeAll]
    exact congrArg ((s.writeItem item).andThen ·) (funext fun _ => funext ih)

/-- To feed a round is to make its calls. -/
theorem feed_eq (d : RoundSource) (s : StreamState) : d.feed s = s.takeAll d.roundCalls := by
  rw [roundCalls, StreamState.takeAll]
  refine congrArg ((s.startRound d.nextRound d.clock).andThen ·) (funext fun _ => funext fun t => ?_)
  rw [StreamState.takeAll_append, ← writeItems_eq]
  rfl

theorem script_succ {d next : RoundSource} (hopen : d.finished = false) (hadvance : d.advance = (.ok (), next))
    (rounds : Nat) : d.script (rounds + 1) = d.roundCalls ++ next.script rounds := by
  rw [script, hopen, if_neg Bool.false_ne_true, hadvance, if_pos rfl]

/-- A source that moves on keeps its settings; the next round has the next number, and it is an interval later. -/
theorem advance_eq_ok {d : RoundSource} (h : d.advance.1 = .ok ()) :
    d.advance.2.config = d.config ∧ nextWord (ε := StreamError) d.nextRound = .ok d.advance.2.nextRound ∧
      d.clock.plusMillis (ε := StreamError) d.config.intervalMs = .ok d.advance.2.clock := by
  unfold advance at h ⊢
  cases hnext : nextWord (ε := StreamError) d.nextRound with
  | error e => simp [hnext] at h
  | ok next =>
    cases hdriven : nextWord (ε := StreamError) d.driven with
    | error e => simp [hnext, hdriven] at h
    | ok driven =>
      cases hclock : d.clock.plusMillis (ε := StreamError) d.config.intervalMs with
      | error e => simp [hnext, hdriven, hclock] at h
      | ok clock =>
        simp only [hdriven, hclock]
        exact ⟨trivial, trivial, trivial⟩

/-- A source that has not come to its end begins with a round. -/
theorem roundCalls_prefix_script {d : RoundSource} (hopen : d.finished = false) (rounds : Nat) :
    d.roundCalls <+: d.script (rounds + 1) := by
  rw [script, hopen, if_neg Bool.false_ne_true]
  split
  · exact List.prefix_append ..
  · exact List.prefix_rfl

/-! ### Items of rounds -/

theorem isHeader_roundItems (d : RoundSource) (round : UInt64) :
    ∀ item ∈ d.roundItems round, item.isHeader = false := by
  intro item hitem
  rcases List.mem_cons.mp hitem with rfl | hitem
  · rfl
  obtain ⟨event, -, hitem⟩ := List.mem_flatMap.mp hitem
  rcases List.mem_cons.mp hitem with rfl | hitem
  · rfl
  obtain ⟨transaction, -, hitem⟩ := List.mem_flatMap.mp hitem
  rw [transactionItems, List.mem_cons, List.mem_singleton] at hitem
  rcases hitem with rfl | rfl <;> rfl

/-- A source writes no header. -/
theorem isHeader_script {rounds : Nat} {d : RoundSource} {item : Item}
    (h : .writeItem item ∈ d.script rounds) : item.isHeader = false := by
  induction rounds generalizing d with
  | zero => cases h
  | succ rounds ih =>
    have hround : .writeItem item ∈ d.roundCalls → item.isHeader = false := by
      intro h
      rw [roundCalls, List.mem_cons, List.mem_append, List.mem_map] at h
      rcases h with h | ⟨other, hother, h⟩ | h
      · cases h
      · cases h
        exact d.isHeader_roundItems d.nextRound item hother
      · simp at h
    rw [script] at h
    split at h
    · cases h
    split at h
    · rcases List.mem_append.mp h with h | h
      · exact hround h
      · exact ih h
    · exact hround h

end RoundSource

/-! ### Readable blocks -/

namespace StreamState

/-- The open block is readable. -/
def OpenReadable (s : StreamState) : Prop :=
  ∀ block, s.pending = some block → Readable block.number block.items

variable {s t : StreamState}

theorem StartsRound.openReadable {round : UInt64} {time : Timestamp} (ht : StartsRound s round time t)
    (hs : s.OpenReadable) : t.OpenReadable := by
  cases ht with
  | joined _ hblock =>
    rintro _ ⟨⟩
    exact (hs _ hblock : Readable ..)
  | opened _ _ hstart =>
    rintro _ ⟨⟩
    exact PendingBlock.readable_of_start hstart

/-- The end of a round closes a readable block, or none. -/
theorem EndsRound.readable {round : UInt64} {answer : Checked StreamError Unit} {more : Made}
    (ht : EndsRound s round answer t more) (hs : s.OpenReadable) :
    t.OpenReadable ∧ ∀ block ∈ more.closed, Readable block.number block.items := by
  cases ht with
  | refused _ => exact ⟨hs, nofun⟩
  | kept _ _ _ => exact ⟨hs, nofun⟩
  | empty _ _ _ => exact ⟨hs, nofun⟩
  | blocked _ _ _ => exact ⟨hs, nofun⟩
  | lost _ _ _ _ => exact ⟨fun _ hb => (by cases hb), nofun⟩
  | closed hclosing _ hsealed _ =>
    have hpending := (closing?_eq_some_iff.mp hclosing).2.1
    refine ⟨fun _ hb => (by cases hb), ?_⟩
    intro block hblock
    obtain rfl := List.mem_singleton.mp hblock
    exact PendingBlock.readable_sealed (hs _ hpending) hsealed

/-- Calls that write no header keep blocks readable. -/
theorem Takes.readable {call : IntakeCall} {answer : Checked StreamError Unit} {more : Made}
    (ht : Takes s call answer t more) (hs : s.OpenReadable)
    (hplain : ∀ item, call = .writeItem item → item.isHeader = false) :
    t.OpenReadable ∧ ∀ block ∈ more.closed, Readable block.number block.items := by
  cases ht with
  | starts _ _ hround => exact ⟨hround.openReadable hs, nofun⟩
  | appends _ hblock happend =>
    refine ⟨?_, nofun⟩
    rintro _ ⟨⟩
    exact PendingBlock.readable_append (hs _ hblock) happend (hplain _ rfl)
  | ends hround => exact hround.readable hs
  | _ => exact ⟨hs, nofun⟩

end StreamState

namespace Course

variable {σ ω : Type} {signer : Signer σ} {writer : Writer ω} {c d : Course σ ω}

/-- The blocks of a session are readable. -/
structure Legible (c : Course σ ω) : Prop where
  opened : c.stream.OpenReadable
  closed : ∀ block ∈ c.made.closed, Readable block.number block.items

/-- No header was written. -/
def Plain (c : Course σ ω) : Prop := ∀ item answer, (.writeItem item, answer) ∈ c.calls → item.isHeader = false

theorem Legible.moves (h : c.Legible) (hd : c.Moves d) (hplain : d.Plain) : d.Legible := by
  cases hd with
  | stays => exact h
  | @takes call _ ht =>
    obtain ⟨hopened, hclosed⟩ := ht.readable h.opened fun item hcall =>
      hplain item _ (List.mem_append_right _ (List.mem_singleton.mpr (by rw [hcall])))
    refine ⟨hopened, fun block hblock => ?_⟩
    rcases List.mem_append.mp hblock with hblock | hblock
    · exact h.closed block hblock
    · exact hclosed block hblock
  | stops _ =>
    refine ⟨fun block hblock => ?_, h.closed⟩
    have hpending : c.stream.stopIntake.core.pending = none := by rw [StreamState.core_stopIntake]
    rw [show c.stream.stopIntake.pending = none from hpending] at hblock
    cases hblock
  | @aside stream _ _ hintake =>
    have hpending : stream.pending = c.stream.pending := congrArg (·.pending) hintake
    exact ⟨fun block hblock => h.opened block (hpending ▸ hblock), h.closed⟩

theorem Plain.of_moves (h : d.Plain) (hd : c.Moves d) : c.Plain := by
  cases hd with
  | takes _ _ => exact fun item answer hmem => h item answer (List.mem_append_left _ hmem)
  | _ => exact h

theorem legible_run (h : c.Legible) {hs : List (Happening σ ω)}
    (hlimits : (c.run signer writer hs).WithinLimits) (hplain : (c.run signer writer hs).Plain) :
    (c.run signer writer hs).Legible :=
  run_induction signer writer (P := fun d => d.Plain → d.Legible)
    (fun d happening hd hl hp =>
      have hmoves := d.moves_step happening hl
      (hd (hp.of_moves hmoves)).moves hmoves hp)
    (fun _ => h) hlimits hplain

/-- The calls among what happens. -/
def callsOf (hs : List (Happening σ ω)) : List IntakeCall :=
  hs.filterMap fun
    | .call call => some call
    | _ => none

theorem callsOf_append (hs later : List (Happening σ ω)) : callsOf (hs ++ later) = callsOf hs ++ callsOf later :=
  List.filterMap_append

theorem callsOf_calls (calls : List IntakeCall) :
    callsOf (calls.map Happening.call : List (Happening σ ω)) = calls := by
  induction calls with
  | nil => rfl
  | cons call rest ih => exact congrArg (call :: ·) ih

/-- The calls of a session are those that were there, and then some of those that have happened, in their
order. -/
theorem calls_run_eq (signer : Signer σ) (writer : Writer ω) (c : Course σ ω) (hs : List (Happening σ ω)) :
    ∃ later, (c.run signer writer hs).calls = c.calls ++ later ∧ (later.map Prod.fst).Sublist (callsOf hs) := by
  induction hs generalizing c with
  | nil => exact ⟨[], (List.append_nil _).symm, List.Sublist.refl _⟩
  | cons happening rest ih =>
    have hnow : ∃ now, (c.step signer writer happening).calls = c.calls ++ now ∧
        (now.map Prod.fst).Sublist (callsOf [happening]) := by
      have hnone : c.calls = c.calls ++ [] := (List.append_nil _).symm
      cases happening with
      | call call =>
        rw [step]
        split
        · exact ⟨[], hnone, List.nil_sublist _⟩
        · exact ⟨_, rfl, List.Sublist.refl _⟩
      | stop =>
        rw [step]
        split <;> exact ⟨[], hnone, List.Sublist.refl _⟩
      | _ => exact ⟨[], hnone, List.Sublist.refl _⟩
    obtain ⟨now, hcalls, hfirst⟩ := hnow
    obtain ⟨later, hlater, hrest⟩ := ih (c.step signer writer happening)
    refine ⟨now ++ later, ?_, ?_⟩
    · rw [← List.append_assoc, ← hcalls]
      exact hlater
    · rw [show happening :: rest = [happening] ++ rest from rfl, callsOf_append, List.map_append]
      exact hfirst.append hrest

/-- Every call of a session was there or has happened. -/
theorem mem_calls_run {hs : List (Happening σ ω)} {entry : IntakeCall × Checked StreamError Unit}
    (h : entry ∈ (c.run signer writer hs).calls) : entry ∈ c.calls ∨ entry.1 ∈ callsOf hs := by
  obtain ⟨later, hall, hlater⟩ := calls_run_eq signer writer c hs
  rw [hall, List.mem_append] at h
  exact h.imp_right fun hmem => hlater.subset (List.mem_map_of_mem hmem)

end Course

/-! ### The start of a node -/

namespace Node

/-- The session of a node that has started, at its beginning. -/
def begun (node : Node) : Course SchemeSigner FileStore :=
  { Course.start node.session.stream node.session.signer node.session.store with
    calls := node.session.stream.anchor.toList.map fun hash => (.initLastHash hash, .ok ()) }

/-- The session of a node after what happened. -/
def course [Compression] [Bls12381.Library] (node : Node) (hs : List (Happening SchemeSigner FileStore)) :
    Course SchemeSigner FileStore :=
  node.begun.run SchemeSigner.signer FileStore.writer hs

/-- A node writes no header by its first calls. -/
theorem plain_begun (node : Node) : node.begun.Plain := by
  intro item answer hmem
  obtain ⟨hash, -, h⟩ := List.mem_map.mp hmem
  cases h

variable [Compression]

/-- What a node that has started begins with. -/
structure Starts (config : NodeConfig) (dir : Directory) (node : Node) (recovered : Option StreamInfo) :
    Prop where
  told : Recovery.recover dir config.stream.version config.stream.trailingLimit = .ok recovered
  stream : ∃ start, node.session.stream =
    { StreamState.initial config.stream .configured start recovered with
      anchor := if recovered.isSome then none else some .zero }
  store : node.session.store = .new dir config.stream.storage.compress
  earlier : node.session.earlier = []
  failure : node.failure = none

variable {config : NodeConfig} {dir : Directory} {node : Node} {recovered : Option StreamInfo}

/-- The position that a node continues. -/
def position (config : NodeConfig) (recovered : Option StreamInfo) : StreamInfo :=
  recovered.getD (.anchored .zero config.stream.version)

theorem Starts.regular (h : Starts config dir node recovered) :
    node.begun.Regular config.stream .configured recovered := by
  obtain ⟨start, hstream⟩ := h.stream
  have hinitial := Course.regular_start config.stream .configured start recovered node.session.signer
    node.session.store
  have hflow : ∃ base, node.session.stream.Flow [] [] [] base := by
    rcases hinitial.progress with ⟨-, -, base, hflow⟩ | ⟨_, -, hgrown, -⟩
    · exact ⟨base, hflow.of_behind_eq (by rw [hstream]; rfl)⟩
    · cases hgrown.started
  refine ⟨?_, ?_, ?_, ?_, .inl ⟨⟨?_, ?_, ?_, ?_⟩, rfl, hflow⟩⟩
  all_goals simp only [begun, Course.start, hstream]
  · rfl
  · rfl
  · intro anchor
    cases recovered <;> simp [eq_comm]
  all_goals rfl

theorem Starts.continues (h : Starts config dir node recovered) :
    node.begun.Continues recovered config.stream.version (position config recovered) := by
  obtain ⟨start, hstream⟩ := h.stream
  cases recovered with
  | some info => exact .inl rfl
  | none =>
    refine .inr ⟨rfl, .zero, ?_, rfl⟩
    simp [begun, hstream]

theorem Starts.legible (h : Starts config dir node recovered) : node.begun.Legible := by
  obtain ⟨start, hstream⟩ := h.stream
  refine ⟨fun block hblock => ?_, nofun⟩
  rw [begun, Course.start, hstream] at hblock
  cases hblock

/-- **A node begins where the chain in its directory ends.** -/
theorem Starts.position_of_chain (h : Starts config dir node recovered) {files : List StoredFile}
    {last : BlockHash} (hholds : dir.Holds files) (hchain : Chained 0 .zero files last) :
    (position config recovered).height = files.length ∧ (position config recovered).lastHash = last := by
  obtain ⟨told, htold, hcases⟩ :=
    recover_eq_ok hholds hchain config.stream.version config.stream.trailingLimit
  obtain rfl : told = recovered := by
    have hsame := htold.symm.trans h.told
    cases hsame
    rfl
  rcases hcases with ⟨rfl, rfl⟩ | ⟨info, rfl, hheight, hlast⟩
  · cases hchain
    exact ⟨rfl, rfl⟩
  · exact ⟨hheight, hlast⟩

variable [Ed25519.Library]

/-- A node that has started begins with the position that it recovered, and its source at a time that goes with
this position. -/
theorem start_eq_ok_source {now : Timestamp} (h : Node.start config now dir = .ok node) :
    ∃ recovered time, Starts config dir node recovered ∧
      startTime now recovered config.rounds.intervalMs = .ok time ∧
      node.source = .new config.rounds config.roster.size time := by
  obtain ⟨signer, -, h⟩ := bind_eq_ok_iff.mp h
  obtain ⟨recovered, hrecovered, h⟩ := bind_eq_ok_iff.mp h
  obtain ⟨time, htime, h⟩ := bind_eq_ok_iff.mp h
  obtain ⟨stream, hstream, h⟩ := bind_eq_ok_iff.mp h
  cases h
  refine ⟨recovered, time, ⟨Checked.mapCause_eq_ok_iff.mp hrecovered, ⟨initialState config.rounds.firstRound, ?_⟩,
    rfl, rfl, rfl⟩, htime, rfl⟩
  obtain ⟨first, hfirst, hstream⟩ := bind_eq_ok_iff.mp (Checked.mapCause_eq_ok_iff.mp hstream)
  obtain ⟨-, -, hfirst⟩ := bind_eq_ok_iff.mp hfirst
  split at hfirst
  · cases hfirst
  cases hfirst
  cases recovered with
  | some info =>
    cases hstream
    rfl
  | none =>
    cases hstream
    rfl

theorem start_eq_ok {now : Timestamp} (h : Node.start config now dir = .ok node) :
    ∃ recovered, Starts config dir node recovered := by
  obtain ⟨recovered, -, hstarts, -⟩ := start_eq_ok_source h
  exact ⟨recovered, hstarts⟩

end Node

end RoundChain
