import RoundChain.Proofs.Accounts
import RoundChain.Proofs.NodeRuns
import RoundChain.Proofs.RoundEnds

/-!
# Rounds are partitioned into blocks

A source feeds rounds of consecutive numbers, each with as many items: its calls are paced. A session with these
calls and no others, all of which succeed, closes blocks as its rule says and at no other time. `Course.Fed` says of
a session that it is one of these: each round that is driven and succeeds makes it so with one round more,
`Course.Fed.drive`, and what happens between rounds keeps it so, `Course.Fed.aside`.

**`Course.rounds_partitioned`**: the blocks, one after the other, have the rounds that were fed; a block closes at
the end of the first of its rounds at which the rule holds. Blocks of `n` rounds and blocks of at least `m` items
are read off this. The stream accounts for these blocks, and has counted them.
-/

namespace RoundChain

variable {σ ω : Type}

open Tally (Paced)

/-! ### The pace of a source -/

section

variable {first perRound : Nat} {t : Tally}

/-- Items may be written at any time. -/
theorem Tally.paced_writeItems (items : List Item) : Paced first perRound t (items.map .writeItem) := by
  induction items generalizing t with
  | nil => trivial
  | cons item rest ih => exact ⟨trivial, ih⟩

theorem Tally.addAll_writeItems (items : List Item) :
    t.addAll (items.map .writeItem) = { t with written := t.written + items.length } := by
  induction items generalizing t with
  | nil => rfl
  | cons item rest ih =>
    rw [List.map_cons, addAll_cons, ih, add, List.length_cons]
    simp only [Nat.add_assoc, Nat.add_comm 1]

end

namespace RoundSource

/-- The number of items in each round of a source. -/
def itemsPerRound (d : RoundSource) : Nat :=
  1 + d.config.eventsPerRound.toNat * (1 + 2 * d.config.transactionsPerEvent.toNat)

/-- The calls that feed the next `k` rounds. -/
def drives : Nat → RoundSource → List IntakeCall
  | 0, _ => []
  | k + 1, d => d.roundCalls ++ drives k d.advance.2

/-- A source moves on `k` times, within the limits of its numbers. -/
def Advances : Nat → RoundSource → Prop
  | 0, _ => True
  | k + 1, d => d.advance.1 = .ok () ∧ Advances k d.advance.2

/-- A source after it has moved on `k` times. -/
def moved : Nat → RoundSource → RoundSource
  | 0, d => d
  | k + 1, d => moved k d.advance.2

theorem drives_concat (d : RoundSource) (k : Nat) : d.drives (k + 1) = d.drives k ++ (d.moved k).roundCalls := by
  induction k generalizing d with
  | zero => exact List.append_nil _
  | succ k ih =>
    rw [drives, ih, ← List.append_assoc]
    rfl

theorem moved_concat (d : RoundSource) (k : Nat) : d.moved (k + 1) = (d.moved k).advance.2 := by
  induction k generalizing d with
  | zero => rfl
  | succ k ih => exact ih d.advance.2

theorem Advances.concat {d : RoundSource} {k : Nat} (h : d.Advances k) (hnext : (d.moved k).advance.1 = .ok ()) :
    d.Advances (k + 1) := by
  induction k generalizing d with
  | zero => exact ⟨hnext, trivial⟩
  | succ k ih => exact ⟨h.1, ih h.2 hnext⟩

variable {first : Nat} {t : Tally}

/-- To drive a round is to make its calls and to move on. -/
theorem drive_eq_ok_iff {d next : RoundSource} {s after : StreamState} {written : Nat} :
    d.drive s = (.ok written, next, after) ↔
      s.takeAll d.roundCalls = (.ok (), after) ∧ d.advance = (.ok (), next) ∧
        written = (d.roundItems d.nextRound).length := by
  rw [← feed_eq, drive]
  rcases hfed : d.feed s with ⟨_ | _, stream⟩
  · simp
  · rcases hmoved : d.advance with ⟨_ | _, source⟩
    · simp [Except.map]
    · simp only [Except.map, Prod.mk.injEq, Except.ok.injEq, true_and]
      constructor
      · rintro ⟨rfl, rfl, rfl⟩
        exact ⟨rfl, rfl, rfl⟩
      · rintro ⟨rfl, rfl, rfl⟩
        exact ⟨rfl, rfl, rfl⟩

theorem length_roundItems (d : RoundSource) (round : UInt64) : (d.roundItems round).length = d.itemsPerRound := by
  simp [roundItems, eventItems, transactionItems, itemsPerRound, List.length_flatMap, Nat.add_comm,
    Nat.mul_comm]

/-- The calls of a round come in their turn. -/
theorem paced_roundCalls {d : RoundSource} (hround : d.nextRound.toNat = first + t.started)
    (hended : t.ended = t.started) (hwritten : t.written = t.started * d.itemsPerRound) :
    Paced first d.itemsPerRound t d.roundCalls := by
  refine ⟨⟨hround, hended, hwritten⟩, ?_⟩
  rw [Tally.paced_append_iff, Tally.addAll_writeItems, length_roundItems]
  refine ⟨Tally.paced_writeItems _, trivial, ⟨?_, ?_, ?_⟩, trivial, trivial⟩
  all_goals simp only [Tally.add, Nat.succ_mul]
  all_goals omega

theorem addAll_roundCalls (d : RoundSource) (t : Tally) :
    t.addAll d.roundCalls = ⟨t.started + 1, t.ended + 1, t.written + d.itemsPerRound⟩ := by
  simp [roundCalls, Tally.addAll_writeItems, length_roundItems, Tally.add]

/-- Rounds that a source feeds come in their turn, and all of them end. -/
theorem paced_drives {k : Nat} {d : RoundSource} (h : d.Advances k) (hround : d.nextRound.toNat = first + t.started)
    (hended : t.ended = t.started) (hwritten : t.written = t.started * d.itemsPerRound) :
    Paced first d.itemsPerRound t (d.drives k) ∧ (t.addAll (d.drives k)).started = t.started + k ∧
      (t.addAll (d.drives k)).ended = t.ended + k := by
  induction k generalizing d t with
  | zero => exact ⟨trivial, rfl, rfl⟩
  | succ k ih =>
    obtain ⟨hadvance, hlater⟩ := h
    obtain ⟨hconfig, hnext, -⟩ := advance_eq_ok hadvance
    rw [nextWord_eq_ok_iff] at hnext
    have hsame : d.advance.2.itemsPerRound = d.itemsPerRound := by rw [itemsPerRound, hconfig, itemsPerRound]
    obtain ⟨hpaced, hstarts, hends⟩ := ih (t := t.addAll d.roundCalls) hlater
      (by rw [addAll_roundCalls, hnext, hround, Nat.add_assoc]) (by rw [addAll_roundCalls, hended])
      (by rw [addAll_roundCalls, hsame, hwritten, Nat.succ_mul])
    rw [drives, Tally.paced_append_iff, Tally.addAll_append, hstarts, hends, addAll_roundCalls]
    rw [hsame, addAll_roundCalls] at hpaced
    refine ⟨⟨paced_roundCalls hround hended hwritten, hpaced⟩, ?_, ?_⟩
    all_goals simp only
    all_goals omega

end RoundSource

/-! ### Pieces of one length -/

/-- A range cut into pieces of one length, and a rest. -/
theorem range_pieces {pieces : List (List Nat)} {rest : List Nat} {n first k : Nat}
    (hpieces : pieces.flatten ++ rest = List.range' first k) (huniform : ∀ piece ∈ pieces, piece.length = n) :
    pieces.length * n + rest.length = k ∧
      ∀ i piece, pieces[i]? = some piece → piece = List.range' (first + i * n) n := by
  induction pieces generalizing first k with
  | nil => exact ⟨by simpa using congrArg List.length hpieces, nofun⟩
  | cons piece pieces ih =>
    rw [List.flatten_cons, List.append_assoc] at hpieces
    obtain ⟨j, hj, hpiece, hlater⟩ := List.range'_eq_append_iff.mp hpieces.symm
    obtain rfl : j = n := by simpa [hpiece] using huniform piece List.mem_cons_self
    obtain ⟨hlength, hplaces⟩ := ih hlater fun other hother => huniform other (List.mem_cons_of_mem _ hother)
    refine ⟨?_, fun i other hother => ?_⟩
    · rw [List.length_cons, Nat.succ_mul]
      omega
    · cases i with
      | zero =>
        obtain rfl := Option.some.inj hother
        simpa using hpiece
      | succ i =>
        rw [hplaces i other hother, Nat.succ_mul, Nat.mul_one, Nat.add_assoc, Nat.add_comm j]

/-! ### The verdicts of rules -/

/-- Blocks of settings that are not refused have a round. -/
theorem StreamConfig.rounds_ne_zero {config : StreamConfig} {n : UInt64} (hvalid : config.validate = .ok ())
    (hrule : config.boundary = .rounds n) : n.toNat ≠ 0 := by
  intro hzero
  obtain rfl : n = 0 := UInt64.toNat_inj.mp hzero
  have hfault : config.fault? ≠ none := by
    unfold fault?
    split
    · simp
    split
    · simp
    split
    · simp
    simp [hrule]
  unfold validate at hvalid
  split at hvalid
  · cases hvalid
  · exact hfault ‹_›

namespace Course

section

variable {session : List (Happening σ ω) → Course σ ω} {hs : List (Happening σ ω)} {perRound i round : Nat}

theorem Ends.closes_rounds {n : UInt64} {begun : Nat} {verdict : Bool} {held : PendingBlock}
    (h : Ends session hs (.rounds n) perRound i begun round verdict held) :
    verdict = decide (n.toNat ≤ held.roundCount) :=
  h.verdict.symm

theorem Ends.closes_items {m : Nat} {begun : Nat} {verdict : Bool} {held : PendingBlock}
    (h : Ends session hs (.items m) perRound i begun round verdict held) :
    verdict = decide (m ≤ held.items.length) :=
  h.verdict.symm

/-- A block that the number of its rounds has closed has that many, and their items. -/
theorem Settled.rounds_eq {n : UInt64} {block : ClosedBlock} (h : Settled session hs (.rounds n) perRound i block)
    (hpos : n.toNat ≠ 0) (hnonempty : block.firstRound.toNat ≤ block.lastRound.toNat) :
    block.lastRound.toNat + 1 = block.firstRound.toNat + n.toNat ∧
      block.items.length = 1 + n.toNat * perRound + 2 := by
  obtain ⟨held, hends, hitems⟩ := h.last
  have hcount := hends.count
  have hholds : n.toNat ≤ held.roundCount := by simpa using hends.closes_rounds
  have hmost : held.roundCount ≤ n.toNat := by
    rcases Nat.eq_or_lt_of_le hnonempty with hone | hmore
    · omega
    · -- the rule did not hold one round before
      obtain ⟨before, hbefore⟩ := h.earlier (block.lastRound.toNat - 1) (by omega) (by omega)
      have hnot : before.roundCount < n.toNat := by simpa using hbefore.closes_rounds
      have hcountBefore := hbefore.count
      omega
  obtain hsame : held.roundCount = n.toNat := Nat.le_antisymm hmost hholds
  rw [hsame] at hcount
  exact ⟨hcount.symm, by rw [hitems, hends.items, hsame]⟩

end

/-! ### The partition -/

/-- All calls were those of `k` rounds of a source, after the hash that a new chain begins with, and all succeeded. -/
structure Fed (anchor : Option BlockHash) (d : RoundSource) (k : Nat) (c : Course σ ω) : Prop where
  advances : d.Advances k
  calls : c.calls = (anchor.toList.map IntakeCall.initLastHash ++ d.drives k).map (·, .ok ())

/-- Calls that all succeed are part of a course. -/
theorem run_calls (signer : Signer σ) (writer : Writer ω) {calls : List IntakeCall} {c : Course σ ω}
    (hgoing : c.stopped = false) {after : StreamState} (h : c.stream.takeAll calls = (.ok (), after)) :
    (c.run signer writer (calls.map .call)).stream = after ∧
      (c.run signer writer (calls.map .call)).calls = c.calls ++ calls.map (·, .ok ()) ∧
      (c.run signer writer (calls.map .call)).stopped = false := by
  induction calls generalizing c with
  | nil =>
    cases h
    exact ⟨rfl, (List.append_nil _).symm, hgoing⟩
  | cons call rest ih =>
    have hstep := step_call signer writer c hgoing call
    rw [StreamState.takeAll] at h
    cases hcall : (c.stream.take call).1 with
    | error e =>
      rw [StreamCall.andThen_of_error hcall] at h
      cases h
    | ok _ =>
      rw [StreamCall.andThen_of_ok hcall] at h
      rw [hcall] at hstep
      obtain ⟨hstream, hcalls, hstill⟩ := ih (c := c.step signer writer (.call call)) (hstep ▸ hgoing) (hstep ▸ h)
      refine ⟨hstream, hcalls.trans ?_, hstill⟩
      rw [hstep, List.append_assoc]
      rfl

namespace Fed

variable {signer : Signer σ} {writer : Writer ω} {anchor : Option BlockHash} {d : RoundSource} {k : Nat}
  {c : Course σ ω}

/-- **A round that is driven and succeeds is fed.** -/
theorem drive (h : c.Fed anchor d k) (hgoing : c.stopped = false) {written : Nat} {next : RoundSource}
    {after : StreamState} (hdrive : (d.moved k).drive c.stream = (.ok written, next, after)) :
    let later := c.run signer writer ((d.moved k).roundCalls.map .call)
    later.Fed anchor d (k + 1) ∧ later.stream = after ∧ later.stopped = false ∧ d.moved (k + 1) = next := by
  intro later
  obtain ⟨htaken, hadvance, -⟩ := RoundSource.drive_eq_ok_iff.mp hdrive
  obtain ⟨hstream, hcalls, hstill⟩ := run_calls signer writer hgoing htaken
  refine ⟨⟨h.advances.concat (congrArg Prod.fst hadvance), ?_⟩, hstream, hstill, ?_⟩
  · rw [hcalls, h.calls, RoundSource.drives_concat, ← List.append_assoc, ← List.map_append]
  · rw [RoundSource.moved_concat, hadvance]

/-- What is no call leaves the rounds that were fed. -/
theorem aside (h : c.Fed anchor d k) {happening : Happening σ ω} (hcall : ∀ call, happening ≠ .call call) :
    (c.step signer writer happening).Fed anchor d k := by
  have hcalls : (c.step signer writer happening).calls = c.calls := by
    cases happening with
    | call call => exact absurd rfl (hcall call)
    | stop =>
      rw [step]
      split <;> rfl
    | _ => rfl
  exact ⟨h.advances, hcalls.trans h.calls⟩

end Fed

/-- The rounds that were fed are in the blocks, one block after the other; and a block closed at the end of the first
of its rounds at which the rule held. -/
structure Divided (session : List (Happening σ ω) → Course σ ω) (hs : List (Happening σ ω)) (rule : BoundaryRule)
    (first perRound k : Nat) : Prop where
  covered : (session hs).made.closed.flatMap ClosedBlock.rounds ++
    ((session hs).open?.map PendingBlock.rounds).getD [] = List.range' first k
  nonempty : ∀ block ∈ (session hs).made.closed, block.firstRound.toNat ≤ block.lastRound.toNat
  closed : ∀ i block, (session hs).made.closed[i]? = some block → Settled session hs rule perRound i block
  opened : ∀ block, (session hs).open? = some block → ∀ round ∈ block.rounds,
    ∃ held, Ends session hs rule perRound (session hs).made.closed.length block.firstRound.toNat round false held

section

variable {signer : Signer σ} {writer : Writer ω} {config : StreamConfig} {start : InitialState}
  {ledger : Option StreamInfo} {σ₀ : σ} {ω₀ : ω} {hs : List (Happening σ ω)} {k : Nat}
  {anchor : Option BlockHash} {d : RoundSource} {c : Course σ ω}

/-- Rounds that were fed make the calls of a session come in their turn. -/
theorem Fed.smooth (h : c.Fed anchor d k) : c.Smooth d.nextRound.toNat d.itemsPerRound ∧
    (Tally.zero.addAll c.layout.asked).started = k ∧ (Tally.zero.addAll c.layout.asked).ended = k := by
  have hasked : c.layout.asked = anchor.toList.map IntakeCall.initLastHash ++ d.drives k := by
    simp [layout, h.calls, Function.comp_def]
  have hfirst : Paced d.nextRound.toNat d.itemsPerRound .zero (anchor.toList.map IntakeCall.initLastHash) ∧
      Tally.zero.addAll (anchor.toList.map IntakeCall.initLastHash) = .zero := by
    cases anchor <;> exact ⟨by simp [Paced, Tally.Allows], rfl⟩
  have hround : d.nextRound.toNat = d.nextRound.toNat + Tally.zero.started := rfl
  obtain ⟨hpaced, hstarted, hended⟩ := RoundSource.paced_drives h.advances hround rfl (Nat.zero_mul _).symm
  rw [hasked, Tally.addAll_append, hfirst.2]
  refine ⟨⟨fun entry hentry => ?_, ?_⟩, hstarted.trans (Nat.zero_add k), hended.trans (Nat.zero_add k)⟩
  · rw [h.calls, List.mem_map] at hentry
    obtain ⟨call, -, rfl⟩ := hentry
    rfl
  · rw [hasked, Tally.paced_append_iff, hfirst.2]
    exact ⟨hfirst.1, hpaced⟩

/-- **The rounds that were fed are divided into blocks.** -/
theorem Fed.divided (h : (ofSession signer writer config .configured start ledger σ₀ ω₀ hs).Fed anchor d k) :
    Divided (ofSession signer writer config .configured start ledger σ₀ ω₀) hs config.boundary
      d.nextRound.toNat d.itemsPerRound k := by
  obtain ⟨hsmooth, hstarted, hended⟩ := h.smooth
  obtain ⟨⟨hfills, htiled, hnonempty⟩, hclosed, hopened⟩ := hsmooth.decided
  rw [hstarted] at htiled
  refine ⟨htiled, hnonempty, hclosed, fun block hblock round hround => ?_⟩
  have hlast := (hfills block hblock).last
  obtain ⟨hbegun, hbefore⟩ := List.mem_range'_1.mp hround
  rw [hstarted] at hlast
  exact hopened block hblock round hbegun (by rw [hended]; omega)

end

section

variable {session : List (Happening σ ω) → Course σ ω} {hs : List (Happening σ ω)} {first perRound k : Nat}

/-- Under a rule of `n` rounds every closed block has `n` rounds in its place, and the open block fewer. -/
theorem Divided.rounds {n : UInt64} (h : Divided session hs (.rounds n) first perRound k) (hpos : n.toNat ≠ 0) :
    (session hs).made.closed.length = k / n.toNat ∧
      ∀ i block, (session hs).made.closed[i]? = some block →
        block.firstRound.toNat = first + i * n.toNat ∧ block.lastRound.toNat + 1 = first + (i + 1) * n.toNat ∧
          block.items.length = 1 + n.toNat * perRound + 2 := by
  have hsettled : ∀ (i : Nat) (block : ClosedBlock), (session hs).made.closed[i]? = some block →
      block.lastRound.toNat + 1 = block.firstRound.toNat + n.toNat ∧
        block.items.length = 1 + n.toNat * perRound + 2 :=
    fun i block hblock => (h.closed i block hblock).rounds_eq hpos (h.nonempty block (List.mem_of_getElem? hblock))
  have huniform : ∀ piece ∈ (session hs).made.closed.map ClosedBlock.rounds, piece.length = n.toNat := by
    intro piece hpiece
    obtain ⟨block, hblock, rfl⟩ := List.mem_map.mp hpiece
    obtain ⟨i, hi⟩ := List.getElem?_of_mem hblock
    have hlast := (hsettled i block hi).1
    rw [ClosedBlock.rounds, List.length_range']
    omega
  have hrest : (((session hs).open?.map PendingBlock.rounds).getD []).length < n.toNat := by
    cases hopen : (session hs).open? with
    | none => exact Nat.pos_of_ne_zero hpos
    | some block =>
      rw [Option.map_some, Option.getD_some, PendingBlock.rounds, List.length_range']
      by_contra hmany
      -- the rule did not hold at the end of the last of these rounds
      obtain ⟨held, hends⟩ := h.opened block hopen block.lastRound.toNat (List.mem_range'_1.mpr (by omega))
      have hnot : held.roundCount < n.toNat := by simpa using hends.closes_rounds
      have hcount := hends.count
      omega
  have hcovered := h.covered
  rw [List.flatMap_def] at hcovered
  obtain ⟨hlength, hplaces⟩ := range_pieces hcovered huniform
  rw [List.length_map] at hlength
  refine ⟨?_, fun i block hblock => ?_⟩
  · rw [← hlength, Nat.mul_comm, Nat.mul_add_div (Nat.pos_of_ne_zero hpos), Nat.div_eq_of_lt hrest, Nat.add_zero]
  · obtain ⟨hlast, hitems⟩ := hsettled i block hblock
    have hplace := hplaces i block.rounds (by rw [List.getElem?_map, hblock, Option.map_some])
    have hbegun : block.firstRound.toNat = first + i * n.toNat := by
      rcases (List.range'_inj.mp hplace).2 with hzero | hsame
      · omega
      · exact hsame
    exact ⟨hbegun, by rw [hlast, hbegun, Nat.succ_mul, Nat.add_assoc], hitems⟩

end

/-- **Rounds are partitioned by the boundary policy.** A source feeds `k` rounds to a stream with settings that are
not refused, and nothing fails. The stream accounts for the blocks that it closed. The blocks, one after the other,
have the rounds that were fed, and each closed at the end of the first of its rounds at which the rule held. Under a
rule of `n` rounds, one block closes for every `n` rounds, as the stream has counted, and its place says which; under
a rule of `m` items, a closed block has these, and it had fewer at the end of each round before its last. -/
theorem rounds_partitioned (signer : Signer σ) (writer : Writer ω) (config : StreamConfig) (start : InitialState)
    (ledger : Option StreamInfo) (σ₀ : σ) (ω₀ : ω) (hs : List (Happening σ ω)) (anchor : Option BlockHash)
    (d : RoundSource) (k : Nat) (hvalid : config.validate = .ok ())
    (hfed : (ofSession signer writer config .configured start ledger σ₀ ω₀ hs).Fed anchor d k) :
    let session := ofSession signer writer config .configured start ledger σ₀ ω₀
    let closed := (session hs).made.closed
    let first := d.nextRound.toNat
    let perRound := 1 + d.config.eventsPerRound.toNat * (1 + 2 * d.config.transactionsPerEvent.toNat)
    (session hs).Accounts config ledger ∧
      Divided session hs config.boundary first perRound k ∧
      (∀ n, config.boundary = .rounds n →
        closed.length = k / n.toNat ∧ (session hs).stream.metrics.closed.toNat = k / n.toNat ∧
          ∀ i block, closed[i]? = some block →
            block.firstRound.toNat = first + i * n.toNat ∧ block.lastRound.toNat + 1 = first + (i + 1) * n.toNat ∧
              block.items.length = 1 + n.toNat * perRound + 2) ∧
      ∀ m, config.boundary = .items m →
        ∀ i block, closed[i]? = some block →
          m + 2 ≤ block.items.length ∧
            ∀ round, block.firstRound.toNat ≤ round → round < block.lastRound.toNat →
              ∃ held, RoundEnd session hs round held i i ∧ held.items.length < m := by
  intro session closed first perRound
  have haccounts : (session hs).Accounts config ledger := accounts_ofSession hfed.smooth.1.withinLimits
  have hdivided : Divided session hs config.boundary first perRound k := hfed.divided
  refine ⟨haccounts, hdivided, fun n hrule => ?_, fun m hrule i block hblock => ?_⟩
  · rw [hrule] at hdivided
    obtain ⟨hlength, hplaces⟩ := hdivided.rounds (config.rounds_ne_zero hvalid hrule)
    exact ⟨hlength, haccounts.counted.trans hlength, hplaces⟩
  · have hsettled := hdivided.closed i block hblock
    rw [hrule] at hsettled
    obtain ⟨held, hends, hitems⟩ := hsettled.last
    have hholds : m ≤ held.items.length := by simpa using hends.closes_items
    refine ⟨by omega, fun round hbegun hbefore => ?_⟩
    obtain ⟨before, hearlier⟩ := hsettled.earlier round hbegun hbefore
    exact ⟨before, hearlier.ended, by simpa using hearlier.closes_items⟩

/-- Rounds of one event each. -/
def plainSource : RoundSource := .new { eventsPerRound := 1, transactionsPerEvent := 0 } 1 ⟨⟨0⟩, 0⟩

/-- Sessions that close blocks of two rounds, with blocks in memory. -/
def pairSession : List (Happening SchemeSigner MemoryStore) → Course SchemeSigner MemoryStore :=
  ofSession SchemeSigner.signer MemoryStore.writer { boundary := .rounds 2 } .configured
    ⟨0, Promise.resolved .zero⟩ none SchemeSigner.trivial MemoryStore.new

/-- A new chain and three rounds, with the work on the block of the first two before the third. -/
def threeRounds : List (Happening SchemeSigner MemoryStore) :=
  (.initLastHash .zero :: plainSource.drives 2).map .call ++
    [.work .takeUp, .work (.sign 0), .work .consider, .work .write] ++
      (plainSource.moved 2).roundCalls.map .call

set_option maxRecDepth 10000 in
theorem rounds_partitioned_three :
    StreamConfig.validate { boundary := .rounds 2 } = .ok () ∧
      (pairSession threeRounds).Fed (some .zero) plainSource 3 ∧
      Divided pairSession threeRounds (.rounds 2) 1 2 3 ∧ (pairSession threeRounds).made.closed.length = 1 ∧
      (pairSession threeRounds).stream.metrics.closed.toNat = 1 ∧
      (pairSession threeRounds).Accounts { boundary := .rounds 2 } none ∧
      (deliveries (pairSession threeRounds).store.2).length = 1 := by
  have hvalid : StreamConfig.validate { boundary := .rounds 2 } = .ok () := rfl
  have hfed : (pairSession threeRounds).Fed (some .zero) plainSource 3 :=
    ⟨⟨by decide, by decide, by decide, trivial⟩, by decide +kernel⟩
  obtain ⟨haccounts, hdivided, hrounds, -⟩ := rounds_partitioned SchemeSigner.signer MemoryStore.writer
    { boundary := .rounds 2 } ⟨0, Promise.resolved .zero⟩ none SchemeSigner.trivial MemoryStore.new threeRounds
    (some .zero) plainSource 3 hvalid hfed
  obtain ⟨hlength, hcounted, -⟩ := hrounds 2 rfl
  exact ⟨hvalid, hfed, hdivided, hlength, hcounted, haccounts, by decide +kernel⟩

end Course

end RoundChain
