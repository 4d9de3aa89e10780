import RoundChain.Proofs.Layouts
import RoundChain.Proofs.Positions

/-!
# How rounds end

A session of which every call succeeds moves through layouts, and a step leaves the layout or is a call that makes it
grow, `Course.layout_step`. The end of a round is where the rule is asked; `Course.Ends` says what block it was asked
about and what became of it. For rounds that come in their turn, every step decides what the rule says of the rounds
that it ends (`Course.Decided.step`): so a closed block has at each of its rounds the verdict that it should have.
-/

namespace RoundChain

variable {σ ω : Type}

open Tally (Paced)

namespace Course

variable {signer : Signer σ} {writer : Writer ω} {config : StreamConfig} {start : InitialState}
  {ledger : Option StreamInfo} {c d : Course σ ω} {first perRound : Nat}

/-! ### Layouts of a session -/

/-- What a session has made of its rounds. -/
def layout (c : Course σ ω) : Layout := ⟨c.open?, c.made.closed, c.calls.map (·.1)⟩

/-- The block that was open when intake ended is kept then, and only then. -/
structure Kept (c : Course σ ω) : Prop where
  going : c.stopped = false → c.left = none
  stopped : c.stopped = true → c.stream.pending = none

theorem Kept.open?_eq (h : c.Kept) (hgoing : c.stopped = false) : c.open? = c.stream.pending := by
  rw [open?, h.going hgoing]
  cases c.stream.pending <;> rfl

theorem Kept.moves (h : c.Kept) (hd : c.Moves d) : d.Kept := by
  cases hd with
  | stays => exact h
  | takes hgoing _ => exact ⟨h.going, fun hstopped => absurd (hgoing.symm.trans hstopped) Bool.false_ne_true⟩
  | stops _ =>
    have hpending : c.stream.stopIntake.core.pending = none := by rw [StreamState.core_stopIntake]
    exact ⟨fun hgoing => (by cases hgoing), fun _ => hpending⟩
  | @aside stream _ _ hintake =>
    have hpending : stream.pending = c.stream.pending := congrArg (·.pending) hintake
    exact ⟨h.going, fun hstopped => hpending.trans (h.stopped hstopped)⟩

theorem kept_ofSession {policy : BoundaryPolicy} {σ₀ : σ} {ω₀ : ω} {hs : List (Happening σ ω)}
    (hlimits : (ofSession signer writer config policy start ledger σ₀ ω₀ hs).WithinLimits) :
    (ofSession signer writer config policy start ledger σ₀ ω₀ hs).Kept :=
  run_induction signer writer (P := Kept) (fun d happening hd hl => hd.moves (d.moves_step happening hl))
    ⟨fun _ => rfl, fun hstopped => (by cases hstopped)⟩ hlimits

/-- What happens aside from calls leaves the layout. -/
theorem layout_of_intake_eq {stream : StreamState} {signer' : σ × SignLog} {store : ω × WriteLog}
    (hintake : stream.intake = c.stream.intake) :
    layout { c with stream, signer := signer', store } = c.layout := by
  have hpending : stream.pending = c.stream.pending := congrArg (·.pending) hintake
  simp only [layout, open?, hpending]

/-- **A step leaves the layout of a session, or is a call that makes it grow.** -/
theorem layout_step (hkept : c.Kept) (hregular : c.Regular config .configured ledger) (happening : Happening σ ω)
    (hok : ∀ entry ∈ (c.step signer writer happening).calls, entry.2 = .ok ()) :
    (c.step signer writer happening).layout = c.layout ∨
      ∃ call, happening = .call call ∧ c.stopped = false ∧
        (c.step signer writer happening).layout.asked = c.layout.asked ++ [call] ∧
        Layout.Grows config.boundary c.layout (c.step signer writer happening).layout := by
  cases happening with
  | call call =>
    have hlimits : (c.step signer writer (.call call)).WithinLimits :=
      fun entry hentry => by rw [hok entry hentry]; rfl
    rcases c.call_cases call hlimits with hstays | ⟨hgoing, ht, hstep⟩
    · exact .inl (congrArg layout hstays)
    refine .inr ⟨call, rfl, hgoing, ?_, ?_⟩
    · simp [hstep, layout]
    · have hanswer : (c.stream.take call).1 = .ok () := by
        rw [hstep] at hok
        exact hok _ (List.mem_append_right _ List.mem_cons_self)
      have hgrows := ht.grows hanswer hregular.rule c.made.closed (c.calls.map (·.1))
      have hafter : (c.step signer writer (.call call)).open? = (c.stream.take call).2.pending := by
        simp only [hstep, open?, hkept.going hgoing]
        cases (c.stream.take call).2.pending <;> rfl
      rw [layout, layout, hafter, hkept.open?_eq hgoing, hstep]
      have hpending : (c.stream.take call).2.core.pending = (c.stream.take call).2.pending := rfl
      rw [hregular.settings, hpending] at hgrows
      simpa [Made.add] using hgrows
  | stop =>
    left
    rw [step]
    split
    · rfl
    · rename_i hnot
      have hgoing := (Bool.not_eq_true _).mp hnot
      have hpending : c.stream.stopIntake.core.pending = none := by rw [StreamState.core_stopIntake]
      have hstops : c.stream.stopIntake.pending = none := hpending
      simp only [layout, open?, hstops, hkept.going hgoing]
      cases c.stream.pending <;> rfl
  | supply hash => exact .inl (layout_of_intake_eq (StreamState.intake_of_core_eq (c.stream.core_supplyInitial hash)))
  | abandon => exact .inl (layout_of_intake_eq (StreamState.intake_of_core_eq c.stream.core_abandonInitial))
  | work duty => exact .inl (layout_of_intake_eq (c.stream.intake_perform _ _ _ _ duty))
  | resume => exact .inl (layout_of_intake_eq rfl)
  | signer state => exact .inl rfl
  | store state => exact .inl rfl

/-- A session whose calls have all succeeded and came in their turn. -/
structure Smooth (first perRound : Nat) (c : Course σ ω) : Prop where
  answered : ∀ entry ∈ c.calls, entry.2 = .ok ()
  paced : Paced first perRound .zero c.layout.asked

theorem Smooth.withinLimits (h : c.Smooth first perRound) : c.WithinLimits :=
  fun entry hentry => by rw [h.answered entry hentry]; rfl

theorem Smooth.of_step {happening : Happening σ ω} (h : (c.step signer writer happening).Smooth first perRound) :
    c.Smooth first perRound := by
  obtain ⟨rest, hrest⟩ : c.calls <+: (c.step signer writer happening).calls := c.calls_step happening
  have hasked : (c.step signer writer happening).layout.asked = c.layout.asked ++ rest.map (·.1) := by
    simp [layout, ← hrest]
  refine ⟨fun entry hentry => h.answered entry (hrest ▸ List.mem_append_left _ hentry), ?_⟩
  exact (Tally.paced_append_iff.mp (hasked ▸ h.paced)).1

/-! ### How rounds end -/

/-- The round `round` ended with `block` open: `i` blocks had closed before, and `j` had after. -/
def RoundEnd (session : List (Happening σ ω) → Course σ ω) (hs : List (Happening σ ω)) (round : Nat)
    (block : PendingBlock) (i j : Nat) : Prop :=
  ∃ earlier number later, hs = earlier ++ .call (.endRound number) :: later ∧ number.toNat = round ∧
    (session earlier).stopped = false ∧ (session earlier).stream.pending = some block ∧
    (session earlier).made.closed.length = i ∧
    (session (earlier ++ [.call (.endRound number)])).made.closed.length = j

/-- How a round of the block after `i` others ended: the block began with the round `first`, held all items of its
rounds so far, and closed if that was the rule's verdict. -/
structure Ends (session : List (Happening σ ω) → Course σ ω) (hs : List (Happening σ ω)) (rule : BoundaryRule)
    (perRound i first round : Nat) (verdict : Bool) (block : PendingBlock) : Prop where
  ended : RoundEnd session hs round block i (if verdict then i + 1 else i)
  verdict : rule.closes block = verdict
  firstRound : block.firstRound.toNat = first
  count : first + block.roundCount = round + 1
  items : block.items.length = 1 + block.roundCount * perRound

/-- The rule let a closed block go on at the end of each of its rounds but the last, and closed it there. -/
structure Settled (session : List (Happening σ ω) → Course σ ω) (hs : List (Happening σ ω)) (rule : BoundaryRule)
    (perRound i : Nat) (block : ClosedBlock) : Prop where
  earlier : ∀ round, block.firstRound.toNat ≤ round → round < block.lastRound.toNat →
    ∃ held, Ends session hs rule perRound i block.firstRound.toNat round false held
  last : ∃ held, Ends session hs rule perRound i block.firstRound.toNat block.lastRound.toNat true held ∧
    block.items.length = held.items.length + 2

/-- All rounds that have ended, ended as the rule has it. -/
structure Decided (session : List (Happening σ ω) → Course σ ω) (hs : List (Happening σ ω)) (rule : BoundaryRule)
    (first perRound : Nat) : Prop where
  closed : ∀ i block, (session hs).layout.closed[i]? = some block → Settled session hs rule perRound i block
  opened : ∀ block, (session hs).layout.opened = some block → ∀ round, block.firstRound.toNat ≤ round →
    round < first + (Tally.zero.addAll (session hs).layout.asked).ended →
      ∃ held, Ends session hs rule perRound (session hs).layout.closed.length block.firstRound.toNat round false held

section

variable {session : List (Happening σ ω) → Course σ ω} {hs : List (Happening σ ω)} {happening : Happening σ ω}
  {rule : BoundaryRule}

theorem Ends.mono {i begun round : Nat} {verdict : Bool} {block : PendingBlock}
    (h : Ends session hs rule perRound i begun round verdict block) (happening : Happening σ ω) :
    Ends session (hs ++ [happening]) rule perRound i begun round verdict block := by
  obtain ⟨⟨earlier, number, later, rfl, hended⟩, hverdict, hfirst, hcount, hitems⟩ := h
  exact ⟨⟨earlier, number, later ++ [happening], by simp, hended⟩, hverdict, hfirst, hcount, hitems⟩

theorem Settled.mono {i : Nat} {block : ClosedBlock} (h : Settled session hs rule perRound i block)
    (happening : Happening σ ω) : Settled session (hs ++ [happening]) rule perRound i block := by
  refine ⟨fun round hfirst hlast => ?_, ?_⟩
  · obtain ⟨held, hends⟩ := h.earlier round hfirst hlast
    exact ⟨held, hends.mono happening⟩
  · obtain ⟨held, hends, hitems⟩ := h.last
    exact ⟨held, hends.mono happening, hitems⟩

/-- The end of a round that leaves the layout's block open, or closes it. -/
theorem ends_of_call {call : UInt64} {verdict : Bool} {block : PendingBlock}
    (hgoing : (session hs).stopped = false) (hpending : (session hs).stream.pending = some block)
    (hallows : (Tally.zero.addAll (session hs).layout.asked).Allows first perRound (.endRound call))
    (hfills : block.Fills first perRound (Tally.zero.addAll (session hs).layout.asked))
    (hverdict : rule.closes block = verdict)
    (hclosed : (session (hs ++ [.call (.endRound call)])).made.closed.length =
      if verdict then (session hs).made.closed.length + 1 else (session hs).made.closed.length) :
    Ends session (hs ++ [.call (.endRound call)]) rule perRound (session hs).made.closed.length
      block.firstRound.toNat call.toNat verdict block := by
  obtain ⟨hround, -, hwritten⟩ := hallows
  have hcount := hfills.count
  exact ⟨⟨hs, call, [], rfl, rfl, hgoing, hpending, rfl, hclosed⟩, hverdict, rfl, by omega,
    hfills.length_items hwritten⟩

/-- Nothing is decided by what leaves the closed blocks and ends no round. -/
theorem Decided.quiet (h : Decided session hs rule first perRound)
    (hclosed : (session (hs ++ [happening])).layout.closed = (session hs).layout.closed)
    (hended : (Tally.zero.addAll (session (hs ++ [happening])).layout.asked).ended =
      (Tally.zero.addAll (session hs).layout.asked).ended)
    (hopened : ∀ block, (session (hs ++ [happening])).layout.opened = some block →
      first + (Tally.zero.addAll (session hs).layout.asked).ended ≤ block.firstRound.toNat ∨
        ∃ before, (session hs).layout.opened = some before ∧ block.firstRound = before.firstRound) :
    Decided session (hs ++ [happening]) rule first perRound := by
  refine ⟨fun i block hblock => ?_, fun block hblock round hfirst hlast => ?_⟩
  · exact (h.closed i block (hclosed ▸ hblock)).mono happening
  · rw [hended] at hlast
    rcases hopened block hblock with hnew | ⟨before, hbefore, hsame⟩
    · omega
    · rw [hsame] at hfirst ⊢
      obtain ⟨held, hends⟩ := h.opened before hbefore round hfirst hlast
      exact ⟨held, hclosed ▸ hends.mono happening⟩

/-- The rounds of a closed block before its last ended when it was open. -/
theorem Decided.settled (h : Decided session hs rule first perRound) {round : UInt64} {block : PendingBlock}
    {closed : ClosedBlock} (hopened : (session hs).layout.opened = some block)
    (hallows : (Tally.zero.addAll (session hs).layout.asked).Allows first perRound (.endRound round))
    (hfirst : closed.firstRound = block.firstRound) (hlast : closed.lastRound = round)
    (hitems : closed.items.length = block.items.length + 2)
    (hends : Ends session (hs ++ [.call (.endRound round)]) rule perRound (session hs).layout.closed.length
      block.firstRound.toNat round.toNat true block) :
    Settled session (hs ++ [.call (.endRound round)]) rule perRound (session hs).layout.closed.length closed := by
  obtain ⟨hround, hended, -⟩ := hallows
  subst hlast
  rw [← hfirst] at hends
  refine ⟨fun earlier hbegun hbefore => ?_, block, hends, hitems⟩
  rw [hfirst] at hbegun ⊢
  obtain ⟨held, hheld⟩ := h.opened block hopened earlier hbegun (by omega)
  exact ⟨held, hheld.mono _⟩

/-- **Every step decides what the rule says of the rounds that it ends.** -/
theorem Decided.step (h : Decided session hs rule first perRound)
    (hpartitioned : (session hs).layout.Partitioned first perRound) (hkept : (session hs).Kept)
    (hpaced : Paced first perRound .zero (session (hs ++ [happening])).layout.asked)
    (hstep : (session (hs ++ [happening])).layout = (session hs).layout ∨
      ∃ call, happening = .call call ∧ (session hs).stopped = false ∧
        (session (hs ++ [happening])).layout.asked = (session hs).layout.asked ++ [call] ∧
        Layout.Grows rule (session hs).layout (session (hs ++ [happening])).layout) :
    Decided session (hs ++ [happening]) rule first perRound := by
  rcases hstep with hsame | ⟨call, rfl, hgoing, hasked, hgrows⟩
  · exact h.quiet (by rw [hsame]) (by rw [hsame]) fun block hblock => .inr ⟨block, hsame ▸ hblock, rfl⟩
  have hopen := hkept.open?_eq hgoing
  generalize hl : (session hs).layout = l at hpartitioned hasked hgrows
  generalize hl' : (session (hs ++ [.call call])).layout = l' at hpaced hasked hgrows
  cases hgrows with
  | aside haside =>
    refine h.quiet (by rw [hl, hl']) (by simp [hl, hl', Tally.add_of_isAside haside]) fun block hblock => ?_
    rw [hl'] at hblock
    exact .inr ⟨block, by rw [hl]; exact hblock, rfl⟩
  | @opens closed asked number round previous time version startState block hstart =>
    obtain ⟨hround, hended, -⟩ := hpaced.allows
    obtain ⟨hfirst, -⟩ := PendingBlock.start_eq_ok_rounds hstart
    refine h.quiet (by rw [hl, hl']) (by simp [hl, hl', Tally.add]) fun other hother => .inl ?_
    rw [hl'] at hother
    obtain rfl := Option.some.inj hother
    rw [hl, hfirst, hround]
    exact Nat.add_le_add_left (Nat.le_of_eq hended) first
  | @joins closed asked round time block =>
    refine h.quiet (by rw [hl, hl']) (by simp [hl, hl', Tally.add]) fun other hother => .inr ⟨block, by rw [hl], ?_⟩
    rw [hl'] at hother
    obtain rfl := Option.some.inj hother
    rfl
  | @appends closed asked item block extended happend =>
    obtain ⟨hfirst, -⟩ := PendingBlock.append_eq_ok_rounds happend
    refine h.quiet (by rw [hl, hl']) (by simp [hl, hl', Tally.add]) fun other hother => .inr ⟨block, by rw [hl], ?_⟩
    rw [hl'] at hother
    obtain rfl := Option.some.inj hother
    exact hfirst
  | @keeps closed asked round block hstays =>
    obtain rfl : call = .endRound round := by simpa using hasked.symm
    have hallows := hpaced.allows
    have hopened : (session hs).layout.opened = some block := by rw [hl]
    have hsame : (session (hs ++ [.call (.endRound round)])).layout.closed = (session hs).layout.closed := by
      rw [hl, hl']
    have hends := ends_of_call hgoing (hopen.symm.trans hopened) (by rw [hl]; exact hallows)
      (by rw [hl]; exact hpartitioned.fills block rfl) hstays (congrArg List.length hsame)
    refine ⟨fun i other hother => ?_, fun other hother earlier hbegun hbefore => ?_⟩
    · exact (h.closed i other (hsame ▸ hother)).mono _
    · rw [hl'] at hother
      obtain rfl := Option.some.inj hother
      obtain ⟨hround, hended, -⟩ := hallows
      rw [hsame]
      rcases Nat.lt_or_ge earlier round.toNat with hlt | hge
      · obtain ⟨held, hheld⟩ := h.opened block hopened earlier hbegun (by rw [hl]; simp only; omega)
        exact ⟨held, hheld.mono _⟩
      · simp only [hl', Tally.addAll_append, Tally.addAll_cons, Tally.addAll_nil, Tally.add] at hbefore
        obtain rfl : earlier = round.toNat := by omega
        exact ⟨block, hends⟩
  | @closes closed asked round time captured position block ended hholds hsealed =>
    obtain rfl : call = .endRound round := by simpa using hasked.symm
    have hallows := hpaced.allows
    obtain ⟨hfirst, hlast, hitems⟩ := PendingBlock.sealed_eq_ok_rounds hsealed
    have hfills := hpartitioned.fills block rfl
    have hopened : (session hs).layout.opened = some block := by rw [hl]
    have hmore : (session (hs ++ [.call (.endRound round)])).layout.closed =
        (session hs).layout.closed ++ [ended] := by
      rw [hl, hl']
    have hends := ends_of_call hgoing (hopen.symm.trans hopened) (by rw [hl]; exact hallows)
      (by rw [hl]; exact hfills) hholds ((congrArg List.length hmore).trans List.length_append)
    have hround : ended.lastRound = round := by
      obtain ⟨hround, -⟩ := hallows
      have hlastRound : block.lastRound.toNat + 1 = first + (Tally.zero.addAll asked).started := hfills.last
      rw [hlast, ← UInt64.toNat_inj]
      omega
    refine ⟨fun i other hother => ?_, fun other hother => ?_⟩
    · rw [hmore] at hother
      rcases Nat.lt_or_ge i (session hs).layout.closed.length with hlt | hge
      · exact (h.closed i other ((List.getElem?_append_left hlt).symm.trans hother)).mono _
      · obtain ⟨hi, hother⟩ := List.getElem?_eq_some_iff.mp hother
        obtain rfl : i = (session hs).layout.closed.length := by
          rw [List.length_append, List.length_singleton] at hi
          omega
        obtain rfl : ended = other := by simpa using hother
        exact h.settled hopened (by rw [hl]; exact hallows) hfirst hround hitems hends
    · rw [hl'] at hother
      cases hother

end

/-! ### Sessions -/

/-- **A session whose calls succeed and come in their turn** has all rounds so far in its blocks, and each round that
ended did so as the rule has it. -/
theorem Smooth.decided {σ₀ : σ} {ω₀ : ω} {hs : List (Happening σ ω)}
    (h : (ofSession signer writer config .configured start ledger σ₀ ω₀ hs).Smooth first perRound) :
    (ofSession signer writer config .configured start ledger σ₀ ω₀ hs).layout.Partitioned first perRound ∧
      Decided (ofSession signer writer config .configured start ledger σ₀ ω₀) hs config.boundary first perRound := by
  induction hs using List.reverseRecOn with
  | nil => exact ⟨Layout.partitioned_start first perRound, nofun, nofun⟩
  | append_singleton hs happening ih =>
    have hsmooth := h
    rw [ofSession_concat] at hsmooth
    have hbefore := hsmooth.of_step
    obtain ⟨hpartitioned, hdecided⟩ := ih hbefore
    have hkept := kept_ofSession hbefore.withinLimits
    have hstep := layout_step hkept (regular_ofSession hbefore.withinLimits) happening hsmooth.answered
    rw [← ofSession_concat] at hstep
    refine ⟨?_, hdecided.step hpartitioned hkept h.paced hstep⟩
    rcases hstep with hsame | ⟨call, -, -, -, hgrows⟩
    · rw [hsame]
      exact hpartitioned
    · exact hpartitioned.grows hgrows h.paced

end Course

end RoundChain
