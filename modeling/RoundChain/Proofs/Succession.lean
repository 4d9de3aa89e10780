import RoundChain.Proofs.Conservation
import RoundChain.Signing.Rehearsal

/-!
# Sessions in succession

Ledger state follows the blocks that close, and a session goes on where ledger state says. So
the blocks that sessions close are one chain over all restarts, whatever happened to their
signing and writing, and the store gets the first of each session's blocks:
`Course.succession_linked`. A session that ends well leaves no closed block out. One that halts
may, and the next session does not go back for it: `Course.succession_with_gap`.

## The model

A `Plan` is what a session is given besides ledger state and the store. These two each session
finds as the one before has left them; the signer may be another one every time.
-/

namespace RoundChain

variable {σ ω : Type}

/-- What a session is given, and what happens in it. -/
structure Plan (σ ω : Type) where
  config : StreamConfig
  policy : BoundaryPolicy
  start : InitialState
  signer : σ
  happenings : List (Happening σ ω)

/-- What the store took is these blocks, each with its items and one proof. -/
def Delivered (taken : List Delivery) (blocks : List ClosedBlock) : Prop :=
  ∃ written : List Written, written.map Written.block = blocks ∧ List.Forall₂ Delivery.Brings taken written

theorem Delivered.append {taken more : List Delivery} {blocks later : List ClosedBlock}
    (h : Delivered taken blocks) (hmore : Delivered more later) : Delivered (taken ++ more) (blocks ++ later) := by
  obtain ⟨written, rfl, htaken⟩ := h
  obtain ⟨next, rfl, hnext⟩ := hmore
  exact ⟨written ++ next, List.map_append, List.rel_append htaken hnext⟩

/-- What the store took has consecutive numbers, from a first one on. -/
def Consecutive (first : Nat) (taken : List Delivery) : Prop :=
  taken.map (fun delivery => delivery.number.map UInt64.toNat) = (List.range' first taken.length).map some

theorem numbers_of_brings {taken : List Delivery} {written : List Written}
    (h : List.Forall₂ Delivery.Brings taken written) :
    taken.map (fun delivery => delivery.number.map UInt64.toNat) =
      (written.map Written.block).map fun block => some block.number.toNat := by
  induction h with
  | nil => rfl
  | cons hbrings _ ih =>
    obtain ⟨batches, rfl, -⟩ := hbrings
    rw [List.map_cons, List.map_cons, List.map_cons, ih]
    rfl

/-- A chain that was stored has consecutive numbers in the store. -/
theorem Delivered.consecutive {taken : List Delivery} {blocks : List ClosedBlock} (h : Delivered taken blocks)
    {number : Nat} {previous : BlockHash} (hlinked : Linked number previous blocks) :
    Consecutive number taken := by
  obtain ⟨written, rfl, htaken⟩ := h
  have hlength : taken.length = (written.map Written.block).length := by
    rw [htaken.length_eq, List.length_map]
  rw [Consecutive, numbers_of_brings htaken, hlength, ← hlinked.numbers_eq]
  exact List.map_map.symm

/-! ### What a session leaves -/

namespace Course

variable {signer : Signer σ} {writer : Writer ω} {config : StreamConfig} {policy : BoundaryPolicy}
  {ledger : Option StreamInfo} {c : Course σ ω}

/-- The position that a session leaves in ledger state is the end of the blocks that it closed. -/
theorem Regular.left_eq (h : c.Regular config policy ledger) {info next : StreamInfo}
    (hinfo : c.Continues ledger config.version info) (hnext : c.stream.ledger = some next) :
    next.height = info.height + c.made.closed.length ∧
      next.lastHash = newestHash info.lastHash c.made.closed := by
  have hunmoved : c.stream.ledger = ledger → next = info := by
    intro hsame
    rcases hinfo with hwarm | ⟨hcold, -⟩
    · exact Option.some.inj (hnext.symm.trans (hsame.trans hwarm))
    · rw [hsame, hcold] at hnext
      cases hnext
  rcases h.progress with ⟨hfresh, hmade, -⟩ | ⟨other, hother, hgrown, -⟩
  · obtain rfl := hunmoved hfresh.ledger
    rw [hmade]
    exact ⟨rfl, rfl⟩
  · obtain rfl := h.continues_unique hinfo hother
    rcases hgrown.positions with hlast | ⟨hnone, hclosed⟩
    · have hchain : next = c.stream.chain := by
        rw [h.position, hlast] at hnext
        exact (Option.some.inj hnext).symm
      rw [hchain, hgrown.chain]
      exact hgrown.linked.recordAll _
    · obtain rfl := hunmoved (by rw [h.position, hnone]; rfl)
      rw [hclosed]
      exact ⟨rfl, rfl⟩

/-- What the store has of a session: the first of the blocks that it closed, and all of them if it ended
well. -/
structure Yields (c : Course σ ω) : Prop where
  first : ∃ blocks, blocks <+: c.made.closed ∧ Delivered (deliveries c.store.2) blocks
  done : ∀ info, c.session.outcome = .done info → Delivered (deliveries c.store.2) c.made.closed

theorem Regular.yields (h : c.Regular config policy ledger) : c.Yields := by
  constructor
  · obtain ⟨base, hflow⟩ := h.flow
    obtain ⟨written, log, more, hstored, hwrites, -, hblocks, htried⟩ := hflow.written
    refine ⟨_, hblocks, written, rfl, ?_⟩
    -- attempts on the next block deliver nothing
    have hquiet : (.closeBlock, .ok ()) ∉ more := by
      rcases htried with rfl | ⟨next, -, htrying⟩
      · exact List.not_mem_nil
      · exact htrying.concerns.2
    rw [hwrites, deliveries_append_of_quiet hquiet]
    exact hstored.brings
  · intro info hdone
    obtain ⟨hlive, hidle, -⟩ := Session.outcome_eq_done hdone
    exact (h.of_idle hlive hidle).1

/-! ### One session after the other -/

/-- The session with a plan, over a ledger state and a store. -/
def ofPlan (signer : Signer σ) (writer : Writer ω) (ledger : Option StreamInfo) (store : ω) (plan : Plan σ ω) :
    Course σ ω :=
  ofSession signer writer plan.config plan.policy plan.start ledger plan.signer store plan.happenings

/-- Sessions one after the other: each finds the ledger state and the store that the one before has left. -/
def succession (signer : Signer σ) (writer : Writer ω) :
    Option StreamInfo → ω → List (Plan σ ω) → List (Course σ ω)
  | _, _, [] => []
  | ledger, store, plan :: rest =>
    let c := ofPlan signer writer ledger store plan
    c :: succession signer writer c.stream.ledger c.store.1 rest

/-- What the store took in all sessions. -/
def deliveriesOf (courses : List (Course σ ω)) : List Delivery := courses.flatMap fun c => deliveries c.store.2

theorem regular_ofPlan {store : ω} {plan : Plan σ ω} (hlimits : (ofPlan signer writer ledger store plan).WithinLimits) :
    (ofPlan signer writer ledger store plan).Regular plan.config plan.policy ledger :=
  regular_ofSession hlimits

/-- Every session of a succession is that of one of the plans, over some ledger state and store. -/
theorem exists_plan {store : ω} {plans : List (Plan σ ω)} (hc : c ∈ succession signer writer ledger store plans) :
    ∃ before found plan, c = ofPlan signer writer before found plan := by
  induction plans generalizing ledger store with
  | nil => cases hc
  | cons plan rest ih =>
    rcases List.mem_cons.mp hc with rfl | hc
    · exact ⟨ledger, store, plan, rfl⟩
    · exact ih hc

/-- The blocks that sessions close are one chain: each session goes on where the one before has left ledger
state. -/
theorem linked_succession {first : Plan σ ω} {later : List (Plan σ ω)} {store : ω} {info : StreamInfo}
    (hlimits : ∀ c ∈ succession signer writer ledger store (first :: later), c.WithinLimits)
    (hwarm : ∀ c ∈ (succession signer writer ledger store (first :: later)).dropLast, c.stream.ledger ≠ none)
    (hinfo : (ofPlan signer writer ledger store first).Continues ledger first.config.version info) :
    Linked info.height info.lastHash
      ((succession signer writer ledger store (first :: later)).flatMap fun c => c.made.closed) := by
  induction later generalizing first ledger store info with
  | nil =>
    have hregular := regular_ofPlan (hlimits _ List.mem_cons_self)
    simpa [succession] using (hregular.chain hinfo).1
  | cons second rest ih =>
    have hregular := regular_ofPlan (hlimits _ List.mem_cons_self)
    obtain ⟨next, hnext⟩ := Option.ne_none_iff_exists'.mp (hwarm _ List.mem_cons_self)
    obtain ⟨hheight, hlast⟩ := hregular.left_eq hinfo hnext
    have hrest := ih (fun c hc => hlimits c (List.mem_cons_of_mem _ hc))
      (fun c hc => hwarm c (List.mem_cons_of_mem _ hc)) (.inl hnext)
    rw [hheight, hlast] at hrest
    rw [succession, List.flatMap_cons]
    exact linked_append_iff.mpr ⟨(hregular.chain hinfo).1, hrest⟩

/-- What was stored over all sessions is, in order, some of the blocks that they closed. -/
theorem delivered_sublist {courses : List (Course σ ω)}
    (hyields : ∀ c ∈ courses, c.Yields) :
    ∃ blocks, List.Sublist blocks (courses.flatMap fun c => c.made.closed) ∧
      Delivered (deliveriesOf courses) blocks := by
  induction courses with
  | nil => exact ⟨[], .slnil, [], rfl, .nil⟩
  | cons c rest ih =>
    obtain ⟨front, hfront, htaken⟩ := (hyields c List.mem_cons_self).first
    obtain ⟨blocks, hblocks, hmore⟩ := ih fun d hd => hyields d (List.mem_cons_of_mem _ hd)
    exact ⟨front ++ blocks, hfront.sublist.append hblocks, htaken.append hmore⟩

/-- If no session but the last leaves a closed block out, what was stored is the first of all closed blocks. -/
theorem delivered_of_dropLast {courses : List (Course σ ω)}
    (hyields : ∀ c ∈ courses, c.Yields)
    (hall : ∀ c ∈ courses.dropLast, Delivered (deliveries c.store.2) c.made.closed) :
    ∃ blocks, blocks <+: courses.flatMap (fun c => c.made.closed) ∧ Delivered (deliveriesOf courses) blocks := by
  induction courses with
  | nil => exact ⟨[], List.prefix_rfl, [], rfl, .nil⟩
  | cons c rest ih =>
    cases rest with
    | nil => simpa [deliveriesOf] using (hyields c List.mem_cons_self).first
    | cons d rest =>
      obtain ⟨blocks, hblocks, hdelivered⟩ := ih (fun e he => hyields e (List.mem_cons_of_mem _ he))
        fun e he => hall e (List.mem_cons_of_mem _ he)
      rw [List.flatMap_cons]
      exact ⟨_, (List.prefix_append_right_inj _).mpr hblocks, (hall c List.mem_cons_self).append hdelivered⟩

/-- **The blocks that sessions close are one chain across all restarts**, whatever becomes of them. Let sessions
follow one another over one store and one ledger state, each going on where ledger state says, and let them end
as they may. Their closed blocks have consecutive numbers and each names the hash of the one before. The store
takes the first of each session's closed blocks, and all of them if the session ends well; over all sessions it
takes some of the chain, in its order. If every session but the last has its closed blocks stored, what the
store took in all sessions is one chain without a gap. -/
theorem succession_linked (signer : Signer σ) (writer : Writer ω) (ledger : Option StreamInfo) (store : ω)
    (first : Plan σ ω) (later : List (Plan σ ω)) (info : StreamInfo) :
    let courses := succession signer writer ledger store (first :: later)
    (∀ c ∈ courses, c.WithinLimits) → (∀ c ∈ courses.dropLast, c.stream.ledger ≠ none) →
      (ofPlan signer writer ledger store first).Continues ledger first.config.version info →
      Linked info.height info.lastHash (courses.flatMap fun c => c.made.closed) ∧
      (∀ c ∈ courses, c.Yields) ∧
      (∃ blocks, List.Sublist blocks (courses.flatMap fun c => c.made.closed) ∧
        Delivered (deliveriesOf courses) blocks) ∧
      ((∀ c ∈ courses.dropLast, Delivered (deliveries c.store.2) c.made.closed) →
        Consecutive info.height (deliveriesOf courses) ∧
        ∃ blocks, Delivered (deliveriesOf courses) blocks ∧ Linked info.height info.lastHash blocks) := by
  intro courses hlimits hwarm hinfo
  have hlinked := linked_succession hlimits hwarm hinfo
  have hyields : ∀ c ∈ courses, c.Yields := by
    intro c hc
    have hwithin := hlimits c hc
    obtain ⟨before, found, plan, rfl⟩ := exists_plan hc
    exact (regular_ofPlan hwithin).yields
  refine ⟨hlinked, hyields, delivered_sublist hyields, fun hall => ?_⟩
  obtain ⟨blocks, hblocks, hdelivered⟩ := delivered_of_dropLast hyields hall
  have hchain := hlinked.of_prefix hblocks
  exact ⟨hdelivered.consecutive hchain, blocks, hdelivered, hchain⟩

/-- A session of one round, which brings the block with a number, and of the work on that block. -/
def roundPlan (round number : UInt64) (signer : ScriptedSigner) : Plan ScriptedSigner MemoryStore where
  config := {}
  policy := .configured
  start := ⟨round - 1, Promise.resolved .zero⟩
  signer := signer
  happenings :=
    [.call (.initLastHash .zero), .call (.startRound round ⟨⟨0⟩, 0⟩), .call (.endRound round), .stop,
      .work .takeUp, .work (.sign number), .work (.noteSigned number), .work .consider, .work .write]

/-- Sessions of one round each, the first of them behind the zero hash, with these signers. -/
def roundSessions (signers : List ScriptedSigner) : List (Course ScriptedSigner MemoryStore) :=
  succession ScriptedSigner.signer MemoryStore.writer none MemoryStore.new
    (signers.mapIdx fun i signer => roundPlan (.ofNat (i + 1)) (.ofNat i) signer)

/-- A signer that signs. -/
def willing : ScriptedSigner := .new [] (.signing "refused") (some 0)

/-- A signer that refuses more often than it is asked. -/
def unwilling : ScriptedSigner := .new [1000] (.signing "refused") (some 0)

set_option maxRecDepth 10000 in
theorem succession_linked_two_rounds :
    (∀ c ∈ roundSessions [willing, willing], c.WithinLimits) ∧
      (∀ c ∈ (roundSessions [willing, willing]).dropLast, c.stream.ledger ≠ none) ∧
      (deliveriesOf (roundSessions [willing, willing])).length = 2 ∧
      Consecutive 0 (deliveriesOf (roundSessions [willing, willing])) ∧
      ∃ blocks, Delivered (deliveriesOf (roundSessions [willing, willing])) blocks ∧ Linked 0 .zero blocks := by
  have hlimits : ∀ c ∈ roundSessions [willing, willing], c.WithinLimits := by decide +kernel
  have hwarm : ∀ c ∈ (roundSessions [willing, willing]).dropLast, c.stream.ledger ≠ none := by decide +kernel
  have hdone : ∀ c ∈ (roundSessions [willing, willing]).dropLast,
      c.stream.halted = none ∧ c.stream.idle = true := by decide +kernel
  obtain ⟨-, hyields, -, hall⟩ := succession_linked ScriptedSigner.signer MemoryStore.writer none MemoryStore.new
    (roundPlan 1 0 willing) [roundPlan 2 1 willing] (.anchored .zero ⟨0, 1, 0⟩) hlimits hwarm
    (.inr ⟨rfl, .zero, by decide +kernel, rfl⟩)
  refine ⟨hlimits, hwarm, by decide +kernel, hall fun c hc => ?_⟩
  obtain ⟨hlive, hidle⟩ := hdone c hc
  refine (hyields c (List.dropLast_subset _ hc)).done c.stream.finalized ?_
  have hstream : c.session.stream = c.stream := rfl
  simp [Session.outcome, hstream, hlive, hidle]

set_option maxRecDepth 10000 in
/-- A session that halts leaves a gap, although ledger state goes on behind it: the block that it closed and did
not store is missing for good. -/
theorem succession_with_gap :
    (∀ c ∈ roundSessions [willing, unwilling, willing], c.WithinLimits) ∧
      (∀ c ∈ (roundSessions [willing, unwilling, willing]).dropLast, c.stream.ledger ≠ none) ∧
      (∀ c ∈ roundSessions [willing, unwilling, willing], c.stopped = true ∧ c.session.outcome ≠ .pending) ∧
      ∀ first, ¬ Consecutive first (deliveriesOf (roundSessions [willing, unwilling, willing])) := by
  have hnumbers : (deliveriesOf (roundSessions [willing, unwilling, willing])).map
      (fun delivery => delivery.number.map UInt64.toNat) = [some 0, some 2] := by decide +kernel
  refine ⟨by decide +kernel, by decide +kernel, by decide +kernel, fun first hfirst => ?_⟩
  have hlength : (deliveriesOf (roundSessions [willing, unwilling, willing])).length = 2 := by decide +kernel
  rw [Consecutive, hnumbers, hlength] at hfirst
  simp only [List.range'_succ, List.range'_zero, List.map_cons, List.map_nil, List.cons.injEq,
    Option.some.injEq] at hfirst
  omega

end Course

end RoundChain
