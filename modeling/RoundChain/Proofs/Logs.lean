import RoundChain.Proofs.Blocks

/-!
# What a signer and a store are told

A log has every call with its answer. This module says what is in the logs of a signer
that signs a block and of a store that a block is written to, attempt by attempt.

## The model

`Signer.recorded` and `Writer.recorded` keep a log beside a signer's and a store's own
state. `deliveries` reads a store's log again: a successful close delivers what the
store took since the last successful opening.

`Stored` says that a log is that of blocks written one after the other, each in any
number of attempts that failed and one that did not.
-/

namespace RoundChain

variable {σ ω : Type}

/-! ### Logs -/

/-- The hashes that a signer was asked to sign, with its answers. -/
abbrev SignLog := List (BlockHash × Except StreamError BlockSignature)

/-- The calls that a store received, with its answers. -/
abbrev WriteLog := List (WriteCall × Except WriteError Unit)

/-- The signer with a log. -/
def Signer.recorded (signer : Signer σ) : Signer (σ × SignLog) where
  isReady t := let r := signer.isReady t.1; (r.1, r.2, t.2)
  patience t := signer.patience t.1
  sign t hash := let r := signer.sign t.1 hash; (r.1, r.2, t.2 ++ [(hash, r.1)])
  note t hash := (signer.note t.1 hash, t.2)

/-- The writer with a log. -/
def Writer.recorded (writer : Writer ω) : Writer (ω × WriteLog) :=
  ⟨fun t call => let r := writer.perform t.1 call; (r.1, r.2, t.2 ++ [(call, r.1)])⟩

/-- Calls that were all answered well. -/
def allOk (calls : List WriteCall) : WriteLog := calls.map fun call => (call, .ok ())

/-! ### Signing -/

/-- Signing asks the signer, and gives out only signatures that the signer gave for the hash. -/
theorem signAttempts_recorded (signer : Signer σ) (number : UInt64) (hash : BlockHash) (left : Nat)
    (attempt : UInt32) (t : σ × SignLog) (m : Metrics) :
    let r := signAttempts signer.recorded number hash left attempt t m
    t.2 ⊆ r.2.1.2 ∧ ∀ signature, r.1.1 = .ok signature → (hash, .ok signature) ∈ r.2.1.2 := by
  induction left generalizing attempt t m with
  | zero =>
    unfold signAttempts
    simp only [Signer.recorded]
    cases h : (signer.sign t.1 hash).1 with
    | ok signature =>
      refine ⟨List.subset_append_left .., ?_⟩
      rintro _ ⟨⟩
      simp
    | error e => exact ⟨List.subset_append_left .., nofun⟩
  | succ left ih =>
    unfold signAttempts
    simp only [Signer.recorded]
    cases h : (signer.sign t.1 hash).1 with
    | ok signature =>
      refine ⟨List.subset_append_left .., ?_⟩
      rintro _ ⟨⟩
      simp
    | error e =>
      obtain ⟨hsub, hsigned⟩ := ih (attempt + 1)
        ((signer.sign t.1 hash).2, t.2 ++ [(hash, .error e)]) m.countSignatureRetry
      exact ⟨fun _ hx => hsub (List.mem_append_left _ hx), hsigned⟩

theorem signBlock_recorded (signer : Signer σ) (retry : RetryPolicy) (number : UInt64) (hash : BlockHash)
    (t : σ × SignLog) (m : Metrics) :
    let r := signBlock signer.recorded retry number hash t m
    t.2 ⊆ r.2.1.2 ∧ ∀ signature, r.1.1 = .ok signature → (hash, .ok signature) ∈ r.2.1.2 :=
  signAttempts_recorded signer number hash _ _ t m

theorem askReady_recorded (signer : Signer σ) (asked : Bool) (t : σ × SignLog) :
    (StreamState.askReady signer.recorded asked t).2.2 = t.2 := by
  unfold StreamState.askReady
  simp only [Signer.recorded]
  cases (signer.isReady t.1).1 <;> cases asked <;> rfl

/-! ### Attempts to write -/

/-- The log of an attempt to make calls that failed at one of them. -/
def Tried (calls : List WriteCall) (log : WriteLog) : Prop :=
  ∃ before call after e, calls = before ++ call :: after ∧ log = allOk before ++ [(call, .error e)]

/-- The log of attempts that all failed. -/
def Attempted (calls : List WriteCall) (log : WriteLog) : Prop :=
  ∃ tries : List WriteLog, (∀ t ∈ tries, Tried calls t) ∧ log = tries.flatten

/-- The log of an attempt to make calls, by its outcome: all calls, or those up to the one that was refused. -/
def Makes (calls : List WriteCall) : Except WriteError Unit → WriteLog → Prop
  | .ok (), log => log = allOk calls
  | .error e, log => ∃ before call after, calls = before ++ call :: after ∧ log = allOk before ++ [(call, .error e)]

theorem attempted_nil (calls : List WriteCall) : Attempted calls [] := ⟨[], nofun, rfl⟩

theorem Attempted.cons {calls : List WriteCall} {try' log : WriteLog} (ht : Tried calls try')
    (h : Attempted calls log) : Attempted calls (try' ++ log) := by
  obtain ⟨tries, htries, rfl⟩ := h
  refine ⟨try' :: tries, ?_, rfl⟩
  simpa using ⟨ht, htries⟩

theorem performAll_cons_of_ok (writer : Writer ω) {s : ω} {call : WriteCall}
    (h : (writer.perform s call).1 = .ok ()) (rest : List WriteCall) :
    writer.performAll s (call :: rest) = writer.performAll (writer.perform s call).2 rest := by
  rw [Writer.performAll, ← Prod.eta (writer.perform s call), h]

theorem performAll_cons_of_error (writer : Writer ω) {s : ω} {call : WriteCall} {e : WriteError}
    (h : (writer.perform s call).1 = .error e) (rest : List WriteCall) :
    writer.performAll s (call :: rest) = (.error e, (writer.perform s call).2) := by
  rw [Writer.performAll, ← Prod.eta (writer.perform s call), h]

/-- A log does not change an attempt, and has the calls of it. -/
theorem performAll_recorded_eq (writer : Writer ω) (w : ω × WriteLog) (calls : List WriteCall) :
    ∃ log, Makes calls (writer.performAll w.1 calls).1 log ∧
      writer.recorded.performAll w calls =
        ((writer.performAll w.1 calls).1, (writer.performAll w.1 calls).2, w.2 ++ log) := by
  induction calls generalizing w with
  | nil => exact ⟨[], rfl, by rw [List.append_nil]; rfl⟩
  | cons call rest ih =>
    cases h : (writer.perform w.1 call).1 with
    | error e =>
      rw [performAll_cons_of_error writer h, performAll_cons_of_error writer.recorded h, ← h]
      refine ⟨[(call, .error e)], ?_, by rw [h]; simp only [Writer.recorded, h]⟩
      rw [h]
      exact ⟨[], call, rest, rfl, rfl⟩
    | ok done =>
      obtain ⟨log, hlog, hrest⟩ := ih (writer.recorded.perform w call).2
      rw [performAll_cons_of_ok writer h, performAll_cons_of_ok writer.recorded h, hrest]
      refine ⟨(call, .ok ()) :: log, ?_, ?_⟩
      · revert hlog
        show Makes rest (writer.performAll (writer.perform w.1 call).2 rest).1 log → _
        cases (writer.performAll (writer.perform w.1 call).2 rest).1 with
        | ok _ =>
          rintro rfl
          rfl
        | error e =>
          rintro ⟨before, failed, after, rfl, rfl⟩
          exact ⟨call :: before, failed, after, rfl, rfl⟩
      · simp only [Writer.recorded, h, List.append_assoc, List.cons_append, List.nil_append]

theorem performAll_recorded (writer : Writer ω) (t : ω × WriteLog) (calls : List WriteCall) :
    let r := writer.recorded.performAll t calls
    r.1 = .ok () ∧ r.2.2 = t.2 ++ allOk calls ∨
      ∃ e log, r.1 = .error e ∧ Tried calls log ∧ r.2.2 = t.2 ++ log := by
  obtain ⟨log, hlog, hrecorded⟩ := performAll_recorded_eq writer t calls
  rw [hrecorded]
  cases houtcome : (writer.performAll t.1 calls).1 with
  | ok done =>
    rw [houtcome] at hlog
    exact .inl ⟨rfl, by rw [show log = _ from hlog]⟩
  | error e =>
    rw [houtcome] at hlog
    obtain ⟨before, call, after, hcalls, hfailed⟩ := hlog
    exact .inr ⟨e, log, rfl, ⟨before, call, after, e, hcalls, hfailed⟩, rfl⟩

/-- Writing makes its calls until they all succeed or it gives up. -/
theorem writeAttempts_recorded (writer : Writer ω) (number : UInt64) (calls : List WriteCall) (left : Nat)
    (attempt : UInt32) (t : ω × WriteLog) (m : Metrics) :
    let r := writeAttempts writer.recorded number calls left attempt t m
    ∃ tries, Attempted calls tries ∧
      (r.1.1 = .ok () ∧ r.2.1.2 = t.2 ++ (tries ++ allOk calls) ∨
        ∃ e, r.1.1 = .error e ∧ r.2.1.2 = t.2 ++ tries) := by
  induction left generalizing attempt t m with
  | zero =>
    unfold writeAttempts
    rcases performAll_recorded writer t calls with ⟨hok, hlog⟩ | ⟨e, log, he, ht, hlog⟩
    · rw [← Prod.eta (writer.recorded.performAll t calls), hok]
      exact ⟨[], attempted_nil calls, .inl ⟨rfl, hlog⟩⟩
    · rw [← Prod.eta (writer.recorded.performAll t calls), he]
      exact ⟨log ++ [], (attempted_nil calls).cons ht, .inr ⟨_, rfl, by rw [hlog, List.append_nil]⟩⟩
  | succ left ih =>
    unfold writeAttempts
    rcases performAll_recorded writer t calls with ⟨hok, hlog⟩ | ⟨e, log, he, ht, hlog⟩
    · rw [← Prod.eta (writer.recorded.performAll t calls), hok]
      exact ⟨[], attempted_nil calls, .inl ⟨rfl, hlog⟩⟩
    · rw [← Prod.eta (writer.recorded.performAll t calls), he]
      simp only
      split
      · rcases ih (attempt + 1) (writer.recorded.performAll t calls).2 m.countWriteRetry with
          ⟨tries, htries, ⟨hok, hrest⟩ | ⟨e', he', hrest⟩⟩
        · refine ⟨log ++ tries, htries.cons ht, .inl ⟨hok, ?_⟩⟩
          rw [hrest, hlog, List.append_assoc, List.append_assoc]
        · refine ⟨log ++ tries, htries.cons ht, .inr ⟨e', he', ?_⟩⟩
          rw [hrest, hlog, List.append_assoc]
      · exact ⟨log ++ [], (attempted_nil calls).cons ht, .inr ⟨_, rfl, by rw [hlog, List.append_nil]⟩⟩

theorem writeBlock_recorded (writer : Writer ω) (retry : RetryPolicy) (number : UInt64)
    (calls : List WriteCall) (t : ω × WriteLog) (m : Metrics) :
    let r := writeBlock writer.recorded retry number calls t m
    ∃ tries, Attempted calls tries ∧
      (r.1.1 = .ok () ∧ r.2.1.2 = t.2 ++ (tries ++ allOk calls) ∨
        ∃ e, r.1.1 = .error e ∧ r.2.1.2 = t.2 ++ tries) :=
  writeAttempts_recorded writer number calls _ _ t m

/-! ### Blocks written one after the other -/

/-- A block with what its proof adds to it. -/
structure Written where
  block : ClosedBlock
  startState : BlockHash
  signature : BlockSignature

namespace Written

/-- The bytes of the proof that ends the block. -/
def proof (w : Written) : Bytes := (w.block.proofItem w.startState w.signature).encode

/-- The log of attempts to write the block that all failed. -/
def Trying (size : Nat) (w : Written) (log : WriteLog) : Prop :=
  ∃ batches, frameBatches size w.block.items = .ok batches ∧
    Attempted (blockCalls w.block.number batches w.proof) log

/-- The log of a block that was written. -/
def Storing (size : Nat) (w : Written) (log : WriteLog) : Prop :=
  ∃ batches tries, frameBatches size w.block.items = .ok batches ∧
    Attempted (blockCalls w.block.number batches w.proof) tries ∧
    log = tries ++ allOk (blockCalls w.block.number batches w.proof)

end Written

/-- The log of blocks that were written one after the other. -/
inductive Stored (size : Nat) : List Written → WriteLog → Prop where
  | nil : Stored size [] []
  | concat {ws : List Written} {log more : WriteLog} {w : Written} : Stored size ws log →
      w.Storing size more → Stored size (ws ++ [w]) (log ++ more)

/-! ### Reading a log -/

/-- What a store took for a block: the number that the block was opened with, and the calls up to its
close. -/
structure Delivery where
  number : Option UInt64
  received : List WriteCall
  deriving DecidableEq

/-- What a log shows so far: the block that is open, and those that were closed. -/
structure Reception where
  opened : Delivery := ⟨none, []⟩
  deliveries : List Delivery := []

/-- Takes another entry; refused calls bring nothing. -/
def Reception.hear (r : Reception) : WriteCall × Except WriteError Unit → Reception
  | (_, .error _) => r
  | (.openBlock number, .ok ()) => { r with opened := ⟨some number, []⟩ }
  | (.closeBlock, .ok ()) => { deliveries := r.deliveries ++ [r.opened] }
  | (call, .ok ()) => { r with opened := ⟨r.opened.number, r.opened.received ++ [call]⟩ }

/-- The blocks whose close succeeded, with what the store took for them. -/
def deliveries (log : WriteLog) : List Delivery := (log.foldl Reception.hear {}).deliveries

/-- The number of the block to open, if that is what a call asks. -/
def noteOpened (opened : Option UInt64) : WriteCall × Except WriteError Unit → Option UInt64
  | (.openBlock number, _) => some number
  | _ => opened

/-- The number of the block that a store was asked last to open. -/
def lastOpened (log : WriteLog) : Option UInt64 := log.foldl noteOpened none

/-- The store took a block: its framed items in batches, and then its proof. -/
def Delivery.Brings (d : Delivery) (w : Written) : Prop :=
  ∃ batches : List Bytes, d = ⟨some w.block.number, batches.map .items ++ [.item w.proof]⟩ ∧
    frameItems w.block.items = .ok batches.flatten

theorem deliveries_foldl_of_quiet {log : WriteLog} (h : (.closeBlock, .ok ()) ∉ log) (r : Reception) :
    (log.foldl Reception.hear r).deliveries = r.deliveries := by
  induction log generalizing r with
  | nil => rfl
  | cons entry rest ih =>
    rw [List.mem_cons, not_or] at h
    rw [List.foldl_cons, ih h.2]
    match entry with
    | (_, .error _) => rfl
    | (.openBlock _, .ok ()) => rfl
    | (.item _, .ok ()) => rfl
    | (.items _, .ok ()) => rfl
    | (.closeBlock, .ok ()) => exact absurd rfl h.1

theorem foldl_noteOpened {log : WriteLog} {number : UInt64}
    (h : ∀ entry ∈ log, ∀ m, entry.1 = .openBlock m → m = number) :
    log.foldl noteOpened (some number) = some number := by
  induction log with
  | nil => rfl
  | cons entry rest ih =>
    have hentry : noteOpened (some number) entry = some number := by
      match entry with
      | (.openBlock m, _) => rw [noteOpened, h _ List.mem_cons_self m rfl]
      | (.item _, _) => rfl
      | (.items _, _) => rfl
      | (.closeBlock, _) => rfl
    rw [List.foldl_cons, hentry]
    exact ih fun e he => h e (List.mem_cons_of_mem _ he)

/-! ### The calls for one block -/

/-- What a store is told of one block and of no other: no entry but the last is a close that succeeded. -/
structure Concerns (number : UInt64) (log : WriteLog) : Prop where
  first : ∀ entry rest, log = entry :: rest → entry.1 = .openBlock number
  opens : ∀ entry ∈ log, ∀ m, entry.1 = .openBlock m → m = number
  quiet : ∀ before entry after, log = before ++ entry :: after → (.closeBlock, .ok ()) ∉ before

theorem concerns_nil (number : UInt64) : Concerns number [] where
  first _ _ h := nomatch h
  opens _ h := nomatch h
  quiet before _ _ h := by cases before <;> cases h

theorem Concerns.append {number : UInt64} {a b : WriteLog} (ha : Concerns number a)
    (hquiet : (.closeBlock, .ok ()) ∉ a) (hb : Concerns number b) : Concerns number (a ++ b) where
  first entry rest h := by
    cases a with
    | nil => exact hb.first entry rest h
    | cons x xs =>
      cases h
      exact ha.first _ _ rfl
  opens entry he := by
    rcases List.mem_append.mp he with he | he
    · exact ha.opens entry he
    · exact hb.opens entry he
  quiet before entry after h := by
    rcases List.append_eq_append_iff.mp h with ⟨more, rfl, hb'⟩ | ⟨more, rfl, -⟩
    · intro hmem
      rcases List.mem_append.mp hmem with hmem | hmem
      · exact hquiet hmem
      · exact hb.quiet more entry after hb' hmem
    · exact fun hmem => hquiet (List.mem_append_left _ hmem)

section

variable {number : UInt64} {batches : List Bytes} {proof : Bytes}

/-- The calls for a block, but for its close. -/
theorem blockCalls_eq : blockCalls number batches proof =
    (.openBlock number :: (batches.map .items ++ [.item proof])) ++ [.closeBlock] := by
  simp [blockCalls]

theorem concerns_of_prefix (number : UInt64) (batches : List Bytes) (proof : Bytes) {log : WriteLog}
    (h : log.map Prod.fst <+: blockCalls number batches proof) : Concerns number log where
  first entry rest hlog := by
    rw [hlog] at h
    exact (List.cons_prefix_cons.mp h).1
  opens entry he m hm := by
    have hmem : WriteCall.openBlock m ∈ blockCalls number batches proof :=
      hm ▸ h.subset (List.mem_map_of_mem he)
    simpa [blockCalls] using hmem
  quiet before entry after hlog := by
    rw [blockCalls_eq] at h
    have hbefore : before.map Prod.fst <+: log.map Prod.fst := by
      rw [hlog, List.map_append]
      exact List.prefix_append ..
    have hlen : (before.map Prod.fst).length ≤
        (WriteCall.openBlock number :: (batches.map .items ++ [.item proof])).length := by
      have := h.length_le
      rw [hlog] at this
      simp at this ⊢
      omega
    have hbody := List.prefix_of_prefix_length_le (hbefore.trans h) (List.prefix_append ..) hlen
    intro hmem
    have := hbody.subset (List.mem_map_of_mem hmem)
    simp at this

theorem Tried.concerns {log : WriteLog} (h : Tried (blockCalls number batches proof) log) :
    Concerns number log ∧ (.closeBlock, .ok ()) ∉ log := by
  obtain ⟨before, call, after, e, hcalls, rfl⟩ := h
  have hconcerns : Concerns number (allOk before ++ [(call, .error e)]) := by
    refine concerns_of_prefix number batches proof ?_
    rw [hcalls]
    simp [allOk, Function.comp_def]
  refine ⟨hconcerns, ?_⟩
  intro hmem
  rcases List.mem_append.mp hmem with hmem | hmem
  · exact hconcerns.quiet _ _ _ rfl hmem
  · simp at hmem

theorem Attempted.concerns {log : WriteLog} (h : Attempted (blockCalls number batches proof) log) :
    Concerns number log ∧ (.closeBlock, .ok ()) ∉ log := by
  obtain ⟨tries, htries, rfl⟩ := h
  induction tries with
  | nil => exact ⟨concerns_nil number, List.not_mem_nil⟩
  | cons t ts ih =>
    rw [List.forall_mem_cons] at htries
    obtain ⟨hrest, hquiet⟩ := ih htries.2
    obtain ⟨ht, htquiet⟩ := htries.1.concerns
    refine ⟨ht.append htquiet hrest, ?_⟩
    rw [List.flatten_cons, List.mem_append, not_or]
    exact ⟨htquiet, hquiet⟩

theorem concerns_allOk : Concerns number (allOk (blockCalls number batches proof)) := by
  refine concerns_of_prefix number batches proof ?_
  simp [allOk, Function.comp_def]

theorem foldl_hear_items (batches : List Bytes) (r : Reception) :
    (allOk (batches.map .items)).foldl Reception.hear r =
      { r with opened := ⟨r.opened.number, r.opened.received ++ batches.map .items⟩ } := by
  induction batches generalizing r with
  | nil =>
    rw [List.map_nil, List.append_nil]
    rfl
  | cons first rest ih =>
    have hfirst : allOk ((first :: rest).map .items) = (.items first, .ok ()) :: allOk (rest.map .items) := rfl
    have hheard : r.hear (.items first, .ok ()) =
        { r with opened := ⟨r.opened.number, r.opened.received ++ [.items first]⟩ } := rfl
    rw [hfirst, List.foldl_cons, ih, hheard, List.map_cons, List.append_assoc, List.singleton_append]

/-- The calls for a block deliver it, whatever a store was told before. -/
theorem foldl_hear_allOk (r : Reception) :
    (allOk (blockCalls number batches proof)).foldl Reception.hear r =
      { deliveries := r.deliveries ++ [⟨some number, batches.map .items ++ [.item proof]⟩] } := by
  have hsplit : allOk (blockCalls number batches proof) =
      (.openBlock number, .ok ()) :: (allOk (batches.map .items) ++
        [(.item proof, .ok ()), (.closeBlock, .ok ())]) := by
    simp [allOk, blockCalls]
  rw [hsplit, List.foldl_cons, List.foldl_append, foldl_hear_items]
  rfl

end

/-! ### Blocks in a log -/

theorem deliveries_append_of_quiet {log more : WriteLog} (h : (.closeBlock, .ok ()) ∉ more) :
    deliveries (log ++ more) = deliveries log := by
  rw [deliveries, deliveries, List.foldl_append, deliveries_foldl_of_quiet h]

theorem Written.Storing.deliveries_append {size : Nat} {w : Written} {more : WriteLog}
    (h : w.Storing size more) (log : WriteLog) :
    ∃ d : Delivery, d.Brings w ∧ deliveries (log ++ more) = deliveries log ++ [d] := by
  obtain ⟨batches, tries, hframes, htries, rfl⟩ := h
  refine ⟨_, ⟨batches, rfl, frameItems_of_frameBatches hframes⟩, ?_⟩
  rw [deliveries, deliveries, List.foldl_append, List.foldl_append, foldl_hear_allOk,
    deliveries_foldl_of_quiet htries.concerns.2]

/-- A log of blocks delivers these blocks. -/
theorem Stored.brings {size : Nat} {ws : List Written} {log : WriteLog} (h : Stored size ws log) :
    List.Forall₂ Delivery.Brings (deliveries log) ws := by
  induction h with
  | nil => exact .nil
  | concat _ hmore ih =>
    obtain ⟨d, hd, heq⟩ := hmore.deliveries_append _
    rw [heq]
    exact List.rel_append ih (.cons hd .nil)

theorem Written.Storing.concerns {size : Nat} {w : Written} {log : WriteLog} (h : w.Storing size log) :
    Concerns w.block.number log := by
  obtain ⟨batches, tries, -, htries, rfl⟩ := h
  exact htries.concerns.1.append htries.concerns.2 concerns_allOk

theorem Written.Trying.concerns {size : Nat} {w : Written} {log : WriteLog} (h : w.Trying size log) :
    Concerns w.block.number log ∧ (.closeBlock, .ok ()) ∉ log := by
  obtain ⟨batches, -, htries⟩ := h
  exact htries.concerns

/-! ### The order of calls -/

/-- Every call is for the block that was opened last, and that is the one whose turn it is: as many
closes succeeded before as there are blocks before it. -/
def InTurn (first : Nat) (log : WriteLog) : Prop :=
  ∀ before entry after, log = before ++ entry :: after →
    ∃ number, lastOpened (before ++ [entry]) = some number ∧
      number.toNat = first + (deliveries before).length

theorem inTurn_nil (first : Nat) : InTurn first [] := by
  intro before _ _ h
  cases before <;> cases h

theorem InTurn.append {first : Nat} {log more : WriteLog} {number : UInt64} (h : InTurn first log)
    (hmore : Concerns number more) (hnumber : number.toNat = first + (deliveries log).length) :
    InTurn first (log ++ more) := by
  intro before entry after heq
  have hlater : ∀ front, before = log ++ front → more = front ++ entry :: after →
      ∃ number, lastOpened (before ++ [entry]) = some number ∧
        number.toNat = first + (deliveries before).length := by
    rintro front rfl hfront
    refine ⟨number, ?_, ?_⟩
    · have hopens : ∀ e ∈ front ++ [entry], ∀ m, e.1 = .openBlock m → m = number := by
        intro e he
        refine hmore.opens e ?_
        rw [hfront]
        simp only [List.mem_append, List.mem_cons] at he ⊢
        tauto
      rw [List.append_assoc, lastOpened, List.foldl_append]
      cases hfe : front ++ [entry] with
      | nil => simp at hfe
      | cons e rest =>
        have hfirst : e.1 = .openBlock number := by
          refine hmore.first e (rest ++ after) ?_
          rw [hfront, ← List.cons_append, ← hfe, List.append_assoc]
          rfl
        have hopen : noteOpened (log.foldl noteOpened none) e = some number := by
          obtain ⟨call, answer⟩ := e
          cases hfirst
          rfl
        rw [List.foldl_cons, hopen]
        exact foldl_noteOpened fun e he => hopens e (hfe ▸ List.mem_cons_of_mem _ he)
    · rw [deliveries_append_of_quiet (hmore.quiet _ _ _ hfront)]
      exact hnumber
  rcases List.append_eq_append_iff.mp heq with ⟨front, hbefore, hfront⟩ | ⟨front, hlog, hafter⟩
  · exact hlater front hbefore hfront
  · cases front with
    | nil => exact hlater [] (by rw [hlog, List.append_nil, List.append_nil]) hafter.symm
    | cons e front =>
      cases hafter
      exact h before entry front hlog

/-- Linked blocks that were written have consecutive numbers. -/
theorem number_of_linked {first : Nat} {previous : BlockHash} {ws : List Written}
    (h : Linked first previous (ws.map Written.block)) {i : Nat} {w : Written} (hi : ws[i]? = some w) :
    w.block.number.toNat = first + i := by
  refine h.number_eq ?_
  rw [List.getElem?_map, hi]
  rfl

theorem Stored.inTurn {size : Nat} {ws : List Written} {log : WriteLog} (h : Stored size ws log)
    {first : Nat} (hnumber : ∀ i w, ws[i]? = some w → w.block.number.toNat = first + i) :
    InTurn first log := by
  induction h with
  | nil => exact inTurn_nil first
  | concat hws hmore ih =>
    rename_i ws log more w
    have hlen : (deliveries log).length = ws.length := hws.brings.length_eq
    refine (ih fun i v hv => hnumber i v ?_).append hmore.concerns ?_
    · have hi : i < ws.length := (List.getElem?_eq_some_iff.mp hv).1
      rw [List.getElem?_append_left hi, hv]
    · rw [hlen]
      exact hnumber ws.length w (by simp)

end RoundChain
