import RoundChain.Proofs.CrashSafety
import RoundChain.Proofs.Sessions

/-!
# Whole runs of a node

A node that runs from its start to its end takes one of the courses that
`Node.Leaves` speaks of: it feeds the rounds of its source and settles after each, brings
the signer to where it can sign, and shuts down. So a directory that such runs leave, one
after the other, is one that cut off sessions can leave as well,
`Node.reachable_runWith`.
-/

namespace RoundChain

variable {σ ω : Type}

/-! ### Calls as a course -/

namespace Course

variable (signer : Signer σ) (writer : Writer ω)

theorem step_call (c : Course σ ω) (hgoing : c.stopped = false) (call : IntakeCall) :
    c.step signer writer (.call call) =
      { c with
        stream := (c.stream.take call).2, calls := c.calls ++ [(call, (c.stream.take call).1)]
        made := c.made.add (c.stream.made call) } := by
  rw [step, hgoing]
  rfl

theorem WithinLimits.call {c : Course σ ω} (h : c.WithinLimits) (hgoing : c.stopped = false) {call : IntakeCall}
    (hcall : (c.stream.take call).1.exceeds = false) : (c.step signer writer (.call call)).WithinLimits := by
  intro entry hentry
  rw [step_call signer writer c hgoing] at hentry
  rcases List.mem_append.mp hentry with hentry | hentry
  · exact h entry hentry
  · obtain rfl := List.mem_singleton.mp hentry
    exact hcall

/-- Calls that are made up to the first that does not succeed are a part of a course. -/
theorem run_takeAll (calls : List IntakeCall) {c : Course σ ω} (hgoing : c.stopped = false) :
    ∃ made, made <+: calls ∧ ((c.stream.takeAll calls).1 = .ok () → made = calls) ∧
      (c.run signer writer (made.map .call)).session = { c.session with stream := (c.stream.takeAll calls).2 } ∧
      (c.run signer writer (made.map .call)).stopped = false ∧
      (c.WithinLimits → (c.stream.takeAll calls).1.exceeds = false →
        (c.run signer writer (made.map .call)).WithinLimits) := by
  induction calls generalizing c with
  | nil => exact ⟨[], List.prefix_rfl, fun _ => rfl, rfl, hgoing, fun h _ => h⟩
  | cons call rest ih =>
    have hstep := step_call signer writer c hgoing call
    have hnow : (c.step signer writer (.call call)).stopped = false := (congrArg stopped hstep).trans hgoing
    rw [StreamState.takeAll]
    cases hcall : (c.stream.take call).1 with
    | error e =>
      rw [StreamCall.andThen_of_error hcall]
      refine ⟨[call], List.prefix_append .., ?_, congrArg session hstep, hnow, fun hlimits hanswer => ?_⟩
      · intro hok
        cases hok
      · exact hlimits.call signer writer hgoing (hcall ▸ hanswer)
    | ok _ =>
      rw [StreamCall.andThen_of_ok hcall]
      obtain ⟨made, hprefix, hall, hsession, hstill, hlimits⟩ := ih hnow
      have hstream : (c.step signer writer (.call call)).stream = (c.stream.take call).2 := by rw [hstep]
      rw [hstream] at hall hsession hlimits
      refine ⟨call :: made, List.cons_prefix_cons.mpr ⟨rfl, hprefix⟩, fun hok => congrArg _ (hall hok), ?_, hstill,
        fun hbefore => hlimits (hbefore.call signer writer hgoing (hcall ▸ rfl))⟩
      refine hsession.trans ?_
      rw [hstep]
      rfl

end Course

namespace Node

theorem callsOf_settling (duties : List Duty) :
    Course.callsOf (Course.settling duties : List (Happening SchemeSigner FileStore)) = [] := by
  have hwork : Course.callsOf (duties.map Happening.work : List (Happening SchemeSigner FileStore)) = [] := by
    induction duties with
    | nil => rfl
    | cons _ _ ih => exact ih
  exact hwork

theorem store_not_mem_settling (duties : List Duty) (state : FileStore) :
    (.store state : Happening SchemeSigner FileStore) ∉ Course.settling duties := by
  simp [Course.settling]

/-! ### The way of a node -/

variable [Compression] [Bls12381.Library]

/-- A node on its way: its session is that of a course from its start, and the rounds to come are the rest of
those of its source, unless one has failed. -/
structure OnWay (first : Node) (hs : List (Happening SchemeSigner FileStore)) (node : Node) : Prop where
  session : node.session = (first.course hs).session.forget
  calls : ∃ rounds, Course.callsOf hs <+: first.source.script rounds
  script : node.failure = none → ∀ rounds, ∃ total,
    first.source.script total = Course.callsOf hs ++ node.source.script rounds
  alone : ∀ state, .store state ∉ hs
  going : (first.course hs).stopped = false
  limits : (first.course hs).WithinLimits

variable {first node : Node} {hs : List (Happening SchemeSigner FileStore)}

theorem course_append (first : Node) (hs later : List (Happening SchemeSigner FileStore)) :
    first.course (hs ++ later) = (first.course hs).run SchemeSigner.signer FileStore.writer later :=
  Course.run_append _ hs later

/-- A node that has started is on its way. -/
theorem Starts.onWay {config : NodeConfig} {dir : Directory} {recovered : Option StreamInfo}
    (h : Starts config dir node recovered) : OnWay node [] node := by
  refine ⟨?_, ⟨0, List.prefix_rfl⟩, fun _ rounds => ⟨rounds, rfl⟩, nofun, rfl, fun entry hentry => ?_⟩
  · have hsession : node.session = ⟨node.session.stream, node.session.earlier, node.session.signer,
        node.session.store⟩ := rfl
    rw [hsession, h.earlier]
    rfl
  · obtain ⟨hash, -, rfl⟩ := List.mem_map.mp hentry
    rfl

/-- What happens beside the calls of a source keeps a node on its way. -/
theorem OnWay.beside (h : OnWay first hs node) {later : List (Happening SchemeSigner FileStore)}
    (hcalls : Course.callsOf later = []) (halone : ∀ state, .store state ∉ later) {stream : StreamState}
    {signer : SchemeSigner × SignLog} {store : FileStore × WriteLog}
    (hcourse : (first.course hs).run SchemeSigner.signer FileStore.writer later =
      { first.course hs with stream, signer, store }) {session : Session SchemeSigner FileStore}
    (hsession : session = .new stream signer.1 store.1) :
    OnWay first (hs ++ later) { node with session } := by
  have hall : Course.callsOf (hs ++ later) = Course.callsOf hs := by
    rw [Course.callsOf_append, hcalls, List.append_nil]
  refine ⟨?_, hall ▸ h.calls, hall ▸ h.script, ?_, ?_, ?_⟩
  · rw [hsession, course_append, hcourse]
    rfl
  · intro state hmem
    rcases List.mem_append.mp hmem with hmem | hmem
    · exact h.alone state hmem
    · exact halone state hmem
  · rw [course_append, hcourse]
    exact h.going
  · rw [course_append, hcourse]
    exact h.limits

/-- The node settles. -/
theorem OnWay.settle (h : OnWay first hs node) : ∃ later, OnWay first (hs ++ later) node.settle := by
  obtain ⟨duties, hsettle⟩ := Course.session_settle SchemeSigner.signer FileStore.writer (first.course hs)
  obtain ⟨stream, signer, store, hcourse⟩ :=
    Course.run_settling SchemeSigner.signer FileStore.writer (first.course hs) duties
  have hplain : node.session.settle SchemeSigner.signer writer =
      ((first.course hs).session.settle SchemeSigner.signer.recorded fun _ => FileStore.writer.recorded).forget := by
    rw [Session.settle_forget, h.session]
    rfl
  refine ⟨Course.settling duties,
    h.beside (callsOf_settling duties) (store_not_mem_settling duties) hcourse ?_⟩
  rw [hplain, hsettle, hcourse]
  rfl

/-- The signer changes. -/
theorem OnWay.withSigner (h : OnWay first hs node) (signer : SchemeSigner) :
    OnWay first (hs ++ [.signer signer]) { node with session := { node.session with signer } } := by
  refine h.beside rfl (fun state hmem => ?_) rfl ?_
  · simp at hmem
  · rw [h.session]
    rfl

/-- The node feeds a round, up to a call that fails. The rounds to come are those behind it if none has. -/
theorem OnWay.feed (h : OnWay first hs node) (hlive : node.failure = none)
    (hopen : node.source.finished = false)
    (hlimits : (node.source.feed node.session.stream).1.exceeds = false) :
    ∃ later, ∀ source failure,
      (failure = none → (node.source.feed node.session.stream).1 = .ok () ∧
        node.source.advance = (.ok (), source)) →
      OnWay first (hs ++ later)
        { node with
          source, failure
          session := { node.session with stream := (node.source.feed node.session.stream).2 } } := by
  have hstream : node.session.stream = (first.course hs).stream := by
    rw [h.session]
    rfl
  rw [RoundSource.feed_eq, hstream] at hlimits ⊢
  obtain ⟨made, ⟨rest, hprefix⟩, hall, hsession, hgoing, hwithin⟩ :=
    Course.run_takeAll SchemeSigner.signer FileStore.writer node.source.roundCalls h.going
  have hcalls : Course.callsOf (hs ++ made.map .call) = Course.callsOf hs ++ made := by
    rw [Course.callsOf_append, Course.callsOf_calls]
  refine ⟨made.map .call, fun source failure hsource => ⟨?_, ?_, fun hnone rounds => ?_, ?_, ?_, ?_⟩⟩
  · rw [course_append, hsession, h.session]
    rfl
  · obtain ⟨total, htotal⟩ := h.script hlive 1
    obtain ⟨others, hround⟩ := RoundSource.roundCalls_prefix_script hopen 0
    refine ⟨total, rest ++ others, ?_⟩
    rw [hcalls, htotal, ← hround, ← hprefix, List.append_assoc, List.append_assoc]
  · obtain ⟨hok, hadvance⟩ := hsource hnone
    obtain ⟨total, htotal⟩ := h.script hlive (rounds + 1)
    refine ⟨total, ?_⟩
    rw [hcalls, hall hok, htotal, RoundSource.script_succ hopen hadvance, List.append_assoc]
  · intro state hmem
    rcases List.mem_append.mp hmem with hmem | hmem
    · exact h.alone state hmem
    · simp at hmem
  · rw [course_append]
    exact hgoing
  · rw [course_append]
    exact hwithin h.limits hlimits

/-- The node feeds a round and settles, or fails. -/
theorem OnWay.tick (h : OnWay first hs node) (hlive : node.failure = none)
    (hopen : node.source.finished = false) (hok : node.tick.1 = .ok ()) :
    ∃ later, OnWay first (hs ++ later) node.tick.2 := by
  unfold Node.tick RoundSource.drive at hok ⊢
  have hfeed := h.feed hlive hopen
  generalize node.source.feed node.session.stream = fed at hok hfeed ⊢
  obtain ⟨answer, stream⟩ := fed
  cases answer with
  | error e =>
    cases e with
    | exceeded limit => cases hok
    | refused e =>
      obtain ⟨later, hlater⟩ := hfeed rfl
      exact ⟨later, hlater _ _ nofun⟩
  | ok _ =>
    obtain ⟨later, hlater⟩ := hfeed rfl
    generalize hadvance : node.source.advance = moved at hok hlater ⊢
    obtain ⟨answer, source⟩ := moved
    cases answer with
    | error e =>
      cases e with
      | exceeded limit => cases hok
      | refused e => exact ⟨later, hlater _ _ nofun⟩
    | ok _ =>
      obtain ⟨more, hmore⟩ := (hlater source node.failure fun _ => ⟨rfl, rfl⟩).settle
      refine ⟨later ++ more, ?_⟩
      rw [← List.append_assoc]
      exact hmore

/-- The node feeds rounds. -/
theorem OnWay.work (h : OnWay first hs node) (rounds : Nat) (hok : (node.work rounds).1 = .ok ()) :
    ∃ later, OnWay first (hs ++ later) (node.work rounds).2 := by
  induction rounds generalizing hs node with
  | zero => exact ⟨[], (List.append_nil hs).symm ▸ h⟩
  | succ rounds ih =>
    rw [Node.work] at hok ⊢
    split at hok
    · rename_i hstopped
      rw [if_pos hstopped]
      exact ⟨[], (List.append_nil hs).symm ▸ h⟩
    rename_i hgoing
    rw [if_neg hgoing]
    rw [stopped, Bool.not_eq_true, Bool.or_eq_false_iff, Option.isSome_eq_false_iff, Option.isNone_iff_eq_none]
      at hgoing
    have htick := h.tick hgoing.2 hgoing.1
    generalize node.tick = ticked at hok htick ⊢
    obtain ⟨answer, after⟩ := ticked
    cases answer with
    | error e => cases hok
    | ok _ =>
      obtain ⟨later, hlater⟩ := htick rfl
      obtain ⟨more, hmore⟩ := ih hlater hok
      refine ⟨later ++ more, ?_⟩
      rw [← List.append_assoc]
      exact hmore

/-- Only a limit can keep a node from feeding rounds. -/
theorem work_eq_ok (node : Node) (rounds : Nat) (hlimits : (node.work rounds).1.exceeds = false) :
    (node.work rounds).1 = .ok () := by
  have htick : ∀ node : Node, node.tick.1.exceeds = false → node.tick.1 = .ok () := by
    intro node h
    unfold Node.tick at h ⊢
    generalize node.source.drive node.session.stream = driven at h ⊢
    obtain ⟨answer, source, stream⟩ := driven
    rcases answer with (e | limit) | items
    · rfl
    · cases h
    · rfl
  induction rounds generalizing node with
  | zero => rfl
  | succ rounds ih =>
    rw [Node.work] at hlimits ⊢
    split
    · rfl
    rename_i hgoing
    rw [if_neg hgoing] at hlimits
    have hok := htick node
    generalize node.tick = ticked at hlimits hok ⊢
    obtain ⟨answer, after⟩ := ticked
    cases answer with
    | error e => exact hok hlimits
    | ok _ => exact ih after hlimits

/-! ### The end of a node -/

/-- The directory is that of a course that a node can take from its start. -/
def Comes (first : Node) (dir : Directory) : Prop :=
  ∃ hs, (∃ rounds, Course.callsOf hs <+: first.source.script rounds) ∧ (∀ state, .store state ∉ hs) ∧
    (first.course hs).WithinLimits ∧ dir = (first.course hs).store.1.dir

theorem OnWay.comes (h : OnWay first hs node) : first.Comes node.dir :=
  ⟨hs, h.calls, h.alone, h.limits, by rw [Node.dir, h.session]; rfl⟩

/-- The node shuts down. -/
theorem OnWay.shutdown (h : OnWay first hs node) :
    first.Comes (node.session.shutdown SchemeSigner.signer writer).2.store.dir := by
  obtain ⟨duties, hdrain⟩ := Course.session_drain SchemeSigner.signer FileStore.writer (first.course hs) h.going
  have hplain : node.session.drain SchemeSigner.signer writer =
      ((first.course hs).session.drain SchemeSigner.signer.recorded fun _ => FileStore.writer.recorded).forget := by
    rw [Session.drain_forget, h.session]
    rfl
  have hcalls : Course.callsOf (hs ++ Course.draining duties) = Course.callsOf hs := by
    rw [Course.callsOf_append, Course.draining]
    exact (congrArg _ (callsOf_settling duties)).trans (List.append_nil _)
  obtain ⟨-, hsame⟩ := Course.run_draining SchemeSigner.signer FileStore.writer (first.course hs) duties
  refine ⟨hs ++ Course.draining duties, hcalls ▸ h.calls, fun state hmem => ?_, ?_, ?_⟩
  · rcases List.mem_append.mp hmem with hmem | hmem
    · exact h.alone state hmem
    · rcases List.mem_cons.mp hmem with hmem | hmem
      · cases hmem
      · exact store_not_mem_settling duties state hmem
  · intro entry hentry
    rw [course_append, hsame] at hentry
    exact h.limits entry hentry
  · rw [course_append]
    show (node.session.drain SchemeSigner.signer writer).store.dir = _
    rw [hplain, hdrain]
    rfl

variable [Ed25519.Library]

theorem OnWay.finish (h : OnWay first hs node) : first.Comes node.finish.2.dir := by
  unfold Node.finish
  split
  · exact h.comes
  have hboot := h.withSigner node.bootstrap.2.session.signer
  have hsame : node.bootstrap.2 =
      { node with session := { node.session with signer := node.bootstrap.2.session.signer } } := rfl
  rw [← hsame] at hboot
  generalize node.bootstrap = booted at hboot ⊢
  obtain ⟨answer, after⟩ := booted
  cases answer with
  | error e => exact hboot.comes
  | ok _ => exact hboot.shutdown

/-! ### Whole runs -/

/-- **A whole run of a node is a session that ends by itself.** -/
theorem leavesUnder_runWith (config : NodeConfig) (now : Timestamp) (rounds : Nat) {dir : Directory}
    {files : List StoredFile} {last : BlockHash} (hholds : dir.Holds files) (hchain : Chained 0 .zero files last)
    (hlimits : (runWith config now rounds dir).1.exceeds = false) :
    LeavesUnder config dir (runWith config now rounds dir).2 := by
  unfold runWith at hlimits ⊢
  cases hstart : start config now dir with
  | error e => exact .refused hstart
  | ok node =>
    simp only [hstart] at hlimits ⊢
    obtain ⟨recovered, hstarts⟩ := start_eq_ok hstart
    have hcomes : ∀ after, node.Comes after → LeavesUnder config dir after := by
      rintro after ⟨hs, ⟨rounds, hcalls⟩, halone, hwithin, rfl⟩
      obtain ⟨hwhole, -⟩ := hstarts.writes hwithin hcalls halone hholds hchain
      rw [hwhole]
      exact .worked hstart hcalls halone hwithin (FileStep.cut_refl _)
    have hwork := hstarts.onWay.work rounds
    have hok := node.work_eq_ok rounds
    generalize node.work rounds = worked at hlimits hwork hok ⊢
    obtain ⟨answer, after⟩ := worked
    cases answer with
    | error e => cases hok hlimits
    | ok _ =>
      obtain ⟨later, hlater⟩ := hwork rfl
      exact hcomes _ hlater.finish

/-- **Whole runs of nodes are among the sessions that follow one another.** If sessions can leave a directory,
they can also leave what a node that runs to its end makes of it. -/
theorem reachable_runWith (config : NodeConfig) (now : Timestamp) (rounds : Nat) {dir : Directory}
    (h : Relation.ReflTransGen Leaves .empty dir)
    (hlimits : (runWith config now rounds dir).1.exceeds = false) :
    Relation.ReflTransGen Leaves .empty (runWith config now rounds dir).2 := by
  obtain ⟨files, last, hholds, hchain⟩ := exists_chain h
  exact h.tail (leaves_iff.mpr ⟨config, leavesUnder_runWith config now rounds hholds hchain hlimits⟩)

end Node

end RoundChain
