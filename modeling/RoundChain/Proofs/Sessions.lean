import RoundChain.Proofs.Course

/-!
# Sessions as courses

A session that signs and writes until nothing more can happen takes one of its courses, and
so does one that is drained: `Course.session_settle`, `Course.session_drain`. What is proved
of every course holds of what the program does.

Courses keep logs, which sessions do not. `Session.forget` drops them again, and commutes
with all that a session does: recording changes nothing.
-/

namespace RoundChain

variable {σ ω : Type}

/-! ### Recording changes nothing -/

section

variable (signer : Signer σ) (writer : Writer ω)

theorem performAll_forget (t : ω × WriteLog) (calls : List WriteCall) :
    Prod.map id Prod.fst (writer.recorded.performAll t calls) = writer.performAll t.1 calls := by
  induction calls generalizing t with
  | nil => rfl
  | cons call rest ih =>
    cases h : (writer.perform t.1 call).1 with
    | ok _ =>
      rw [performAll_cons_of_ok writer h, performAll_cons_of_ok writer.recorded h]
      exact ih _
    | error e =>
      rw [performAll_cons_of_error writer h, performAll_cons_of_error writer.recorded h]
      rfl

theorem writeAttempts_forget (number : UInt64) (calls : List WriteCall) (left : Nat) (attempt : UInt32)
    (t : ω × WriteLog) (m : Metrics) :
    Prod.map id (Prod.map Prod.fst id) (writeAttempts writer.recorded number calls left attempt t m) =
      writeAttempts writer number calls left attempt t.1 m := by
  induction left generalizing attempt t m with
  | zero =>
    unfold writeAttempts
    rw [← performAll_forget writer t calls]
    obtain ⟨answer, u⟩ := writer.recorded.performAll t calls
    cases answer <;> rfl
  | succ left ih =>
    unfold writeAttempts
    rw [← performAll_forget writer t calls]
    obtain ⟨answer, u⟩ := writer.recorded.performAll t calls
    cases answer with
    | ok _ => rfl
    | error e =>
      simp only [Prod.map_apply, id_eq]
      split
      · exact ih _ u _
      · rfl

theorem writeFirst_forget (s : StreamState) (block : ClosedBlock) (write : BlockWrite) (t : ω × WriteLog) :
    Prod.map id (Prod.map Prod.fst id) (s.writeFirst writer.recorded block write t) =
      s.writeFirst writer block write t.1 := by
  unfold StreamState.writeFirst writeBlock
  split
  · rfl
  · rename_i calls _
    simp only
    rw [← writeAttempts_forget writer block.number calls _ 1 t s.metrics]
    obtain ⟨⟨outcome, last⟩, u, metrics⟩ := writeAttempts writer.recorded block.number calls
      (s.config.writeRetry.attempts.toNat - 1) 1 t s.metrics
    simp only [Prod.map_apply, id_eq]
    split <;> rfl

theorem write_forget (s : StreamState) (t : ω × WriteLog) :
    Prod.map id (Prod.map Prod.fst id) (s.write writer.recorded t) = s.write writer t.1 := by
  unfold StreamState.write
  split
  · exact writeFirst_forget writer s _ _ t
  · rfl

theorem sign_forget (t : σ × SignLog) (hash : BlockHash) :
    Prod.map id Prod.fst (signer.recorded.sign t hash) = signer.sign t.1 hash := rfl

theorem signAttempts_forget (number : UInt64) (hash : BlockHash) (left : Nat) (attempt : UInt32)
    (t : σ × SignLog) (m : Metrics) :
    Prod.map id (Prod.map Prod.fst id) (signAttempts signer.recorded number hash left attempt t m) =
      signAttempts signer number hash left attempt t.1 m := by
  induction left generalizing attempt t m with
  | zero =>
    unfold signAttempts
    rw [← sign_forget signer t hash]
    obtain ⟨answer, u⟩ := signer.recorded.sign t hash
    cases answer <;> rfl
  | succ left ih =>
    unfold signAttempts
    rw [← sign_forget signer t hash]
    obtain ⟨answer, u⟩ := signer.recorded.sign t hash
    cases answer with
    | ok _ => rfl
    | error e => exact ih _ u _

theorem askReady_forget (asked : Bool) (t : σ × SignLog) :
    Prod.map id Prod.fst (StreamState.askReady signer.recorded asked t) = StreamState.askReady signer asked t.1 := by
  unfold StreamState.askReady
  have hready : Prod.map id Prod.fst (signer.recorded.isReady t) = signer.isReady t.1 := rfl
  rw [← hready]
  obtain ⟨ready, u⟩ := signer.recorded.isReady t
  cases ready with
  | true => rfl
  | false => cases asked <;> rfl

theorem signNumber_forget (s : StreamState) (number : UInt64) (t : σ × SignLog) :
    Prod.map id (Prod.map Prod.fst id) (s.signNumber signer.recorded number t) =
      s.signNumber signer number t.1 := by
  unfold StreamState.signNumber
  split
  · rename_i number hash asked _
    unfold StreamState.goOnSigning signBlock
    simp only
    rw [← askReady_forget signer asked t]
    obtain ⟨ready, u⟩ := StreamState.askReady signer.recorded asked t
    cases ready with
    | false => rfl
    | true =>
      simp only [Prod.map_apply, id_eq]
      rw [← signAttempts_forget signer number hash _ 1 u s.metrics]
      obtain ⟨⟨outcome, last⟩, v, metrics⟩ := signAttempts signer.recorded number hash
        (s.config.signingRetry.attempts.toNat - 1) 1 u s.metrics
      simp only [Prod.map_apply, id_eq]
      split <;> rfl
  · rfl

/-- A duty does the same if it is recorded. -/
theorem perform_forget (s : StreamState) (duty : Duty) (t : σ × SignLog) (u : ω × WriteLog) :
    Prod.map id (Prod.map Prod.fst (Prod.map Prod.fst id))
        (s.perform signer.recorded writer.recorded duty t u) =
      s.perform signer writer duty t.1 u.1 := by
  cases duty with
  | sign number =>
    unfold StreamState.perform
    simp only
    rw [← signNumber_forget signer s number t]
    rfl
  | write =>
    unfold StreamState.perform
    simp only
    rw [← write_forget writer s u]
    rfl
  | _ => rfl

end

namespace Session

/-- The session without its logs. -/
def forget (session : Session (σ × SignLog) (ω × WriteLog)) : Session σ ω :=
  ⟨session.stream, session.earlier, session.signer.1, session.store.1⟩

variable {signer : Signer σ} {writer : Writer ω} (session : Session (σ × SignLog) (ω × WriteLog))

theorem run_forget (errand : Errand) :
    Prod.map forget id (session.run signer.recorded (fun _ => writer.recorded) errand) =
      session.forget.run signer (fun _ => writer) errand := by
  obtain ⟨place, duty⟩ := errand
  unfold run
  simp only
  have hstreams : session.forget.streams = session.streams := rfl
  rw [hstreams]
  cases session.streams[place]? with
  | none => rfl
  | some s =>
    simp only
    have hperform := perform_forget signer writer s duty session.signer session.store
    have hforget : s.perform signer writer duty session.forget.signer session.forget.store =
        s.perform signer writer duty session.signer.1 session.store.1 := rfl
    rw [hforget, ← hperform]
    cases place <;> rfl

theorem runAll_forget (steps : Nat) (agenda : Agenda Errand) :
    (session.runAll signer.recorded (fun _ => writer.recorded) steps agenda).forget =
      session.forget.runAll signer (fun _ => writer) steps agenda := by
  induction steps generalizing session agenda with
  | zero => rfl
  | succ steps ih =>
    unfold runAll
    cases agenda.next? with
    | none => rfl
    | some next =>
      obtain ⟨errand, later⟩ := next
      simp only
      rw [← run_forget, ih]
      rfl

/-- A session that is recorded settles as one that is not. -/
theorem settle_forget :
    (session.settle signer.recorded fun _ => writer.recorded).forget =
      session.forget.settle signer fun _ => writer :=
  runAll_forget _ _ _

theorem drain_forget :
    (session.drain signer.recorded fun _ => writer.recorded).forget =
      session.forget.drain signer fun _ => writer :=
  settle_forget _

end Session

/-! ### Courses that sessions take -/

namespace Course

variable (signer : Signer σ) (writer : Writer ω)

/-- The session of a course, with its logs. -/
def session (c : Course σ ω) : Session (σ × SignLog) (ω × WriteLog) := .new c.stream c.signer c.store

/-- What happens when a session settles. -/
def settling (duties : List Duty) : List (Happening σ ω) := .resume :: duties.map .work

/-- What happens when a session is drained. -/
def draining (duties : List Duty) : List (Happening σ ω) := .stop :: settling duties

/-- To settle changes the stream, the signer and the store, and nothing else of a course. -/
theorem run_settling (c : Course σ ω) (duties : List Duty) : ∃ stream signer' store,
    c.run signer writer (settling duties) = { c with stream, signer := signer', store } := by
  have hwork : ∀ d : Course σ ω, ∃ stream signer' store,
      d.run signer writer (duties.map .work) = { d with stream, signer := signer', store } := by
    induction duties with
    | nil => exact fun d => ⟨d.stream, d.signer, d.store, rfl⟩
    | cons duty rest ih => exact fun d => ih (d.step signer writer (.work duty))
  exact hwork (c.step signer writer .resume)

/-- An errand of a session is a duty of its stream, or nothing. -/
theorem session_run (c : Course σ ω) (errand : Session.Errand) :
    ∃ duties : List Duty, (c.session.run signer.recorded (fun _ => writer.recorded) errand).1 =
      (c.run signer writer (duties.map .work)).session := by
  obtain ⟨place, duty⟩ := errand
  cases place with
  | zero => exact ⟨[duty], rfl⟩
  | succ place => exact ⟨[], rfl⟩

theorem session_runAll (steps : Nat) (c : Course σ ω) (agenda : Agenda Session.Errand) :
    ∃ duties : List Duty, c.session.runAll signer.recorded (fun _ => writer.recorded) steps agenda =
      (c.run signer writer (duties.map .work)).session := by
  induction steps generalizing c agenda with
  | zero => exact ⟨[], rfl⟩
  | succ steps ih =>
    rw [Session.runAll]
    cases agenda.next? with
    | none => exact ⟨[], rfl⟩
    | some next =>
      obtain ⟨errand, later⟩ := next
      obtain ⟨first, hfirst⟩ := session_run signer writer c errand
      simp only [hfirst]
      obtain ⟨more, hmore⟩ := ih (c.run signer writer (first.map .work)) (later.enterAll
        (c.session.run signer.recorded (fun _ => writer.recorded) errand).2)
      refine ⟨first ++ more, hmore.trans ?_⟩
      rw [List.map_append, run_append]

/-- **A session that settles takes a course.** -/
theorem session_settle (c : Course σ ω) :
    ∃ duties : List Duty, c.session.settle signer.recorded (fun _ => writer.recorded) =
      (c.run signer writer (settling duties)).session :=
  session_runAll signer writer _ (c.step signer writer .resume) _

/-- **A session that is drained ends its intake and settles.** -/
theorem session_drain (c : Course σ ω) (hgoing : c.stopped = false) :
    ∃ duties : List Duty, c.session.drain signer.recorded (fun _ => writer.recorded) =
      (c.run signer writer (draining duties)).session := by
  have hstop : c.session.drain signer.recorded (fun _ => writer.recorded) =
      (c.step signer writer .stop).session.settle signer.recorded fun _ => writer.recorded := by
    rw [step, hgoing]
    rfl
  obtain ⟨duties, hsettle⟩ := session_settle signer writer (c.step signer writer .stop)
  exact ⟨duties, hstop.trans hsettle⟩

theorem run_draining (c : Course σ ω) (duties : List Duty) :
    (c.run signer writer (draining duties)).made = c.made ∧
      (c.run signer writer (draining duties)).calls = c.calls := by
  obtain ⟨stream, signer', store, hsettling⟩ :=
    run_settling signer writer (c.step signer writer .stop) duties
  have hrun : c.run signer writer (draining duties) =
      (c.step signer writer .stop).run signer writer (settling duties) := rfl
  have hstop : (c.step signer writer .stop).made = c.made ∧ (c.step signer writer .stop).calls = c.calls := by
    rw [step]
    split <;> exact ⟨rfl, rfl⟩
  rw [hrun, hsettling]
  exact hstop

end Course

end RoundChain
