import RoundChain.Proofs.Maps
import RoundChain.Store.Directory

/-!
# Directories

What is in a directory behind changes: the entry of a name that was set or removed, and those of all
other names. `Directory.step_cases` says all that a step can do; from it, a step changes the entries of
its own names only, `FileStep.names`, and so do steps that are cut off, `FileStep.Cut`: after any number
of them, or within the one that writes.
-/

namespace RoundChain

/-! ### Entries -/

namespace Directory

variable {d : Directory} {name other : String} {entry : DirEntry}

@[simp] theorem find?_set_self : (d.set name entry).find? name = some entry := by
  simp [find?, set]

theorem find?_remove_of_ne (h : other ≠ name) : (d.remove name).find? other = d.find? other :=
  lookup_filter_ne d.entries h

theorem find?_set_of_ne (h : other ≠ name) : (d.set name entry).find? other = d.find? other := by
  have hkey : (other == name) = false := beq_false_of_ne h
  rw [find?, set, List.lookup_cons, hkey]
  exact find?_remove_of_ne h

@[simp] theorem find?_remove_self : (d.remove name).find? name = none := lookup_filter_self d.entries

/-- Each name stands once. -/
def Distinct (d : Directory) : Prop := (d.entries.map (·.1)).Nodup

theorem Distinct.remove (h : d.Distinct) (name : String) : (d.remove name).Distinct :=
  List.Nodup.sublist (List.filter_sublist.map _) h

theorem Distinct.set (h : d.Distinct) (name : String) (entry : DirEntry) : (d.set name entry).Distinct := by
  have habsent : name ∉ (d.remove name).entries.map (·.1) := by
    simp [Directory.remove]
  exact List.nodup_cons.mpr ⟨habsent, h.remove name⟩

/-- Only files are in the directory. -/
def Flat (d : Directory) : Prop := ∀ name, d.find? name ≠ some .folder

theorem Flat.remove (h : d.Flat) (name : String) : (d.remove name).Flat := by
  intro other hfolder
  by_cases hother : other = name
  · rw [hother, find?_remove_self] at hfolder
    cases hfolder
  · rw [find?_remove_of_ne hother] at hfolder
    exact h other hfolder

theorem Flat.set (h : d.Flat) (name : String) (hentry : entry ≠ .folder) : (d.set name entry).Flat := by
  intro other hfolder
  by_cases hother : other = name
  · rw [hother, find?_set_self] at hfolder
    exact hentry (Option.some.inj hfolder)
  · rw [find?_set_of_ne hother] at hfolder
    exact h other hfolder

theorem mem_names_iff : name ∈ d.names ↔ ∃ entry, d.find? name = some entry := by
  rw [names, List.mem_mergeSort, find?]
  induction d.entries with
  | nil => simp
  | cons e rest ih =>
    obtain ⟨key, value⟩ := e
    rw [List.map_cons, List.mem_cons, ih, List.lookup_cons]
    by_cases hkey : name = key
    · simp [hkey]
    · have hkey' : (name == key) = false := beq_false_of_ne hkey
      simp [hkey, hkey']

theorem Distinct.nodup_names (h : d.Distinct) : d.names.Nodup :=
  (List.mergeSort_perm _ _).nodup_iff.mpr h

theorem find?_of_contains (h : d.contains name = false) : d.find? name = none := by
  simpa [contains] using h

end Directory

/-! ### Steps -/

namespace FileStep

/-- The names whose entries a step may change. -/
def names : FileStep → List String
  | .create name => [name]
  | .write name _ => [name]
  | .sync _ => []
  | .rename name target => [name, target]

/-- What is done of steps that are cut off: the first of them, and perhaps a part of the write that follows. -/
inductive Cut : List FileStep → List FileStep → Prop where
  | off {steps : List FileStep} : Cut [] steps
  | torn {name : String} {content part : Bytes} {rest : List FileStep} : part <+: content →
      Cut [.write name part] (.write name content :: rest)
  | cons {step : FileStep} {done rest : List FileStep} : Cut done rest → Cut (step :: done) (step :: rest)

theorem cut_refl (steps : List FileStep) : Cut steps steps := by
  induction steps with
  | nil => exact .off
  | cons _ _ ih => exact .cons ih

/-- The steps up to the first write, of which only so many bytes are written. -/
def torn (bytes : Nat) : List FileStep → List FileStep
  | [] => []
  | .write name content :: _ => [.write name (content.take bytes)]
  | step :: rest => step :: torn bytes rest

theorem cut_torn (bytes : Nat) (steps : List FileStep) : Cut (torn bytes steps) steps := by
  induction steps with
  | nil => exact .off
  | cons step rest ih =>
    cases step with
    | write name content => exact .torn (List.take_prefix ..)
    | _ => exact .cons ih

/-- What is done of steps that follow others. -/
theorem Cut.append_cases {done a b : List FileStep} (h : Cut done (a ++ b)) :
    Cut done a ∨ ∃ later, done = a ++ later ∧ Cut later b := by
  induction a generalizing done with
  | nil => exact .inr ⟨done, rfl, h⟩
  | cons step rest ih =>
    cases h with
    | off => exact .inl .off
    | torn hpart => exact .inl (.torn hpart)
    | cons hrest =>
      rcases ih hrest with hcut | ⟨later, rfl, hlater⟩
      · exact .inl (.cons hcut)
      · exact .inr ⟨later, rfl, hlater⟩

/-- What is done of steps that are cut off changes no other names. -/
theorem Cut.names {done steps : List FileStep} (h : Cut done steps) :
    ∀ step ∈ done, ∃ whole ∈ steps, step.names = whole.names := by
  induction h with
  | off => nofun
  | torn _ =>
    intro step hstep
    obtain rfl := List.mem_singleton.mp hstep
    exact ⟨_, List.mem_cons_self, rfl⟩
  | cons _ ih =>
    intro step hstep
    rcases List.mem_cons.mp hstep with rfl | hstep
    · exact ⟨_, List.mem_cons_self, rfl⟩
    · obtain ⟨whole, hwhole, hnames⟩ := ih step hstep
      exact ⟨whole, List.mem_cons_of_mem _ hwhole, hnames⟩

end FileStep

namespace Directory

variable {d after : Directory} {name : String}

theorem step_write {name : String} {before : Bytes} (h : d.find? name = some (.file before))
    (content : Bytes) : d.step (.write name content) = .ok (d.set name (.file content)) := by
  simp only [step, h]

theorem step_rename {name target : String} {content : Bytes} (h : d.find? name = some (.file content))
    (htarget : d.find? target ≠ some .folder) :
    d.step (.rename name target) = .ok ((d.remove name).set target (.file content)) := by
  simp only [step, h]
  cases hentry : d.find? target with
  | none => rfl
  | some entry =>
    cases entry with
    | file _ => rfl
    | folder => exact absurd hentry htarget

theorem step_rename_folder {name target : String} {content : Bytes} (h : d.find? name = some (.file content))
    (htarget : d.find? target = some .folder) : d.step (.rename name target) = .error isFolder := by
  simp only [step, h, htarget]

theorem steps_cons_of_ok {s : FileStep} (h : d.step s = .ok after) (rest : List FileStep) :
    d.steps (s :: rest) = after.steps rest := by
  rw [steps, h]

theorem steps_append_of_ok {a : List FileStep} (h : d.steps a = (.ok (), after))
    (b : List FileStep) : d.steps (a ++ b) = after.steps b := by
  induction a generalizing d with
  | nil =>
    cases h
    rfl
  | cons first rest ih =>
    rw [List.cons_append, steps] at *
    cases hstep : d.step first with
    | ok next =>
      simp only [hstep] at h ⊢
      exact ih h
    | error e =>
      simp only [hstep] at h
      cases h

/-- What a step does that succeeds: it sets a file, changes nothing, or moves an entry. -/
theorem step_cases {step : FileStep} (h : d.step step = .ok after) :
    (∃ name content, step.names = [name] ∧ after = d.set name (.file content)) ∨ after = d ∨
      ∃ name target entry, step.names = [name, target] ∧ d.find? name = some entry ∧
        after = (d.remove name).set target entry := by
  cases step with
  | create name =>
    simp only [Directory.step] at h
    split at h
    · cases h
    · cases h
      exact .inl ⟨name, [], rfl, rfl⟩
  | write name content =>
    simp only [Directory.step] at h
    split at h
    · cases h
    · cases h
      exact .inl ⟨name, content, rfl, rfl⟩
    · cases h
  | sync name =>
    cases h
    exact .inr (.inl rfl)
  | rename name target =>
    simp only [Directory.step] at h
    split at h
    · cases h
    · cases h
    · rename_i hentry _
      cases h
      exact .inr (.inr ⟨name, target, _, rfl, hentry, rfl⟩)

theorem find?_step {step : FileStep} (h : d.step step = .ok after) (hname : name ∉ step.names) :
    after.find? name = d.find? name := by
  rcases step_cases h with ⟨other, content, hnames, rfl⟩ | rfl | ⟨other, target, entry, hnames, -, rfl⟩
  · rw [hnames] at hname
    exact find?_set_of_ne (List.ne_of_not_mem_cons hname)
  · rfl
  · rw [hnames] at hname
    have htarget : name ≠ target := List.ne_of_not_mem_cons (List.not_mem_of_not_mem_cons hname)
    rw [find?_set_of_ne htarget, find?_remove_of_ne (List.ne_of_not_mem_cons hname)]

theorem Distinct.step (h : d.Distinct) {step : FileStep} (hstep : d.step step = .ok after) : after.Distinct := by
  rcases step_cases hstep with ⟨name, content, -, rfl⟩ | rfl | ⟨name, target, entry, -, -, rfl⟩
  · exact h.set _ _
  · exact h
  · exact (h.remove _).set _ _

/-- What every step preserves, steps preserve, also where one of them fails. -/
theorem steps_induction {P : Directory → Prop}
    (hstep : ∀ {d after : Directory} {step : FileStep}, P d → d.step step = .ok after → P after) (h : P d)
    (steps : List FileStep) : P (d.steps steps).2 := by
  induction steps generalizing d with
  | nil => exact h
  | cons first rest ih =>
    rw [Directory.steps]
    cases hfirst : d.step first with
    | error e => exact h
    | ok after => exact ih (hstep h hfirst)

/-- Steps leave each name once. -/
theorem Distinct.steps (h : d.Distinct) (steps : List FileStep) : (d.steps steps).2.Distinct :=
  steps_induction (fun hbefore hstep => hbefore.step hstep) h steps

theorem Flat.step (h : d.Flat) {step : FileStep} (hstep : d.step step = .ok after) : after.Flat := by
  rcases step_cases hstep with ⟨name, content, -, rfl⟩ | rfl | ⟨name, target, entry, -, hentry, rfl⟩
  · exact h.set name DirEntry.noConfusion
  · exact h
  · refine (h.remove name).set target ?_
    rintro rfl
    exact h name hentry

/-- Steps make no folders. -/
theorem Flat.steps (h : d.Flat) (steps : List FileStep) : (d.steps steps).2.Flat :=
  steps_induction (fun hbefore hstep => hbefore.step hstep) h steps

/-- Steps leave the entries of all names that none of them is about. -/
theorem find?_steps {steps : List FileStep} (h : ∀ step ∈ steps, name ∉ step.names) :
    (d.steps steps).2.find? name = d.find? name := by
  induction steps generalizing d with
  | nil => rfl
  | cons first rest ih =>
    rw [steps]
    cases hstep : d.step first with
    | error e => rfl
    | ok after =>
      exact (ih fun step hmem => h step (List.mem_cons_of_mem _ hmem)).trans
        (find?_step hstep (h first List.mem_cons_self))

end Directory

end RoundChain
