import RoundChain.Libraries
import RoundChain.Node.Roster
import RoundChain.Proofs.Readiness

/-!
# The bootstrap of a node

Settings that `NodeConfig.validate` accepts ask for no more than their roster can give, so the bootstrap of a
node always comes to its end and leaves a signer that is ready: `bootstrap_of_validate`.

Both loops of the bootstrap go through the nodes by ascending id and stop early. Each keeps an invariant over
the nodes behind it, and by the invariant those are too few: fewer than the threshold have registered
(`Registering`), less than a third have endorsed (`Endorsing`). A step keeps the invariant or brings the loop to
its end, `Registering.register` and `Endorsing.submit`; since all nodes together are enough, no loop runs out of
them, `eachUntil_ends`.

That the keys of the nodes are good for their purpose, `HasKey` and `Endorses`, is assumed.
-/

namespace RoundChain.Roster

open Bls12381 (PublicKey)

section

variable {size : UInt64} {metadata : Bytes} {t : Nat} {done rest : List UInt64} {node : UInt64}
  {services : SigningServices} {schemes : SchemeConfig} {roster : RosterConfig}

/-! ### Nodes -/

/-- The nodes with the lowest ids, as many as asked for. -/
def firstNodes (n : Nat) : List UInt64 := (List.range n).map UInt64.ofNat

theorem length_nodes (size : UInt64) : (nodes size).length = size.toNat := by
  rw [nodes, List.length_map, List.length_range]

theorem take_nodes {n : Nat} (h : n ≤ size.toNat) : (nodes size).take n = firstNodes n := by
  rw [nodes, ← List.map_take, List.take_range, Nat.min_eq_left h, firstNodes]

/-- The nodes of a roster ascend. -/
theorem pairwise_nodes (size : UInt64) : (nodes size).Pairwise (· < ·) := by
  refine List.pairwise_map.mpr (List.pairwise_lt_range.imp_of_mem fun {a b} ha hb hab => ?_)
  have hsize := size.toNat_lt
  have hword := size_word
  rw [List.mem_range] at ha hb
  rw [UInt64.lt_iff_toNat_lt, UInt64.toNat_ofNat_of_lt' (by omega), UInt64.toNat_ofNat_of_lt' (by omega)]
  exact hab

theorem nodup_nodes (size : UInt64) : (nodes size).Nodup := (pairwise_nodes size).imp UInt64.ne_of_lt

/-- The nodes behind a loop have lower ids than the one it is at. -/
theorem lt_of_mem_behind (h : done ++ node :: rest = nodes size) : ∀ other ∈ done, other < node := by
  have hascend := pairwise_nodes size
  rw [← h, List.pairwise_append] at hascend
  exact fun other hother => hascend.2.2 other hother node List.mem_cons_self

theorem mem_nodes_of_reached (h : done ++ node :: rest = nodes size) :
    ∀ other ∈ done ++ [node], other ∈ nodes size := by
  intro other hother
  rw [← h, ← List.singleton_append, ← List.append_assoc]
  exact List.mem_append_left _ hother

/-- With the one it is at, the nodes behind a loop are the first of the roster. -/
theorem behind_concat_eq (h : done ++ node :: rest = nodes size) : done ++ [node] = firstNodes (done.length + 1) := by
  have hlength := congrArg List.length h
  rw [length_nodes, List.length_append, List.length_cons] at hlength
  have hbound : done.length + 1 ≤ size.toNat := by omega
  rw [← take_nodes hbound, ← h, List.take_append, List.take_of_length_le (by omega)]
  simp

/-! ### Loops -/

/-- **A loop ends well if each step keeps its invariant or ends the loop, and the invariant does not hold of
all nodes.** -/
theorem eachUntil_ends {step : UInt64 → SigningServices → Step Bool} {all : List UInt64}
    (Inv : List UInt64 → SigningServices → Prop) (Goal : SigningServices → Prop)
    (hstep : ∀ done node rest services, done ++ node :: rest = all → Inv done services →
      (∃ next, step node services = (.ok false, next) ∧ Inv (done ++ [node]) next) ∨
      (∃ next, step node services = (.ok true, next) ∧ Goal next))
    (hend : ∀ services, ¬ Inv all services) (hall : done ++ rest = all) (h : Inv done services) :
    ∃ next, eachUntil step services rest = (.ok (), next) ∧ Goal next := by
  induction rest generalizing done services with
  | nil =>
    rw [List.append_nil] at hall
    exact absurd (hall ▸ h) (hend services)
  | cons node rest ih =>
    obtain ⟨next, hcall, hnext⟩ | ⟨next, hcall, hgoal⟩ := hstep done node rest services hall h
    · obtain ⟨last, hloop, hgoal⟩ := ih (by simpa using hall) hnext
      refine ⟨last, ?_, hgoal⟩
      simp [eachUntil, hcall, hloop]
    · refine ⟨next, ?_, hgoal⟩
      simp [eachUntil, hcall]

/-! ### Registering -/

section

variable [Bls12381.Library]

/-- A node's key can be derived, and it may be added to others. -/
def HasKey (node : UInt64) : Prop := ∃ key, thresholdKey node = .ok key ∧ key.publicKey.isValid = true

/-- How a node registers, if its key can be derived. -/
def registration (node : UInt64) : Option Registration := (thresholdKey node).toOption.map (node, ·)

/-- How nodes register. -/
def registrations (nodes : List UInt64) : List Registration := nodes.filterMap registration

/-- The sum of the keys of the first nodes. -/
def jointKey (threshold : Nat) : Except CryptoError PublicKey :=
  PublicKey.aggregate ((registrations (firstNodes threshold)).map fun call => call.2.publicKey)

theorem registration_eq_some_iff {call : Registration} :
    registration node = some call ↔ call.1 = node ∧ thresholdKey node = .ok call.2 := by
  obtain ⟨party, key⟩ := call
  rw [registration]
  cases thresholdKey node with
  | error e => simp [Except.toOption]
  | ok key' => simp [Except.toOption, eq_comm]

theorem mem_registrations {call : Registration} (h : call ∈ registrations done) :
    call.1 ∈ done ∧ thresholdKey call.1 = .ok call.2 := by
  obtain ⟨node, hnode, hcall⟩ := List.mem_filterMap.mp h
  obtain ⟨rfl, hkey⟩ := registration_eq_some_iff.mp hcall
  exact ⟨hnode, hkey⟩

theorem registrations_concat {key : Bls12381.SecretKey} (hkey : thresholdKey node = .ok key) :
    registrations (done ++ [node]) = registrations done ++ [(node, key)] := by
  have hcall : registration node = some (node, key) := registration_eq_some_iff.mpr ⟨rfl, hkey⟩
  simp [registrations, hcall]

theorem length_registrations (h : ∀ node ∈ done, HasKey node) : (registrations done).length = done.length := by
  induction done using List.reverseRecOn with
  | nil => rfl
  | append_singleton done node ih =>
    obtain ⟨key, hkey, -⟩ := h node (by simp)
    have hdone := ih fun other hother => h other (List.mem_append_left _ hother)
    simp [registrations_concat hkey, hdone]

theorem usable_registrations (h : ∀ node ∈ done, HasKey node) : Usable (registrations done) := by
  intro call hcall
  obtain ⟨hnode, hkey⟩ := mem_registrations hcall
  obtain ⟨key, hsame, hvalid⟩ := h call.1 hnode
  rw [hkey, Except.ok.injEq] at hsame
  exact hsame ▸ hvalid

/-- What a construction has made of nodes that registered, while more of them are needed. -/
structure Registering (c : ThresholdConstruction) (t : Nat) (done : List UInt64) : Prop where
  threshold : c.threshold = t
  needed : done.length < t
  waits : c.key = none
  parties : c.parties.entries = registrations done

section

variable {c : ThresholdConstruction} {key : Bls12381.SecretKey}

theorem registering_new (h : ThresholdConstruction.new t = .ok c) : Registering c t [] := by
  unfold ThresholdConstruction.new at h
  split at h
  · cases h
  · rename_i hpos
    cases h
    exact ⟨rfl, Nat.pos_of_ne_zero hpos, rfl, rfl⟩

theorem Registering.not_mem_keys (h : Registering c t done) (hless : ∀ other ∈ done, other < node) :
    node ∉ c.parties.keys := by
  rw [WordMap.keys, h.parties]
  intro hmem
  obtain ⟨call, hcall, hnode⟩ := List.mem_map.mp hmem
  have hold := hless call.1 (mem_registrations hcall).1
  rw [hnode] at hold
  exact UInt64.lt_irrefl node hold

/-- The parties are added by ascending id. -/
theorem Registering.parties_enrolledWith (h : Registering c t done) (hless : ∀ other ∈ done, other < node)
    (hkey : thresholdKey node = .ok key) :
    (c.enrolledWith (node, key)).parties.entries = registrations (done ++ [node]) := by
  rw [registrations_concat hkey, ← h.parties]
  apply WordMap.entries_insert_of_lt
  intro e he
  rw [h.parties] at he
  exact hless e.1 (mem_registrations he).1

/-- **The next node is one party more, and the last one needed brings the key.** -/
theorem Registering.register (h : Registering c t done) (hless : ∀ other ∈ done, other < node)
    (hkeys : ∀ other ∈ done ++ [node], HasKey other) (hkey : thresholdKey node = .ok key) :
    (∃ d, c.register node key = (.ok false, d) ∧ Registering d t (done ++ [node])) ∨
    (done.length + 1 = t ∧ ∃ d joint, c.register node key = (.ok true, d) ∧ d.key = some joint ∧
      PublicKey.aggregate ((registrations (done ++ [node])).map fun call => call.2.publicKey) = .ok joint) := by
  have hneeded := h.needed
  have hthreshold := h.threshold
  have hparties := h.parties_enrolledWith hless hkey
  have hsize : (c.enrolledWith (node, key)).parties.size = done.length + 1 := by
    rw [WordMap.size, hparties, length_registrations hkeys, List.length_append, List.length_singleton]
  have hgrows : (c.enrolledWith (node, key)).parties.size = c.parties.size + 1 :=
    ThresholdConstruction.size_enrolledWith (h.not_mem_keys hless)
  rcases hresult : c.register node key with ⟨answer, d⟩
  have hcall : c.Registers (node, key) answer d := by simpa [hresult] using c.registers (node, key)
  cases hcall with
  | late hconverged => simp [h.waits] at hconverged
  | repeated _ hold => exact absurd hold (h.not_mem_keys hless)
  | waits _ _ hfew =>
    have hmore : (done ++ [node]).length < t := by
      rw [List.length_append, List.length_singleton]
      omega
    exact .inl ⟨_, rfl, hthreshold, hmore, h.waits, hparties⟩
  | converges _ _ henough hconverge =>
    have hall : (c.enrolledWith (node, key)).parties.size ≤ (c.enrolledWith (node, key)).threshold := by
      show (c.enrolledWith (node, key)).parties.size ≤ c.threshold
      omega
    obtain ⟨-, -, hsigners, joint, hjoint, hsum⟩ := ThresholdConstruction.converge_eq_ok hconverge hall
    rw [hsigners, hparties] at hsum
    exact .inr ⟨by omega, d, joint, rfl, hjoint, hsum⟩
  | fails _ _ _ hfails =>
    -- keys that are all valid can be added up
    have hne : (c.enrolledWith (node, key)).parties.entries ≠ [] := by
      intro hnil
      simp [WordMap.size, hnil] at hsize
    have hpos : 0 < (c.enrolledWith (node, key)).threshold := by
      show 0 < c.threshold
      omega
    obtain ⟨d, hconverge⟩ := ThresholdConstruction.converge_of_valid hne hpos
      (hparties ▸ usable_registrations hkeys)
    rw [hconverge] at hfails
    cases hfails

end

theorem register_eq {key : Bls12381.SecretKey} (hkey : thresholdKey node = .ok key) (services : SigningServices) :
    register node services = (Checked.ofExcept ((services.register node key).1.mapError .stream),
      (services.register node key).2) := by
  rw [register, hkey, registerWith]

/-- Services whose construction still needs nodes. -/
def StillRegistering (start : SigningServices) (t : Nat) (done : List UInt64) (services : SigningServices) : Prop :=
  ∃ c, services = { start with threshold := some (.construction c) } ∧ Registering c t done

/-- Services whose construction has the key of the first nodes. -/
def Converged (start : SigningServices) (t : Nat) (services : SigningServices) : Prop :=
  ∃ c joint, services = { start with threshold := some (.construction c) } ∧ c.key = some joint ∧
    jointKey t = .ok joint

theorem StillRegistering.step {start : SigningServices} (h : StillRegistering start t done services)
    (hnodes : done ++ node :: rest = nodes size) (hkeys : ∀ node ∈ nodes size, HasKey node) :
    (∃ next, register node services = (.ok false, next) ∧ StillRegistering start t (done ++ [node]) next) ∨
    (∃ next, register node services = (.ok true, next) ∧ Converged start t next) := by
  obtain ⟨c, rfl, hc⟩ := h
  have hreached : ∀ other ∈ done ++ [node], HasKey other := by
    intro other hother
    exact hkeys other (mem_nodes_of_reached hnodes other hother)
  obtain ⟨key, hkey, -⟩ := hreached node (by simp)
  obtain ⟨d, hcall, hd⟩ | ⟨hlast, d, joint, hcall, hjoint, hsum⟩ :=
    hc.register (lt_of_mem_behind hnodes) hreached hkey
  · refine .inl ⟨{ start with threshold := some (.construction d) }, ?_, d, rfl, hd⟩
    rw [register_eq hkey]
    simp [SigningServices.register, hcall, Except.mapError, Checked.ofExcept]
  · rw [behind_concat_eq hnodes, hlast] at hsum
    refine .inr ⟨{ start with threshold := some (.construction d) }, ?_, d, joint, rfl, hjoint, hsum⟩
    rw [register_eq hkey]
    simp [SigningServices.register, hcall, Except.mapError, Checked.ofExcept]

/-- **A construction converges if its roster has enough nodes.** -/
theorem eachUntil_register {c : ThresholdConstruction} (hnew : ThresholdConstruction.new t = .ok c)
    (hservices : services.threshold = some (.construction c)) (hkeys : ∀ node ∈ nodes size, HasKey node)
    (henough : t ≤ size.toNat) :
    ∃ next, eachUntil register services (nodes size) = (.ok (), next) ∧ Converged services t next := by
  refine eachUntil_ends (StillRegistering services t) (Converged services t)
    (fun _ _ _ _ hnodes h => h.step hnodes hkeys) ?_ (List.nil_append _) ⟨c, ?_, registering_new hnew⟩
  · rintro _ ⟨d, -, hd⟩
    have hneeded := hd.needed
    rw [length_nodes] at hneeded
    omega
  · rw [← hservices]

end

/-! ### Endorsing -/

section

variable [Ed25519.Library]

/-- The members of a roster, each with its key and its weight. -/
def members (size : UInt64) : List Member :=
  (nodes size).map fun node => (node, (historyKey node).publicKey, weight)

/-- A node's signature over the address book of its roster, together with metadata. -/
def endorsement (size : UInt64) (metadata : Bytes) (node : UInt64) : Ed25519.Signature :=
  (historyKey node).signBinding (addressBook size).bytes metadata

/-- A node's own key accepts its endorsement. -/
def Endorses (size : UInt64) (metadata : Bytes) (node : UInt64) : Prop :=
  (historyKey node).publicKey.verifyBinding (addressBook size).bytes metadata (endorsement size metadata node) =
    .ok ()

/-- The proof that nodes make up. -/
def proofBy (size : UInt64) (metadata : Bytes) (nodes : List UInt64) : HistoryProof :=
  ⟨addressBook size, metadata, nodes.map fun node => ⟨node, (endorsement size metadata node).bytes⟩⟩

theorem rosterWeight_members (size : UInt64) : rosterWeight (members size) = size.toNat := by
  have hweights : (members size).map (fun member => member.2.2.toNat) = (nodes size).map fun _ => 1 := by
    rw [members, List.map_map]
    rfl
  rw [rosterWeight, hweights]
  simp [length_nodes]

/-- A roster with any node makes a collector. -/
theorem exists_collector (h : size ≠ 0) : ∃ c, HistoryCollector.new (addressBook size) (members size) = .ok c := by
  have hnodes : (members size).map (·.1) = nodes size := by
    rw [members, List.map_map]
    exact List.map_id _
  have hpos : size.toNat ≠ 0 := fun hzero => h (UInt64.toNat_inj.mp hzero)
  have hsize := size.toNat_lt
  have hword := size_word
  apply HistoryCollector.exists_new
  · rw [hnodes]
    exact nodup_nodes size
  · rw [rosterWeight_members]
    omega
  · rw [rosterWeight_members]
    omega

/-- What a collector has made of nodes that endorsed metadata, while more of them are needed. -/
structure Endorsing (c : HistoryCollector) (size : UInt64) (metadata : Bytes) (done : List UInt64) : Prop
    extends c.Rostered (addressBook size) (members size) where
  needed : 3 * done.length < size.toNat
  waits : c.proofFor metadata = none
  signatures : (c.signaturesFor metadata).entries = done.map fun node => (node, endorsement size metadata node)

section

variable {c : HistoryCollector}

theorem endorsing_new (hsize : size ≠ 0) (h : HistoryCollector.new (addressBook size) (members size) = .ok c)
    (metadata : Bytes) : Endorsing c size metadata [] := by
  obtain ⟨hbook, hroster, htotal, -, hgathered, hproofs⟩ := HistoryCollector.new_eq_ok h
  have hpos : size.toNat ≠ 0 := fun hzero => hsize (UInt64.toNat_inj.mp hzero)
  refine ⟨⟨hbook, hroster, htotal⟩, Nat.pos_of_ne_zero hpos, ?_, ?_⟩
  · rw [HistoryCollector.proofFor, hproofs, List.find?_nil]
  · rw [HistoryCollector.signaturesFor, hgathered]
    rfl

theorem mem_members (h : node ∈ nodes size) : (node, (historyKey node).publicKey, weight) ∈ members size :=
  List.mem_map.mpr ⟨node, h, rfl⟩

/-- Every node of the roster counts for one. -/
theorem sum_weightAt_nodes (h : c.Rostered (addressBook size) (members size)) {ns : List UInt64}
    (hns : ∀ node ∈ ns, node ∈ nodes size) : (ns.map c.weightAt).sum = ns.length := by
  have hone : ∀ node ∈ ns, c.weightAt node = 1 := by
    intro node hnode
    have hentry := h.roster.mem_iff.mpr (List.mem_map.mpr ⟨_, mem_members (hns node hnode), rfl⟩)
    exact HistoryCollector.weightAt_eq hentry
  rw [List.map_congr_left hone]
  simp

/-- The signatures are gathered by ascending id. -/
theorem Endorsing.entries_gatheredWith (h : Endorsing c size metadata done) (hless : ∀ other ∈ done, other < node) :
    (c.gatheredWith ⟨node, metadata, endorsement size metadata node⟩).entries =
      (done ++ [node]).map fun node => (node, endorsement size metadata node) := by
  rw [List.map_append, ← h.signatures]
  apply WordMap.entries_insert_of_lt
  intro e he
  simp only at he
  rw [h.signatures] at he
  obtain ⟨other, hother, rfl⟩ := List.mem_map.mp he
  exact hless other hother

/-- **The next node is one endorser more, and the one that makes a third brings the proof.** -/
theorem Endorsing.submit (h : Endorsing c size metadata done) (hnodes : done ++ node :: rest = nodes size)
    (hvalid : Endorses size metadata node) :
    (∃ d, c.submit node metadata (endorsement size metadata node) = (.ok false, d) ∧
      Endorsing d size metadata (done ++ [node])) ∨
    (∃ d, c.submit node metadata (endorsement size metadata node) = (.ok true, d) ∧
      d.proofFor metadata = some (proofBy size metadata (firstNodes ((size.toNat + 2) / 3)))) := by
  have hneeded := h.needed
  have hentries := h.entries_gatheredWith (lt_of_mem_behind hnodes)
  have hkeys : (c.gatheredWith ⟨node, metadata, endorsement size metadata node⟩).keys = done ++ [node] := by
    rw [WordMap.keys, hentries, List.map_map]
    exact List.map_id _
  have hthird : c.HasThird (done ++ [node]) ↔ size.toNat ≤ 3 * (done.length + 1) := by
    rw [HistoryCollector.HasThird, sum_weightAt_nodes h.toRostered (mem_nodes_of_reached hnodes), h.total,
      rosterWeight_members, List.length_append, List.length_singleton]
  have hendorsed : c.Endorsed metadata node (endorsement size metadata node) := by
    have hmember := mem_members (mem_nodes_of_reached hnodes node (by simp))
    rw [h.endorsed_member_iff hmember, hvalid]
    rfl
  rcases hresult : c.submit node metadata (endorsement size metadata node) with ⟨answer, d⟩
  have hcall := h.balanced.submits ⟨node, metadata, endorsement size metadata node⟩
  simp only [hresult] at hcall
  cases hcall with
  | refused hnot => exact absurd hendorsed hnot
  | late _ hproof => simp [h.waits] at hproof
  | waits _ _ hfew =>
    rw [hkeys, hthird] at hfew
    refine .inl ⟨_, rfl, ⟨h.sameBook, h.roster, h.total⟩, ?_, h.waits, ?_⟩
    · rw [List.length_append, List.length_singleton]
      omega
    · rw [HistoryCollector.signaturesFor_waitingWith, if_pos rfl, hentries]
  | forms _ _ henough =>
    rw [hkeys, hthird] at henough
    -- the nodes behind were too few, so with this one they are just a third
    have hlast : (size.toNat + 2) / 3 = done.length + 1 := by omega
    refine .inr ⟨_, rfl, ?_⟩
    rw [HistoryCollector.proofFor_formedWith h.waits, if_pos rfl, hlast, ← behind_concat_eq hnodes,
      HistoryCollector.proofOf, hentries, h.sameBook, proofBy, List.map_map]
    rfl

end

/-- Services whose collector still needs endorsements. -/
def StillEndorsing (start : SigningServices) (size : UInt64) (metadata : Bytes) (done : List UInt64)
    (services : SigningServices) : Prop :=
  ∃ c, services = { start with history := some (.collector c) } ∧ Endorsing c size metadata done

/-- Services whose collector has the proof by the first third of the nodes. -/
def Proven (start : SigningServices) (size : UInt64) (metadata : Bytes) (services : SigningServices) : Prop :=
  ∃ c, services = { start with history := some (.collector c) } ∧
    c.proofFor metadata = some (proofBy size metadata (firstNodes ((size.toNat + 2) / 3)))

theorem StillEndorsing.step {start : SigningServices} (h : StillEndorsing start size metadata done services)
    (hnodes : done ++ node :: rest = nodes size) (hvalid : ∀ node ∈ nodes size, Endorses size metadata node) :
    (∃ next, submit (addressBook size) metadata node services = (.ok false, next) ∧
      StillEndorsing start size metadata (done ++ [node]) next) ∨
    (∃ next, submit (addressBook size) metadata node services = (.ok true, next) ∧
      Proven start size metadata next) := by
  obtain ⟨c, rfl, hc⟩ := h
  have hnode := hvalid node (mem_nodes_of_reached hnodes node (by simp))
  obtain ⟨d, hcall, hd⟩ | ⟨d, hcall, hproof⟩ := hc.submit hnodes hnode
  · refine .inl ⟨{ start with history := some (.collector d) }, ?_, d, rfl, hd⟩
    rw [submit, ← endorsement]
    simp [SigningServices.submit, hcall, Checked.mapCause]
  · refine .inr ⟨{ start with history := some (.collector d) }, ?_, d, rfl, hproof⟩
    rw [submit, ← endorsement]
    simp [SigningServices.submit, hcall, Checked.mapCause]

/-- **A collector over a roster comes to a proof.** -/
theorem eachUntil_submit {c : HistoryCollector} (hsize : size ≠ 0)
    (hnew : HistoryCollector.new (addressBook size) (members size) = .ok c)
    (hservices : services.history = some (.collector c)) (hvalid : ∀ node ∈ nodes size, Endorses size metadata node) :
    ∃ next, eachUntil (submit (addressBook size) metadata) services (nodes size) = (.ok (), next) ∧
      Proven services size metadata next := by
  refine eachUntil_ends (StillEndorsing services size metadata) (Proven services size metadata)
    (fun _ _ _ _ hnodes h => h.step hnodes hvalid) ?_ (List.nil_append _) ⟨c, ?_, endorsing_new hsize hnew metadata⟩
  · rintro _ ⟨d, -, hd⟩
    have hneeded := hd.needed
    rw [length_nodes] at hneeded
    omega
  · rw [← hservices]

end

/-! ### Setting up -/

/-- What the settings of a node promise about its roster. -/
theorem roster_of_validate {config : NodeConfig} (h : config.validate = .ok ()) :
    config.roster.size ≠ 0 ∧ (config.stream.schemes.hints = true →
      0 < config.roster.threshold ∧ config.roster.threshold ≤ config.roster.size.toNat) := by
  obtain ⟨_, -, h⟩ := bind_eq_ok_iff.mp h
  split at h
  · cases h
  rename_i hsize
  split at h
  · cases h
  rename_i hrange
  refine ⟨hsize, fun hhints => ?_⟩
  simp only [hhints, true_and, not_or] at hrange
  omega

theorem exists_thresholdService (h : schemes.hints = true → 0 < roster.threshold) :
    ∃ service, thresholdService schemes roster = .ok service ∧
      (schemes.hints = true → ∃ c, ThresholdConstruction.new roster.threshold = .ok c ∧
        service = some (.construction c)) ∧
      (schemes.hints = false → service = none) := by
  cases hhints : schemes.hints with
  | false => exact ⟨none, by simp [thresholdService, hhints, return_eq_ok], nofun, fun _ => rfl⟩
  | true =>
    have hpos : roster.threshold ≠ 0 := Nat.pos_iff_ne_zero.mp (h hhints)
    have hnew : ThresholdConstruction.new roster.threshold = .ok ⟨roster.threshold, .empty, [], none⟩ := if_neg hpos
    refine ⟨_, ?_, fun _ => ⟨_, hnew, rfl⟩, nofun⟩
    simp [thresholdService, hhints, hnew]

theorem usesThreshold_ofConfig (schemes : SchemeConfig) :
    (SignatureScheme.ofConfig schemes).usesThreshold = schemes.hints := by
  obtain ⟨hints, history⟩ := schemes
  cases hints <;> cases history <;> rfl

theorem hasHistory_ofConfig (schemes : SchemeConfig) :
    (SignatureScheme.ofConfig schemes).hasHistory = schemes.history := by
  obtain ⟨hints, history⟩ := schemes
  cases hints <;> cases history <;> rfl

variable [Ed25519.Library]

/-- Services as the settings ask for them, before any of the nodes takes part. -/
structure Furnished (schemes : SchemeConfig) (roster : RosterConfig) (services : SigningServices) : Prop where
  construction : schemes.hints = true → ∃ c,
    ThresholdConstruction.new roster.threshold = .ok c ∧ services.threshold = some (.construction c)
  noConstruction : schemes.hints = false → services.threshold = none
  collector : schemes.history = true → ∃ c,
    HistoryCollector.new (addressBook roster.size) (members roster.size) = .ok c ∧
      services.history = some (.collector c)
  noCollector : schemes.history = false → services.history = none

theorem exists_historyService (schemes : SchemeConfig) (h : roster.size ≠ 0) :
    ∃ service, historyService schemes roster = .ok service ∧
      (schemes.history = true → ∃ c,
        HistoryCollector.new (addressBook roster.size) (members roster.size) = .ok c ∧
          service = some (.collector c)) ∧
      (schemes.history = false → service = none) := by
  cases hhistory : schemes.history with
  | false => exact ⟨none, by simp [historyService, hhistory, return_eq_ok], nofun, fun _ => rfl⟩
  | true =>
    obtain ⟨c, hnew⟩ := exists_collector h
    refine ⟨_, ?_, fun _ => ⟨c, hnew, rfl⟩, nofun⟩
    rw [members] at hnew
    simp [historyService, hhistory, hnew]

/-- **A signer is set up over services that only await the bootstrap.** -/
theorem exists_signer (hsize : roster.size ≠ 0) (hthreshold : schemes.hints = true → 0 < roster.threshold) :
    ∃ services, Furnished schemes roster services ∧
      signer schemes roster = .ok (.new (.ofConfig schemes) services) := by
  obtain ⟨threshold, hmade, hconstruction, hnone⟩ := exists_thresholdService hthreshold
  obtain ⟨history, hmade', hcollector, hnone'⟩ := exists_historyService schemes hsize
  have hsupplied : ¬ (schemes.hints = true ∧ threshold.isNone = true) := by
    rintro ⟨hhints, hmissing⟩
    obtain ⟨c, -, rfl⟩ := hconstruction hhints
    cases hmissing
  have hsupplied' : ¬ (schemes.history = true ∧ history.isNone = true) := by
    rintro ⟨hhistory, hmissing⟩
    obtain ⟨c, -, rfl⟩ := hcollector hhistory
    cases hmissing
  refine ⟨⟨threshold, history⟩, ⟨hconstruction, hnone, hcollector, hnone'⟩, ?_⟩
  rw [signer, hmade, ok_bind, hmade', ok_bind, SchemeSigner.ofConfig]
  simp only [usesThreshold_ofConfig, hasHistory_ofConfig, if_neg hsupplied, if_neg hsupplied']

/-! ### The whole bootstrap -/

variable [Bls12381.Library]

/-- The metadata that the nodes of a roster endorse: their joint key, and nothing without threshold signatures. -/
def endorsedMetadata (schemes : SchemeConfig) (roster : RosterConfig) : Bytes :=
  if schemes.hints then (jointKey roster.threshold).toOption.elim [] PublicKey.toBytes else []

omit [Ed25519.Library] in
theorem endorsedMetadata_of_not (schemes : SchemeConfig) (roster : RosterConfig) (h : schemes.hints = false) :
    endorsedMetadata schemes roster = [] := by
  simp [endorsedMetadata, h]

theorem Furnished.converge (h : Furnished schemes roster services)
    (hkeys : schemes.hints = true → ∀ node ∈ nodes roster.size, HasKey node)
    (henough : schemes.hints = true → roster.threshold ≤ roster.size.toNat) :
    ∃ next, converge roster.size services = (.ok (endorsedMetadata schemes roster), next) ∧
      next.history = services.history ∧
      next.verificationKey = if schemes.hints then some (endorsedMetadata schemes roster) else none := by
  cases hhints : schemes.hints with
  | false =>
    have hnone := h.noConstruction hhints
    refine ⟨services, ?_, rfl, ?_⟩
    · simp [Roster.converge, hnone, endorsedMetadata, hhints]
    · simp [SigningServices.verificationKey, hnone]
  | true =>
    obtain ⟨c, hnew, hthreshold⟩ := h.construction hhints
    obtain ⟨_, hloop, d, joint, rfl, hkey, hjoint⟩ :=
      eachUntil_register hnew hthreshold (hkeys hhints) (henough hhints)
    have hmetadata : endorsedMetadata schemes roster = joint.toBytes := by
      simp [endorsedMetadata, hhints, hjoint, Except.toOption]
    have hverification : ({ services with threshold := some (.construction d) } : SigningServices).verificationKey =
        some joint.toBytes := by
      simp [SigningServices.verificationKey, ThresholdService.verificationKey,
        ThresholdConstruction.verificationKey, hkey]
    refine ⟨{ services with threshold := some (.construction d) }, ?_, rfl, ?_⟩
    · rw [hmetadata, Roster.converge, hthreshold, hloop]
      simp [hverification]
    · rw [hmetadata, hverification]
      rfl

omit [Bls12381.Library] in
theorem Furnished.endorse (h : Furnished schemes roster services) (hsize : roster.size ≠ 0)
    {current : SigningServices} (hcurrent : current.history = services.history)
    (hvalid : schemes.history = true → ∀ node ∈ nodes roster.size, Endorses roster.size metadata node) :
    ∃ next, endorse roster.size metadata current = (.ok (), next) ∧
      next.threshold = current.threshold ∧
      (schemes.history = true →
        next.proofFor metadata = some (proofBy roster.size metadata (firstNodes ((roster.size.toNat + 2) / 3)))) := by
  cases hhistory : schemes.history with
  | false =>
    have hnone := hcurrent.trans (h.noCollector hhistory)
    exact ⟨current, by simp [Roster.endorse, hnone], rfl, nofun⟩
  | true =>
    obtain ⟨c, hnew, hcollector⟩ := h.collector hhistory
    have hbook := (HistoryCollector.new_eq_ok hnew).1
    rw [← hcurrent] at hcollector
    obtain ⟨_, hloop, d, rfl, hproof⟩ := eachUntil_submit hsize hnew hcollector (hvalid hhistory)
    have hhas : ({ current with history := some (.collector d) } : SigningServices).proofFor metadata =
        some (proofBy roster.size metadata (firstNodes ((roster.size.toNat + 2) / 3))) := by
      simp [SigningServices.proofFor, HistoryService.proofFor, hproof]
    refine ⟨{ current with history := some (.collector d) }, ?_, rfl, fun _ => hhas⟩
    rw [Roster.endorse, hcollector]
    simp only [hbook, hloop, hhas, Option.isSome_some, if_true]

omit [Ed25519.Library] in
/-- With the key and the proof that its scheme asks for, a signer is ready. -/
theorem isReady_of_provided (hkey : services.verificationKey = if schemes.hints then some metadata else none)
    (hmetadata : schemes.hints = false → metadata = [])
    (hproof : schemes.history = true → (services.proofFor metadata).isSome = true) :
    (SchemeSigner.new (.ofConfig schemes) services).isReady.1 = true := by
  have hprovided : (SchemeSigner.new (.ofConfig schemes) services).bootstrapped = true := by
    obtain ⟨hints, history⟩ := schemes
    cases hints <;> cases history <;>
      simp_all [SchemeSigner.bootstrapped, SchemeSigner.new, SignatureScheme.ofConfig]
  rw [SchemeSigner.isReady, if_pos hprovided]
  split <;> rfl

/-- **A node whose settings are accepted finishes its bootstrap.** Whatever the size of its roster and whichever
schemes are on, its signer can be set up; the bootstrap ends well and leaves the signer ready. The proof over the
signer's metadata is then made of the endorsements of the first third of the nodes, rounded up. -/
theorem bootstrap_of_validate {config : NodeConfig} (hvalid : config.validate = .ok ())
    (hkeys : config.stream.schemes.hints = true → ∀ node ∈ nodes config.roster.size, HasKey node)
    (hendorse : config.stream.schemes.history = true → ∀ node ∈ nodes config.roster.size,
      Endorses config.roster.size (endorsedMetadata config.stream.schemes config.roster) node) :
    ∃ s services, signer config.stream.schemes config.roster = .ok s ∧
      bootstrap config.roster.size s.services = (.ok (), services) ∧
      ({ s with services } : SchemeSigner).isReady.1 = true ∧
      (config.stream.schemes.history = true → ∃ proof,
        services.proofFor (services.verificationKey.getD []) = some proof ∧
        proof.signatures = (firstNodes ((config.roster.size.toNat + 2) / 3)).map fun node =>
          ⟨node, (endorsement config.roster.size (services.verificationKey.getD []) node).bytes⟩) := by
  obtain ⟨hsize, hrange⟩ := roster_of_validate hvalid
  obtain ⟨services, hfurnished, hsigner⟩ := exists_signer hsize fun hhints => (hrange hhints).1
  obtain ⟨current, hconverge, hhistory, hkey⟩ := hfurnished.converge hkeys fun hhints => (hrange hhints).2
  obtain ⟨next, hproven, hthreshold, hproof⟩ := hfurnished.endorse hsize hhistory hendorse
  have hnext : next.verificationKey = current.verificationKey := by
    rw [SigningServices.verificationKey, SigningServices.verificationKey, hthreshold]
  have hmetadata := endorsedMetadata_of_not config.stream.schemes config.roster
  refine ⟨_, next, hsigner, ?_, ?_, fun hon => ?_⟩
  · show bootstrap config.roster.size services = _
    rw [bootstrap, hconverge]
    exact hproven
  · refine isReady_of_provided (hnext.trans hkey) hmetadata fun hon => ?_
    rw [hproof hon]
    rfl
  · have hsigned : next.verificationKey.getD [] = endorsedMetadata config.stream.schemes config.roster := by
      rw [hnext, hkey]
      split
      · rfl
      · rename_i hoff
        exact (hmetadata ((Bool.not_eq_true _).mp hoff)).symm
    rw [hsigned]
    exact ⟨_, hproof hon, rfl⟩

end

/-! ### Four nodes -/

/-- A roster of four nodes, with all schemes on. -/
def fourSettings : NodeConfig where
  stream := { schemes := ⟨true, true⟩ }
  roster := { size := 4, threshold := 3 }

/-- The hash of the nodes' address book. -/
def fourBook : Bytes :=
  Bytes.ofNatLE 48 0x8c5f650d6f9db3651058b6cb25f6e73f8eaeca2038ee2605ddede57fee040dd1144959ddbc150cce485867d7c6cd8582

/-- The joint key of the first three nodes. -/
def threeKey : Bytes :=
  Bytes.ofNatLE 48 0x1bfe1385e498e940dc0e72f8eefbbeaaead9926002a8d004e12cfff9ea9416ae193071da87abf633d1f94ef501b4ef92

/-- A node and what follows from its id: the seed and the public half of its key for endorsements, the scalar
and the public point of its key for threshold signatures. -/
structure KnownNode where
  node : UInt64
  seed : Bytes
  publicKey : Bytes
  scalar : Nat
  point : Bls12381.G1

namespace KnownNode

variable (n : KnownNode)

/-- The key for endorsements. -/
def endorsingKey : Ed25519.SecretKey := ⟨n.seed⟩

/-- The key for threshold signatures. -/
def signingKey : Bls12381.SecretKey := ⟨n.scalar⟩

/-- The node's entry in the address book. -/
def entry : Bytes := Bytes.ofNatLE 8 n.node.toNat ++ n.publicKey ++ Bytes.ofNatLE 8 weight.toNat

/-- What is said of the node is true, and its key accepts its endorsement. -/
structure Correct : Prop where
  historyKey : historyKey n.node = n.endorsingKey
  publicKey : n.endorsingKey.publicKey.bytes = n.publicKey
  registration : registration n.node = some (n.node, n.signingKey)
  point : n.signingKey.publicKey.point = n.point
  isValid : (PublicKey.mk n.point).isValid = true
  accepts : ((Ed25519.PublicKey.mk n.publicKey).verifyBinding fourBook threeKey
    (n.endorsingKey.signBinding fourBook threeKey)).isOk = true

end KnownNode

/-- The first of four nodes. -/
def nodeZero : KnownNode where
  node := 0
  seed := Bytes.ofNatLE 32 0x22a3805d789d55d3b3bfe8c1154848fbb1dbc198dc443b16b5cc8d7ba7832baa
  publicKey := Bytes.ofNatLE 32 0x991c6bd19f3bb601f614c76c05daa5b89d08dc32ba4929fb65dd80b7499266fa
  scalar := 0x0aede286991430ed9b007ed6b9096d7ec17271ea510db5ea886ae0232346dda2
  point := .affine
    (.ofNat 0x026736e27068b90cf61681137ec454fd0b907fcff8d79e46741e39ec46510f78cfd0053a8c33cfd3d4f0051561ec51cc)
    (.ofNat 0x047f86b4944347a42fdd937338cd1216a4ea7ccacb5e29c8c7f4c52fbe895d716131ca2a715e7a766605c8ae0b02ee15)

/-- The second node. -/
def nodeOne : KnownNode where
  node := 1
  seed := Bytes.ofNatLE 32 0x1e7d438c4c24d65e8f1a2b6fad0baecd7868a03cd62df2d8371c6ee45facf9c9
  publicKey := Bytes.ofNatLE 32 0x4118c6aa4f5e448e130b60a3ec93a862f4a835a4841e28270e5963701536cc84
  scalar := 0x0d6c8bcae4cc602d8daf43c59ba95de84a160ddef23e166b7a19835e83c46546
  point := .affine
    (.ofNat 0x14653bb40c8fbacc6abfefcf5cf319e073ee56de267e70ac7cef92b99e672c32bdf7f072bfc2104fbc3c4b3aee6b4817)
    (.ofNat 0x005360b56be43cdbe1c9868d471bac4304ebbaed0c1c7e249ccd152ee059af13f27ccd9b4c57da535b718c86ef344b94)

/-- The third node. -/
def nodeTwo : KnownNode where
  node := 2
  seed := Bytes.ofNatLE 32 0xa8372aa303d291e28d7a02db35e702aa41c6918bcd366c8520f88a9034fa246d
  publicKey := Bytes.ofNatLE 32 0x7f75cafd22934a5495afdd7053234edb78a2ff64677dec9036a9f27288a2f69c
  scalar := 0x421ea6c51ac3f4812c4e0459eea60891bf0775305db9e518fe65c5e18c08af90
  point := .affine
    (.ofNat 0x11f0aeee8fd70c0413194497b5c268465a7255901353aab325838d723e43f3b7498f28e3f67e046fd021e058410c0031)
    (.ofNat 0x16197c41c361cc36130967b6c3fbdaeec91b234305f68523b45c19530ceafed2a8a64cd0d2f2efeac8174551d37b27ea)

/-- The fourth node. -/
def nodeThree : KnownNode where
  node := 3
  seed := Bytes.ofNatLE 32 0xdc3b4311c6c78d0944344d4790d5cc0ca41d65417a56a028c387147607e15189
  publicKey := Bytes.ofNatLE 32 0xbda1f6c1c2c4425ff703bcff3b631416c9431e2cabd9b7145cfa286a38c41b63
  scalar := 0x63485f34de0cded1a77556d47177751a46c2d9fe8f813ca68e9adedf85ae320f
  point := .affine
    (.ofNat 0x0c7ea052a3643cf12375fc85da5c20069164f0540645f5ceb3f9de5503d09869d6ded3863ba2d121b055b797ab7512bf)
    (.ofNat 0x17b473c17d6dfc2c177473a1c9fc16335823cc411739a25c3e07d8e04e65de333095aae10edfb4db0f1fa3d7e9962951)

/-- The four nodes. -/
def fourNodes : List KnownNode := [nodeZero, nodeOne, nodeTwo, nodeThree]

set_option maxRecDepth 100000 in
theorem correct_nodeZero : nodeZero.Correct := by constructor <;> decide +kernel

set_option maxRecDepth 100000 in
theorem correct_nodeOne : nodeOne.Correct := by constructor <;> decide +kernel

set_option maxRecDepth 100000 in
theorem correct_nodeTwo : nodeTwo.Correct := by constructor <;> decide +kernel

set_option maxRecDepth 100000 in
theorem correct_nodeThree : nodeThree.Correct := by constructor <;> decide +kernel

theorem correct_four : ∀ n ∈ fourNodes, n.Correct := by
  simp [fourNodes, correct_nodeZero, correct_nodeOne, correct_nodeTwo, correct_nodeThree]

theorem nodes_four : nodes 4 = fourNodes.map (·.node) := by decide

theorem hasKey_four : ∀ node ∈ nodes 4, HasKey node := by
  intro node hnode
  rw [nodes_four, List.mem_map] at hnode
  obtain ⟨n, hn, rfl⟩ := hnode
  refine ⟨n.signingKey, (registration_eq_some_iff.mp (correct_four n hn).registration).2, ?_⟩
  have hvalid := (correct_four n hn).isValid
  rwa [← (correct_four n hn).point] at hvalid

set_option maxRecDepth 100000 in
theorem addressBook_four : (addressBook 4).bytes = fourBook := by
  have hentries : (nodes 4).flatMap bookEntry = fourNodes.flatMap KnownNode.entry := by
    rw [nodes_four, List.flatMap_map]
    refine List.flatMap_congr fun n hn => ?_
    rw [bookEntry, (correct_four n hn).historyKey, (correct_four n hn).publicKey, KnownNode.entry]
  rw [addressBook, hentries]
  decide +kernel

theorem registrations_three :
    registrations (firstNodes 3) = (fourNodes.take 3).map fun n => (n.node, n.signingKey) := by
  have hnodes : firstNodes 3 = (fourNodes.take 3).map (·.node) := by decide
  rw [registrations, hnodes, List.filterMap_map, ← List.filterMap_eq_map]
  refine List.filterMap_congr fun n hn => ?_
  rw [Function.comp_apply, Function.comp_apply]
  exact (correct_four n (List.mem_of_mem_take hn)).registration

theorem jointKey_three : jointKey 3 = .ok ⟨Point.sum ((fourNodes.take 3).map (·.point))⟩ := by
  have hkeys : (registrations (firstNodes 3)).map (fun call => call.2.publicKey) =
      ((fourNodes.take 3).map (·.point)).map Bls12381.PublicKey.mk := by
    rw [registrations_three, List.map_map, List.map_map]
    refine List.map_congr_left fun n hn => ?_
    rw [Function.comp_apply, Function.comp_apply]
    exact congrArg Bls12381.PublicKey.mk (correct_four n (List.mem_of_mem_take hn)).point
  have hvalid : ((fourNodes.take 3).map (·.point)).all (fun point => (Bls12381.PublicKey.mk point).isValid) = true := by
    rw [List.all_map, List.all_eq_true]
    intro n hn
    exact (correct_four n (List.mem_of_mem_take hn)).isValid
  rw [jointKey, hkeys, PublicKey.aggregate, List.all_map, Function.comp_def, hvalid]
  rfl

set_option maxRecDepth 100000 in
theorem endorsedMetadata_four : endorsedMetadata fourSettings.stream.schemes fourSettings.roster = threeKey := by
  show (jointKey 3).toOption.elim [] PublicKey.toBytes = threeKey
  rw [jointKey_three]
  decide +kernel

theorem endorses_four : ∀ node ∈ nodes 4, Endorses 4 threeKey node := by
  intro node hnode
  rw [nodes_four, List.mem_map] at hnode
  obtain ⟨n, hn, rfl⟩ := hnode
  have hkey : n.endorsingKey.publicKey = ⟨n.publicKey⟩ := congrArg Ed25519.PublicKey.mk (correct_four n hn).publicKey
  rw [Endorses, endorsement, (correct_four n hn).historyKey, hkey, addressBook_four]
  exact eq_ok_of_isOk (correct_four n hn).accepts

/-- The nodes are ready once the first three have registered and the first two have endorsed their key. -/
theorem bootstrap_of_fourSettings : fourSettings.validate = .ok () ∧
    ∃ s services proof, signer fourSettings.stream.schemes fourSettings.roster = .ok s ∧
      bootstrap fourSettings.roster.size s.services = (.ok (), services) ∧
      ({ s with services } : SchemeSigner).isReady.1 = true ∧
      services.proofFor (services.verificationKey.getD []) = some proof ∧ proof.signatures.map (·.node) = [0, 1] := by
  have hvalid : fourSettings.validate = .ok () := rfl
  have hendorse : ∀ node ∈ nodes 4, Endorses 4
      (endorsedMetadata fourSettings.stream.schemes fourSettings.roster) node := by
    rw [endorsedMetadata_four]
    exact endorses_four
  obtain ⟨s, services, hsigner, hboot, hready, hproof⟩ :=
    bootstrap_of_validate hvalid (fun _ => hasKey_four) fun _ => hendorse
  obtain ⟨proof, hfound, hsignatures⟩ := hproof rfl
  refine ⟨hvalid, s, services, proof, hsigner, hboot, hready, hfound, ?_⟩
  have hfirst : firstNodes ((fourSettings.roster.size.toNat + 2) / 3) = [0, 1] := by decide
  rw [hsignatures, hfirst]
  rfl

end RoundChain.Roster
