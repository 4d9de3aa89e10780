import RoundChain.Proofs.ArrivalOrder
import RoundChain.Proofs.Maps
import RoundChain.Proofs.Outcome
import RoundChain.Signing.Threshold
import Mathlib.Data.Finset.Card

/-!
# Convergence of threshold constructions

Parties register in any order, again and again, under any ids. With keys that can be added up, a
construction converges with the call that brings the last party it needs, and then the parties registered
are its signers for good: `registerAll_converges`. Their keys and their signatures are added up by ascending
id, so the order of the calls makes no difference.

`Enlisting t calls` ties a construction to the calls so far. Its parties are those of the first `t` calls
that brought a new party, `enlisted t calls`: a repeated party is refused before there are enough, and
nobody is added afterwards.
-/

namespace RoundChain

open Bls12381 (SecretKey PublicKey Signature aggregatePartials_of_ascending)

/-! ### Errors told apart by their texts -/

theorem head_append {a b : String} {letter : Char} (h : a.toList.head? = some letter) :
    (a ++ b).toList.head? = some letter := by
  rw [String.toList_append, List.head?_append, h]
  rfl

theorem head_notEnoughPartials (held needed : Nat) :
    (CryptoError.notEnoughPartials held needed).message.toList.head? = some 'N' := by
  have htext : (CryptoError.notEnoughPartials held needed).message =
      "Not enough partial signatures: have " ++ toString held ++ ", need " ++ toString needed := by
    unfold CryptoError.message
    simp only [toString]
  rw [htext]
  exact head_append (head_append (head_append (by decide)))

theorem aggregate_eq_error [Bls12381.Library] {signatures : List Signature} {e : CryptoError}
    (h : Signature.aggregate signatures = .error e) :
    e = .invalidInput "empty signature list" ∨ e = .aggregationFailed := by
  unfold Signature.aggregate at h
  split at h
  · exact .inl (Except.error.inj h).symm
  · split at h
    · cases h
    · exact .inr (Except.error.inj h).symm

/-- A sum of signatures fails for another reason than that there are not enough. -/
theorem toStreamError_aggregate_ne [Bls12381.Library] {signatures : List Signature} {e : CryptoError}
    (h : Signature.aggregate signatures = .error e) (held needed : Nat) :
    e.toStreamError ≠ (CryptoError.notEnoughPartials held needed).toStreamError := by
  intro hsame
  have hletter : e.message.toList.head? = some 'N' := by
    rw [StreamError.crypto.inj hsame, head_notEnoughPartials]
  rcases aggregate_eq_error h with rfl | rfl
  · exact absurd hletter (by decide)
  · exact absurd hletter (by decide)

/-! ### Registrations -/

/-- Valid keys can be added up. -/
theorem aggregate_of_valid [Bls12381.Library] {keys : List PublicKey} (hne : keys ≠ [])
    (h : ∀ key ∈ keys, key.isValid = true) : ∃ key, PublicKey.aggregate keys = .ok key := by
  refine ⟨Bls12381.Library.sumKeys keys, ?_⟩
  rw [PublicKey.aggregate, if_neg (by simpa using hne), if_pos (List.all_eq_true.mpr h)]

/-- A party that registers, with its key. -/
abbrev Registration := UInt64 × SecretKey

/-- The keys of all registrations can be added up. -/
def Usable [Bls12381.Library] (calls : List Registration) : Prop :=
  ∀ call ∈ calls, call.2.publicKey.isValid = true

/-- The first call of each party. -/
def firstCalls (calls : List Registration) : List Registration :=
  calls.foldl (fun first call => if call.1 ∈ first.map (·.1) then first else first ++ [call]) []

/-- The calls of the first `t` parties to register. -/
def enlisted (t : Nat) (calls : List Registration) : List Registration := (firstCalls calls).take t

section

variable {t : Nat} {calls : List Registration} {call : Registration}

theorem firstCalls_concat (calls : List Registration) (call : Registration) :
    firstCalls (calls ++ [call]) =
      if call.1 ∈ (firstCalls calls).map (·.1) then firstCalls calls else firstCalls calls ++ [call] :=
  List.foldl_concat ..

theorem mem_firstCalls_parties (calls : List Registration) (party : UInt64) :
    party ∈ (firstCalls calls).map (·.1) ↔ party ∈ calls.map (·.1) := by
  induction calls using List.reverseRecOn with
  | nil => rfl
  | append_singleton calls call ih =>
    rw [firstCalls_concat, List.map_append, List.mem_append, ← ih]
    split
    · rename_i hold
      refine (or_iff_left_of_imp fun hnew => ?_).symm
      exact List.mem_singleton.mp hnew ▸ hold
    · rw [List.map_append, List.mem_append]

theorem nodup_firstCalls_parties (calls : List Registration) : ((firstCalls calls).map (·.1)).Nodup := by
  induction calls using List.reverseRecOn with
  | nil => exact .nil
  | append_singleton calls call ih =>
    rw [firstCalls_concat]
    split
    · exact ih
    · rename_i hnew
      rw [List.map_append, List.nodup_append]
      refine ⟨ih, List.nodup_singleton _, ?_⟩
      rintro party hparty _ hlast rfl
      rw [List.mem_singleton.mp hlast] at hparty
      exact hnew hparty

/-- There are as many first calls as parties. -/
theorem length_firstCalls (calls : List Registration) :
    (firstCalls calls).length = (calls.map (·.1)).toFinset.card := by
  rw [← List.length_map (·.1), ← List.toFinset_card_of_nodup (nodup_firstCalls_parties calls)]
  congr 1
  ext party
  rw [List.mem_toFinset, List.mem_toFinset, mem_firstCalls_parties]

theorem mem_of_mem_firstCalls (h : call ∈ firstCalls calls) : call ∈ calls := by
  induction calls using List.reverseRecOn with
  | nil => exact h
  | append_singleton calls last ih =>
    rw [firstCalls_concat] at h
    rw [List.mem_append]
    split at h
    · exact .inl (ih h)
    · exact (List.mem_append.mp h).imp_left ih

/-- When there are enough parties, nobody is added any more. -/
theorem enlisted_concat_of_le (h : t ≤ (firstCalls calls).length) :
    enlisted t (calls ++ [call]) = enlisted t calls := by
  rw [enlisted, firstCalls_concat]
  split
  · rfl
  · exact List.take_append_of_le_length h

theorem length_firstCalls_le (calls : List Registration) (call : Registration) :
    (firstCalls calls).length ≤ (firstCalls (calls ++ [call])).length := by
  rw [firstCalls_concat]
  split
  · exact Nat.le_refl _
  · exact (List.prefix_append ..).length_le

theorem enlisted_of_le (h : (firstCalls calls).length ≤ t) : enlisted t calls = firstCalls calls :=
  List.take_of_length_le h

end

namespace ThresholdConstruction

section

variable [Bls12381.Library] {t : Nat} {c : ThresholdConstruction} {calls : List Registration} {call : Registration}

/-- The construction after registrations, one after the other. -/
def registerAll (c : ThresholdConstruction) (calls : List Registration) : ThresholdConstruction :=
  calls.foldl (fun c call => (c.register call.1 call.2).2) c

/-! ### One registration -/

/-- The construction with a party added. -/
def enrolledWith (c : ThresholdConstruction) (call : Registration) : ThresholdConstruction :=
  { c with parties := c.parties.insert call.1 call.2 }

/-- The refusal of a party that is there already. -/
def alreadyRegistered (party : UInt64) : StreamError := .invalidConfig s!"party {party} already registered"

/-- All that a registration can do. -/
inductive Registers (c : ThresholdConstruction) (call : Registration) :
    Except StreamError Bool → ThresholdConstruction → Prop where
  /-- The construction has converged already. -/
  | late : c.key.isSome = true → Registers c call (.ok true) c
  /-- The party is there already. -/
  | repeated : c.key = none → call.1 ∈ c.parties.keys → Registers c call (.error (alreadyRegistered call.1)) c
  /-- There are not enough parties yet. -/
  | waits : c.key = none → call.1 ∉ c.parties.keys → c.parties.size + 1 < c.threshold →
      Registers c call (.ok false) (c.enrolledWith call)
  /-- The party was the last one needed. -/
  | converges {d : ThresholdConstruction} : c.key = none → call.1 ∉ c.parties.keys →
      c.threshold ≤ c.parties.size + 1 → (c.enrolledWith call).converge = .ok d → Registers c call (.ok true) d
  /-- The keys cannot be added up. -/
  | fails {e : CryptoError} : c.key = none → call.1 ∉ c.parties.keys → c.threshold ≤ c.parties.size + 1 →
      (c.enrolledWith call).converge = .error e → Registers c call (.error e.toStreamError) (c.enrolledWith call)

omit [Bls12381.Library] in
theorem size_enrolledWith (h : call.1 ∉ c.parties.keys) : (c.enrolledWith call).parties.size = c.parties.size + 1 :=
  WordMap.size_insert _ ((Bool.not_eq_true _).mp fun hold => h (WordMap.mem_keys_iff.mpr hold))

theorem register_eq (c : ThresholdConstruction) (call : Registration) : c.register call.1 call.2 =
    if c.key.isSome then (.ok true, c)
    else if c.parties.contains call.1 then (.error (alreadyRegistered call.1), c)
    else if (c.enrolledWith call).parties.size < c.threshold then (.ok false, c.enrolledWith call)
    else
      match (c.enrolledWith call).converge with
      | .ok d => (.ok true, d)
      | .error e => (.error e.toStreamError, c.enrolledWith call) := rfl

theorem registers (c : ThresholdConstruction) (call : Registration) :
    c.Registers call (c.register call.1 call.2).1 (c.register call.1 call.2).2 := by
  rw [register_eq]
  by_cases hkey : c.key.isSome = true
  · rw [if_pos hkey]
    exact .late hkey
  rw [if_neg hkey]
  have hnone : c.key = none := by simpa using hkey
  by_cases hold : c.parties.contains call.1 = true
  · rw [if_pos hold]
    exact .repeated hnone (WordMap.mem_keys_iff.mpr hold)
  rw [if_neg hold]
  have hnew : call.1 ∉ c.parties.keys := fun hmem => hold (WordMap.mem_keys_iff.mp hmem)
  rw [size_enrolledWith hnew]
  by_cases hsize : c.parties.size + 1 < c.threshold
  · rw [if_pos hsize]
    exact .waits hnone hnew hsize
  rw [if_neg hsize]
  cases hconverge : (c.enrolledWith call).converge with
  | ok d => exact .converges hnone hnew (by omega) hconverge
  | error e => exact .fails hnone hnew (by omega) hconverge

/-! ### The invariant -/

/-- What a construction has made of registrations. -/
structure Enlisting (c : ThresholdConstruction) (t : Nat) (calls : List Registration) : Prop where
  threshold : c.threshold = t
  /-- The parties are those that registered first. -/
  parties : c.parties.entries.Perm (enlisted t calls)
  /-- Without a key, there are not enough parties, and no signers. -/
  waiting : c.key = none → (firstCalls calls).length < t ∧ c.signers = []
  /-- With a key, there are, and all of them are signers. -/
  converged : ∀ key, c.key = some key → t ≤ (firstCalls calls).length ∧ c.signers = c.parties.entries ∧
    PublicKey.aggregate (c.signers.map fun s => s.2.publicKey) = .ok key

theorem enlisting_new (h : new t = .ok c) : 0 < t ∧ c.Enlisting t [] := by
  unfold new at h
  split at h
  · cases h
  rename_i hpos
  cases h
  refine ⟨by omega, rfl, ?_, fun _ => ⟨by simpa [firstCalls] using Nat.pos_of_ne_zero hpos, rfl⟩, nofun⟩
  rw [enlisted, firstCalls, List.foldl_nil, List.take_nil]
  exact .refl _

/-- The signers are fixed when the last party comes. -/
theorem converge_eq_ok {d : ThresholdConstruction} (h : c.converge = .ok d) (hsize : c.parties.size ≤ c.threshold) :
    d.threshold = c.threshold ∧ d.parties = c.parties ∧ d.signers = c.parties.entries ∧
      ∃ key, d.key = some key ∧ PublicKey.aggregate (d.signers.map fun s => s.2.publicKey) = .ok key := by
  obtain ⟨key, hkey, hd⟩ := bind_eq_ok_iff.mp h
  cases hd
  have hall : c.parties.entries.take c.threshold = c.parties.entries := List.take_of_length_le hsize
  exact ⟨rfl, rfl, hall, key, rfl, hkey⟩

/-- As long as there is no key, the parties are all that called. -/
theorem Enlisting.mem_parties_iff (h : c.Enlisting t calls) (hnone : c.key = none) (party : UInt64) :
    party ∈ c.parties.keys ↔ party ∈ calls.map (·.1) := by
  have hall := enlisted_of_le (Nat.le_of_lt (h.waiting hnone).1)
  rw [← mem_firstCalls_parties, ← hall]
  exact (h.parties.map _).mem_iff

/-- A new party is added to the others. -/
theorem Enlisting.enrolledWith (h : c.Enlisting t calls) (hnone : c.key = none) (hnew : call.1 ∉ c.parties.keys) :
    (c.enrolledWith call).parties.entries.Perm (enlisted t (calls ++ [call])) ∧
      c.parties.size = (firstCalls calls).length ∧
      (firstCalls (calls ++ [call])).length = (firstCalls calls).length + 1 := by
  have hfew := (h.waiting hnone).1
  have hparties := h.parties
  rw [enlisted_of_le (Nat.le_of_lt hfew)] at hparties
  have hfirst : firstCalls (calls ++ [call]) = firstCalls calls ++ [call] := by
    rw [firstCalls_concat, if_neg]
    rw [mem_firstCalls_parties, ← h.mem_parties_iff hnone]
    exact hnew
  have hlength : (firstCalls (calls ++ [call])).length = (firstCalls calls).length + 1 := by
    rw [hfirst, List.length_append, List.length_singleton]
  refine ⟨?_, hparties.length_eq, hlength⟩
  rw [enlisted_of_le (by omega), hfirst]
  have hcontains := (Bool.not_eq_true _).mp fun hold => hnew (WordMap.mem_keys_iff.mpr hold)
  exact (WordMap.perm_insert _ hcontains).trans
    ((hparties.cons _).trans (List.perm_append_singleton ..).symm)

theorem converge_of_valid (hne : c.parties.entries ≠ []) (hpos : 0 < c.threshold)
    (h : ∀ e ∈ c.parties.entries, e.2.publicKey.isValid = true) : ∃ d, c.converge = .ok d := by
  have hsigners : (c.parties.entries.take c.threshold).map (fun e => e.2.publicKey) ≠ [] := by
    simpa using ⟨Nat.pos_iff_ne_zero.mp hpos, hne⟩
  obtain ⟨key, hkey⟩ := aggregate_of_valid hsigners fun key hmem => by
    obtain ⟨e, he, rfl⟩ := List.mem_map.mp hmem
    exact h e (List.mem_of_mem_take he)
  exact ⟨_, bind_eq_ok_iff.mpr ⟨key, hkey, rfl⟩⟩

/-- Once there are enough parties, a call changes nothing. -/
theorem Enlisting.late (h : c.Enlisting t calls) (hkey : c.key.isSome = true) : c.Enlisting t (calls ++ [call]) := by
  obtain ⟨key, hsome⟩ := Option.isSome_iff_exists.mp hkey
  obtain ⟨henough, hsigners⟩ := h.converged key hsome
  refine ⟨h.threshold, (enlisted_concat_of_le henough).symm ▸ h.parties, fun hnone => ?_, fun other hother => ?_⟩
  · rw [hnone] at hkey
    cases hkey
  · obtain rfl : key = other := Option.some.inj (hsome.symm.trans hother)
    exact ⟨Nat.le_trans henough (length_firstCalls_le calls call), hsigners⟩

theorem Enlisting.repeated (h : c.Enlisting t calls) (hnone : c.key = none) (hold : call.1 ∈ c.parties.keys) :
    c.Enlisting t (calls ++ [call]) := by
  have hsame : firstCalls (calls ++ [call]) = firstCalls calls := by
    rw [firstCalls_concat, if_pos]
    exact (mem_firstCalls_parties ..).mpr ((h.mem_parties_iff hnone _).mp hold)
  have hsameEnlisted : enlisted t (calls ++ [call]) = enlisted t calls := congrArg (List.take t) hsame
  exact ⟨h.threshold, hsameEnlisted ▸ h.parties, hsame ▸ h.waiting, hsame ▸ h.converged⟩

theorem Enlisting.waits (h : c.Enlisting t calls) (hnone : c.key = none) (hnew : call.1 ∉ c.parties.keys)
    (hfew : c.parties.size + 1 < c.threshold) : (c.enrolledWith call).Enlisting t (calls ++ [call]) := by
  obtain ⟨hparties, hsize, hlength⟩ := h.enrolledWith hnone hnew
  have hidle := (h.waiting hnone).2
  have hnoKey : (c.enrolledWith call).key = none := hnone
  rw [h.threshold] at hfew
  refine ⟨h.threshold, hparties, fun _ => ⟨by omega, hidle⟩, fun key hkey => ?_⟩
  rw [hnoKey] at hkey
  cases hkey

/-- The last party that is needed completes the signers. -/
theorem Enlisting.converges (h : c.Enlisting t calls) (hnone : c.key = none) (hnew : call.1 ∉ c.parties.keys)
    (henough : c.threshold ≤ c.parties.size + 1) {d : ThresholdConstruction}
    (hconverge : (c.enrolledWith call).converge = .ok d) : d.Enlisting t (calls ++ [call]) := by
  obtain ⟨hparties, hsize, hlength⟩ := h.enrolledWith hnone hnew
  have hfew := (h.waiting hnone).1
  have hthreshold : (c.enrolledWith call).threshold = t := h.threshold
  rw [h.threshold] at henough
  obtain ⟨hsame, hkept, hsigners, key, hkey, hsum⟩ := converge_eq_ok hconverge (by
    rw [size_enrolledWith hnew, hthreshold]
    omega)
  refine ⟨hsame.trans hthreshold, hkept ▸ hparties, fun hnoKey => ?_, fun other hother => ?_⟩
  · rw [hkey] at hnoKey
    cases hnoKey
  · obtain rfl : key = other := Option.some.inj (hkey.symm.trans hother)
    exact ⟨by omega, hkept ▸ hsigners, hsum⟩

/-- Usable keys never fail to be added up. -/
theorem Enlisting.exists_converge (h : c.Enlisting t calls) (hpos : 0 < t) (husable : Usable (calls ++ [call]))
    (hnone : c.key = none) (hnew : call.1 ∉ c.parties.keys) : ∃ d, (c.enrolledWith call).converge = .ok d := by
  have hparties := (h.enrolledWith hnone hnew).1
  have hne : (c.enrolledWith call).parties.entries ≠ [] := by
    refine List.ne_nil_of_length_pos ?_
    have hmore := size_enrolledWith hnew
    rw [WordMap.size] at hmore
    omega
  refine converge_of_valid hne (h.threshold ▸ hpos) fun e he => ?_
  exact husable e (mem_of_mem_firstCalls (List.mem_of_mem_take (hparties.mem_iff.mp he)))

/-- **Every registration keeps the invariant.** -/
theorem Enlisting.registers (h : c.Enlisting t calls) (hpos : 0 < t) (husable : Usable (calls ++ [call]))
    {answer : Except StreamError Bool} {d : ThresholdConstruction} (hr : c.Registers call answer d) :
    d.Enlisting t (calls ++ [call]) := by
  cases hr with
  | late hkey => exact h.late hkey
  | repeated hnone hold => exact h.repeated hnone hold
  | waits hnone hnew hfew => exact h.waits hnone hnew hfew
  | converges hnone hnew henough hconverge => exact h.converges hnone hnew henough hconverge
  | fails hnone hnew _ hfails =>
    obtain ⟨d, hconverge⟩ := h.exists_converge hpos husable hnone hnew
    rw [hconverge] at hfails
    cases hfails

/-- **After any usable registrations, the construction is where it should be.** -/
theorem enlisting_registerAll (hnew : new t = .ok c) (husable : Usable calls) :
    (c.registerAll calls).Enlisting t calls := by
  induction calls using List.reverseRecOn with
  | nil => exact (enlisting_new hnew).2
  | append_singleton calls call ih =>
    have hone : c.registerAll (calls ++ [call]) = ((c.registerAll calls).register call.1 call.2).2 :=
      List.foldl_concat ..
    rw [hone]
    refine (ih fun call hcall => husable call (List.mem_append_left _ hcall)).registers ?_ husable (registers ..)
    exact (enlisting_new hnew).1

/-! ### What follows from it -/

/-- A construction has converged exactly if there are enough parties. -/
theorem Enlisting.isSome_key_iff (h : c.Enlisting t calls) :
    c.key.isSome = true ↔ t ≤ (firstCalls calls).length := by
  cases hkey : c.key with
  | none => simpa using (h.waiting hkey).1
  | some key => simpa using (h.converged key hkey).1

/-- **The same parties with the same keys make the same construction.** -/
theorem Enlisting.eq_of_perm {d : ThresholdConstruction} {other : List Registration} (h : c.Enlisting t calls)
    (hd : d.Enlisting t other) (hperm : (enlisted t other).Perm (enlisted t calls)) : d = c := by
  have hparties : d.parties = c.parties :=
    WordMap.eq_of_perm (hd.parties.trans (hperm.trans h.parties.symm))
  have hconverged : d.key.isSome = true ↔ c.key.isSome = true := by
    have hlength := hperm.length_eq
    simp only [enlisted, List.length_take] at hlength
    rw [hd.isSome_key_iff, h.isSome_key_iff]
    omega
  have hsigners : d.signers = c.signers ∧ d.key = c.key := by
    cases hkey : c.key with
    | none =>
      have hnone : d.key = none := by simpa [hkey] using hconverged
      exact ⟨(hd.waiting hnone).2.trans (h.waiting hkey).2.symm, hnone⟩
    | some key =>
      obtain ⟨key', hkey'⟩ := Option.isSome_iff_exists.mp (hconverged.mpr (hkey ▸ rfl))
      obtain ⟨-, hall, hsum⟩ := h.converged key hkey
      obtain ⟨-, hall', hsum'⟩ := hd.converged key' hkey'
      have hsame : d.signers = c.signers := by rw [hall, hall', hparties]
      rw [hsame, hsum] at hsum'
      cases hsum'
      exact ⟨hsame, hkey'⟩
  cases c
  cases d
  exact ThresholdConstruction.mk.injEq .. ▸ ⟨hd.threshold.trans h.threshold.symm, hparties, hsigners⟩

/-- A construction that has converged is not changed by any call. -/
theorem registerAll_of_key (hkey : c.key.isSome = true) (more : List Registration) : c.registerAll more = c := by
  induction more with
  | nil => rfl
  | cons call rest ih =>
    have hsame : (c.register call.1 call.2).2 = c := by rw [register_eq, if_pos hkey]
    rw [registerAll, List.foldl_cons, hsame]
    exact ih

/-- A repeated party is refused before convergence. -/
theorem Enlisting.register_of_mem (h : c.Enlisting t calls) (hnone : c.key = none)
    (hold : call.1 ∈ calls.map (·.1)) : c.register call.1 call.2 = (.error (alreadyRegistered call.1), c) := by
  have hcontains := WordMap.mem_keys_iff.mp ((h.mem_parties_iff hnone _).mpr hold)
  rw [register_eq, hnone, hcontains]
  rfl

/-- The answer says whether the construction has converged. -/
theorem Registers.answer_eq {answer : Except StreamError Bool} {d : ThresholdConstruction}
    (h : c.Registers call answer d) : answer = .ok true ↔ d.key.isSome = true := by
  cases h with
  | late hkey => simp [hkey]
  | repeated hnone => simp [hnone]
  | waits hnone => simp [enrolledWith, hnone]
  | fails hnone => simp [enrolledWith, hnone]
  | converges _ _ _ hconverge =>
    obtain ⟨key, -, hd⟩ := bind_eq_ok_iff.mp hconverge
    cases hd
    simp

/-- With a key, there are as many signers as needed, by ascending id. -/
theorem Enlisting.signers_of_key (h : c.Enlisting t calls) {key : PublicKey} (hkey : c.key = some key) :
    c.signers.length = t ∧ c.signers.Perm (enlisted t calls) ∧ (c.signers.Pairwise fun a b => a.1 < b.1) := by
  obtain ⟨henough, hsigners, -⟩ := h.converged key hkey
  rw [hsigners]
  refine ⟨?_, h.parties, c.parties.sorted⟩
  rw [h.parties.length_eq, enlisted, List.length_take]
  omega

/-- **The signature is the sum of the signers' own, in the order of their ids.** -/
theorem Enlisting.aggregateSignature_eq (h : c.Enlisting t calls) (hpos : 0 < t) {key : PublicKey}
    (hkey : c.key = some key) (message : Bytes) : c.aggregateSignature message =
      ((Signature.aggregate (c.signers.map fun s => s.2.sign message)).mapError CryptoError.toStreamError).map
        Signature.toBytes := by
  obtain ⟨hlength, -, hascending⟩ := h.signers_of_key hkey
  have hpartials : (c.partials message).length = c.threshold := by
    rw [partials, List.length_map, hlength, h.threshold]
  have hsorted : (c.partials message).Pairwise fun a b => a.party < b.party := List.pairwise_map.mpr hascending
  have hsum := aggregatePartials_of_ascending hsorted (by rw [hpartials, h.threshold]; exact hpos)
  have hsignatures : (c.partials message).map (·.signature) = c.signers.map fun s => s.2.sign message := by
    rw [partials, List.map_map]
    rfl
  rw [hpartials, hsignatures] at hsum
  rw [aggregateSignature, hkey, hsum]
  cases Signature.aggregate (c.signers.map fun s => s.2.sign message) <;> rfl

/-- There are always enough partial signatures. -/
theorem Enlisting.aggregateSignature_ne (h : c.Enlisting t calls) (hpos : 0 < t) (message : Bytes)
    (held needed : Nat) :
    c.aggregateSignature message ≠ .error (CryptoError.notEnoughPartials held needed).toStreamError := by
  cases hkey : c.key with
  | none =>
    rw [aggregateSignature, hkey]
    nofun
  | some key =>
    rw [h.aggregateSignature_eq hpos hkey]
    cases hsum : Signature.aggregate (c.signers.map fun s => s.2.sign message) with
    | ok signature => nofun
    | error e => exact fun hsame => toStreamError_aggregate_ne hsum held needed (Except.error.inj hsame)

/-! ### Main result -/

/-- **A construction converges with the call that brings the last party it needs, and not before.** Its signers are
the parties enlisted until then, by ascending id; their keys make the key, and their signatures the signature.
Nothing changes them afterwards, and the order of the calls does not count. -/
theorem registerAll_converges {new : ThresholdConstruction} (hnew : ThresholdConstruction.new t = .ok new)
    (husable : Usable calls) :
    let c := new.registerAll calls
    (c.key.isSome = true ↔ t ≤ (calls.map (·.1)).toFinset.card) ∧
    (∀ call : Registration,
      (c.register call.1 call.2).1 = .ok true ↔ (c.register call.1 call.2).2.key.isSome = true) ∧
    (c.key = none → ∀ call : Registration, call.1 ∈ calls.map (·.1) →
      c.register call.1 call.2 = (.error (.invalidConfig s!"party {call.1} already registered"), c)) ∧
    (∀ key, c.key = some key →
      (∀ more, c.registerAll more = c) ∧
      c.signers.length = t ∧ c.signers.Perm (enlisted t calls) ∧ (c.signers.Pairwise fun a b => a.1 < b.1) ∧
      PublicKey.aggregate (c.signers.map fun s => s.2.publicKey) = .ok key ∧
      ∀ message, c.aggregateSignature message =
        ((Signature.aggregate (c.signers.map fun s => s.2.sign message)).mapError CryptoError.toStreamError).map
          Signature.toBytes) ∧
    (∀ message held needed,
      c.aggregateSignature message ≠ .error (CryptoError.notEnoughPartials held needed).toStreamError) ∧
    (∀ other, Usable other → (enlisted t other).Perm (enlisted t calls) → new.registerAll other = c) := by
  have h := enlisting_registerAll hnew husable
  have hpos := (enlisting_new hnew).1
  refine ⟨length_firstCalls calls ▸ h.isSome_key_iff, fun call => (registers _ call).answer_eq,
    fun hnone call hold => h.register_of_mem hnone hold, fun key hkey => ?_, h.aggregateSignature_ne hpos,
    fun other hother hperm => h.eq_of_perm (enlisting_registerAll hnew hother) hperm⟩
  obtain ⟨hlength, hparties, hascending⟩ := h.signers_of_key hkey
  exact ⟨registerAll_of_key (Option.isSome_iff_exists.mpr ⟨key, hkey⟩), hlength, hparties, hascending,
    (h.converged key hkey).2.2, h.aggregateSignature_eq hpos hkey⟩

end

/-- A party that calls twice, and one with a lower id. -/
def twoParties : List Registration := [(7, ⟨1⟩), (7, ⟨2⟩), (3, ⟨2⟩)]

set_option maxRecDepth 100000 in
theorem usable_twoParties : Usable twoParties := by
  have hone : (SecretKey.mk 1).publicKey.isValid = true := by decide +kernel
  have htwo : (SecretKey.mk 2).publicKey.isValid = true := by decide +kernel
  simp [Usable, twoParties, hone, htwo]

theorem twoParties_converge : ∃ new, ThresholdConstruction.new 2 = .ok new ∧
    (new.registerAll twoParties).key.isSome = true ∧
    new.registerAll [(3, ⟨2⟩), (7, ⟨1⟩)] = new.registerAll twoParties := by
  obtain ⟨hkey, -, -, -, -, horder⟩ := registerAll_converges (t := 2) rfl usable_twoParties
  refine ⟨_, rfl, hkey.mpr (by decide), horder _ (fun call hcall => usable_twoParties call ?_) (by decide)⟩
  simp only [twoParties, List.mem_cons, List.not_mem_nil, or_false] at hcall ⊢
  exact hcall.symm.imp_right .inr

end ThresholdConstruction

end RoundChain
