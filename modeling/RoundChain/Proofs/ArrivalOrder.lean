import RoundChain.Libraries
import Mathlib.Data.Finset.Card
import Mathlib.Data.List.Dedup
import Mathlib.Data.UInt

/-!
# The order in which partial signatures arrive

Partial signatures are sorted by party before they are added up, and only one of each party enters the sum. The
sort is stable, so that one is the party's first in the order of arrival: `mem_kept_iff`. Whether the order counts
is then a matter of parties that contributed more than one signature. `aggregatePartials_arrivals` says exactly
how far it does: arriving in some order, the contributions may give the sum of any pick of one contribution of each
party, and no other result.

`Picks partials pick` is a pick of one contribution of each party. A party's place among the others is the number of
parties below it, `partiesBelow`, which no order of arrival changes.
-/

namespace RoundChain.Bls12381

variable {partials arranged pick other more : List PartialSignature} {p q : PartialSignature} {threshold : Nat}

/-- Contributions sorted by party, those of one party in their order of arrival. -/
def byParty (partials : List PartialSignature) : List PartialSignature :=
  partials.mergeSort fun a b => decide (a.party ≤ b.party)

/-- The contributions that are kept: the first of each party, by ascending party. -/
def kept (partials : List PartialSignature) : List PartialSignature :=
  firstOfEach (byParty partials)

/-- The parties that contributed. -/
def parties (partials : List PartialSignature) : Finset UInt64 := (partials.map (·.party)).toFinset

/-- The number of parties below a party. -/
def partiesBelow (partials : List PartialSignature) (party : UInt64) : Nat :=
  ((parties partials).filter (· < party)).card

theorem mem_parties {party : UInt64} : party ∈ parties partials ↔ ∃ p ∈ partials, p.party = party := by
  simp [parties]

theorem parties_perm (h : arranged.Perm partials) : parties arranged = parties partials :=
  List.toFinset_eq_of_perm _ _ (h.map _)

theorem partiesBelow_mono {a b : UInt64} (h : a ≤ b) : partiesBelow partials a ≤ partiesBelow partials b := by
  apply Finset.card_le_card
  intro party hparty
  rw [Finset.mem_filter] at hparty ⊢
  exact ⟨hparty.1, UInt64.lt_of_lt_of_le hparty.2 h⟩

/-! ### Strictly ascending parties -/

theorem nodup_of_ascending (h : pick.Pairwise fun a b => a.party < b.party) : pick.Nodup := by
  apply h.imp
  rintro a _ hlt rfl
  exact UInt64.lt_irrefl _ hlt

/-- Lists in strictly ascending order with the same contributions are equal. -/
theorem eq_of_ascending (h : pick.Pairwise fun a b => a.party < b.party)
    (hother : other.Pairwise fun a b => a.party < b.party) (hmem : ∀ p, p ∈ pick ↔ p ∈ other) : pick = other := by
  have hperm := (List.perm_ext_iff_of_nodup (nodup_of_ascending h) (nodup_of_ascending hother)).mpr hmem
  exact hperm.eq_of_pairwise (fun _ _ _ _ hab hba => absurd (UInt64.lt_trans hab hba) (UInt64.lt_irrefl _)) h hother

theorem firstOfEach_of_ascending (h : partials.Pairwise fun a b => a.party < b.party) :
    firstOfEach partials = partials := by
  induction partials with
  | nil => rfl
  | cons p rest ih =>
    obtain ⟨hhead, htail⟩ := List.pairwise_cons.mp h
    rw [firstOfEach, ih htail]
    cases rest with
    | nil => rfl
    | cons q more => exact if_neg (UInt64.ne_of_lt (hhead q List.mem_cons_self))

theorem byParty_of_sorted (h : partials.Pairwise fun a b => a.party ≤ b.party) : byParty partials = partials :=
  List.mergeSort_of_pairwise (h.imp fun hab => decide_eq_true hab)

/-- As many contributions as are needed, one of each party, are all added up. -/
theorem aggregatePartials_of_ascending [Library] (h : partials.Pairwise fun a b => a.party < b.party)
    (hpos : 0 < partials.length) :
    aggregatePartials partials partials.length = Signature.aggregate (partials.map (·.signature)) := by
  have hsorted : partials.mergeSort (fun a b => decide (a.party ≤ b.party)) = partials :=
    byParty_of_sorted (h.imp UInt64.le_of_lt)
  rw [aggregatePartials, hsorted, firstOfEach_of_ascending h, if_neg (by omega), List.take_length]

/-! ### What a stable sort keeps -/

theorem byParty_perm (partials : List PartialSignature) : (byParty partials).Perm partials :=
  List.mergeSort_perm ..

theorem le_trans_party (a b c : PartialSignature) (hab : decide (a.party ≤ b.party) = true)
    (hbc : decide (b.party ≤ c.party) = true) : decide (a.party ≤ c.party) = true := by
  simp only [decide_eq_true_eq] at hab hbc ⊢
  exact UInt64.le_trans hab hbc

theorem le_total_party (a b : PartialSignature) :
    (decide (a.party ≤ b.party) || decide (b.party ≤ a.party)) = true := by
  simpa using UInt64.le_total a.party b.party

theorem byParty_sorted (partials : List PartialSignature) :
    (byParty partials).Pairwise fun a b => a.party ≤ b.party := by
  simpa [byParty] using List.pairwise_mergeSort le_trans_party le_total_party partials

/-- Sorting leaves the contributions of one party in their order of arrival. -/
theorem filter_byParty (partials : List PartialSignature) (party : UInt64) :
    (byParty partials).filter (·.party == party) = partials.filter (·.party == party) := by
  have hsame : (partials.filter (·.party == party)).Pairwise fun a b => decide (a.party ≤ b.party) = true := by
    refine List.pairwise_of_forall_mem_list fun a ha b hb => ?_
    simp only [List.mem_filter, beq_iff_eq] at ha hb
    simp [ha.2, hb.2]
  have hsub : ((partials.filter (·.party == party)).filter (·.party == party)).Sublist
      ((byParty partials).filter (·.party == party)) :=
    (List.sublist_mergeSort le_trans_party le_total_party hsame List.filter_sublist).filter _
  rw [List.filter_filter] at hsub
  simp only [Bool.and_self] at hsub
  exact (hsub.eq_of_length ((byParty_perm partials).filter _).length_eq.symm).symm

theorem firstOfEach_cons (h : (p :: partials).Pairwise fun a b => a.party ≤ b.party)
    (hrest : (firstOfEach partials).Pairwise fun a b => a.party < b.party)
    (hsub : ∀ q ∈ firstOfEach partials, q ∈ partials) :
    firstOfEach (p :: partials) = p :: (firstOfEach partials).filter (·.party != p.party) := by
  rw [firstOfEach]
  cases hfirst : firstOfEach partials with
  | nil => rfl
  | cons q more =>
    rw [hfirst] at hrest hsub
    have hle : p.party ≤ q.party := List.rel_of_pairwise_cons h (hsub q List.mem_cons_self)
    have hmore : more.filter (·.party != p.party) = more := by
      rw [List.filter_eq_self]
      intro r hr
      have hlt : p.party < r.party := UInt64.lt_of_le_of_lt hle (List.rel_of_pairwise_cons hrest hr)
      simpa using (UInt64.ne_of_lt hlt).symm
    by_cases hsame : p.party = q.party
    · rw [hsame] at hmore
      simp [hsame, hmore]
    · have hne : q.party ≠ p.party := fun heq => hsame heq.symm
      simp [hsame, hne, hmore]

/-- Of contributions in the order of their parties, the first of each party remain. -/
theorem firstOfEach_spec (h : partials.Pairwise fun a b => a.party ≤ b.party) :
    (firstOfEach partials).Pairwise (fun a b => a.party < b.party) ∧
      ∀ p, p ∈ firstOfEach partials ↔ partials.find? (·.party == p.party) = some p := by
  induction partials with
  | nil => simp [firstOfEach]
  | cons q rest ih =>
    obtain ⟨hascending, hmem⟩ := ih h.of_cons
    have hsub : ∀ r ∈ firstOfEach rest, r ∈ rest := fun r hr => List.mem_of_find?_eq_some ((hmem r).mp hr)
    rw [firstOfEach_cons h hascending hsub]
    constructor
    · refine List.pairwise_cons.mpr ⟨fun r hr => ?_, hascending.filter _⟩
      simp only [List.mem_filter, bne_iff_ne] at hr
      exact UInt64.lt_of_le_of_ne (List.rel_of_pairwise_cons h (hsub r hr.1)) hr.2.symm
    · intro r
      rw [List.find?_cons, List.mem_cons, List.mem_filter, hmem]
      by_cases hparty : q.party = r.party
      · simp [hparty, eq_comm]
      · have hne : r ≠ q := fun heq => hparty (heq ▸ rfl)
        have hother : r.party ≠ q.party := fun heq => hparty heq.symm
        simp [beq_false_of_ne hparty, hne, hother]

theorem kept_ascending (partials : List PartialSignature) :
    (kept partials).Pairwise fun a b => a.party < b.party :=
  (firstOfEach_spec (byParty_sorted partials)).1

/-- **What is kept of a party is its first contribution in the order of arrival.** -/
theorem mem_kept_iff : p ∈ kept partials ↔ partials.find? (·.party == p.party) = some p := by
  rw [kept, (firstOfEach_spec (byParty_sorted partials)).2, ← List.head?_filter, filter_byParty, List.head?_filter]

/-! ### Picks -/

/-- One contribution of each party, by ascending party. -/
structure Picks (partials pick : List PartialSignature) : Prop where
  ascending : pick.Pairwise fun a b => a.party < b.party
  subset : pick ⊆ partials
  covers : ∀ p ∈ partials, ∃ q ∈ pick, q.party = p.party

theorem picks_kept (partials : List PartialSignature) : Picks partials (kept partials) := by
  refine ⟨kept_ascending partials, fun p hp => List.mem_of_find?_eq_some (mem_kept_iff.mp hp), fun p hp => ?_⟩
  obtain ⟨q, hq⟩ := Option.isSome_iff_exists.mp (List.find?_isSome (p := (·.party == p.party)) |>.mpr ⟨p, hp, by simp⟩)
  have hparty : q.party = p.party := by simpa using List.find?_some hq
  exact ⟨q, mem_kept_iff.mpr (hparty ▸ hq), hparty⟩

/-- As many contributions are picked as there are parties. -/
theorem Picks.length_eq (h : Picks partials pick) : pick.length = (parties partials).card := by
  have hnodup : (pick.map (·.party)).Nodup := by
    refine List.pairwise_map.mpr (h.ascending.imp fun hlt => UInt64.ne_of_lt hlt)
  have hsame : parties partials = (pick.map (·.party)).toFinset := by
    ext party
    rw [mem_parties, List.mem_toFinset, List.mem_map]
    constructor
    · rintro ⟨p, hp, rfl⟩
      exact h.covers p hp
    · rintro ⟨p, hp, rfl⟩
      exact ⟨p, h.subset hp, rfl⟩
  rw [hsame, List.toFinset_card_of_nodup hnodup, List.length_map]

/-- A contribution stands behind those of the parties below. -/
theorem Picks.partiesBelow_eq {a b : List PartialSignature} (h : Picks partials (a ++ p :: b)) :
    partiesBelow partials p.party = a.length := by
  obtain ⟨ha, hb, hab⟩ := List.pairwise_append.mp h.ascending
  have hnodup : (a.map (·.party)).Nodup := List.pairwise_map.mpr (ha.imp fun hlt => UInt64.ne_of_lt hlt)
  have hsame : (parties partials).filter (· < p.party) = (a.map (·.party)).toFinset := by
    ext party
    rw [Finset.mem_filter, mem_parties, List.mem_toFinset, List.mem_map]
    constructor
    · rintro ⟨⟨q, hq, rfl⟩, hlt⟩
      obtain ⟨r, hr, hparty⟩ := h.covers q hq
      rw [← hparty] at hlt
      rcases List.mem_append.mp hr with hr | hr
      · exact ⟨r, hr, hparty⟩
      · rcases List.mem_cons.mp hr with rfl | hr
        · exact absurd hlt (UInt64.lt_irrefl _)
        · exact absurd (UInt64.lt_trans hlt (List.rel_of_pairwise_cons hb hr)) (UInt64.lt_irrefl _)
    · rintro ⟨q, hq, rfl⟩
      exact ⟨⟨q, h.subset (List.mem_append_left _ hq), rfl⟩, hab q hq p List.mem_cons_self⟩
  rw [partiesBelow, hsame, List.toFinset_card_of_nodup hnodup, List.length_map]

/-- The first contributions are those of the lowest parties. -/
theorem Picks.mem_take_iff (h : Picks partials pick) (hp : p ∈ pick) :
    p ∈ pick.take threshold ↔ partiesBelow partials p.party < threshold := by
  obtain ⟨a, b, rfl⟩ := List.append_of_mem hp
  have hnot : p ∉ a := fun ha => by
    have hlt := (List.pairwise_append.mp h.ascending).2.2 p ha p List.mem_cons_self
    exact UInt64.lt_irrefl _ hlt
  rw [h.partiesBelow_eq, List.take_append]
  by_cases hlt : a.length < threshold
  · obtain ⟨n, hn⟩ : ∃ n, threshold - a.length = n + 1 := ⟨threshold - a.length - 1, by omega⟩
    simp [hn, hlt]
  · have hzero : threshold - a.length = 0 := by omega
    have hout : p ∉ a.take threshold := fun hmem => hnot (List.mem_of_mem_take hmem)
    simp [hzero, hlt, hout]

/-- The one contribution of a party in a pick is the first of that party. -/
theorem Picks.find?_eq (h : Picks partials pick) (hp : p ∈ pick) :
    pick.find? (·.party == p.party) = some p := by
  have hsorted : pick.Pairwise fun a b => a.party ≤ b.party := h.ascending.imp UInt64.le_of_lt
  rwa [← (firstOfEach_spec hsorted).2, firstOfEach_of_ascending h.ascending]

/-- Every pick is what is kept of the contributions in some order of arrival. -/
theorem Picks.exists_perm (h : Picks partials pick) : ∃ arranged, arranged.Perm partials ∧ kept arranged = pick := by
  obtain ⟨some, hsome, hsub⟩ := List.subperm_of_subset (nodup_of_ascending h.ascending) h.subset
  obtain ⟨rest, hrest⟩ := hsub.exists_perm_append
  -- the picked contributions arrive first
  have hperm : (pick ++ rest).Perm partials := ((hsome.append_right rest).symm.trans hrest.symm)
  refine ⟨pick ++ rest, hperm, eq_of_ascending (kept_ascending _) h.ascending fun p => ?_⟩
  rw [mem_kept_iff, List.find?_append]
  constructor
  · intro hfirst
    rw [← List.find?_append] at hfirst
    obtain ⟨q, hq, hparty⟩ := h.covers p (hperm.mem_iff.mp (List.mem_of_find?_eq_some hfirst))
    rw [List.find?_append, ← hparty, h.find?_eq hq] at hfirst
    exact Option.some.inj hfirst ▸ hq
  · intro hp
    rw [h.find?_eq hp]
    rfl

/-! ### Results -/

theorem aggregatePartials_eq [Library] (partials : List PartialSignature) (threshold : Nat) :
    aggregatePartials partials threshold =
      if threshold = 0 ∨ (parties partials).card < threshold then
        .error (.notEnoughPartials (parties partials).card threshold)
      else Signature.aggregate (((kept partials).take threshold).map (·.signature)) := by
  rw [← (picks_kept partials).length_eq]
  rfl

/-- Two picks have the same contributions of the lowest parties if none of these has two that differ. -/
theorem Picks.take_eq (h : Picks partials pick) (hother : Picks partials other)
    (hone : ∀ p ∈ partials, ∀ q ∈ partials, p.party = q.party → partiesBelow partials p.party < threshold → p = q) :
    pick.take threshold = other.take threshold := by
  have hsub : ∀ {a b : List PartialSignature}, Picks partials a → Picks partials b →
      ∀ p ∈ a.take threshold, p ∈ b.take threshold := by
    intro a b ha hb p hp
    have hpa := List.mem_of_mem_take hp
    have hlow := (ha.mem_take_iff hpa).mp hp
    obtain ⟨q, hq, hparty⟩ := hb.covers p (ha.subset hpa)
    obtain rfl := hone p (ha.subset hpa) q (hb.subset hq) hparty.symm hlow
    exact (hb.mem_take_iff hq).mpr hlow
  exact eq_of_ascending (h.ascending.sublist (List.take_sublist ..)) (hother.ascending.sublist (List.take_sublist ..))
    fun p => ⟨hsub h hother p, hsub hother h p⟩

theorem Picks.perm (h : Picks arranged pick) (hperm : arranged.Perm partials) : Picks partials pick :=
  ⟨h.ascending, fun _ hp => hperm.mem_iff.mp (h.subset hp), fun p hp => h.covers p (hperm.mem_iff.mpr hp)⟩

theorem parties_subset_append (partials more : List PartialSignature) :
    parties partials ⊆ parties (partials ++ more) := by
  intro party hparty
  obtain ⟨p, hp, rfl⟩ := mem_parties.mp hparty
  exact mem_parties.mpr ⟨p, List.mem_append_left _ hp, rfl⟩

theorem partiesBelow_le_append (partials more : List PartialSignature) (party : UInt64) :
    partiesBelow partials party ≤ partiesBelow (partials ++ more) party :=
  Finset.card_le_card (Finset.filter_subset_filter _ (parties_subset_append partials more))

/-- Below a party among the lowest, there are no parties of later contributions. -/
theorem partiesBelow_append (hmore : ∀ p ∈ more, threshold ≤ partiesBelow partials p.party) {party : UInt64}
    (hlow : partiesBelow partials party < threshold) :
    partiesBelow (partials ++ more) party = partiesBelow partials party := by
  refine Nat.le_antisymm (Finset.card_le_card fun below hbelow => ?_) (partiesBelow_le_append ..)
  rw [Finset.mem_filter] at hbelow ⊢
  obtain ⟨p, hp, rfl⟩ := mem_parties.mp hbelow.1
  rcases List.mem_append.mp hp with hp | hp
  · exact ⟨mem_parties.mpr ⟨p, hp, rfl⟩, hbelow.2⟩
  · have hmono : partiesBelow partials p.party ≤ partiesBelow partials party :=
      partiesBelow_mono (UInt64.le_of_lt hbelow.2)
    have hhigh := hmore p hp
    omega

/-- Contributions of parties above the lowest leave the lowest as they are. -/
theorem take_kept_append (hmore : ∀ p ∈ more, threshold ≤ partiesBelow partials p.party) :
    (kept (partials ++ more)).take threshold = (kept partials).take threshold := by
  have hall := picks_kept (partials ++ more)
  have hfirst := picks_kept partials
  refine eq_of_ascending (hall.ascending.sublist (List.take_sublist ..))
    (hfirst.ascending.sublist (List.take_sublist ..)) fun p => ⟨fun hp => ?_, fun hp => ?_⟩
  · have hkept := List.mem_of_mem_take hp
    have hlow : partiesBelow partials p.party < threshold :=
      Nat.lt_of_le_of_lt (partiesBelow_le_append ..) ((hall.mem_take_iff hkept).mp hp)
    have hpartials : p ∈ partials := (List.mem_append.mp (hall.subset hkept)).resolve_right fun hp => by
      have hhigh := hmore p hp
      omega
    obtain ⟨q, hq, hparty⟩ := hfirst.covers p hpartials
    have hfind := mem_kept_iff.mp hkept
    rw [List.find?_append, ← hparty, mem_kept_iff.mp hq] at hfind
    obtain rfl : q = p := Option.some.inj hfind
    exact (hfirst.mem_take_iff hq).mpr hlow
  · have hkept := List.mem_of_mem_take hp
    have hlow := (hfirst.mem_take_iff hkept).mp hp
    have hstill : p ∈ kept (partials ++ more) := by
      rw [mem_kept_iff, List.find?_append, mem_kept_iff.mp hkept]
      rfl
    rw [hall.mem_take_iff hstill, partiesBelow_append hmore hlow]
    exact hlow

/-- **Which results the contributions can give, in all orders of arrival.** Too few parties are refused with the same
error in any order. Otherwise the results are the sums over all picks of one contribution of each party: exactly one
if none of the lowest parties contributed two that differ. Parties above the lowest make no difference to a sum. -/
theorem aggregatePartials_arrivals [Library] (partials : List PartialSignature) (threshold : Nat) :
    (threshold = 0 ∨ (parties partials).card < threshold → ∀ arranged, arranged.Perm partials →
      aggregatePartials arranged threshold = .error (.notEnoughPartials (parties partials).card threshold)) ∧
    (0 < threshold → threshold ≤ (parties partials).card → ∀ result,
      (∃ arranged, arranged.Perm partials ∧ aggregatePartials arranged threshold = result) ↔
        ∃ pick, Picks partials pick ∧ Signature.aggregate ((pick.take threshold).map (·.signature)) = result) ∧
    ((∀ p ∈ partials, ∀ q ∈ partials, p.party = q.party → partiesBelow partials p.party < threshold → p = q) →
      ∀ arranged, arranged.Perm partials →
        aggregatePartials arranged threshold = aggregatePartials partials threshold) ∧
    (∀ more, (∀ p ∈ more, threshold ≤ partiesBelow partials p.party) → ∀ signature,
      aggregatePartials partials threshold = .ok signature →
        aggregatePartials (partials ++ more) threshold = .ok signature) := by
  refine ⟨fun hfew arranged hperm => ?_, fun hpos hmany result => ⟨?_, ?_⟩, fun hone arranged hperm => ?_,
    fun more hmore signature hsum => ?_⟩
  · rw [aggregatePartials_eq, parties_perm hperm, if_pos hfew]
  · rintro ⟨arranged, hperm, rfl⟩
    refine ⟨kept arranged, (picks_kept arranged).perm hperm, ?_⟩
    rw [aggregatePartials_eq, parties_perm hperm, if_neg (by omega)]
  · rintro ⟨pick, hpick, rfl⟩
    obtain ⟨arranged, hperm, rfl⟩ := hpick.exists_perm
    exact ⟨arranged, hperm, by rw [aggregatePartials_eq, parties_perm hperm, if_neg (by omega)]⟩
  · rw [aggregatePartials_eq, aggregatePartials_eq, parties_perm hperm,
      ((picks_kept arranged).perm hperm).take_eq (picks_kept partials) hone]
  · have henough : ¬ (threshold = 0 ∨ (parties partials).card < threshold) := by
      intro hfew
      rw [aggregatePartials_eq, if_pos hfew] at hsum
      cases hsum
    have hgrown := Finset.card_le_card (parties_subset_append partials more)
    rw [aggregatePartials_eq, if_neg henough] at hsum
    rw [aggregatePartials_eq, if_neg (by omega), take_kept_append hmore, hsum]

/-- The point that generates the subgroup of signatures. -/
def G2.generator : G2 :=
  .affine
    ⟨.ofNat 0x024aa2b2f08f0a91260805272dc51051c6e47ad4fa403b02b4510b647ae3d1770bac0326a805bbefd48056c8c121bdb8,
      .ofNat 0x13e02b6052719f607dacd3a088274f65596bd0d09920b61ab5da61bbdc7f5049334cf11213945d57e5ac7d055d042b7e⟩
    ⟨.ofNat 0x0ce5d527727d6e118cc9cdc6da2e351aadfd9baa8cbdd3a76d429a695160d12c923ac9cc3baca289e193548608b82801,
      .ofNat 0x0606c4a02ea734cc32acd2b02bc28b99cb3e287e85a763af267492ab572e99ab3f370d275cec1da1aaa9075ff05f79be⟩

/-- One party with two signatures. -/
def twoOfOneParty : List PartialSignature := [⟨1, ⟨G2.generator⟩⟩, ⟨1, ⟨G2.generator.neg⟩⟩]

set_option maxRecDepth 100000 in
/-- **Between two signatures of one party, the order of arrival decides.** -/
theorem aggregatePartials_twoOfOneParty :
    twoOfOneParty.reverse.Perm twoOfOneParty ∧
      aggregatePartials twoOfOneParty 1 = .ok ⟨G2.generator⟩ ∧
      aggregatePartials twoOfOneParty.reverse 1 = .ok ⟨G2.generator.neg⟩ ∧
      G2.generator ≠ G2.generator.neg := by
  have hkept : kept twoOfOneParty = [⟨1, ⟨G2.generator⟩⟩] := by
    rw [kept, byParty_of_sorted (by simp [twoOfOneParty])]
    rfl
  have hreversed : kept twoOfOneParty.reverse = [⟨1, ⟨G2.generator.neg⟩⟩] := by
    rw [kept, byParty_of_sorted (by simp [twoOfOneParty])]
    rfl
  refine ⟨List.reverse_perm _, ?_⟩
  rw [aggregatePartials_eq, aggregatePartials_eq, hkept, hreversed]
  decide +kernel

/-- The same two signatures of a party above the lowest. -/
theorem aggregatePartials_twoOfHigherParty :
    aggregatePartials (⟨0, ⟨.infinity⟩⟩ :: twoOfOneParty).reverse 1 =
      aggregatePartials (⟨0, ⟨.infinity⟩⟩ :: twoOfOneParty) 1 :=
  (aggregatePartials_arrivals (⟨0, ⟨.infinity⟩⟩ :: twoOfOneParty) 1).2.2.1 (by decide +kernel) _
    (List.reverse_perm _)

end RoundChain.Bls12381
