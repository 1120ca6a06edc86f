/-
# How many pairs a machine can hold

On a machine whose physical cores all have `w` vCPUs, `planPairs` fails only when there is no plan
at all (`planPairs_complete`).

Both sides are compared with one number, `capacity`: half the usable cores of a node, rounded down,
times `w`, over all nodes.  The pairs that `planPairs` takes its plan from are that many, since it
puts every two cores of a node together (`length_allPairs`).  No plan has more: on a node, the
cores with runtime threads and the cores with polling threads are different cores, each role needs
one vCPU a pair, and so the rarer role has at most half the cores (`SoundPlan.length_le_capacity`).
-/

import Toutates.Host.Pairing
import Mathlib.Algebra.BigOperators.Group.Finset.Basic
import Mathlib.Algebra.Order.BigOperators.Group.Finset

namespace Toutates

open Basis

/-- The usable cores of a node. -/
def usableOn (allowedVcpus : List ℕ) (smtGroups : List SmtGroup) (node : ℕ) : List SmtGroup :=
  (usableGroups allowedVcpus smtGroups).filter fun group => group.numaNode = node

/-- The number of pairs that fit when every core has `w` vCPUs. -/
def capacity (w : ℕ) (allowedVcpus : List ℕ) (smtGroups : List SmtGroup) : ℕ :=
  ∑ node ∈ (smtGroups.map SmtGroup.numaNode).toFinset, w * ((usableOn allowedVcpus smtGroups node).length / 2)

section Capacity

variable {w : ℕ} {allowedVcpus : List ℕ} {smtGroups : List SmtGroup} {pairsWanted : ℕ} {pairs : List Pair}

/-! ### What the nodes give -/

/-- Cores of one width give as many pairs as half of them have vCPUs. -/
theorem length_corePairs (node : ℕ) {groups : List SmtGroup} (hw : ∀ group ∈ groups, group.vcpus.length = w) :
    (corePairs node groups).length = w * (groups.length / 2) := by
  induction groups using corePairs.induct with
  | case1 rtGroup sqGroup rest ih =>
    have hrt := hw rtGroup List.mem_cons_self
    have hsq := hw sqGroup (List.mem_cons_of_mem _ List.mem_cons_self)
    have hrest := ih fun group h => hw group (List.mem_cons_of_mem _ (List.mem_cons_of_mem _ h))
    have hhalf : (rest.length + 1 + 1) / 2 = rest.length / 2 + 1 := by omega
    rw [corePairs, List.length_append, List.length_map, List.length_zip, hrt, hsq, min_self, hrest,
      List.length_cons, List.length_cons, hhalf, Nat.mul_succ, Nat.add_comm]
  | case2 groups hgroups =>
    rcases groups with _ | ⟨rt, _ | ⟨sq, rest⟩⟩
    · rfl
    · simp [corePairs]
    · exact absurd rfl (hgroups rt sq rest)

/-- The nodes are in order. -/
theorem byNode_sorted (groups : List SmtGroup) : SortedMap.Sorted (byNode groups) := by
  suffices h : ∀ (rest : List SmtGroup) nodes, SortedMap.Sorted nodes →
      SortedMap.Sorted (rest.foldl (fun nodes group => SortedMap.push group.numaNode group nodes) nodes) from
    h groups [] List.Pairwise.nil
  intro rest
  induction rest with
  | nil => exact fun nodes h => h
  | cons group rest ih => exact fun nodes h => ih _ (h.upsert _ _)

/-- Every node that is listed has a core. -/
theorem exists_of_mem_byNode {groups : List SmtGroup} {p : ℕ × List SmtGroup} (hp : p ∈ byNode groups) :
    ∃ group ∈ groups, group.numaNode = p.1 := by
  suffices h : ∀ (rest : List SmtGroup) nodes,
      p ∈ rest.foldl (fun nodes group => SortedMap.push group.numaNode group nodes) nodes →
        p.1 ∈ nodes.map Prod.fst ∨ ∃ group ∈ rest, group.numaNode = p.1 from
    (h groups [] hp).resolve_left (by simp)
  intro rest
  induction rest with
  | nil => exact fun nodes h => .inl (List.mem_map_of_mem h)
  | cons group rest ih =>
    intro nodes h
    rcases ih _ h with hkey | ⟨g, hg, hnode⟩
    · obtain ⟨q, hq, hqp⟩ := List.mem_map.1 hkey
      rcases SortedMap.key_of_mem_upsert hq with hk | hq
      · exact .inr ⟨group, List.mem_cons_self, hk.symm.trans hqp⟩
      · exact .inl (List.mem_map.2 ⟨q, hq, hqp⟩)
    · exact .inr ⟨g, List.mem_cons_of_mem _ hg, hnode⟩

/-- A node lists as many cores as there are on it. -/
theorem length_of_mem_byNode {groups : List SmtGroup} {p : ℕ × List SmtGroup} (hp : p ∈ byNode groups) :
    p.2.length = (groups.filter fun group => group.numaNode = p.1).length := by
  obtain ⟨before, after, hsplit⟩ := List.append_of_mem hp
  have hsorted := byNode_sorted groups
  rw [hsplit] at hsorted
  obtain ⟨-, hafter, hbefore⟩ := List.pairwise_append.1 hsorted
  -- the cores of the other nodes do not pass the filter
  have hother : ∀ (nodes : List (ℕ × List SmtGroup)), (∀ q ∈ nodes, q ∈ byNode groups ∧ q.1 ≠ p.1) →
      (nodes.flatMap Prod.snd).filter (fun group => group.numaNode = p.1) = [] := by
    intro nodes hnodes
    rw [List.filter_eq_nil_iff]
    intro group hgroup
    obtain ⟨q, hq, hmem⟩ := List.mem_flatMap.1 hgroup
    have hnode := mem_byNode (hnodes q hq).1 hmem
    simpa [hnode] using (hnodes q hq).2
  have hbeforeNil := hother before fun q hq =>
    ⟨hsplit ▸ List.mem_append_left _ hq, (hbefore q hq p List.mem_cons_self).ne⟩
  have hafterNil := hother after fun q hq =>
    ⟨hsplit ▸ List.mem_append_right _ (List.mem_cons_of_mem _ hq), ((List.pairwise_cons.1 hafter).1 q hq).ne'⟩
  have hown : p.2.filter (fun group => group.numaNode = p.1) = p.2 :=
    List.filter_eq_self.2 fun group hgroup => by simpa using mem_byNode hp hgroup
  have hperm := (byNode_perm groups).filter fun group => group.numaNode = p.1
  rw [hsplit, List.flatMap_append, List.flatMap_cons, List.filter_append, List.filter_append, hbeforeNil,
    hafterNil, hown, List.nil_append, List.append_nil] at hperm
  exact hperm.length_eq

/-- **The nodes give as many pairs as fit.** -/
theorem length_allPairs (hw : ∀ group ∈ smtGroups, group.vcpus.length = w) :
    (allPairs (byNode (usableGroups allowedVcpus smtGroups))).length = capacity w allowedVcpus smtGroups := by
  set nodes := byNode (usableGroups allowedVcpus smtGroups) with hnodes
  have hnodup : (nodes.map Prod.fst).Nodup := by
    rw [List.Nodup, List.pairwise_map]
    exact (byNode_sorted _).imp fun h => h.ne
  have hlisted : ∀ group ∈ usableGroups allowedVcpus smtGroups, ∃ p ∈ nodes, group.numaNode = p.1 := by
    intro group hgroup
    obtain ⟨p, hp, hmem⟩ := List.mem_flatMap.1 ((byNode_perm _).mem_iff.2 hgroup)
    exact ⟨p, hp, mem_byNode hp hmem⟩
  have hterm : ∀ p ∈ nodes, (corePairs p.1 p.2).length = w * ((usableOn allowedVcpus smtGroups p.1).length / 2) := by
    intro p hp
    rw [length_corePairs p.1 fun group hgroup => hw group (of_mem_byNode hp hgroup).1, length_of_mem_byNode hp]
    rfl
  have hsub : (nodes.map Prod.fst).toFinset ⊆ (smtGroups.map SmtGroup.numaNode).toFinset := by
    intro node hnode
    obtain ⟨p, hp, rfl⟩ := List.mem_map.1 (List.mem_toFinset.1 hnode)
    obtain ⟨group, hgroup, hon⟩ := exists_of_mem_byNode hp
    exact List.mem_toFinset.2 (List.mem_map.2 ⟨group, (mem_usableGroups.1 hgroup).1, hon⟩)
  calc (allPairs nodes).length
      = (nodes.map fun p => (corePairs p.1 p.2).length).sum := by rw [allPairs, List.length_flatMap]
    _ = ((nodes.map Prod.fst).map fun node => w * ((usableOn allowedVcpus smtGroups node).length / 2)).sum := by
        rw [List.map_map]
        exact congrArg List.sum (List.map_congr_left hterm)
    _ = ∑ node ∈ (nodes.map Prod.fst).toFinset, w * ((usableOn allowedVcpus smtGroups node).length / 2) :=
        (List.sum_toFinset _ hnodup).symm
    _ = capacity w allowedVcpus smtGroups := by
        refine Finset.sum_subset hsub fun node _ hnode => ?_
        have hnone : usableOn allowedVcpus smtGroups node = [] := by
          rw [usableOn, List.filter_eq_nil_iff]
          intro group hgroup hon
          obtain ⟨p, hp, heq⟩ := hlisted group hgroup
          exact hnode (List.mem_toFinset.2 (List.mem_map.2 ⟨p, hp, heq.symm.trans (of_decide_eq_true hon)⟩))
        rw [hnone]
        rfl

/-- `planPairs` returns a plan as soon as the nodes can give enough pairs. -/
theorem planPairs_eq_ok_iff : (∃ pairs, planPairs allowedVcpus smtGroups pairsWanted = .ok pairs) ↔
    pairsWanted ≤ (allPairs (byNode (usableGroups allowedVcpus smtGroups))).length := by
  have heq := pairNodes_eq pairsWanted (byNode (usableGroups allowedVcpus smtGroups)) [] (Nat.zero_le _)
  rw [List.nil_append] at heq
  simp only [planPairs, heq, List.length_take]
  split_ifs with hlen
  · simp only [exists_false, false_iff]
    omega
  · simp only [Except.ok.injEq, exists_eq', true_iff]
    omega

/-! ### What no plan exceeds -/

/-- As many vCPUs from cores of two roles need twice as many cores. -/
theorem card_le_of_two_roles {γ τ : Type*} [DecidableEq γ] [DecidableEq τ] {all : Finset γ} (first second : Finset γ)
    (vcpus : γ → Finset τ) (s t : Finset τ) (hw : ∀ g ∈ all, (vcpus g).card ≤ w) (hfirst : first ⊆ all)
    (hsecond : second ⊆ all) (hdis : Disjoint first second) (hs : s ⊆ first.biUnion vcpus)
    (ht : t ⊆ second.biUnion vcpus) (hst : s.card = t.card) : s.card ≤ w * (all.card / 2) := by
  have hsFirst : s.card ≤ first.card * w :=
    (Finset.card_le_card hs).trans (Finset.card_biUnion_le_card_mul _ _ _ fun g hg => hw g (hfirst hg))
  have htSecond : s.card ≤ second.card * w :=
    hst.trans_le ((Finset.card_le_card ht).trans
      (Finset.card_biUnion_le_card_mul _ _ _ fun g hg => hw g (hsecond hg)))
  have hboth : first.card + second.card ≤ all.card := by
    rw [← Finset.card_union_of_disjoint hdis]
    exact Finset.card_le_card (Finset.union_subset hfirst hsecond)
  -- the rarer role has at most half of the cores
  rcases le_total first.card second.card with h | h
  · calc s.card ≤ first.card * w := hsFirst
      _ ≤ all.card / 2 * w := Nat.mul_le_mul_right w (by omega)
      _ = w * (all.card / 2) := Nat.mul_comm _ _
  · calc s.card ≤ second.card * w := htSecond
      _ ≤ all.card / 2 * w := Nat.mul_le_mul_right w (by omega)
      _ = w * (all.card / 2) := Nat.mul_comm _ _

/-- No two pairs have the same runtime vCPU. -/
theorem SoundPlan.nodup_runtime (h : SoundPlan allowedVcpus smtGroups pairsWanted pairs) :
    (pairs.map Pair.runtimeVcpu).Nodup := by
  rw [List.Nodup, List.pairwise_map]
  refine (List.nodup_flatMap.1 h.distinct).2.imp fun hdis heq => hdis List.mem_cons_self ?_
  rw [heq]
  exact List.mem_cons_self

/-- No two pairs have the same polling vCPU. -/
theorem SoundPlan.nodup_sqpoll (h : SoundPlan allowedVcpus smtGroups pairsWanted pairs) :
    (pairs.map Pair.sqpollVcpu).Nodup := by
  rw [List.Nodup, List.pairwise_map]
  refine (List.nodup_flatMap.1 h.distinct).2.imp fun hdis heq =>
    hdis (List.mem_cons_of_mem _ List.mem_cons_self) ?_
  rw [heq]
  exact List.mem_cons_of_mem _ List.mem_cons_self

/-- The vCPUs of a role are on the cores that have it. -/
theorem toFinset_map_subset_biUnion {all : Finset SmtGroup} (role : Pair → ℕ)
    (h : ∀ p ∈ pairs, ∃ group ∈ all, role p ∈ group.vcpus) : (pairs.map role).toFinset ⊆
      (all.filter fun group => ∃ p ∈ pairs, role p ∈ group.vcpus).biUnion fun group => group.vcpus.toFinset := by
  intro v hv
  obtain ⟨p, hp, rfl⟩ := List.mem_map.1 (List.mem_toFinset.1 hv)
  obtain ⟨group, hgroup, hmem⟩ := h p hp
  exact Finset.mem_biUnion.2 ⟨group, Finset.mem_filter.2 ⟨hgroup, p, hp, hmem⟩, List.mem_toFinset.2 hmem⟩

/-- Both cores of a pair are usable ones of its node. -/
theorem SoundPlan.usable (h : SoundPlan allowedVcpus smtGroups pairsWanted pairs) {p : Pair} (hp : p ∈ pairs) :
    (∃ rt ∈ usableOn allowedVcpus smtGroups p.numaNode, p.runtimeVcpu ∈ rt.vcpus) ∧
      ∃ sq ∈ usableOn allowedVcpus smtGroups p.numaNode, p.sqpollVcpu ∈ sq.vcpus := by
  obtain ⟨rt, hrt, sq, hsq, hvrt, hvsq, hrtNode, hsqNode⟩ := h.cores p hp
  have hrtUsable := mem_usableGroups.2 ⟨hrt, h.whole p hp rt hrt (.inl hvrt)⟩
  have hsqUsable := mem_usableGroups.2 ⟨hsq, h.whole p hp sq hsq (.inr hvsq)⟩
  exact ⟨⟨rt, List.mem_filter.2 ⟨hrtUsable, decide_eq_true hrtNode⟩, hvrt⟩,
    sq, List.mem_filter.2 ⟨hsqUsable, decide_eq_true hsqNode⟩, hvsq⟩

/-- The pairs of one node. -/
theorem SoundPlan.length_filter_le (h : SoundPlan allowedVcpus smtGroups pairsWanted pairs)
    (hw : ∀ group ∈ smtGroups, group.vcpus.length = w) (node : ℕ) :
    (pairs.filter fun p => p.numaNode = node).length ≤ w * ((usableOn allowedVcpus smtGroups node).length / 2) := by
  set on := pairs.filter fun p => p.numaNode = node with hon
  set all := (usableOn allowedVcpus smtGroups node).toFinset with hall
  have hmem : ∀ p ∈ on, p ∈ pairs ∧ p.numaNode = node := by
    intro p hp
    simpa [hon] using hp
  have hsmt : ∀ group ∈ all, group ∈ smtGroups := by
    intro group hgroup
    rw [hall, List.mem_toFinset] at hgroup
    exact (mem_usableGroups.1 (List.mem_of_mem_filter hgroup)).1
  have hcard : ∀ role : Pair → ℕ, (pairs.map role).Nodup → on.length = (on.map role).toFinset.card := by
    intro role hnodup
    rw [List.toFinset_card_of_nodup (hnodup.sublist (List.filter_sublist.map _)), List.length_map]
  have hruntime : ∀ p ∈ on, ∃ group ∈ all, p.runtimeVcpu ∈ group.vcpus := by
    intro p hp
    obtain ⟨rt, hrt, hv⟩ := (h.usable (hmem p hp).1).1
    rw [(hmem p hp).2] at hrt
    exact ⟨rt, List.mem_toFinset.2 hrt, hv⟩
  have hsqpoll : ∀ p ∈ on, ∃ group ∈ all, p.sqpollVcpu ∈ group.vcpus := by
    intro p hp
    obtain ⟨sq, hsq, hv⟩ := (h.usable (hmem p hp).1).2
    rw [(hmem p hp).2] at hsq
    exact ⟨sq, List.mem_toFinset.2 hsq, hv⟩
  have hroles : Disjoint (all.filter fun group => ∃ p ∈ on, p.runtimeVcpu ∈ group.vcpus)
      (all.filter fun group => ∃ p ∈ on, p.sqpollVcpu ∈ group.vcpus) := by
    rw [Finset.disjoint_left]
    intro group hfirst hsecond
    obtain ⟨hgroup, p, hp, hv⟩ := Finset.mem_filter.1 hfirst
    obtain ⟨-, q, hq, hv'⟩ := Finset.mem_filter.1 hsecond
    exact h.roles p (hmem p hp).1 q (hmem q hq).1 group (hsmt group hgroup) hv hv'
  have hwidth : ∀ group ∈ all, group.vcpus.toFinset.card ≤ w := fun group hgroup =>
    (List.toFinset_card_le _).trans (hw group (hsmt group hgroup)).le
  have hbound : (on.map Pair.runtimeVcpu).toFinset.card ≤ w * (all.card / 2) := by
    refine card_le_of_two_roles _ _ (fun group => group.vcpus.toFinset) _ (on.map Pair.sqpollVcpu).toFinset hwidth
      (Finset.filter_subset _ _) (Finset.filter_subset _ _) hroles ?_ ?_ ?_
    · exact toFinset_map_subset_biUnion Pair.runtimeVcpu hruntime
    · exact toFinset_map_subset_biUnion Pair.sqpollVcpu hsqpoll
    · rw [← hcard _ h.nodup_runtime, hcard _ h.nodup_sqpoll]
  rw [hcard _ h.nodup_runtime]
  exact hbound.trans (Nat.mul_le_mul_left w (Nat.div_le_div_right (List.toFinset_card_le _)))

/-- **No plan has more pairs than fit.** -/
theorem SoundPlan.length_le_capacity (h : SoundPlan allowedVcpus smtGroups pairsWanted pairs)
    (hw : ∀ group ∈ smtGroups, group.vcpus.length = w) : pairs.length ≤ capacity w allowedVcpus smtGroups := by
  have hnodes : (pairs.map Pair.numaNode).toFinset ⊆ (smtGroups.map SmtGroup.numaNode).toFinset := by
    intro node hnode
    obtain ⟨p, hp, rfl⟩ := List.mem_map.1 (List.mem_toFinset.1 hnode)
    obtain ⟨rt, hrt, -, -, -, -, hrtNode, -⟩ := h.cores p hp
    exact List.mem_toFinset.2 (List.mem_map.2 ⟨rt, hrt, hrtNode⟩)
  calc pairs.length
      = ∑ node ∈ (pairs.map Pair.numaNode).toFinset, (pairs.map Pair.numaNode).count node := by
        rw [List.sum_toFinset_count_eq_length, List.length_map]
    _ ≤ ∑ node ∈ (pairs.map Pair.numaNode).toFinset, w * ((usableOn allowedVcpus smtGroups node).length / 2) := by
        refine Finset.sum_le_sum fun node _ => le_of_eq_of_le ?_ (h.length_filter_le hw node)
        rw [List.count_eq_countP, List.countP_map, List.countP_eq_length_filter]
        congr 1
    _ ≤ capacity w allowedVcpus smtGroups := Finset.sum_le_sum_of_subset hnodes

/-- **Planning is complete on uniform machines.**  It fails only when there is no plan at all, that
is, when more pairs are asked for than fit. -/
theorem planPairs_complete (hw : ∀ group ∈ smtGroups, group.vcpus.length = w)
    (hdis : smtGroups.Pairwise fun a b => a.vcpus.Disjoint b.vcpus) (hnodup : ∀ group ∈ smtGroups, group.vcpus.Nodup)
    (allowedVcpus : List ℕ) (pairsWanted : ℕ) :
    ((∃ e, planPairs allowedVcpus smtGroups pairsWanted = .error e) ↔
      ¬ ∃ pairs, SoundPlan allowedVcpus smtGroups pairsWanted pairs) ∧
    ((∃ pairs, planPairs allowedVcpus smtGroups pairsWanted = .ok pairs) ↔
      pairsWanted ≤ capacity w allowedVcpus smtGroups) := by
  have hok : (∃ pairs, planPairs allowedVcpus smtGroups pairsWanted = .ok pairs) ↔
      pairsWanted ≤ capacity w allowedVcpus smtGroups := by
    rw [planPairs_eq_ok_iff, length_allPairs hw]
  refine ⟨⟨?_, fun hnone => ?_⟩, hok⟩
  · rintro ⟨e, he⟩ ⟨pairs, hplan⟩
    obtain ⟨pairs', hpairs'⟩ := hok.2 (hplan.length ▸ hplan.length_le_capacity hw)
    rw [he] at hpairs'
    cases hpairs'
  · cases hresult : planPairs allowedVcpus smtGroups pairsWanted with
    | error e => exact ⟨e, rfl⟩
    | ok pairs => exact absurd ⟨pairs, planPairs_sound hdis hnodup hresult⟩ hnone

end Capacity

/-- Of three cores of two vCPUs on one node, one stays alone. -/
theorem planPairs_complete_threeCores :
    ¬ ∃ pairs, SoundPlan [0, 1, 2, 3, 4, 5] [⟨[0, 3], 0⟩, ⟨[1, 4], 0⟩, ⟨[2, 5], 0⟩] 3 pairs :=
  (planPairs_complete (w := 2) (by decide) (by simp) (by decide) _ 3).1.1 ⟨_, rfl⟩

end Toutates
