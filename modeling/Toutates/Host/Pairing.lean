/-
# Plans of runtime and polling threads

What `planPairs` returns is a prefix of all the pairs that the nodes can give, node by node
(`pairNodes_eq`): the counts it checks decide only where the prefix ends.  In that list, cores at
even places of a node carry runtime threads and cores at odd places polling threads
(`runtimeCores`, `sqpollCores`), every core is at one place, and every vCPU of a core is in at
most one pair.  What holds of all the pairs holds of the prefix.
-/

import Toutates.Host.Topology
import Mathlib.Data.List.Perm.Subperm
import Mathlib.Data.List.Nodup
import Mathlib.Data.List.Flatten
import Mathlib.Data.List.Lattice
import Mathlib.Data.List.Pairwise

namespace Toutates

open Basis

/-! ### All the pairs of the nodes -/

/-- All the pairs that the cores of a node can give. -/
def corePairs (node : ℕ) : List SmtGroup → List Pair
  | rtGroup :: sqGroup :: rest =>
    (rtGroup.vcpus.zip sqGroup.vcpus).map (fun v => ⟨v.1, v.2, node⟩) ++ corePairs node rest
  | _ => []

/-- All the pairs that the nodes can give. -/
def allPairs (nodes : List (ℕ × List SmtGroup)) : List Pair := nodes.flatMap fun p => corePairs p.1 p.2

/-- A loop that appends `all` to `pairs` until there are `pairsWanted`, and reports whether there
are. -/
structure Fills (pairsWanted : ℕ) (pairs all : List Pair) (result : Bool × List Pair) : Prop where
  taken : result.2 = (pairs ++ all).take pairsWanted
  more : result.1 = false → (pairs ++ all).length ≤ pairsWanted
  full : result.1 = true → pairsWanted ≤ (pairs ++ all).length

/-- With enough pairs nothing more is taken. -/
theorem Fills.stop {wanted : ℕ} {pairs : List Pair} (all : List Pair) (h : pairs.length = wanted) :
    Fills wanted pairs all (true, pairs) where
  taken := by rw [← h, List.take_left]
  more h := by cases h
  full _ := by rw [List.length_append]; omega

/-- With too few pairs all are taken. -/
theorem Fills.all {wanted : ℕ} {pairs all : List Pair} {result : Bool × List Pair} (h : Fills wanted pairs all result)
    (hmore : result.1 = false) : result.2 = pairs ++ all := by
  rw [h.taken, List.take_of_length_le (h.more hmore)]

/-- What the loop started with and what it appends are told apart by the caller only. -/
theorem Fills.of_append_eq {wanted : ℕ} {pairs pairs' all all' : List Pair} {result : Bool × List Pair}
    (h : Fills wanted pairs all result) (heq : pairs ++ all = pairs' ++ all') :
    Fills wanted pairs' all' result :=
  ⟨heq ▸ h.taken, heq ▸ h.more, heq ▸ h.full⟩

/-- A loop that stopped has what a longer one would have. -/
theorem Fills.append {wanted : ℕ} {pairs all : List Pair} {result : Bool × List Pair}
    (h : Fills wanted pairs all result)
    (hfull : result.1 = true) (rest : List Pair) : Fills wanted pairs (all ++ rest) result where
  taken := by rw [h.taken, ← List.append_assoc, List.take_append_of_le_length (h.full hfull)]
  more hmore := by rw [hfull] at hmore; cases hmore
  full _ := by
    have := h.full hfull
    rw [← List.append_assoc, List.length_append]
    omega

/-- Two cores are paired until there are enough pairs. -/
theorem pairVcpus_fills (wanted node : ℕ) (vcpus : List (ℕ × ℕ)) (pairs : List Pair)
    (h : pairs.length ≤ wanted) :
    Fills wanted pairs (vcpus.map fun v => ⟨v.1, v.2, node⟩) (pairVcpus wanted node vcpus pairs) := by
  induction vcpus generalizing pairs with
  | nil =>
    rw [List.map_nil, pairVcpus]
    exact ⟨by rw [List.append_nil, List.take_of_length_le h], fun _ => by rwa [List.append_nil],
      fun hfull => by cases hfull⟩
  | cons v vcpus ih =>
    obtain ⟨runtime, sqpoll⟩ := v
    rw [pairVcpus]
    split_ifs with hlen
    · exact Fills.stop _ hlen
    · rw [List.map_cons]
      refine (ih _ ?_).of_append_eq (List.append_cons _ _ _).symm
      rw [List.length_append, List.length_singleton]
      omega

/-- A node is paired until there are enough pairs. -/
theorem pairNode_fills (wanted node : ℕ) (groups : List SmtGroup) (pairs : List Pair)
    (h : pairs.length ≤ wanted) :
    Fills wanted pairs (corePairs node groups) (pairNode wanted node groups pairs) := by
  induction groups, pairs using pairNode.induct wanted node with
  | case1 rtGroup sqGroup rest pairs hlen =>
    rw [pairNode, if_pos hlen]
    exact Fills.stop _ hlen
  | case2 rtGroup sqGroup rest pairs hlen pairs' hpairs =>
    have hfills := pairVcpus_fills wanted node (rtGroup.vcpus.zip sqGroup.vcpus) pairs h
    rw [pairNode, if_neg hlen, hpairs, corePairs]
    rw [hpairs] at hfills
    exact hfills.append rfl _
  | case3 rtGroup sqGroup rest pairs hlen pairs' hpairs ih =>
    have hfills := pairVcpus_fills wanted node (rtGroup.vcpus.zip sqGroup.vcpus) pairs h
    rw [hpairs] at hfills
    obtain rfl := hfills.all rfl
    rw [pairNode, if_neg hlen, hpairs, corePairs]
    exact (ih (hfills.more rfl)).of_append_eq (List.append_assoc _ _ _)
  | case4 groups pairs hgroups =>
    have hnone : corePairs node groups = [] := by
      unfold corePairs
      split
      · rename_i rt sq rest
        exact absurd rfl (hgroups rt sq rest)
      · rfl
    have hresult : pairNode wanted node groups pairs = (decide (pairs.length = wanted), pairs) := by
      unfold pairNode
      split
      · rename_i rt sq rest
        exact absurd rfl (hgroups rt sq rest)
      · rfl
    rw [hnone, hresult]
    refine ⟨by rw [List.append_nil, List.take_of_length_le h], fun _ => by rwa [List.append_nil], fun hfull => ?_⟩
    rw [List.append_nil]
    exact (of_decide_eq_true hfull).ge

/-- **A plan is a prefix of all the pairs.** -/
theorem pairNodes_eq (wanted : ℕ) (nodes : List (ℕ × List SmtGroup)) (pairs : List Pair)
    (h : pairs.length ≤ wanted) : pairNodes wanted nodes pairs = (pairs ++ allPairs nodes).take wanted := by
  induction nodes generalizing pairs with
  | nil => rw [pairNodes, allPairs, List.flatMap_nil, List.append_nil, List.take_of_length_le h]
  | cons p rest ih =>
    obtain ⟨node, groups⟩ := p
    have hfills := pairNode_fills wanted node groups pairs h
    rw [pairNodes, allPairs, List.flatMap_cons]
    split
    · rename_i pairs' hresult
      rw [hresult] at hfills
      exact (hfills.append rfl _).taken
    · rename_i pairs' hresult
      rw [hresult] at hfills
      obtain rfl := hfills.all rfl
      rw [ih _ (hfills.more rfl), ← List.append_assoc]
      rfl

/-! ### Cores and their roles -/

/-- The cores of a node that carry runtime threads: the first of every two. -/
def runtimeCores : List SmtGroup → List SmtGroup
  | rtGroup :: _ :: rest => rtGroup :: runtimeCores rest
  | _ => []

/-- The cores of a node that carry polling threads: the second of every two. -/
def sqpollCores : List SmtGroup → List SmtGroup
  | _ :: sqGroup :: rest => sqGroup :: sqpollCores rest
  | _ => []

/-- The vCPUs of a pair. -/
def Pair.vcpus (p : Pair) : List ℕ := [p.runtimeVcpu, p.sqpollVcpu]

/-- A pair of a node is of a core of each kind. -/
theorem mem_corePairs {node : ℕ} {groups : List SmtGroup} {p : Pair} (h : p ∈ corePairs node groups) :
    p.numaNode = node ∧ (∃ rt ∈ runtimeCores groups, p.runtimeVcpu ∈ rt.vcpus) ∧
      ∃ sq ∈ sqpollCores groups, p.sqpollVcpu ∈ sq.vcpus := by
  induction groups using corePairs.induct with
  | case1 rtGroup sqGroup rest ih =>
    rw [corePairs] at h
    rcases List.mem_append.1 h with h | h
    · obtain ⟨v, hv, rfl⟩ := List.mem_map.1 h
      obtain ⟨hrt, hsq⟩ := List.of_mem_zip hv
      exact ⟨rfl, ⟨rtGroup, List.mem_cons_self, hrt⟩, sqGroup, List.mem_cons_self, hsq⟩
    · obtain ⟨hnode, ⟨rt, hrt, hp⟩, sq, hsq, hp'⟩ := ih h
      exact ⟨hnode, ⟨rt, List.mem_cons_of_mem _ hrt, hp⟩, sq, List.mem_cons_of_mem _ hsq, hp'⟩
  | case2 groups hgroups =>
    unfold corePairs at h
    split at h
    · rename_i rt sq rest
      exact absurd rfl (hgroups rt sq rest)
    · cases h

/-- Every core of a node has one role at most. -/
theorem cores_subperm (groups : List SmtGroup) :
    (runtimeCores groups ++ sqpollCores groups).Subperm groups := by
  induction groups using runtimeCores.induct with
  | case1 rtGroup sqGroup rest ih =>
    rw [runtimeCores, sqpollCores, List.cons_append, List.subperm_cons]
    exact List.perm_middle.subperm.trans ((List.subperm_cons sqGroup).2 ih)
  | case2 groups hgroups =>
    unfold runtimeCores sqpollCores
    split
    · rename_i rt sq rest
      exact absurd rfl (hgroups rt sq rest)
    · exact List.nil_subperm

/-- The vCPUs of two cores are in at most one pair each. -/
theorem zip_vcpus_subperm (node : ℕ) (u v : List ℕ) :
    (((u.zip v).map fun w => (⟨w.1, w.2, node⟩ : Pair)).flatMap Pair.vcpus).Subperm (u ++ v) := by
  induction u generalizing v with
  | nil => exact List.nil_subperm
  | cons a u ih =>
    cases v with
    | nil => exact List.nil_subperm
    | cons b v =>
      have htail := ((List.subperm_cons b).2 (ih v)).trans List.perm_middle.symm.subperm
      rw [List.zip_cons_cons, List.map_cons, List.flatMap_cons]
      exact (List.subperm_cons a).2 htail

/-- Every vCPU of a node is in one pair at most, once. -/
theorem vcpus_corePairs_subperm (node : ℕ) (groups : List SmtGroup) :
    ((corePairs node groups).flatMap Pair.vcpus).Subperm (groups.flatMap SmtGroup.vcpus) := by
  induction groups using corePairs.induct with
  | case1 rtGroup sqGroup rest ih =>
    rw [corePairs, List.flatMap_append, List.flatMap_cons, List.flatMap_cons, ← List.append_assoc]
    exact (zip_vcpus_subperm node rtGroup.vcpus sqGroup.vcpus).append ih
  | case2 groups hgroups =>
    unfold corePairs
    split
    · rename_i rt sq rest
      exact absurd rfl (hgroups rt sq rest)
    · exact List.nil_subperm

/-! ### The nodes together -/

/-- A core is listed under its own node. -/
theorem mem_byNode {groups : List SmtGroup} {p : ℕ × List SmtGroup} {group : SmtGroup}
    (hp : p ∈ byNode groups) (hgroup : group ∈ p.2) : group.numaNode = p.1 := by
  suffices h : ∀ (rest : List SmtGroup) nodes, (∀ p ∈ nodes, ∀ group ∈ p.2, SmtGroup.numaNode group = p.1) →
      ∀ p ∈ rest.foldl (fun nodes group => SortedMap.push group.numaNode group nodes) nodes,
        ∀ group ∈ p.2, SmtGroup.numaNode group = p.1 from h groups [] (by simp) p hp group hgroup
  intro rest
  induction rest with
  | nil => exact fun nodes h => h
  | cons group rest ih =>
    refine fun nodes h => ih _ fun p hp x hx => ?_
    rcases SortedMap.mem_push hp hx with ⟨hk, rfl⟩ | ⟨q, hq, hk, hxq⟩
    · exact hk.symm
    · exact (h q hq x hxq).trans hk

/-- Every core is listed once. -/
theorem byNode_perm (groups : List SmtGroup) : ((byNode groups).flatMap Prod.snd).Perm groups := by
  suffices h : ∀ (rest : List SmtGroup) nodes,
      ((rest.foldl (fun nodes group => SortedMap.push group.numaNode group nodes) nodes).flatMap Prod.snd).Perm
        (nodes.flatMap Prod.snd ++ rest) from h groups []
  intro rest
  induction rest with
  | nil => exact fun nodes => by rw [List.append_nil]; exact List.Perm.refl _
  | cons group rest ih =>
    intro nodes
    have hpush := SortedMap.push_perm group.numaNode group nodes
    exact (ih _).trans ((hpush.append_right rest).trans List.perm_middle.symm)

/-- No core has two places. -/
theorem allCores_subperm (nodes : List (ℕ × List SmtGroup)) :
    ((nodes.flatMap fun p => runtimeCores p.2) ++ nodes.flatMap fun p => sqpollCores p.2).Subperm
      (nodes.flatMap Prod.snd) := by
  induction nodes with
  | nil => exact List.nil_subperm
  | cons p rest ih =>
    simp only [List.flatMap_cons]
    refine List.Subperm.trans (List.Perm.subperm ?_) ((cores_subperm p.2).append ih)
    rw [List.append_assoc, List.append_assoc]
    exact (List.perm_append_comm_assoc _ _ _).append_left _

/-- No vCPU is in two pairs. -/
theorem vcpus_allPairs_subperm (nodes : List (ℕ × List SmtGroup)) :
    ((allPairs nodes).flatMap Pair.vcpus).Subperm ((nodes.flatMap Prod.snd).flatMap SmtGroup.vcpus) := by
  induction nodes with
  | nil => exact List.nil_subperm
  | cons p rest ih =>
    rw [allPairs, List.flatMap_cons, List.flatMap_append, List.flatMap_cons, List.flatMap_append]
    exact (vcpus_corePairs_subperm p.1 p.2).append ih

/-- A pair comes from two cores of its node, one of each role. -/
theorem mem_allPairs {nodes : List (ℕ × List SmtGroup)} {p : Pair} (h : p ∈ allPairs nodes) :
    ∃ q ∈ nodes, p.numaNode = q.1 ∧ (∃ rt ∈ runtimeCores q.2, p.runtimeVcpu ∈ rt.vcpus) ∧
      ∃ sq ∈ sqpollCores q.2, p.sqpollVcpu ∈ sq.vcpus := by
  obtain ⟨q, hq, hp⟩ := List.mem_flatMap.1 h
  exact ⟨q, hq, mem_corePairs hp⟩

/-- The cores that are paired are cores of the node. -/
theorem mem_of_mem_cores {groups : List SmtGroup} {group : SmtGroup}
    (h : group ∈ runtimeCores groups ∨ group ∈ sqpollCores groups) : group ∈ groups :=
  (cores_subperm groups).subset (List.mem_append.2 h)

/-! ### Plans -/

/-- What a plan over physical cores is for: as many pairs as asked for, every vCPU in one of them
and allowed, from cores of the node of the pair, and no core in both roles.  Only cores that are
allowed whole are used. -/
structure SoundPlan (allowedVcpus : List ℕ) (smtGroups : List SmtGroup) (pairsWanted : ℕ) (pairs : List Pair) :
    Prop where
  length : pairs.length = pairsWanted
  distinct : (pairs.flatMap fun p => [p.runtimeVcpu, p.sqpollVcpu]).Nodup
  allowed : ∀ p ∈ pairs, p.runtimeVcpu ∈ allowedVcpus ∧ p.sqpollVcpu ∈ allowedVcpus
  cores : ∀ p ∈ pairs, ∃ rt ∈ smtGroups, ∃ sq ∈ smtGroups, p.runtimeVcpu ∈ rt.vcpus ∧ p.sqpollVcpu ∈ sq.vcpus ∧
    rt.numaNode = p.numaNode ∧ sq.numaNode = p.numaNode
  whole : ∀ p ∈ pairs, ∀ group ∈ smtGroups, p.runtimeVcpu ∈ group.vcpus ∨ p.sqpollVcpu ∈ group.vcpus →
    ∀ v ∈ group.vcpus, v ∈ allowedVcpus
  roles : ∀ p ∈ pairs, ∀ q ∈ pairs, ∀ group ∈ smtGroups, p.runtimeVcpu ∈ group.vcpus → q.sqpollVcpu ∉ group.vcpus

section Plan

variable {allowedVcpus : List ℕ} {smtGroups : List SmtGroup} {pairsWanted : ℕ} {pairs : List Pair}

/-- A core is usable if all of its vCPUs are allowed. -/
theorem mem_usableGroups {group : SmtGroup} :
    group ∈ usableGroups allowedVcpus smtGroups ↔ group ∈ smtGroups ∧ ∀ v ∈ group.vcpus, v ∈ allowedVcpus := by
  simp [usableGroups]

/-- Having no vCPU in common goes both ways. -/
instance : Std.Symm fun a b : SmtGroup => a.vcpus.Disjoint b.vcpus := ⟨fun _ _ h => h.symm⟩

/-- Cores with a common vCPU are one core. -/
theorem eq_of_mem_vcpus (hdis : smtGroups.Pairwise fun a b => a.vcpus.Disjoint b.vcpus) {a b : SmtGroup}
    (ha : a ∈ smtGroups) (hb : b ∈ smtGroups) {v : ℕ} (hva : v ∈ a.vcpus) (hvb : v ∈ b.vcpus) : a = b := by
  by_contra hne
  exact hdis.forall ha hb hne hva hvb

/-- A plan is made of pairs of cores that are allowed whole. -/
theorem planPairs_ok (h : planPairs allowedVcpus smtGroups pairsWanted = .ok pairs) :
    pairs.length = pairsWanted ∧
      pairs = (allPairs (byNode (usableGroups allowedVcpus smtGroups))).take pairsWanted := by
  have heq := pairNodes_eq pairsWanted (byNode (usableGroups allowedVcpus smtGroups)) [] (Nat.zero_le _)
  rw [List.nil_append] at heq
  simp only [planPairs, heq] at h
  split_ifs at h with hlen
  obtain rfl := Except.ok.inj h
  have hle := List.length_take_le pairsWanted (allPairs (byNode (usableGroups allowedVcpus smtGroups)))
  exact ⟨le_antisymm hle (Nat.le_of_not_lt hlen), rfl⟩

/-- A core that is listed under a node is one of the machine, allowed whole, and on that node. -/
theorem of_mem_byNode {q : ℕ × List SmtGroup} {group : SmtGroup}
    (hq : q ∈ byNode (usableGroups allowedVcpus smtGroups)) (hgroup : group ∈ q.2) :
    group ∈ smtGroups ∧ (∀ v ∈ group.vcpus, v ∈ allowedVcpus) ∧ group.numaNode = q.1 := by
  have hperm := byNode_perm (usableGroups allowedVcpus smtGroups)
  obtain ⟨hmem, hallowed⟩ := mem_usableGroups.1 (hperm.mem_iff.1 (List.mem_flatMap.2 ⟨q, hq, hgroup⟩))
  exact ⟨hmem, hallowed, mem_byNode hq hgroup⟩

/-- The cores of a pair of a plan. -/
theorem cores_of_planPairs (h : planPairs allowedVcpus smtGroups pairsWanted = .ok pairs) {p : Pair}
    (hp : p ∈ pairs) : ∃ rt ∈ smtGroups, ∃ sq ∈ smtGroups, p.runtimeVcpu ∈ rt.vcpus ∧ p.sqpollVcpu ∈ sq.vcpus ∧
      ((∀ v ∈ rt.vcpus, v ∈ allowedVcpus) ∧ ∀ v ∈ sq.vcpus, v ∈ allowedVcpus) ∧
      rt.numaNode = p.numaNode ∧ sq.numaNode = p.numaNode := by
  rw [(planPairs_ok h).2] at hp
  obtain ⟨q, hq, hnode, ⟨rt, hrt, hv⟩, sq, hsq, hv'⟩ := mem_allPairs (List.mem_of_mem_take hp)
  obtain ⟨hrtMem, hrtAllowed, hrtNode⟩ := of_mem_byNode hq (mem_of_mem_cores (.inl hrt))
  obtain ⟨hsqMem, hsqAllowed, hsqNode⟩ := of_mem_byNode hq (mem_of_mem_cores (.inr hsq))
  exact ⟨rt, hrtMem, sq, hsqMem, hv, hv', ⟨hrtAllowed, hsqAllowed⟩, hrtNode.trans hnode.symm,
    hsqNode.trans hnode.symm⟩

/-- The vCPUs of the pairs are vCPUs of the cores, each taken once. -/
theorem nodup_of_planPairs (hdis : smtGroups.Pairwise fun a b => a.vcpus.Disjoint b.vcpus)
    (hnodup : ∀ group ∈ smtGroups, group.vcpus.Nodup)
    (h : planPairs allowedVcpus smtGroups pairsWanted = .ok pairs) : (pairs.flatMap Pair.vcpus).Nodup := by
  have hall : (smtGroups.flatMap SmtGroup.vcpus).Nodup := List.nodup_flatMap.2 ⟨hnodup, hdis⟩
  have husable : ((usableGroups allowedVcpus smtGroups).flatMap SmtGroup.vcpus).Nodup :=
    hall.sublist (List.filter_sublist.flatMap _)
  have hnode := ((byNode_perm (usableGroups allowedVcpus smtGroups)).flatMap_right SmtGroup.vcpus).nodup_iff.2 husable
  obtain ⟨l, hl, hlsub⟩ := vcpus_allPairs_subperm (byNode (usableGroups allowedVcpus smtGroups))
  rw [(planPairs_ok h).2]
  exact (hl.nodup_iff.1 (hnode.sublist hlsub)).sublist ((List.take_sublist _ _).flatMap _)

/-- A core for runtime threads and one for SQPOLL threads are at different places of the list of all
cores, so they are disjoint. -/
theorem disjoint_of_cores (hdis : smtGroups.Pairwise fun a b => a.vcpus.Disjoint b.vcpus)
    {m n : ℕ × List SmtGroup} (hm : m ∈ byNode (usableGroups allowedVcpus smtGroups))
    (hn : n ∈ byNode (usableGroups allowedVcpus smtGroups)) {rt sq : SmtGroup} (hrt : rt ∈ runtimeCores m.2)
    (hsq : sq ∈ sqpollCores n.2) : rt.vcpus.Disjoint sq.vcpus := by
  have hnodes := ((byNode_perm (usableGroups allowedVcpus smtGroups)).pairwise_iff List.Disjoint.symm).2
    (hdis.sublist List.filter_sublist)
  obtain ⟨l, hl, hlsub⟩ := allCores_subperm (byNode (usableGroups allowedVcpus smtGroups))
  have hroles := (hl.pairwise_iff List.Disjoint.symm).1 (hnodes.sublist hlsub)
  exact (List.pairwise_append.1 hroles).2.2 rt (List.mem_flatMap.2 ⟨m, hm, hrt⟩) sq
    (List.mem_flatMap.2 ⟨n, hn, hsq⟩)

/-- **Plans over disjoint cores are sound.** -/
theorem planPairs_sound (hdis : smtGroups.Pairwise fun a b => a.vcpus.Disjoint b.vcpus)
    (hnodup : ∀ group ∈ smtGroups, group.vcpus.Nodup)
    (h : planPairs allowedVcpus smtGroups pairsWanted = .ok pairs) :
    SoundPlan allowedVcpus smtGroups pairsWanted pairs where
  length := (planPairs_ok h).1
  distinct := nodup_of_planPairs hdis hnodup h
  allowed p hp := by
    obtain ⟨rt, -, sq, -, hv, hv', ⟨hrt, hsq⟩, -⟩ := cores_of_planPairs h hp
    exact ⟨hrt _ hv, hsq _ hv'⟩
  cores p hp := by
    obtain ⟨rt, hrt, sq, hsq, hv, hv', -, hnodes⟩ := cores_of_planPairs h hp
    exact ⟨rt, hrt, sq, hsq, hv, hv', hnodes⟩
  whole p hp group hgroup hv := by
    obtain ⟨rt, hrt, sq, hsq, hvrt, hvsq, ⟨hrtAllowed, hsqAllowed⟩, -⟩ := cores_of_planPairs h hp
    rcases hv with hv | hv
    · rwa [eq_of_mem_vcpus hdis hgroup hrt hv hvrt]
    · rwa [eq_of_mem_vcpus hdis hgroup hsq hv hvsq]
  roles p hp q hq group hgroup hv hv' := by
    rw [(planPairs_ok h).2] at hp hq
    obtain ⟨m, hm, -, ⟨rt, hrt, hvrt⟩, -⟩ := mem_allPairs (List.mem_of_mem_take hp)
    obtain ⟨n, hn, -, -, sq, hsq, hvsq⟩ := mem_allPairs (List.mem_of_mem_take hq)
    have hrtMem := (of_mem_byNode hm (mem_of_mem_cores (.inl hrt))).1
    have hsqMem := (of_mem_byNode hn (mem_of_mem_cores (.inr hsq))).1
    have hdisjoint := disjoint_of_cores hdis hm hn hrt hsq
    rw [← eq_of_mem_vcpus hdis hgroup hrtMem hv hvrt, ← eq_of_mem_vcpus hdis hgroup hsqMem hv' hvsq] at hdisjoint
    exact hdisjoint hv hv

end Plan

/-- **The plans that are made from the sibling lists are sound.**  The groups are the physical
cores, in the order of their smallest vCPUs, each on the node of that vCPU; a plan takes both cores
of a pair from the node of the pair, so both its vCPUs are on that node when no core is split
between nodes. -/
theorem sqpoll_planning_sound {present : List ℕ} {siblings : ℕ → Option (List ℕ)}
    (hc : Consistent present siblings) (numa : ℕ → Option ℕ) (allowedVcpus : List ℕ) (pairsWanted : ℕ) :
    ((readSmtGroups present siblings numa).Pairwise fun a b => ∃ m n, a.Smallest m ∧ b.Smallest n ∧ m < n) ∧
    ((readSmtGroups present siblings numa).Pairwise fun a b => a.vcpus.Disjoint b.vcpus) ∧
    (∀ v, (∃ group ∈ readSmtGroups present siblings numa, v ∈ group.vcpus) ↔
      ∃ cpu ∈ present, ∃ vcpus, siblings cpu = some vcpus ∧ v ∈ vcpus) ∧
    (∀ group ∈ readSmtGroups present siblings numa, ∃ m, group.Smallest m ∧ group.numaNode = (numa m).getD 0) ∧
    ∀ pairs, planPairs allowedVcpus (readSmtGroups present siblings numa) pairsWanted = .ok pairs →
      SoundPlan allowedVcpus (readSmtGroups present siblings numa) pairsWanted pairs ∧
      ((∀ cpu ∈ present, ∀ vcpus, siblings cpu = some vcpus → ∀ u ∈ vcpus, ∀ v ∈ vcpus, numa u = numa v) →
        ∀ p ∈ pairs, (numa p.runtimeVcpu).getD 0 = p.numaNode ∧ (numa p.sqpollVcpu).getD 0 = p.numaNode) := by
  refine ⟨readSmtGroups_sorted present siblings numa, readSmtGroups_disjoint hc numa,
    mem_vcpus_readSmtGroups hc numa, fun group hgroup => ?_, fun pairs hpairs => ?_⟩
  · obtain ⟨m, hm, hnode, -⟩ := mem_readSmtGroups hgroup
    exact ⟨m, hm, hnode⟩
  · have hplan := planPairs_sound (readSmtGroups_disjoint hc numa) (fun group h => readSmtGroups_nodup hc h) hpairs
    refine ⟨hplan, fun hwhole p hp => ?_⟩
    have hnode : ∀ group ∈ readSmtGroups present siblings numa, ∀ v ∈ group.vcpus,
        (numa v).getD 0 = group.numaNode := by
      intro group hgroup v hv
      obtain ⟨m, hm, hnode, cpu, hcpu, vcpus, hsib, -, hperm⟩ := mem_readSmtGroups hgroup
      rw [hnode, hwhole cpu hcpu vcpus hsib v (hperm.mem_iff.1 hv) m (hperm.mem_iff.1 hm.1)]
    obtain ⟨rt, hrt, sq, hsq, hv, hv', hrtNode, hsqNode⟩ := hplan.cores p hp
    exact ⟨(hnode rt hrt _ hv).trans hrtNode, (hnode sq hsq _ hv').trans hsqNode⟩

/-- Two cores of two vCPUs. -/
def twoCores (cpu : ℕ) : Option (List ℕ) := if cpu < 2 then some [0, 1] else some [2, 3]

/-- Two cores of two vCPUs are consistent. -/
theorem twoCores_consistent : Consistent [0, 1, 2, 3] twoCores where
  own := by simp [twoCores]
  nodup := by simp [twoCores]
  same := by simp [twoCores]

/-- Both pairs of the two cores, on one node. -/
theorem sqpoll_planning_sound_twoCores :
    SoundPlan [0, 1, 2, 3] (readSmtGroups [0, 1, 2, 3] twoCores fun _ => some 0) 2 [⟨0, 2, 0⟩, ⟨1, 3, 0⟩] :=
  ((sqpoll_planning_sound twoCores_consistent (fun _ => some 0) [0, 1, 2, 3] 2).2.2.2.2 _ (by decide)).1

/-- A node for every vCPU that splits the first core. -/
def splitCore (cpu : ℕ) : Option ℕ := if cpu = 1 then some 1 else some 0

/-- A pair can have a vCPU that is not on the node of the pair. -/
theorem pair_outside_its_node :
    ¬ ∀ present siblings numa allowedVcpus pairsWanted pairs, Consistent present siblings →
      planPairs allowedVcpus (readSmtGroups present siblings numa) pairsWanted = .ok pairs →
        ∀ p ∈ pairs, (numa p.runtimeVcpu).getD 0 = p.numaNode ∧ (numa p.sqpollVcpu).getD 0 = p.numaNode := by
  intro hall
  have h := hall [0, 1, 2, 3] twoCores splitCore [0, 1, 2, 3] 2 [⟨0, 2, 0⟩, ⟨1, 3, 0⟩] twoCores_consistent (by decide)
    ⟨1, 3, 0⟩ (by decide)
  exact absurd h.1 (by decide)

end Toutates
