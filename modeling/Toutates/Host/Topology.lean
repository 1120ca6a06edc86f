/-
# Physical cores and the vCPUs on them

`read_smt_groups` and `plan_pairs` of `src/topology.rs`.

The kernel lists, for every vCPU that is present, the vCPUs that share its physical core.
`readSmtGroups` turns these lists into one group a core, keyed by the smallest vCPU of the core;
`planPairs` takes the groups that the cpuset holds whole, node by node, two at a time, one core
for runtime threads and one for the polling threads of the kernel, and pairs their vCPUs.

The files under `/sys` come in as what they parse to: the vCPUs that are present, the sibling
list of a vCPU (`none` where there is no such file), and the node of a vCPU (`none` where no
node lists it).
-/

import Toutates.Basis.SortedMap
import Mathlib.Data.List.Sort

namespace Toutates

open Basis

/-- `SmtGroup`: the vCPUs of one physical core. -/
structure SmtGroup where
  vcpus : List ℕ
  numaNode : ℕ
deriving DecidableEq

/-- `Pair`: where a runtime thread and its polling thread run. -/
structure Pair where
  runtimeVcpu : ℕ
  sqpollVcpu : ℕ
  numaNode : ℕ
deriving DecidableEq

/-- One turn of the loop of `read_smt_groups` over the vCPUs that are present. -/
def insertSiblings (siblings : ℕ → Option (List ℕ)) (groups : List (ℕ × List ℕ)) (cpu : ℕ) :
    List (ℕ × List ℕ) :=
  match siblings cpu with
  | none => groups
  | some vcpus =>
    match vcpus.min? with
    | none => groups
    | some key => SortedMap.orInsert key vcpus groups

/-- The map `groups` of `read_smt_groups` after the loop. -/
def siblingGroups (present : List ℕ) (siblings : ℕ → Option (List ℕ)) : List (ℕ × List ℕ) :=
  present.foldl (insertSiblings siblings) []

/-- `read_smt_groups`. -/
def readSmtGroups (present : List ℕ) (siblings : ℕ → Option (List ℕ)) (numa : ℕ → Option ℕ) : List SmtGroup :=
  (siblingGroups present siblings).map fun (key, vcpus) =>
    ⟨vcpus.insertionSort (· ≤ ·), (numa key).getD 0⟩

/-- The loop over `0..n_in_chunk`, and whether it broke out of the loop over the nodes. -/
def pairVcpus (pairsWanted node : ℕ) : List (ℕ × ℕ) → List Pair → Bool × List Pair
  | [], pairs => (false, pairs)
  | (runtime, sqpoll) :: rest, pairs =>
    if pairs.length = pairsWanted then (true, pairs)
    else pairVcpus pairsWanted node rest (pairs ++ [⟨runtime, sqpoll, node⟩])

/-- The loop over the physical cores of a node, two at a time. -/
def pairNode (pairsWanted node : ℕ) : List SmtGroup → List Pair → Bool × List Pair
  | rtGroup :: sqGroup :: rest, pairs =>
    if pairs.length = pairsWanted then (true, pairs)
    else
      match pairVcpus pairsWanted node (rtGroup.vcpus.zip sqGroup.vcpus) pairs with
      | (true, pairs) => (true, pairs)
      | (false, pairs) => pairNode pairsWanted node rest pairs
  | _, pairs => (decide (pairs.length = pairsWanted), pairs)

/-- The loop over the nodes. -/
def pairNodes (pairsWanted : ℕ) : List (ℕ × List SmtGroup) → List Pair → List Pair
  | [], pairs => pairs
  | (node, groups) :: rest, pairs =>
    match pairNode pairsWanted node groups pairs with
    | (true, pairs) => pairs
    | (false, pairs) => pairNodes pairsWanted rest pairs

/-- `usable`: the physical cores that the cpuset holds whole. -/
def usableGroups (allowedVcpus : List ℕ) (smtGroups : List SmtGroup) : List SmtGroup :=
  smtGroups.filter fun group => group.vcpus.all fun v => v ∈ allowedVcpus

/-- `by_node`. -/
def byNode (groups : List SmtGroup) : List (ℕ × List SmtGroup) :=
  groups.foldl (fun nodes group => SortedMap.push group.numaNode group nodes) []

/-- `plan_pairs`. -/
def planPairs (allowedVcpus : List ℕ) (smtGroups : List SmtGroup) (pairsWanted : ℕ) : Except String (List Pair) :=
  let pairs := pairNodes pairsWanted (byNode (usableGroups allowedVcpus smtGroups)) []
  if pairs.length < pairsWanted then
    .error ("could not place " ++ toString pairsWanted ++ " runtime/SQPOLL pairs (got " ++
      toString pairs.length ++ "). Each NUMA node needs pairs of phys cores (1 runtime phys core + " ++
      "1 sqpoll phys core = 2 pairs); cpuset may exclude some.")
  else .ok pairs

/-- What the kernel promises of the sibling lists: each has its own vCPU and no vCPU twice, and
lists with a common vCPU have the same. -/
structure Consistent (present : List ℕ) (siblings : ℕ → Option (List ℕ)) : Prop where
  own : ∀ cpu ∈ present, ∀ vcpus, siblings cpu = some vcpus → cpu ∈ vcpus
  nodup : ∀ cpu ∈ present, ∀ vcpus, siblings cpu = some vcpus → vcpus.Nodup
  same : ∀ cpu ∈ present, ∀ vcpus, siblings cpu = some vcpus → ∀ cpu' ∈ present, ∀ vcpus',
    siblings cpu' = some vcpus' → ∀ v ∈ vcpus, v ∈ vcpus' → ∀ u, u ∈ vcpus ↔ u ∈ vcpus'

/-- `m` is the smallest vCPU of the core. -/
def SmtGroup.Smallest (group : SmtGroup) (m : ℕ) : Prop := m ∈ group.vcpus ∧ ∀ v ∈ group.vcpus, m ≤ v

/-! ### Reading -/

section Reading

variable {present : List ℕ} {siblings : ℕ → Option (List ℕ)} {numa : ℕ → Option ℕ}

/-- What the map of `read_smt_groups` holds after a part of the loop: sibling lists of the vCPUs
so far, each under its smallest vCPU, and one for each smallest vCPU met. -/
structure Grouped (seen : List ℕ) (siblings : ℕ → Option (List ℕ)) (groups : List (ℕ × List ℕ)) : Prop where
  sorted : SortedMap.Sorted groups
  entry : ∀ p ∈ groups, p.2.min? = some p.1 ∧ ∃ cpu ∈ seen, siblings cpu = some p.2
  covers : ∀ cpu ∈ seen, ∀ vcpus key, siblings cpu = some vcpus → vcpus.min? = some key →
    ∃ vcpus', (key, vcpus') ∈ groups

/-- One more CPU joins its siblings. -/
theorem Grouped.insert {seen : List ℕ} {groups : List (ℕ × List ℕ)} (h : Grouped seen siblings groups) (cpu : ℕ) :
    Grouped (seen ++ [cpu]) siblings (insertSiblings siblings groups cpu) := by
  have hold : ∀ p ∈ groups, p.2.min? = some p.1 ∧ ∃ c ∈ seen ++ [cpu], siblings c = some p.2 := by
    intro p hp
    obtain ⟨hmin, c, hc, hsib⟩ := h.entry p hp
    exact ⟨hmin, c, List.mem_append_left _ hc, hsib⟩
  unfold insertSiblings
  split
  · rename_i hnone
    refine ⟨h.sorted, hold, fun c hc vcpus key hsib hmin => ?_⟩
    rcases List.mem_append.1 hc with hc | hc
    · exact h.covers c hc vcpus key hsib hmin
    · obtain rfl := List.mem_singleton.1 hc
      rw [hnone] at hsib
      cases hsib
  · rename_i vcpus hvcpus
    split
    · rename_i hnone
      refine ⟨h.sorted, hold, fun c hc vcpus' key hsib hmin => ?_⟩
      rcases List.mem_append.1 hc with hc | hc
      · exact h.covers c hc vcpus' key hsib hmin
      · obtain rfl := List.mem_singleton.1 hc
        obtain rfl := Option.some.inj (hvcpus.symm.trans hsib)
        rw [hnone] at hmin
        cases hmin
    · rename_i key hkey
      refine ⟨h.sorted.upsert key _, fun p hp => ?_, fun c hc vcpus' key' hsib hmin => ?_⟩
      · rcases SortedMap.mem_orInsert hp with hp | rfl
        · exact hold p hp
        · exact ⟨hkey, cpu, List.mem_append_right _ List.mem_cons_self, hvcpus⟩
      · rcases List.mem_append.1 hc with hc | hc
        · obtain ⟨u, hu⟩ := h.covers c hc vcpus' key' hsib hmin
          exact ⟨u, SortedMap.mem_orInsert_of_mem hu⟩
        · obtain rfl := List.mem_singleton.1 hc
          obtain rfl := Option.some.inj (hvcpus.symm.trans hsib)
          obtain rfl := Option.some.inj (hkey.symm.trans hmin)
          exact SortedMap.exists_mem_orInsert key vcpus groups

/-- All CPUs join their siblings. -/
theorem grouped_siblingGroups (present : List ℕ) (siblings : ℕ → Option (List ℕ)) :
    Grouped present siblings (siblingGroups present siblings) := by
  suffices h : ∀ rest seen groups, Grouped seen siblings groups →
      Grouped (seen ++ rest) siblings (rest.foldl (insertSiblings siblings) groups) from
    h present [] [] ⟨List.Pairwise.nil, by simp, by simp⟩
  intro rest
  induction rest with
  | nil => exact fun seen groups h => (List.append_nil seen).symm ▸ h
  | cons cpu rest ih =>
    intro seen groups h
    rw [List.foldl_cons, List.append_cons]
    exact ih _ _ (h.insert cpu)

variable {groups : List SmtGroup} {group group' : SmtGroup}

/-- A group is the sorted sibling list of a vCPU that is present, and its node is the node of its
smallest vCPU. -/
theorem mem_readSmtGroups (h : group ∈ readSmtGroups present siblings numa) :
    ∃ m, group.Smallest m ∧ group.numaNode = (numa m).getD 0 ∧ ∃ cpu ∈ present, ∃ vcpus,
      siblings cpu = some vcpus ∧ vcpus.min? = some m ∧ group.vcpus.Perm vcpus := by
  obtain ⟨⟨key, vcpus⟩, hp, rfl⟩ := List.mem_map.1 h
  obtain ⟨hmin, cpu, hcpu, hsib⟩ := (grouped_siblingGroups present siblings).entry _ hp
  have hperm := List.perm_insertionSort (· ≤ ·) vcpus
  obtain ⟨hmem, hle⟩ := List.min?_eq_some_iff.1 hmin
  exact ⟨key, ⟨hperm.mem_iff.2 hmem, fun v hv => hle v (hperm.mem_iff.1 hv)⟩, rfl, cpu, hcpu, vcpus, hsib,
    hmin, hperm⟩

/-- **The groups are in the order of their smallest vCPUs.** -/
theorem readSmtGroups_sorted (present : List ℕ) (siblings : ℕ → Option (List ℕ)) (numa : ℕ → Option ℕ) :
    (readSmtGroups present siblings numa).Pairwise fun a b => ∃ m n, a.Smallest m ∧ b.Smallest n ∧ m < n := by
  refine List.pairwise_map.2 ((grouped_siblingGroups present siblings).sorted.imp_of_mem ?_)
  rintro ⟨k, u⟩ ⟨k', u'⟩ hp hp' hlt
  have hsmallest : ∀ p ∈ siblingGroups present siblings,
      SmtGroup.Smallest ⟨p.2.insertionSort (· ≤ ·), (numa p.1).getD 0⟩ p.1 := by
    intro p hp
    obtain ⟨hmem, hle⟩ := List.min?_eq_some_iff.1 ((grouped_siblingGroups present siblings).entry p hp).1
    have hperm := List.perm_insertionSort (· ≤ ·) p.2
    exact ⟨hperm.mem_iff.2 hmem, fun v hv => hle v (hperm.mem_iff.1 hv)⟩
  exact ⟨k, k', hsmallest _ hp, hsmallest _ hp', hlt⟩

/-- **Two groups have no vCPU in common.** -/
theorem readSmtGroups_disjoint (hc : Consistent present siblings) (numa : ℕ → Option ℕ) :
    (readSmtGroups present siblings numa).Pairwise fun a b => a.vcpus.Disjoint b.vcpus := by
  refine (readSmtGroups_sorted present siblings numa).imp_of_mem ?_
  rintro a b ha hb ⟨m, n, hm, hn, hlt⟩ v hva hvb
  obtain ⟨-, -, -, c, hc₁, l, hl, -, hperm⟩ := mem_readSmtGroups ha
  obtain ⟨-, -, -, c', hc₁', l', hl', -, hperm'⟩ := mem_readSmtGroups hb
  -- A common vCPU makes the two sibling lists the same, and the smallest vCPU with them.
  have hsame := hc.same c hc₁ l hl c' hc₁' l' hl' v (hperm.mem_iff.1 hva) (hperm'.mem_iff.1 hvb)
  have hmb : m ∈ b.vcpus := hperm'.mem_iff.2 ((hsame m).1 (hperm.mem_iff.1 hm.1))
  exact absurd (hn.2 m hmb) (Nat.not_le_of_lt hlt)

/-- No vCPU is twice in a core. -/
theorem readSmtGroups_nodup (hc : Consistent present siblings)
    (h : group ∈ readSmtGroups present siblings numa) : group.vcpus.Nodup := by
  obtain ⟨-, -, -, c, hc₁, l, hl, -, hperm⟩ := mem_readSmtGroups h
  exact hperm.nodup_iff.2 (hc.nodup c hc₁ l hl)

/-- **The groups have the vCPUs of the sibling lists, and no others.** -/
theorem mem_vcpus_readSmtGroups (hc : Consistent present siblings) (numa : ℕ → Option ℕ) (v : ℕ) :
    (∃ group ∈ readSmtGroups present siblings numa, v ∈ group.vcpus) ↔
      ∃ cpu ∈ present, ∃ vcpus, siblings cpu = some vcpus ∧ v ∈ vcpus := by
  constructor
  · rintro ⟨group, hgroup, hv⟩
    obtain ⟨-, -, -, c, hc₁, l, hl, -, hperm⟩ := mem_readSmtGroups hgroup
    exact ⟨c, hc₁, l, hl, hperm.mem_iff.1 hv⟩
  · rintro ⟨cpu, hcpu, vcpus, hsib, hv⟩
    have hG := grouped_siblingGroups present siblings
    obtain ⟨key, hkey⟩ := Option.isSome_iff_exists.1 (List.isSome_min?_of_mem hv)
    obtain ⟨l, hl⟩ := hG.covers cpu hcpu vcpus key hsib hkey
    obtain ⟨hmin, c, hc₁, hsib'⟩ := hG.entry _ hl
    -- The entry under the smallest vCPU is a list with that vCPU in common.
    have hsame := hc.same cpu hcpu vcpus hsib c hc₁ l hsib' key (List.min?_mem hkey) (List.min?_mem hmin)
    exact ⟨_, List.mem_map_of_mem hl, (List.perm_insertionSort (· ≤ ·) l).mem_iff.2 ((hsame v).1 hv)⟩

end Reading

end Toutates
