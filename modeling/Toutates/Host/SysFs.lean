/-
# The files that tell the cores

`read_numa_map` and `read_smt_groups` of `src/topology.rs` down to the files under `/sys`.  Once
every file that is asked for is read and parsed, what is left is `readSmtGroups` over what they
parse to (`SysFs.readSmtGroups_eq_ok_iff`); one list of siblings that does not parse, and nothing
is read.  So the plans that are made from the files of a kernel that keeps its promises are sound
(`Printed.plan_sound`).
-/

import Toutates.Host.CpuList
import Toutates.Host.Pairing

namespace Toutates

open Basis

/-- An entry of `/sys/devices/system/node`, with its `cpulist` if that can be read. -/
structure NodeDir where
  name : List Char
  cpulist : Option (List Char)

/-- The files that the topology is read from: the entries of the directory of nodes that can be read,
`cpu/present`, and the `thread_siblings_list` of a vCPU. -/
structure SysFs where
  nodes : List NodeDir
  present : Except String (List Char)
  siblingsExist : ℕ → Bool
  siblings : ℕ → Except String (List Char)

/-- `parse_cpu_list(&fs::read_to_string(path)?)?`. -/
def readCpuList (file : Except String (List Char)) : Except String (List ℕ) :=
  file.bind fun raw => (parseCpuList raw).mapError InvalidData.message

/-- `node_id`: the name goes on with it after "node". -/
def NodeDir.nodeId (dir : NodeDir) : Option ℕ :=
  (dir.name.dropPrefix? "node".toList).bind fun id => (Decimal.parseUnsigned (2 ^ 32) id).toOption

/-- One turn of the loop of `read_numa_map`; what cannot be read is passed over. -/
def insertNode (map : ℕ → Option ℕ) (dir : NodeDir) : ℕ → Option ℕ :=
  match dir.nodeId, dir.cpulist.bind fun raw => (parseCpuList raw).toOption with
  | some node, some cpus => fun c => if c ∈ cpus then some node else map c
  | _, _ => map

namespace SysFs

/-- `read_numa_map`. -/
def readNumaMap (sys : SysFs) : ℕ → Option ℕ := sys.nodes.foldl insertNode fun _ => none

/-- One turn of the loop of `read_smt_groups` over the vCPUs that are present. -/
def readSiblings (sys : SysFs) (groups : List (ℕ × List ℕ)) (cpu : ℕ) : Except String (List (ℕ × List ℕ)) :=
  if sys.siblingsExist cpu then
    (readCpuList (sys.siblings cpu)).map fun siblings =>
      match siblings.min? with
      | none => groups
      | some key => SortedMap.orInsert key siblings groups
  else .ok groups

/-- `read_smt_groups`. -/
def readSmtGroups (sys : SysFs) : Except String (List SmtGroup) := do
  let present ← readCpuList sys.present
  let groups ← present.foldlM sys.readSiblings []
  return groups.map fun (key, vcpus) => ⟨vcpus.insertionSort (· ≤ ·), (sys.readNumaMap key).getD 0⟩

/-- What the file of a vCPU parses to. -/
def siblingList (sys : SysFs) (cpu : ℕ) : Option (List ℕ) :=
  if sys.siblingsExist cpu then (readCpuList (sys.siblings cpu)).toOption else none

variable {sys : SysFs}

/-- A turn fails with its file, and is a turn over what the file parses to otherwise. -/
theorem readSiblings_eq_ok_iff {groups groups' : List (ℕ × List ℕ)} {cpu : ℕ} :
    sys.readSiblings groups cpu = .ok groups' ↔
      (sys.siblingsExist cpu = true → ∃ vcpus, readCpuList (sys.siblings cpu) = .ok vcpus) ∧
        groups' = insertSiblings sys.siblingList groups cpu := by
  unfold readSiblings insertSiblings siblingList
  split_ifs with hexist
  · rw [Fallible.map_eq_ok_iff]
    constructor
    · rintro ⟨vcpus, hvcpus, rfl⟩
      exact ⟨fun _ => ⟨vcpus, hvcpus⟩, by rw [hvcpus]; rfl⟩
    · rintro ⟨hread, rfl⟩
      obtain ⟨vcpus, hvcpus⟩ := hread hexist
      exact ⟨vcpus, hvcpus, by rw [hvcpus]; rfl⟩
  · rw [Except.ok.injEq, eq_comm, and_iff_right fun h => absurd h hexist]

/-- The loop, from any map. -/
theorem foldlM_readSiblings_eq_ok_iff {present : List ℕ} {groups groups' : List (ℕ × List ℕ)} :
    present.foldlM sys.readSiblings groups = .ok groups' ↔
      (∀ cpu ∈ present, sys.siblingsExist cpu = true → ∃ vcpus, readCpuList (sys.siblings cpu) = .ok vcpus) ∧
        groups' = present.foldl (insertSiblings sys.siblingList) groups := by
  induction present generalizing groups with
  | nil =>
    rw [List.foldlM_nil, List.foldl_nil, and_iff_right fun _ h => absurd h List.not_mem_nil]
    show Except.ok groups = .ok groups' ↔ groups' = groups
    rw [Except.ok.injEq, eq_comm]
  | cons cpu present ih =>
    rw [List.foldlM_cons, List.foldl_cons, List.forall_mem_cons]
    constructor
    · intro h
      obtain ⟨next, hnext, h⟩ := Fallible.bind_eq_ok_iff.1 h
      obtain ⟨hread, rfl⟩ := readSiblings_eq_ok_iff.1 hnext
      obtain ⟨hrest, rfl⟩ := ih.1 h
      exact ⟨⟨hread, hrest⟩, rfl⟩
    · rintro ⟨⟨hread, hrest⟩, rfl⟩
      exact Fallible.bind_eq_ok_iff.2 ⟨_, readSiblings_eq_ok_iff.2 ⟨hread, rfl⟩, ih.2 ⟨hrest, rfl⟩⟩

/-- **The topology is what the files parse to**, when all of them parse. -/
theorem readSmtGroups_eq_ok_iff {groups : List SmtGroup} : sys.readSmtGroups = .ok groups ↔
    ∃ present, readCpuList sys.present = .ok present ∧
      (∀ cpu ∈ present, sys.siblingsExist cpu = true → ∃ vcpus, readCpuList (sys.siblings cpu) = .ok vcpus) ∧
      groups = Toutates.readSmtGroups present sys.siblingList sys.readNumaMap := by
  constructor
  · intro h
    obtain ⟨present, hpresent, h⟩ := Fallible.bind_eq_ok_iff.1 h
    obtain ⟨map, hmap, h⟩ := Fallible.bind_eq_ok_iff.1 h
    obtain ⟨hread, rfl⟩ := foldlM_readSiblings_eq_ok_iff.1 hmap
    exact ⟨present, hpresent, hread, (Except.ok.inj h).symm⟩
  · rintro ⟨present, hpresent, hread, rfl⟩
    refine Fallible.bind_eq_ok_iff.2 ⟨present, hpresent, ?_⟩
    exact Fallible.bind_eq_ok_iff.2 ⟨_, foldlM_readSiblings_eq_ok_iff.2 ⟨hread, rfl⟩, rfl⟩

end SysFs

/-- The CPUs of a list of ranges. -/
def rangeCpus (ranges : List (ℕ × ℕ)) : List ℕ := ranges.flatMap fun r => List.range' r.1 (r.2 + 1 - r.1)

/-- The files are as the kernel prints them: the vCPUs that are present, and their siblings. -/
structure Printed (sys : SysFs) (ranges : List (ℕ × ℕ)) (siblingRanges : ℕ → List (ℕ × ℕ)) : Prop where
  present : sys.present = .ok (showRanges ranges ++ ['\n'])
  siblings : ∀ cpu ∈ rangeCpus ranges, sys.siblingsExist cpu = true ∧
    sys.siblings cpu = .ok (showRanges (siblingRanges cpu) ++ ['\n'])
  fits : ∀ r ∈ ranges, r.1 ≤ r.2 ∧ r.2 < 2 ^ 32
  siblingsFit : ∀ cpu ∈ rangeCpus ranges, ∀ r ∈ siblingRanges cpu, r.1 ≤ r.2 ∧ r.2 < 2 ^ 32

section Printed

variable {sys : SysFs} {ranges : List (ℕ × ℕ)} {siblingRanges : ℕ → List (ℕ × ℕ)}

/-- What the kernel prints is read as the CPUs that it names. -/
theorem readCpuList_showRanges {ranges : List (ℕ × ℕ)} (h : ∀ r ∈ ranges, r.1 ≤ r.2 ∧ r.2 < 2 ^ 32) :
    readCpuList (.ok (showRanges ranges ++ ['\n'])) = .ok (rangeCpus ranges) :=
  Fallible.bind_eq_ok_iff.2 ⟨_, rfl, Fallible.mapError_eq_ok_iff.2
    (parseCpuList_showRanges h (List.forall_mem_singleton.2 rfl))⟩

/-- The siblings of a CPU are read as they were printed. -/
theorem Printed.siblingList (h : Printed sys ranges siblingRanges) {cpu : ℕ} (hcpu : cpu ∈ rangeCpus ranges) :
    sys.siblingList cpu = some (rangeCpus (siblingRanges cpu)) := by
  obtain ⟨hexist, hfile⟩ := h.siblings cpu hcpu
  rw [SysFs.siblingList, if_pos hexist, hfile, readCpuList_showRanges (h.siblingsFit cpu hcpu)]
  rfl

/-- The cores are read as they were printed. -/
theorem Printed.readSmtGroups (h : Printed sys ranges siblingRanges) :
    sys.readSmtGroups = .ok (Toutates.readSmtGroups (rangeCpus ranges) sys.siblingList sys.readNumaMap) := by
  refine SysFs.readSmtGroups_eq_ok_iff.2 ⟨rangeCpus ranges, ?_, fun cpu hcpu _ => ?_, rfl⟩
  · rw [h.present, readCpuList_showRanges h.fits]
  · rw [(h.siblings cpu hcpu).2]
    exact ⟨_, readCpuList_showRanges (h.siblingsFit cpu hcpu)⟩

/-- Only the sibling lists of the vCPUs that are present matter. -/
theorem Consistent.congr {present : List ℕ} {siblings siblings' : ℕ → Option (List ℕ)}
    (hc : Consistent present siblings) (h : ∀ cpu ∈ present, siblings' cpu = siblings cpu) :
    Consistent present siblings' where
  own cpu hcpu vcpus hv := hc.own cpu hcpu vcpus ((h cpu hcpu).symm.trans hv)
  nodup cpu hcpu vcpus hv := hc.nodup cpu hcpu vcpus ((h cpu hcpu).symm.trans hv)
  same cpu hcpu vcpus hv cpu' hcpu' vcpus' hv' :=
    hc.same cpu hcpu vcpus ((h cpu hcpu).symm.trans hv) cpu' hcpu' vcpus' ((h cpu' hcpu').symm.trans hv')

/-- **The plans that are made from the files are sound**, when the files list each core alike. -/
theorem Printed.plan_sound (h : Printed sys ranges siblingRanges)
    (hc : Consistent (rangeCpus ranges) fun cpu => some (rangeCpus (siblingRanges cpu))) (allowedVcpus : List ℕ)
    (pairsWanted : ℕ) : ∃ groups, sys.readSmtGroups = .ok groups ∧
      ∀ pairs, planPairs allowedVcpus groups pairsWanted = .ok pairs →
        SoundPlan allowedVcpus groups pairsWanted pairs := by
  have hread : Consistent (rangeCpus ranges) sys.siblingList := hc.congr fun cpu hcpu => h.siblingList hcpu
  exact ⟨_, h.readSmtGroups, fun pairs hpairs =>
    planPairs_sound (readSmtGroups_disjoint hread _) (fun _ hgroup => readSmtGroups_nodup hread hgroup) hpairs⟩

end Printed

end Toutates
