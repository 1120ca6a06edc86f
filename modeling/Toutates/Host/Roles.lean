/-
# Which CPU each thread is pinned to

The part of `main` in `src/main.rs` that hands out CPUs.  With `--cpu-pinning` there is a list of
CPUs, the cpuset.  With `--sqpoll-enabled` some of them are reserved for the runtime threads and
the polling threads of the kernel (`planPairs`), and the manager, the executors and the ORT pool
take theirs from what is left; otherwise all of them, and the processing threads, take theirs from
the cpuset.  Every role takes CPUs one after the other from a place of its own, around the end of
the list when it is short.

As long as the list is long enough, the places of the roles follow each other
(`cpusFrom_eq`, `startup_sqpoll`, `startup_flat`), so no CPU has two roles (`roles_disjoint`).
-/

import Toutates.Host.Pairing
import Mathlib.Algebra.Group.Nat.Defs
import Mathlib.Data.List.TakeDrop

namespace Toutates

/-- The arguments that the placement depends on. -/
structure Args where
  cpuPinning : Bool
  sqpollEnabled : Bool
  executorCores : ℕ
  processingCores : ℕ
  ortIntraThreads : ℕ

/-- `cpus[i % cpus.len()]`; there is no such CPU in an empty list, where the code panics. -/
def cpuAt (cpus : List ℕ) (i : ℕ) : Option ℕ := cpus[i % cpus.length]?

/-- `(0..n).map(|i| cpus[(start + i) % cpus.len()])`. -/
def cpusFrom (cpus : List ℕ) (start : ℕ) : ℕ → Option (List ℕ)
  | 0 => some []
  | n + 1 => do
    let core ← cpuAt cpus start
    let rest ← cpusFrom cpus (start + 1) n
    return core :: rest

/-- `sqpoll_pairs`; `none` where `main` panics. -/
def sqpollPairs (args : Args) (pinCpus : Option (List ℕ)) (smtGroups : List SmtGroup) : Option (Option (List Pair)) :=
  if args.sqpollEnabled then
    match pinCpus with
    | none => none
    | some cpus =>
      match planPairs (cpus.map (· % 2 ^ 32)) smtGroups args.processingCores with
      | .error _ => none
      | .ok pairs => some (some pairs)
  else some none

/-- `reserved_vcpus`. -/
def reservedVcpus (pairs : Option (List Pair)) : List ℕ := (pairs.getD []).flatMap Pair.vcpus

/-- `unreserved_pin_cpus`.  The identifier of a CPU is cut to 32 bits before it is looked up. -/
def unreservedPinCpus (pinCpus : Option (List ℕ)) (pairs : Option (List Pair)) : Option (List ℕ) :=
  pinCpus.map fun cpus => cpus.filter fun c => c % 2 ^ 32 ∉ reservedVcpus pairs

/-- `mgr_exec_pin_pool`. -/
def mgrExecPinPool (args : Args) (pinCpus : Option (List ℕ)) (pairs : Option (List Pair)) : Option (List ℕ) :=
  if args.sqpollEnabled then unreservedPinCpus pinCpus pairs else pinCpus

/-- The CPUs of `ort_intra_affinity`. -/
def ortCpus (args : Args) (pinCpus : Option (List ℕ)) (pairs : Option (List Pair)) : Option (Option (List ℕ)) :=
  if args.ortIntraThreads ≤ 1 then some none
  else if args.sqpollEnabled then
    (unreservedPinCpus pinCpus pairs).mapM fun cpus =>
      cpusFrom cpus (1 + args.executorCores) (args.ortIntraThreads - 1)
  else
    pinCpus.mapM fun cpus =>
      cpusFrom cpus (1 + args.executorCores + args.processingCores) (args.ortIntraThreads - 1)

/-- The loop over `0..processing_cores` without SQPOLL, as far as it pins threads. -/
def pinProcessing (pinCpus : Option (List ℕ)) (pinIndex : ℕ) : ℕ → Option (List (Option ℕ))
  | 0 => some []
  | n + 1 =>
    match pinCpus with
    | none => (pinProcessing pinCpus pinIndex n).map (none :: ·)
    | some cpus => do
      let core ← cpuAt cpus pinIndex
      let rest ← pinProcessing pinCpus (pinIndex + 1) n
      return some core :: rest

/-- The CPUs of the threads, `none` for a thread that is not pinned. -/
structure Pins where
  manager : Option ℕ
  executors : Option (List ℕ)
  processing : List (Option ℕ)
  sqpoll : List ℕ
  ort : Option (List ℕ)
deriving DecidableEq

/-- `ort_intra_affinity`: the CPUs counted from one, with semicolons between them. -/
def Pins.ortIntraAffinity (pins : Pins) : Option (List Char) :=
  pins.ort.map fun cpus => [';'].intercalate (cpus.map fun id => Nat.toDigits 10 (id + 1))

/-- The placement in `main`, for a cpuset and the physical cores of the machine; `none` where
`main` panics. -/
def startup (args : Args) (coreIds : List ℕ) (smtGroups : List SmtGroup) : Option Pins := do
  let pinCpus := if args.cpuPinning then some coreIds else none
  let pairs ← sqpollPairs args pinCpus smtGroups
  let ort ← ortCpus args pinCpus pairs
  let pool := mgrExecPinPool args pinCpus pairs
  let manager ← pool.mapM fun cpus => cpuAt cpus 0
  let pinIndex := if pool.isSome then 1 else 0
  let executors ← pool.mapM fun cpus => cpusFrom cpus pinIndex args.executorCores
  match pairs with
  | some pairs => return ⟨manager, executors, pairs.map fun p => some p.runtimeVcpu, pairs.map Pair.sqpollVcpu, ort⟩
  | none =>
    let processing ← pinProcessing pinCpus (pinIndex + args.executorCores) args.processingCores
    return ⟨manager, executors, processing, [], ort⟩

/-! ### CPUs one after the other -/

section CpusFrom

variable {cpus : List ℕ}

/-- **A role that does not run around the end** has the CPUs from its place on. -/
theorem cpusFrom_eq {start n : ℕ} (h : start + n ≤ cpus.length) :
    cpusFrom cpus start n = some ((cpus.drop start).take n) := by
  induction n generalizing start with
  | zero => rw [cpusFrom, List.take_zero]
  | succ n ih =>
    have hlt : start < cpus.length := by omega
    rw [cpusFrom, ih (by omega), cpuAt, Nat.mod_eq_of_lt hlt, List.getElem?_eq_getElem hlt,
      List.drop_eq_getElem_cons hlt, List.take_succ_cons]
    rfl

/-- In a pool that is not empty there is a CPU at every index. -/
theorem exists_cpuAt (hne : cpus ≠ []) (i : ℕ) : ∃ c, cpuAt cpus i = some c :=
  ⟨_, List.getElem?_eq_getElem (Nat.mod_lt i (List.length_pos_of_ne_nil hne))⟩

/-- A pool that is not empty has any number of CPUs in a row. -/
theorem exists_cpusFrom (hne : cpus ≠ []) (start n : ℕ) : ∃ l, cpusFrom cpus start n = some l := by
  induction n generalizing start with
  | zero => exact ⟨[], rfl⟩
  | succ n ih =>
    obtain ⟨c, hat⟩ := exists_cpuAt hne start
    obtain ⟨l, hl⟩ := ih (start + 1)
    exact ⟨c :: l, by rw [cpusFrom, hat, hl]; rfl⟩

/-- A role has as many CPUs as it asks for, all from the list. -/
theorem cpusFrom_spec {start n : ℕ} {l : List ℕ} (h : cpusFrom cpus start n = some l) :
    l.length = n ∧ ∀ c ∈ l, c ∈ cpus := by
  induction n generalizing start l with
  | zero =>
    obtain rfl := Option.some.inj h
    exact ⟨rfl, by simp⟩
  | succ n ih =>
    obtain ⟨c, hat, h⟩ := Option.bind_eq_some_iff.1 h
    obtain ⟨l, hl, h⟩ := Option.bind_eq_some_iff.1 h
    obtain rfl := Option.some.inj h
    obtain ⟨hlen, hmem⟩ := ih hl
    refine ⟨by rw [List.length_cons, hlen], List.forall_mem_cons.2 ⟨?_, hmem⟩⟩
    exact List.mem_of_getElem? hat

/-- The processing threads take their CPUs as the executors do. -/
theorem pinProcessing_eq (start n : ℕ) :
    pinProcessing (some cpus) start n = (cpusFrom cpus start n).map (·.map some) := by
  induction n generalizing start with
  | zero => rfl
  | succ n ih =>
    rw [pinProcessing, cpusFrom, ih]
    cases cpuAt cpus start with
    | none => rfl
    | some core => cases cpusFrom cpus (start + 1) n <;> rfl

/-- The manager's CPU is the first. -/
theorem cpusFrom_one {core : ℕ} (h : cpuAt cpus 0 = some core) : cpusFrom cpus 0 1 = some [core] := by
  rw [cpusFrom, h]
  rfl

/-- **Roles one after the other** have the first CPUs of the list together. -/
theorem cpusFrom_append {n k : ℕ} {l l' : List ℕ} (h : cpusFrom cpus 0 n = some l) (h' : cpusFrom cpus n k = some l')
    (hlen : n + k ≤ cpus.length) : cpusFrom cpus 0 (n + k) = some (l ++ l') := by
  rw [cpusFrom_eq (by omega), Option.some.injEq] at h h'
  rw [cpusFrom_eq (by omega), List.take_add, ← h, ← h', List.drop_zero]

/-- CPUs in a row are different as long as the pool does not wrap around. -/
theorem nodup_of_cpusFrom {n : ℕ} {l : List ℕ} (hcpus : cpus.Nodup) (h : cpusFrom cpus 0 n = some l)
    (hlen : n ≤ cpus.length) : l.Nodup := by
  rw [cpusFrom_eq (by omega), Option.some.injEq] at h
  rw [← h]
  exact hcpus.sublist ((List.take_sublist _ _).trans (List.drop_sublist _ _))

end CpusFrom

/-! ### The placement -/

/-- The CPUs of the manager, the executors and the ORT pool. -/
def Pins.mgrExecOrt (pins : Pins) : List ℕ := pins.manager.toList ++ pins.executors.getD [] ++ pins.ort.getD []

section MgrExecOrt

variable {cpus : List ℕ} {manager : ℕ} {executors : List ℕ} {ort : Option (List ℕ)} {n k m : ℕ}
  (hexecutors : cpusFrom cpus 1 n = some executors) (hort : cpusFrom cpus k m = some (ort.getD []))

include hexecutors hort

/-- The CPUs of the manager, of the executors and of the ORT pool, counted. -/
theorem length_mgrExecOrt (processing : List (Option ℕ)) (sqpoll : List ℕ) :
    (Pins.mgrExecOrt ⟨some manager, some executors, processing, sqpoll, ort⟩).length = 1 + n + m := by
  rw [Pins.mgrExecOrt, List.length_append, List.length_append, (cpusFrom_spec hort).1]
  simp [(cpusFrom_spec hexecutors).1]

/-- The CPUs of the manager, of the executors and of the ORT pool are from the pool. -/
theorem mem_of_mem_mgrExecOrt (hmanager : cpuAt cpus 0 = some manager) {processing : List (Option ℕ)}
    {sqpoll : List ℕ} {c : ℕ} (hc : c ∈ Pins.mgrExecOrt ⟨some manager, some executors, processing, sqpoll, ort⟩) :
    c ∈ cpus := by
  rcases List.mem_append.1 hc with hc | hc
  · rcases List.mem_append.1 hc with hc | hc
    · exact (cpusFrom_spec (cpusFrom_one hmanager)).2 c hc
    · exact (cpusFrom_spec hexecutors).2 c hc
  · exact (cpusFrom_spec hort).2 c hc

end MgrExecOrt

section Startup

variable {args : Args} {coreIds : List ℕ} {smtGroups : List SmtGroup} {pairs : List Pair}

/-- What the pairs leave of the cpuset. -/
def unreserved (coreIds : List ℕ) (pairs : List Pair) : List ℕ :=
  coreIds.filter fun c => c % 2 ^ 32 ∉ reservedVcpus (some pairs)

/-- With polling threads the ORT pool is behind the manager and the executors. -/
theorem ortCpus_sqpoll (hsqpoll : args.sqpollEnabled = true) (hne : unreserved coreIds pairs ≠ []) :
    ∃ ort, ortCpus args (some coreIds) (some pairs) = some ort ∧
      cpusFrom (unreserved coreIds pairs) (1 + args.executorCores) (args.ortIntraThreads - 1) = some (ort.getD []) := by
  unfold ortCpus
  split_ifs with hthreads
  · refine ⟨none, rfl, ?_⟩
    rw [Nat.sub_eq_zero_of_le hthreads]
    rfl
  · obtain ⟨l, hl⟩ := exists_cpusFrom hne (1 + args.executorCores) (args.ortIntraThreads - 1)
    refine ⟨some l, ?_, hl⟩
    show Option.map some (cpusFrom (unreserved coreIds pairs) _ _) = _
    rw [hl]
    rfl

/-- Without polling threads the ORT pool is behind the processing threads, too. -/
theorem ortCpus_flat (hsqpoll : args.sqpollEnabled = false) (hne : coreIds ≠ []) :
    ∃ ort, ortCpus args (some coreIds) none = some ort ∧
      cpusFrom coreIds (1 + args.executorCores + args.processingCores) (args.ortIntraThreads - 1) =
        some (ort.getD []) := by
  unfold ortCpus
  rw [hsqpoll, if_neg Bool.false_ne_true]
  split_ifs with hthreads
  · refine ⟨none, rfl, ?_⟩
    rw [Nat.sub_eq_zero_of_le hthreads]
    rfl
  · obtain ⟨l, hl⟩ :=
      exists_cpusFrom hne (1 + args.executorCores + args.processingCores) (args.ortIntraThreads - 1)
    refine ⟨some l, ?_, hl⟩
    show Option.map some (cpusFrom coreIds _ _) = _
    rw [hl]
    rfl

/-- **The placement with SQPOLL**: the roles share what the pairs leave. -/
theorem startup_sqpoll (hpin : args.cpuPinning = true) (hsqpoll : args.sqpollEnabled = true)
    (hplan : planPairs (coreIds.map (· % 2 ^ 32)) smtGroups args.processingCores = .ok pairs)
    (hne : unreserved coreIds pairs ≠ []) :
    ∃ manager executors ort, startup args coreIds smtGroups =
        some ⟨some manager, some executors, pairs.map fun p => some p.runtimeVcpu, pairs.map Pair.sqpollVcpu, ort⟩ ∧
      cpuAt (unreserved coreIds pairs) 0 = some manager ∧
      cpusFrom (unreserved coreIds pairs) 1 args.executorCores = some executors ∧
      cpusFrom (unreserved coreIds pairs) (1 + args.executorCores) (args.ortIntraThreads - 1) = some (ort.getD []) := by
  obtain ⟨manager, hmanager⟩ := exists_cpuAt hne 0
  obtain ⟨executors, hexecutors⟩ := exists_cpusFrom hne 1 args.executorCores
  obtain ⟨ort, hort, hortCpus⟩ := ortCpus_sqpoll hsqpoll hne
  have hpairs : sqpollPairs args (some coreIds) smtGroups = some (some pairs) := by
    rw [sqpollPairs, if_pos hsqpoll]
    simp only [hplan]
  have hpool : mgrExecPinPool args (some coreIds) (some pairs) = some (unreserved coreIds pairs) := by
    rw [mgrExecPinPool, if_pos hsqpoll]
    rfl
  refine ⟨manager, executors, ort, ?_, hmanager, hexecutors, hortCpus⟩
  simp [startup, hpin, hpairs, hort, hpool, hmanager, hexecutors]

/-- **The placement without SQPOLL**: all roles share the cpuset. -/
theorem startup_flat (hpin : args.cpuPinning = true) (hsqpoll : args.sqpollEnabled = false) (hne : coreIds ≠ []) :
    ∃ manager executors processing ort, startup args coreIds smtGroups =
        some ⟨some manager, some executors, processing.map some, [], ort⟩ ∧
      cpuAt coreIds 0 = some manager ∧ cpusFrom coreIds 1 args.executorCores = some executors ∧
      cpusFrom coreIds (1 + args.executorCores) args.processingCores = some processing ∧
      cpusFrom coreIds (1 + args.executorCores + args.processingCores) (args.ortIntraThreads - 1) =
        some (ort.getD []) := by
  obtain ⟨manager, hmanager⟩ := exists_cpuAt hne 0
  obtain ⟨executors, hexecutors⟩ := exists_cpusFrom hne 1 args.executorCores
  obtain ⟨processing, hprocessing⟩ := exists_cpusFrom hne (1 + args.executorCores) args.processingCores
  obtain ⟨ort, hort, hortCpus⟩ := ortCpus_flat hsqpoll hne
  refine ⟨manager, executors, processing, ort, ?_, hmanager, hexecutors, hprocessing, hortCpus⟩
  simp [startup, hpin, sqpollPairs, hsqpoll, hort, mgrExecPinPool, hmanager, hexecutors, pinProcessing_eq, hprocessing]

/-- A CPU that is not reserved is in no pair, although it is looked up by its lower 32 bits: the
vCPUs of the pairs have no more. -/
theorem ne_of_mem_unreserved (hplan : planPairs (coreIds.map (· % 2 ^ 32)) smtGroups args.processingCores = .ok pairs)
    {c : ℕ} (hc : c ∈ unreserved coreIds pairs) {p : Pair} (hp : p ∈ pairs) :
    c ≠ p.runtimeVcpu ∧ c ≠ p.sqpollVcpu := by
  have hfree : c % 2 ^ 32 ∉ reservedVcpus (some pairs) := of_decide_eq_true (List.mem_filter.1 hc).2
  obtain ⟨rt, -, sq, -, hrt, hsq, ⟨hrtAllowed, hsqAllowed⟩, -⟩ := cores_of_planPairs hplan hp
  have hlt : ∀ v ∈ coreIds.map (· % 2 ^ 32), v < 2 ^ 32 := by
    intro v hv
    obtain ⟨id, -, rfl⟩ := List.mem_map.1 hv
    exact Nat.mod_lt id (by decide)
  have hne : ∀ v ∈ coreIds.map (· % 2 ^ 32), v ∈ p.vcpus → c ≠ v := by
    rintro v hv hmem rfl
    rw [Nat.mod_eq_of_lt (hlt _ hv)] at hfree
    exact hfree (List.mem_flatMap.2 ⟨p, hp, hmem⟩)
  exact ⟨hne _ (hrtAllowed _ hrt) List.mem_cons_self,
    hne _ (hsqAllowed _ hsq) (List.mem_cons_of_mem _ List.mem_cons_self)⟩

/-- **CPU roles do not overlap.**  With SQPOLL the manager, the executors and the ORT pool stay off
the CPUs of the pairs, and off each other's when the pairs leave enough CPUs; without it no CPU
has two roles when the cpuset is large enough. -/
theorem roles_disjoint (args : Args) (hpin : args.cpuPinning = true) (hcpus : coreIds.Nodup)
    (smtGroups : List SmtGroup) :
    (args.sqpollEnabled = true → ∀ pairs,
      planPairs (coreIds.map (· % 2 ^ 32)) smtGroups args.processingCores = .ok pairs →
      unreserved coreIds pairs ≠ [] →
      ∃ pins, startup args coreIds smtGroups = some pins ∧
        pins.processing = pairs.map (fun p => some p.runtimeVcpu) ∧ pins.sqpoll = pairs.map Pair.sqpollVcpu ∧
        pins.mgrExecOrt.length = 1 + args.executorCores + (args.ortIntraThreads - 1) ∧
        (∀ c ∈ pins.mgrExecOrt, ∀ p ∈ pairs, c ≠ p.runtimeVcpu ∧ c ≠ p.sqpollVcpu) ∧
        (1 + args.executorCores + (args.ortIntraThreads - 1) ≤ (unreserved coreIds pairs).length →
          pins.mgrExecOrt.Nodup)) ∧
    (args.sqpollEnabled = false →
      1 + args.executorCores + args.processingCores + (args.ortIntraThreads - 1) ≤ coreIds.length →
      ∃ pins processing, startup args coreIds smtGroups = some pins ∧ pins.processing = processing.map some ∧
        processing.length = args.processingCores ∧
        pins.mgrExecOrt.length = 1 + args.executorCores + (args.ortIntraThreads - 1) ∧
        (pins.mgrExecOrt ++ processing).Nodup) := by
  constructor
  · intro hsqpoll pairs hplan hne
    obtain ⟨manager, executors, ort, hstartup, hmanager, hexecutors, hort⟩ := startup_sqpoll hpin hsqpoll hplan hne
    refine ⟨_, hstartup, rfl, rfl, length_mgrExecOrt hexecutors hort _ _, fun c hc p hp => ?_, fun hlen => ?_⟩
    · exact ne_of_mem_unreserved hplan (mem_of_mem_mgrExecOrt hexecutors hort hmanager hc) hp
    · have hmgrExec := cpusFrom_append (cpusFrom_one hmanager) hexecutors (by omega)
      exact nodup_of_cpusFrom (hcpus.filter _) (cpusFrom_append hmgrExec hort hlen) hlen
  · intro hsqpoll hlen
    have hne : coreIds ≠ [] := List.ne_nil_of_length_pos (by omega)
    obtain ⟨manager, executors, processing, ort, hstartup, hmanager, hexecutors, hprocessing, hort⟩ :=
      startup_flat hpin hsqpoll hne
    refine ⟨_, processing, hstartup, rfl, (cpusFrom_spec hprocessing).1, length_mgrExecOrt hexecutors hort _ _, ?_⟩
    have hmgrExec := cpusFrom_append (cpusFrom_one hmanager) hexecutors (by omega)
    have hmgrExecProc := cpusFrom_append hmgrExec hprocessing (by omega)
    have hnodup := nodup_of_cpusFrom hcpus (cpusFrom_append hmgrExecProc hort hlen) hlen
    -- the processing threads stand between the executors and the ORT pool
    have hperm : ([manager] ++ executors ++ processing ++ ort.getD []).Perm
        ([manager] ++ executors ++ ort.getD [] ++ processing) := by
      rw [List.append_assoc _ processing, List.append_assoc _ (ort.getD [])]
      exact List.perm_append_comm.append_left _
    exact hperm.nodup_iff.1 hnodup

end Startup

/-- The string for ORT has one number for each CPU, in order, each one more than the CPU. -/
theorem Pins.splitOn_ortIntraAffinity {pins : Pins} {cpus : List ℕ} {s : List Char} (hort : pins.ort = some cpus)
    (hne : cpus ≠ []) (hs : pins.ortIntraAffinity = some s) :
    (s.splitOn ';').map (Nat.ofDigitChars 10 · 0) = cpus.map (· + 1) := by
  rw [Pins.ortIntraAffinity, hort] at hs
  obtain rfl := Option.some.inj hs
  have hsemicolon : ∀ l ∈ cpus.map fun id => Nat.toDigits 10 (id + 1), ';' ∉ l := by
    intro l hl hmem
    obtain ⟨id, -, rfl⟩ := List.mem_map.1 hl
    exact absurd (Nat.isDigit_of_mem_toDigits (by decide) (by decide) hmem) (by decide)
  rw [List.splitOn_intercalate ';' hsemicolon (List.map_eq_nil_iff.not.2 hne), List.map_map]
  exact List.map_congr_left fun id _ => Nat.ofDigitChars_ten_toDigits

/-- Four cores of two vCPUs on one node. -/
def fourCores : List SmtGroup := [⟨[0, 4], 0⟩, ⟨[1, 5], 0⟩, ⟨[2, 6], 0⟩, ⟨[3, 7], 0⟩]

/-- Two processing threads, one executor and an ORT pool of three on the eight CPUs, in both modes. -/
theorem roles_disjoint_fourCores :
    (∃ pins, startup ⟨true, true, 1, 2, 3⟩ (List.range 8) fourCores = some pins ∧ pins.mgrExecOrt.Nodup) ∧
    ∃ pins processing, startup ⟨true, false, 1, 2, 3⟩ (List.range 8) fourCores = some pins ∧
      pins.processing = processing.map some ∧ (pins.mgrExecOrt ++ processing).Nodup := by
  constructor
  · obtain ⟨pins, hpins, -, -, -, -, hnodup⟩ := (roles_disjoint ⟨true, true, 1, 2, 3⟩ rfl
      (List.nodup_range (n := 8)) fourCores).1 rfl [⟨0, 1, 0⟩, ⟨4, 5, 0⟩] (by decide) (by decide)
    exact ⟨pins, hpins, hnodup (by decide)⟩
  · obtain ⟨pins, processing, hpins, hprocessing, -, -, hnodup⟩ :=
      (roles_disjoint ⟨true, false, 1, 2, 3⟩ rfl (List.nodup_range (n := 8)) fourCores).2 rfl (by decide)
    exact ⟨pins, processing, hpins, hprocessing, hnodup⟩

end Toutates
