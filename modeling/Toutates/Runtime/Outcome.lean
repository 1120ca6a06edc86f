/-
# What loading comes to

However the threads of `Runtime.Startup` are interleaved: the map that the handlers read is at all times
the one that loading some of the first models, one after the other, leaves, so a model that has been found
is found from then on (`published_in_order`); and the steps come to an end, where either every model is
served by all its session threads or the process has ended because of a model that is not loaded or
a thread that does not start (`startup_outcome`).
-/

import Toutates.Basis.RoundRobin
import Toutates.Runtime.Loading

namespace Toutates

open Basis

variable {M ν P σ τ : Type} {host : Host M ν P} {models : List M}

/-! ### The map of loaded models -/

namespace Registry

/-- A session thread leaves the map alone. -/
@[simp] theorem spawnSession_loadedModels (pool : Option (List ℕ)) (name : ν) (i : ℕ) (r : Registry ν P) :
    (r.spawnSession pool name i).loadedModels = r.loadedModels := by
  unfold spawnSession
  split <;> rfl

/-- A session thread leaves the gauge alone. -/
@[simp] theorem spawnSession_loadedGauge (pool : Option (List ℕ)) (name : ν) (i : ℕ) (r : Registry ν P) :
    (r.spawnSession pool name i).loadedGauge = r.loadedGauge := by
  unfold spawnSession
  split <;> rfl

/-- Session threads leave the map alone. -/
@[simp] theorem spawnSessions_loadedModels (pool : Option (List ℕ)) (name : ν) (n : ℕ) (r : Registry ν P) :
    (spawnSessions pool name n r).loadedModels = r.loadedModels := by
  induction n with
  | zero => rfl
  | succ n ih => rw [spawnSessions, spawnSession_loadedModels, ih]

/-- Session threads leave the gauge alone. -/
@[simp] theorem spawnSessions_loadedGauge (pool : Option (List ℕ)) (name : ν) (n : ℕ) (r : Registry ν P) :
    (spawnSessions pool name n r).loadedGauge = r.loadedGauge := by
  induction n with
  | zero => rfl
  | succ n ih => rw [spawnSessions, spawnSession_loadedGauge, ih]

/-- The session threads are pinned round-robin. -/
structure Pinned (pool : Option (List ℕ)) (r : Registry ν P) : Prop where
  pins : r.sessionThreads.map (fun t => t.2.2) = roundRobin (pool.getD []) r.sessionThreads.length
  counter : pool.getD [] ≠ [] → r.pinCounter = r.sessionThreads.length

namespace Pinned

variable {pool : Option (List ℕ)} {r r' : Registry ν P}

/-- No thread is pinned yet. -/
theorem empty : Pinned pool (empty : Registry ν P) := ⟨rfl, fun _ => rfl⟩

/-- Pinning is about the threads and the counter. -/
theorem congr (h : Pinned pool r) (hthreads : r'.sessionThreads = r.sessionThreads)
    (hcounter : r'.pinCounter = r.pinCounter) : Pinned pool r' := by
  refine ⟨?_, fun hne => ?_⟩
  · rw [hthreads]
    exact h.pins
  · rw [hthreads, hcounter]
    exact h.counter hne

/-- The next session goes to the next CPU. -/
theorem spawnSession (h : Pinned pool r) (name : ν) (i : ℕ) : Pinned pool (r.spawnSession pool name i) := by
  have hpins := h.pins
  unfold Registry.spawnSession
  split
  · rename_i cpu cpus
    have hcounter : r.pinCounter = r.sessionThreads.length := h.counter (List.cons_ne_nil cpu cpus)
    refine ⟨?_, fun _ => ?_⟩
    · rw [List.map_append, hpins, List.length_append, List.length_singleton, roundRobin_succ, ← hcounter]
      rfl
    · rw [List.length_append, ← hcounter]
      rfl
  · rename_i hpool
    have hnil : pool.getD [] = [] := by
      match pool, hpool with
      | none, _ => rfl
      | some [], _ => rfl
      | some (cpu :: cpus), hpool => exact absurd rfl (hpool cpu cpus)
    refine ⟨?_, fun hne => absurd hnil hne⟩
    rw [List.map_append, hpins, List.length_append, List.length_singleton, roundRobin_succ, hnil]
    rfl

/-- The next sessions go to the next CPUs. -/
theorem spawnSessions (h : Pinned pool r) (name : ν) (n : ℕ) : Pinned pool (Registry.spawnSessions pool name n r) := by
  induction n with
  | zero => exact h
  | succ n ih => exact ih.spawnSession name n

end Pinned

variable [DecidableEq ν]

/-- The map is entered without a session. -/
theorem Pinned.enter {pool : Option (List ℕ)} {r : Registry ν P} (h : Pinned pool r) (name : ν) (proxy : P) :
    Pinned pool (r.enter name proxy) :=
  h.congr rfl rfl

/-- One more model at the end. -/
theorem after_append_singleton (l : List M) (model : M) :
    after host (l ++ [model]) = (after host l).register host model := by
  rw [after, List.foldl_append]
  rfl

/-- A model that is not ready leaves nothing. -/
theorem register_of_not_ready {r : Registry ν P} {model : M} (h : ∀ proxy n, host.load model ≠ .ready proxy n) :
    r.register host model = r := by
  unfold register
  split
  · exact absurd ‹_› (h _ _)
  · rfl

/-- A model that is ready is in the map. -/
theorem register_loadedModels {r : Registry ν P} {model : M} {proxy : P} {n : ℕ}
    (h : host.load model = .ready proxy n) :
    (r.register host model).loadedModels = Function.update r.loadedModels (host.name model) (some proxy) := by
  rw [register_of_ready h, spawnSessions_loadedModels, enter]

/-- A model that is ready is counted. -/
theorem register_loadedGauge {r : Registry ν P} {model : M} {proxy : P} {n : ℕ}
    (h : host.load model = .ready proxy n) : (r.register host model).loadedGauge = r.loadedGauge + 1 := by
  rw [register_of_ready h, spawnSessions_loadedGauge, enter]

/-- The sessions of some models are pinned round-robin. -/
theorem pinned_after (host : Host M ν P) (l : List M) : Pinned host.executorPinPool (after host l) := by
  induction l using List.reverseRecOn with
  | nil => exact .empty
  | append_singleton l model ih =>
    rw [after_append_singleton, register]
    split
    · exact (ih.enter _ _).spawnSessions _ _
    · exact ih

/-- What is found is what a model of that name has been loaded to. -/
theorem mem_of_after {l : List M} {name : ν} {proxy : P} (h : (after host l).loadedModels name = some proxy) :
    ∃ model ∈ l, host.name model = name ∧ ∃ n, host.load model = .ready proxy n := by
  induction l using List.reverseRecOn with
  | nil => cases h
  | append_singleton l model ih =>
    rw [after_append_singleton] at h
    by_cases hready : ∃ proxy n, host.load model = .ready proxy n
    · obtain ⟨proxy', n, hload⟩ := hready
      rw [register_loadedModels hload, Function.update_apply] at h
      split_ifs at h with hname
      · obtain rfl := Option.some.inj h
        exact ⟨model, List.mem_append_right l (List.mem_singleton_self model), hname.symm, n, hload⟩
      · obtain ⟨model', hmem, hrest⟩ := ih h
        exact ⟨model', List.mem_append_left _ hmem, hrest⟩
    · rw [register_of_not_ready fun proxy n hload => hready ⟨proxy, n, hload⟩] at h
      obtain ⟨model', hmem, hrest⟩ := ih h
      exact ⟨model', List.mem_append_left _ hmem, hrest⟩

/-- Loading one more model keeps what is found under another name. -/
theorem register_loadedModels_of_ne {r : Registry ν P} {model : M} {name : ν} (hne : name ≠ host.name model) :
    (r.register host model).loadedModels name = r.loadedModels name := by
  by_cases hready : ∃ proxy n, host.load model = .ready proxy n
  · obtain ⟨proxy, n, hload⟩ := hready
    rw [register_loadedModels hload, Function.update_of_ne hne]
  · rw [register_of_not_ready fun proxy n hload => hready ⟨proxy, n, hload⟩]

/-- Under distinct names, a model that is loaded is found. -/
theorem after_loadedModels {l : List M} (hl : (l.map host.name).Nodup) {model : M} (hmem : model ∈ l) {proxy : P}
    {n : ℕ} (hload : host.load model = .ready proxy n) :
    (after host l).loadedModels (host.name model) = some proxy := by
  induction l using List.reverseRecOn with
  | nil => exact absurd hmem List.not_mem_nil
  | append_singleton l last ih =>
    rw [List.map_append, List.nodup_append] at hl
    obtain ⟨hl, -, hne⟩ := hl
    rw [after_append_singleton]
    rcases List.mem_append.1 hmem with hmem | hmem
    · have hname := hne _ (List.mem_map_of_mem hmem) (host.name last) (List.mem_singleton_self _)
      rw [register_loadedModels_of_ne hname]
      exact ih hl hmem
    · obtain rfl := List.mem_singleton.1 hmem
      rw [register_loadedModels hload, Function.update_self]

end Registry

/-- What has been replied to has been published. -/
theorem ManagerPhase.le_published (h : ℕ) (phase : ManagerPhase M ν P) : h ≤ phase.published h := by
  cases phase <;> first | exact le_rfl | exact Nat.le_succ h

/-- A host for models that are numbers, each with two sessions, on which all threads start. -/
def pairHost : Host ℕ ℕ ℕ :=
  ⟨id, fun k => .ready k 2, some [4, 5, 6], ⟨fun _ _ => true, fun _ => true, fun _ _ => true⟩⟩

/-- Whatever ends the process, some model is not loaded or some session thread does not start. -/
theorem Host.Explains.exists_failure [DecidableEq ν] {x : Exit ν} (hx : host.Explains models x) :
    (∃ model ∈ models, (host.load model).result ≠ some (.ok ())) ∨
      ∃ thread ∈ (Registry.after host models).sessionThreads, host.threadFailure thread ≠ none := by
  have hthread : (∃ thread ∈ (Registry.after host models).sessionThreads, host.threadFailure thread = some x) →
      ∃ thread ∈ (Registry.after host models).sessionThreads, host.threadFailure thread ≠ none := by
    rintro ⟨thread, hmem, hfailure⟩
    exact ⟨thread, hmem, by rw [hfailure]; exact nofun⟩
  cases x with
  | sendFailed => exact hx.elim
  | loaderDropped name => exact hx.elim
  | loadFailed name e =>
    obtain ⟨i, model, hi, hload, -, -⟩ := hx
    exact .inl ⟨model, List.mem_of_getElem? hi, by rw [hload]; exact nofun⟩
  | loadPanicked name =>
    obtain ⟨model, hmem, hload, -⟩ := hx
    exact .inl ⟨model, hmem, by rw [hload]; exact nofun⟩
  | spawnFailed name i => exact .inr (hthread hx)
  | pinFailed name i cpu => exact .inr (hthread hx)
  | runtimeFailed name i => exact .inr (hthread hx)

namespace Startup

variable [DecidableEq ν] [Mpsc σ (M × ℕ)] [Oneshot τ (Except LoadError Unit)] {h : ℕ} {s s' : Startup M ν P σ τ}
  {as bs : List Actor}

/-- The map is the one that the models which have been published leave, and the gauge is at most one
behind. -/
theorem Loading.published (hl : Loading host models h s) :
    let r := Registry.after host (models.take (s.manager.published h))
    s.registry.loadedModels = r.loadedModels ∧ s.registry.loadedGauge ≤ r.loadedGauge ∧
      r.loadedGauge ≤ s.registry.loadedGauge + 1 := by
  intro r
  have hdoing := hl.doing
  have same : ∀ {k}, s.manager.published h = k → s.registry = .after host (models.take k) →
      s.registry.loadedModels = r.loadedModels ∧ s.registry.loadedGauge ≤ r.loadedGauge ∧
        r.loadedGauge ≤ s.registry.loadedGauge + 1 := by
    rintro k rfl hr
    rw [hr]
    exact ⟨rfl, le_rfl, Nat.le_succ _⟩
  have hr : r = .after host (models.take (s.manager.published h)) := rfl
  cases hp : s.manager with
  | recv =>
    rw [hp] at hdoing
    exact same (by rw [hp]; rfl) hdoing
  | load model i =>
    rw [hp] at hdoing
    exact same (by rw [hp]; rfl) hdoing.2.2
  | loadMap model i proxy n =>
    rw [hp] at hdoing
    exact same (by rw [hp]; rfl) hdoing.2.2.2
  | storeMap model i proxy n current =>
    rw [hp] at hdoing
    exact same (by rw [hp]; rfl) hdoing.2.2.2.2
  | incGauge model i n =>
    rw [hp] at hdoing hr
    obtain ⟨rfl, hi, proxy, hload, heq⟩ := hdoing
    have hafter : r = .register host (.after host (models.take i)) model := hr.trans (Registry.after_take_succ hi)
    have hmap := congrArg Registry.loadedModels heq
    have hgauge := congrArg Registry.loadedGauge heq
    rw [hafter, Registry.register_loadedModels hload, Registry.register_loadedGauge hload]
    exact ⟨hmap, Nat.le_of_succ_le hgauge.le, hgauge.ge⟩
  | spawn model i n j =>
    rw [hp] at hdoing hr
    obtain ⟨rfl, -, hi, proxy, hload, heq⟩ := hdoing
    have hafter : r = .register host (.after host (models.take i)) model := hr.trans (Registry.after_take_succ hi)
    rw [hafter, Registry.register_loadedModels hload, Registry.register_loadedGauge hload, heq,
      Registry.spawnSessions_loadedModels, Registry.spawnSessions_loadedGauge]
    exact ⟨rfl, le_rfl, Nat.le_succ _⟩
  | reply i result =>
    rw [hp] at hdoing
    exact same (by rw [hp]; rfl) hdoing.2.2

/-- **The models are put into the map in order, one by one**, before they are replied to. -/
theorem published_in_order (hs : start.run host models as = some s) (hs' : s.run host models bs = some s') :
    ∃ k k', k ≤ k' ∧
      s.registry.loadedModels = (Registry.after host (models.take k)).loadedModels ∧
      s'.registry.loadedModels = (Registry.after host (models.take k')).loadedModels ∧
      ∀ i, Oneshot.recv (s.replies i) = .value (.ok ()) → i < k := by
  obtain ⟨h, hl, -, -⟩ := (Loading.start host models).run hs
  obtain ⟨h', hl', hle, -⟩ := hl.run hs'
  refine ⟨_, _, hle, hl.published.1, hl'.published.1, fun i hi => ?_⟩
  exact (hl.lt_of_replied (by rw [hi]; exact nofun)).trans_le (ManagerPhase.le_published h s.manager)

/-- **A model that is found is found from then on**, and so is one whose success has been replied.  The
models have different names. -/
theorem found_from_then_on (hnames : (models.map host.name).Nodup) (hs : start.run host models as = some s)
    (hs' : s.run host models bs = some s') :
    (∀ name proxy, s.registry.loadedModels name = some proxy → s'.registry.loadedModels name = some proxy ∧
      ∃ model ∈ models, host.name model = name ∧ ∃ n, host.load model = .ready proxy n) ∧
    ∀ i model, models[i]? = some model → Oneshot.recv (s.replies i) = .value (.ok ()) →
      ∃ proxy, s'.registry.loadedModels (host.name model) = some proxy ∧ ∃ n, host.load model = .ready proxy n := by
  obtain ⟨k, k', hle, hk, hk', hreplied⟩ := published_in_order hs hs'
  have hdistinct : ((models.take k').map host.name).Nodup := hnames.sublist ((List.take_sublist k' models).map _)
  rw [hk, hk']
  constructor
  · intro name proxy hfound
    obtain ⟨model, hmem, rfl, n, hload⟩ := Registry.mem_of_after hfound
    have hmem' : model ∈ models.take k' := List.take_subset_take_left models hle hmem
    exact ⟨Registry.after_loadedModels hdistinct hmem' hload, model, List.mem_of_mem_take hmem, rfl, n, hload⟩
  · intro i model hi hok
    obtain ⟨h, hl, -, -⟩ := (Loading.start host models).run hs
    obtain ⟨proxy, n, hload⟩ := Built.eq_ready_of_result (hl.result_of_replied hi hok)
    have hget : (models.take k')[i]? = some model := by
      rw [List.getElem?_take_of_lt ((hreplied i hok).trans_le hle), hi]
    exact ⟨proxy, Registry.after_loadedModels hdistinct (List.mem_of_getElem? hget) hload, n, hload⟩

/-- The first of two models is loaded and replied to, and one of its threads serves; the channels are
queues and cells. -/
def pairHalf : Startup ℕ ℕ ℕ (Queue (ℕ × ℕ)) (Cell (Except LoadError Unit)) := (start.run pairHost [7, 9]
  [.main, .manager, .manager, .manager, .main, .manager, .manager, .manager, .session 0, .manager, .manager,
    .manager]).get rfl

/-- And then the second, and nothing is left to do. -/
def pairLoaded : Startup ℕ ℕ ℕ (Queue (ℕ × ℕ)) (Cell (Except LoadError Unit)) := (pairHalf.run pairHost [7, 9]
  [.main, .manager, .manager, .manager, .manager, .manager, .manager, .manager, .manager, .manager, .main, .main,
    .main, .session 1, .session 1, .session 0]).get rfl

/-- The first is found when the second is loaded. -/
theorem found_from_then_on_pair : pairLoaded.registry.loadedModels 7 = some 7 := by
  have hnames : ([7, 9].map pairHost.name).Nodup := by decide
  have hhalf : start.run pairHost [7, 9] _ = some pairHalf := (Option.some_get _).symm
  have hloaded : pairHalf.run pairHost [7, 9] _ = some pairLoaded := (Option.some_get _).symm
  exact ((found_from_then_on hnames hhalf hloaded).1 7 7 rfl).1

/-- One run after another. -/
theorem run_append {t : Startup M ν P σ τ} (h : t.run host models as = some s) (h' : s.run host models bs = some s') :
    t.run host models (as ++ bs) = some s' := by
  induction as generalizing t with
  | nil =>
    obtain rfl := Option.some.inj h
    exact h'
  | cons a as ih =>
    obtain ⟨u, hu, hrest⟩ := Option.bind_eq_some_iff.1 h
    exact Option.bind_eq_some_iff.2 ⟨u, hu, ih hrest⟩

/-! ### The end -/

/-- The steps come to an end. -/
theorem length_le_of_run (hs : start.run host models as = some s) :
    as.length ≤ 2 * models.length + host.steps models + 3 := by
  obtain ⟨h, -, -, hleft⟩ := (Loading.start host models).run hs
  have hstart : (start : Startup M ν P σ τ).left host models 0 = 2 * models.length + 2 + host.steps models + 1 := by
    simp [left, start, MainPhase.left, ManagerPhase.left, ManagerPhase.received]
  omega

/-- A manager that has nothing to do waits for a request. -/
theorem of_managerStep_eq_none (hm : s.managerStep host = none) : s.manager = .recv ∧ Mpsc.recv s.loadTx = none := by
  unfold managerStep at hm
  split at hm
  · exact ⟨‹_›, Option.map_eq_none_iff.1 hm⟩
  · split at hm <;> cases hm
  · cases hm
  · cases hm
  · cases hm
  · split_ifs at hm
  · cases hm

omit [DecidableEq ν] in
/-- The main thread waits for room in the channel, for a reply, or for the threads that never end. -/
theorem of_mainStep_eq_none (hm : s.mainStep host models = none) :
    (∃ i model, s.main = .send i ∧ models[i]? = some model ∧ Mpsc.send s.loadTx (model, i) = .full) ∨
      (∃ i, s.main = .receive i ∧ i < models.length ∧ Oneshot.recv (s.replies i) = .pending) ∨ s.main = .join := by
  unfold mainStep at hm
  split at hm
  · split at hm
    · cases hm
    · split at hm
      · cases hm
      · cases hm
      · exact .inl ⟨_, _, ‹_›, ‹_›, ‹_›⟩
  · split at hm
    · cases hm
    · rename_i hi
      split at hm
      · cases hm
      · cases hm
      · cases hm
      · exact .inr (.inl ⟨_, ‹_›, (List.getElem?_eq_some_iff.1 hi).1, ‹_›⟩)
  · exact .inr (.inr ‹_›)

omit [DecidableEq ν] [Mpsc σ (M × ℕ)] [Oneshot τ (Except LoadError Unit)] in
/-- A session thread does not wait. -/
theorem starting_eq_nil (hstuck : ∀ k, s.sessionStep host k = none) : s.starting = [] := by
  cases hstarting : s.starting with
  | nil => rfl
  | cons thread rest =>
    have hstep := hstuck 0
    rw [sessionStep, hstarting] at hstep
    cases hfailure : host.sessionFailure thread <;> simp [hfailure] at hstep

/-- Where the main thread and the manager wait, all models have been loaded and replied to. -/
theorem Loading.of_stuck (hl : Loading host models h s) (hm : s.mainStep host models = none)
    (hp : s.managerStep host = none) : s.main = .join ∧ s.manager = .recv ∧ s.registry = .after host models := by
  obtain ⟨hrecv, hnone⟩ := of_managerStep_eq_none hp
  have hcarries := hl.carries
  have hdoing := hl.doing
  rw [hrecv] at hcarries hdoing
  have hlen := hcarries.recv_eq_none.1 hnone
  have hh := hlen
  rw [List.length_take, requests, List.length_zipIdx, Nat.min_eq_left hl.sent_le] at hh
  have hh : h = s.main.sent models.length := hh
  rcases of_mainStep_eq_none hm with ⟨i, model, -, -, hfull⟩ | ⟨i, hi, hlt, hpending⟩ | hjoin
  · rw [hlen] at hcarries
    exact absurd hfull (hcarries.send_ne_full (by decide))
  · rw [hi] at hh
    obtain ⟨_, _, _, _, hreplied⟩ := hl.replied i (hlt.trans_eq hh.symm)
    rw [hpending] at hreplied
    cases hreplied
  · rw [hjoin] at hh
    obtain rfl : h = models.length := hh
    refine ⟨hjoin, hrecv, ?_⟩
    have hr : s.registry = .after host (models.take models.length) := hdoing
    rwa [List.take_length] at hr

/-- Where nothing can move, the process goes on exactly if every model is loaded and all session threads
start, and everything has been registered and replied to then. -/
theorem Loading.outcome (hl : Loading host models h s) (hstuck : ∀ a, s.step host models a = none) :
    (s.exit = none ↔ (∀ model ∈ models, (host.load model).result = some (.ok ())) ∧
      ∀ thread ∈ (Registry.after host models).sessionThreads, host.threadFailure thread = none) ∧
    (s.exit = none → s.registry = .after host models ∧ s.starting = [] ∧
      ∀ i < models.length, Oneshot.recv (s.replies i) = .value (.ok ())) := by
  have hend (hexit : s.exit = none) :
      s.main = .join ∧ s.manager = .recv ∧ s.registry = .after host models ∧ s.starting = [] := by
    have hmain : s.mainStep host models = none := by simpa [Startup.step, hexit] using hstuck .main
    have hmanager : s.managerStep host = none := by simpa [Startup.step, hexit] using hstuck .manager
    obtain ⟨hjoin, hrecv, hregistry⟩ := hl.of_stuck hmain hmanager
    have hsession (k : ℕ) : s.sessionStep host k = none := by simpa [Startup.step, hexit] using hstuck (.session k)
    exact ⟨hjoin, hrecv, hregistry, starting_eq_nil hsession⟩
  refine ⟨⟨fun hexit => ⟨fun model hmem => ?_, fun thread hthread => ?_⟩, fun hall => ?_⟩,
    fun hexit => ⟨(hend hexit).2.2.1, (hend hexit).2.2.2, fun i hi => ?_⟩⟩
  · obtain ⟨i, hlt, rfl⟩ := List.mem_iff_getElem.1 hmem
    have hpassed := hl.passed
    rw [(hend hexit).1] at hpassed
    obtain ⟨model, proxy, n, hget, hload⟩ := hpassed i hlt
    obtain rfl := Option.some.inj ((List.getElem?_eq_getElem hlt).symm.trans hget)
    rw [hload]
    rfl
  · obtain ⟨-, -, hregistry, hnone⟩ := hend hexit
    rw [← hregistry] at hthread
    obtain ⟨hspawned, hserves⟩ := hl.spawned thread hthread
    rw [hnone] at hserves
    rw [Host.threadFailure, if_pos hspawned]
    exact hserves.resolve_left List.not_mem_nil
  · cases hexit : s.exit with
    | none => rfl
    | some x =>
      rcases (hl.explained x hexit).exists_failure with ⟨model, hmem, hne⟩ | ⟨thread, hmem, hne⟩
      · exact absurd (hall.1 model hmem) hne
      · exact absurd (hall.2 thread hmem) hne
  · have hpassed := hl.passed
    have hread := hl.read
    rw [(hend hexit).1] at hpassed hread
    obtain ⟨model, proxy, n, hget, hload⟩ := hpassed i hi
    obtain ⟨model', result, hget', hres, hreplied⟩ := hl.replied i (hi.trans_le hread)
    obtain rfl := Option.some.inj (hget.symm.trans hget')
    rw [hload] at hres
    rw [hreplied, ← Option.some.inj hres]

/-- **What loading comes to**: it ends, the process goes on exactly if every model is loaded and every session
thread is spawned, pinned and given its runtime, everything is registered then and all threads serve, and
otherwise the reason that is given is true: the first model that is not loaded, one whose load panics, or
a session thread that does not start. -/
theorem startup_outcome (hs : start.run host models as = some s) :
    as.length ≤ 2 * models.length + host.steps models + 3 ∧
      (∀ x, s.exit = some x → host.Explains models x) ∧
      ((∀ a, s.step host models a = none) →
        (s.exit = none ↔ (∀ model ∈ models, (host.load model).result = some (.ok ())) ∧
          ∀ thread ∈ (Registry.after host models).sessionThreads, host.threadFailure thread = none) ∧
        (s.exit = none → s.registry = .after host models ∧ s.starting = [] ∧
          ∀ i < models.length, Oneshot.recv (s.replies i) = .value (.ok ()))) := by
  obtain ⟨h, hl, -, -⟩ := (Loading.start host models).run hs
  exact ⟨length_le_of_run hs, hl.explained, hl.outcome⟩

/-- Both models and their four threads. -/
theorem startup_outcome_pair : pairLoaded.registry = .after pairHost [7, 9] ∧ pairLoaded.starting = [] := by
  have hs : start.run pairHost [7, 9] _ = some pairLoaded :=
    run_append (Option.some_get _).symm (Option.some_get _).symm
  have hend := (startup_outcome hs).2.2 fun a => by cases a <;> rfl
  exact ⟨(hend.2 rfl).1, (hend.2 rfl).2.1⟩

/-! ### Where the sessions run -/

/-- The session threads are pinned round-robin at any time. -/
theorem Loading.pinned (hl : Loading host models h s) : s.registry.Pinned host.executorPinPool := by
  have hdoing := hl.doing
  have hafter := Registry.pinned_after host (models.take h)
  cases hp : s.manager with
  | recv =>
    rw [hp] at hdoing
    have hr : s.registry = .after host (models.take h) := hdoing
    exact hr ▸ hafter
  | load model i =>
    rw [hp] at hdoing
    exact hdoing.2.2 ▸ hafter
  | loadMap model i proxy n =>
    rw [hp] at hdoing
    exact hdoing.2.2.2 ▸ hafter
  | storeMap model i proxy n current =>
    rw [hp] at hdoing
    exact hdoing.2.2.2.2 ▸ hafter
  | incGauge model i n =>
    rw [hp] at hdoing
    obtain ⟨rfl, -, proxy, -, heq⟩ := hdoing
    have hthreads := congrArg Registry.sessionThreads heq
    have hcounter := congrArg Registry.pinCounter heq
    exact (hafter.enter (host.name model) proxy).congr hthreads hcounter
  | spawn model i n j =>
    rw [hp] at hdoing
    obtain ⟨rfl, -, -, proxy, -, heq⟩ := hdoing
    rw [heq]
    exact (hafter.enter (host.name model) proxy).spawnSessions _ j
  | reply i result =>
    rw [hp] at hdoing
    exact hdoing.2.2 ▸ Registry.pinned_after host _

/-- **The sessions of all models share the CPUs evenly**, at any time: a CPU that is in the pool `c` times has at
least `c` and at most `c` more than that for each full round of the pool.  The counter `pin_counter` is
a natural number here: that it wraps after `2 ^ 64` sessions is left out. -/
theorem sessions_balanced (hs : start.run host models as = some s) (cpu : ℕ) :
    let pool := host.executorPinPool.getD []
    let rounds := s.registry.sessionThreads.length / pool.length
    let pinned := (s.registry.sessionThreads.map fun t => t.2.2).count (some cpu)
    rounds * pool.count cpu ≤ pinned ∧ pinned ≤ (rounds + 1) * pool.count cpu := by
  obtain ⟨h, hl, -, -⟩ := (Loading.start host models).run hs
  rw [hl.pinned.pins]
  exact count_roundRobin_bounds _ _ cpu

/-- The four threads on a pool of three CPUs. -/
theorem sessions_balanced_pair : (pairLoaded.registry.sessionThreads.map fun t => t.2.2).count (some 4) ≤ 2 := by
  have hs : start.run pairHost [7, 9] _ = some pairLoaded :=
    run_append (Option.some_get _).symm (Option.some_get _).symm
  exact (sessions_balanced hs 4).2

end Startup

end Toutates
