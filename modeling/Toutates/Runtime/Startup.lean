/-
# Loading the models

The end of `main` of `src/main.rs`, `ModelRuntimeManager::run` and `load_model` of
`src/model_runtime/manager.rs`, and `spawn_session_thread` of `src/model_runtime/session_thread.rs`: the
main thread sends a request for every discovered model to the thread of the manager and then waits for
the replies, the manager loads one model after the other and spawns a thread for each of its sessions, and
the handlers of `model_infer` read the map of loaded models all along.  The model begins when the thread
of the manager and those of the handlers are up.

A step is what one thread does between two points at which another one could see it.  The map is
replaced as a whole: the manager loads it, inserts into a copy and stores the copy.  A session thread
pins itself to its CPU and builds its runtime before it serves.  A panic of any thread ends the process
(`panic = 'abort'` in both profiles; the hook that a session thread installs only prints another
line before it aborts).

What a session is built from and runs is code of the `ort` crate (`Ort`), whether threads are spawned,
pinned and given a runtime is up to the operating system (`Os`), and the channels are those of `tokio`;
`prepare` is what `load_model` does of its own before the model is registered.
-/

import Toutates.Basis.Channel
import Toutates.Repository.Loader
import Toutates.Runtime.Shapes

namespace Toutates

open Basis

/-- `LoadError`. -/
inductive LoadError where
  | sessionBuild (message : String)
  | allocatorCreate (message : String)
  | superTensorBuild
deriving DecidableEq

/-- What `load_model` comes to before it registers the model: a panic, an error, or what the model is
served with and the number of its sessions. -/
inductive Built (P : Type) where
  | panicked
  | failed (e : LoadError)
  | ready (proxy : P) (sessions : ℕ)

/-- What the `ort` crate does for `load_model`: the sessions built from the file at a path, the allocator
of a session, and whether the warmups of the sessions run. -/
structure Ort where
  session : Path → ModelRepositoryConfig → ℕ → Except String Session
  allocator : Session → AllocatorKind → Except String Unit
  warmup (modelPath : Path) (config : ModelRepositoryConfig) :
    List (BatchableTensor config.batchSize) → Option GpuBoundIoSpec → Bool

/-- `load_model` up to the registration of the model. -/
def prepare (ort : Ort) (modelPath : Path) (config : ModelRepositoryConfig) : Built ModelProxy :=
  match (List.range config.numExecutors).mapM (ort.session modelPath config) with
  | .error message => .failed (.sessionBuild message)
  | .ok [] => .panicked
  | .ok (first :: sessions) =>
    match ort.allocator first config.allocator with
    | .error message => .failed (.allocatorCreate message)
    | .ok () =>
      match ModelRuntimeManager.loadModel first config (ort.warmup modelPath config) with
      | .error .superTensorBuild => .failed .superTensorBuild
      | .error _ => .panicked
      | .ok served => .ready served.proxy (sessions.length + 1)

/-- What the operating system does for the thread of a session, of a model and a number in it. -/
structure Os (ν : Type) where
  /-- `Builder::spawn`. -/
  spawns : ν → ℕ → Bool
  /-- `set_for_current`. -/
  setForCurrent : ℕ → Bool
  /-- `RuntimeBuilder::build`. -/
  buildsRuntime : ν → ℕ → Bool

/-- What the threads work with: the names of the models, what `load_model` makes of them, the CPUs
that sessions are pinned to, and the operating system. -/
structure Host (M ν P : Type) where
  name : M → ν
  load : M → Built P
  executorPinPool : Option (List ℕ)
  os : Os ν

/-- A server's host. -/
def Host.ofOrt (ort : Ort) (executorPinPool : Option (List ℕ)) (os : Os (List Char)) :
    Host (LoadedModel ModelRepositoryConfig) (List Char) ModelProxy :=
  ⟨LoadedModel.name, fun model => prepare ort model.modelPath model.config, executorPinPool, os⟩

/-! ### What is registered -/

/-- What the manager leaves for others to see: the map of loaded models, the gauge `loaded_models`, the
round-robin counter, and the session threads with the CPUs they are pinned to. -/
structure Registry (ν P : Type) where
  loadedModels : ν → Option P
  loadedGauge : ℕ
  pinCounter : ℕ
  sessionThreads : List (ν × ℕ × Option ℕ)

namespace Registry

variable {M ν P : Type} [DecidableEq ν]

/-- Nothing is loaded. -/
def empty : Registry ν P := ⟨fun _ => none, 0, 0, []⟩

/-- `pin_cpu` of the next session. -/
def pinCpu (pool : Option (List ℕ)) (r : Registry ν P) : Option ℕ :=
  match pool with
  | some (cpu :: cpus) => (cpu :: cpus)[r.pinCounter % (cpu :: cpus).length]?
  | _ => none

/-- `spawn_session_thread` for session `i` of a model, pinned to the next CPU of the pool. -/
def spawnSession (pool : Option (List ℕ)) (name : ν) (i : ℕ) (r : Registry ν P) : Registry ν P :=
  match pool with
  | some (cpu :: cpus) =>
    { r with
      pinCounter := r.pinCounter + 1
      sessionThreads := r.sessionThreads ++ [(name, i, r.pinCpu (some (cpu :: cpus)))] }
  | _ => { r with sessionThreads := r.sessionThreads ++ [(name, i, none)] }

/-- The map and the gauge once a model is in. -/
def enter (name : ν) (proxy : P) (r : Registry ν P) : Registry ν P :=
  { r with loadedModels := Function.update r.loadedModels name (some proxy), loadedGauge := r.loadedGauge + 1 }

/-- The first `n` sessions of a model. -/
def spawnSessions (pool : Option (List ℕ)) (name : ν) : ℕ → Registry ν P → Registry ν P
  | 0, r => r
  | n + 1, r => (spawnSessions pool name n r).spawnSession pool name n

/-- What is registered after a model, when nobody else does anything. -/
def register (host : Host M ν P) (r : Registry ν P) (model : M) : Registry ν P :=
  match host.load model with
  | .ready proxy sessions =>
    spawnSessions host.executorPinPool (host.name model) sessions (r.enter (host.name model) proxy)
  | _ => r

/-- What is registered after some models, one after the other. -/
def after (host : Host M ν P) (models : List M) : Registry ν P := models.foldl (register host) empty

end Registry

/-! ### The threads -/

/-- Where the main thread is. -/
inductive MainPhase where
  | send (i : ℕ)
  | receive (i : ℕ)
  | join
deriving DecidableEq

/-- Where the thread of the manager is; `i` is the number of the request. -/
inductive ManagerPhase (M ν P : Type) where
  | recv
  | load (model : M) (i : ℕ)
  | loadMap (model : M) (i : ℕ) (proxy : P) (sessions : ℕ)
  | storeMap (model : M) (i : ℕ) (proxy : P) (sessions : ℕ) (current : ν → Option P)
  | incGauge (model : M) (i sessions : ℕ)
  | spawn (model : M) (i sessions j : ℕ)
  | reply (i : ℕ) (result : Except LoadError Unit)

/-- How the process ends; all but the first are panics. -/
inductive Exit (ν : Type) where
  /-- `main` returned the error of `blocking_send`. -/
  | sendFailed
  /-- "Failed to load model {}: {:?}" -/
  | loadFailed (name : ν) (e : LoadError)
  /-- "Model loader dropped without responding for {}" -/
  | loaderDropped (name : ν)
  /-- A panic of `load_model` before the model is registered. -/
  | loadPanicked (name : ν)
  /-- "failed to spawn session thread" -/
  | spawnFailed (name : ν) (i : ℕ)
  /-- "Failed to pin {executor_id} to CPU {}" -/
  | pinFailed (name : ν) (i cpu : ℕ)
  /-- "failed to build session compio runtime" -/
  | runtimeFailed (name : ν) (i : ℕ)
deriving DecidableEq

/-- What keeps a session thread that has been spawned from serving. -/
def Host.sessionFailure {M ν P : Type} (host : Host M ν P) : ν × ℕ × Option ℕ → Option (Exit ν)
  | (name, i, pinCpu) =>
    match pinCpu.filter fun cpu => !host.os.setForCurrent cpu with
    | some cpu => some (.pinFailed name i cpu)
    | none => if host.os.buildsRuntime name i then none else some (.runtimeFailed name i)

/-- The state of the process while it loads; `starting` are the session threads that do not serve yet,
`loadTx` is the channel of the requests, and `replies` are those of the replies. -/
structure Startup (M ν P σ τ : Type) where
  main : MainPhase
  manager : ManagerPhase M ν P
  loadTx : σ
  replies : ℕ → τ
  registry : Registry ν P
  starting : List (ν × ℕ × Option ℕ)
  exit : Option (Exit ν)

namespace Startup

variable {M ν P σ τ : Type} [DecidableEq ν] [Mpsc σ (M × ℕ)] [Oneshot τ (Except LoadError Unit)]

/-- The threads have been spawned, and nothing has been sent. -/
def start : Startup M ν P σ τ where
  main := .send 0
  manager := .recv
  loadTx := Mpsc.channel 16
  replies _ := Oneshot.channel
  registry := .empty
  starting := []
  exit := none

/-- The main thread.  `join` waits for ever: the manager goes on as long as there is a sender, which
the main thread has, and a thread that panics takes the process with it. -/
def mainStep (host : Host M ν P) (models : List M) (s : Startup M ν P σ τ) : Option (Startup M ν P σ τ) :=
  match s.main with
  | .send i =>
    match models[i]? with
    | none => some { s with main := .receive 0 }
    | some model =>
      match Mpsc.send s.loadTx (model, i) with
      | .sent channel => some { s with loadTx := channel, main := .send (i + 1) }
      | .closed => some { s with exit := some .sendFailed }
      | .full => none
  | .receive i =>
    match models[i]? with
    | none => some { s with main := .join }
    | some model =>
      match Oneshot.recv (s.replies i) with
      | .value (.ok ()) => some { s with main := .receive (i + 1) }
      | .value (.error e) => some { s with exit := some (.loadFailed (host.name model) e) }
      | .dropped => some { s with exit := some (.loaderDropped (host.name model)) }
      | .pending => none
  | .join => none

/-- The thread of the manager. -/
def managerStep (host : Host M ν P) (s : Startup M ν P σ τ) : Option (Startup M ν P σ τ) :=
  match s.manager with
  | .recv => (Mpsc.recv s.loadTx).map fun r => { s with loadTx := r.2, manager := .load r.1.1 r.1.2 }
  | .load model i =>
    match host.load model with
    | .panicked => some { s with exit := some (.loadPanicked (host.name model)) }
    | .failed e => some { s with manager := .reply i (.error e) }
    | .ready proxy sessions => some { s with manager := .loadMap model i proxy sessions }
  | .loadMap model i proxy sessions =>
    some { s with manager := .storeMap model i proxy sessions s.registry.loadedModels }
  | .storeMap model i proxy sessions current =>
    some { s with
      registry := { s.registry with loadedModels := Function.update current (host.name model) (some proxy) }
      manager := .incGauge model i sessions }
  | .incGauge model i sessions =>
    some { s with
      registry := { s.registry with loadedGauge := s.registry.loadedGauge + 1 }
      manager := .spawn model i sessions 0 }
  | .spawn model i sessions j =>
    if j < sessions then
      if host.os.spawns (host.name model) j then
        some { s with
          registry := s.registry.spawnSession host.executorPinPool (host.name model) j
          starting := s.starting ++ [(host.name model, j, s.registry.pinCpu host.executorPinPool)]
          manager := .spawn model i sessions (j + 1) }
      else some { s with exit := some (.spawnFailed (host.name model) j) }
    else some { s with manager := .reply i (.ok ()) }
  | .reply i result =>
    some { s with replies := Function.update s.replies i (Oneshot.send (s.replies i) result), manager := .recv }

/-- A session thread, the `k`-th of those that do not serve yet. -/
def sessionStep (host : Host M ν P) (s : Startup M ν P σ τ) (k : ℕ) : Option (Startup M ν P σ τ) :=
  match s.starting[k]? with
  | none => none
  | some thread =>
    match host.sessionFailure thread with
    | none => some { s with starting := s.starting.eraseIdx k }
    | some exit => some { s with exit := some exit }

/-- Who moves. -/
inductive Actor where
  | main
  | manager
  | session (k : ℕ)
deriving DecidableEq

/-- The next step of a thread, when it does not wait and the process has not ended. -/
def step (host : Host M ν P) (models : List M) (s : Startup M ν P σ τ) (a : Actor) : Option (Startup M ν P σ τ) :=
  if s.exit.isSome then none
  else
    match a with
    | .main => s.mainStep host models
    | .manager => s.managerStep host
    | .session k => s.sessionStep host k

/-- What a step can be. -/
inductive Step (host : Host M ν P) (models : List M) (s : Startup M ν P σ τ) : Startup M ν P σ τ → Prop where
  -- the main thread
  | sent (i model channel) (hm : s.main = .send i) (hi : models[i]? = some model)
      (hsend : Mpsc.send s.loadTx (model, i) = .sent channel) :
    Step host models s { s with loadTx := channel, main := .send (i + 1) }
  | sendFailed (i model) (hm : s.main = .send i) (hi : models[i]? = some model)
      (hsend : Mpsc.send s.loadTx (model, i) = .closed) : Step host models s { s with exit := some .sendFailed }
  | allSent (i) (hm : s.main = .send i) (hi : models[i]? = none) : Step host models s { s with main := .receive 0 }
  | loaded (i model) (hm : s.main = .receive i) (hi : models[i]? = some model)
      (hreply : Oneshot.recv (s.replies i) = .value (.ok ())) : Step host models s { s with main := .receive (i + 1) }
  | notLoaded (i model e) (hm : s.main = .receive i) (hi : models[i]? = some model)
      (hreply : Oneshot.recv (s.replies i) = .value (.error e)) :
    Step host models s { s with exit := some (.loadFailed (host.name model) e) }
  | noReply (i model) (hm : s.main = .receive i) (hi : models[i]? = some model)
      (hreply : Oneshot.recv (s.replies i) = .dropped) :
    Step host models s { s with exit := some (.loaderDropped (host.name model)) }
  | allLoaded (i) (hm : s.main = .receive i) (hi : models[i]? = none) : Step host models s { s with main := .join }
  -- the manager
  | received (model i channel) (hp : s.manager = .recv) (hrecv : Mpsc.recv s.loadTx = some ((model, i), channel)) :
    Step host models s { s with loadTx := channel, manager := .load model i }
  | panicked (model i) (hp : s.manager = .load model i) (hload : host.load model = .panicked) :
    Step host models s { s with exit := some (.loadPanicked (host.name model)) }
  | failed (model i e) (hp : s.manager = .load model i) (hload : host.load model = .failed e) :
    Step host models s { s with manager := .reply i (.error e) }
  | ready (model i proxy n) (hp : s.manager = .load model i) (hload : host.load model = .ready proxy n) :
    Step host models s { s with manager := .loadMap model i proxy n }
  | mapLoaded (model i proxy n) (hp : s.manager = .loadMap model i proxy n) :
    Step host models s { s with manager := .storeMap model i proxy n s.registry.loadedModels }
  | mapStored (model i proxy n current) (hp : s.manager = .storeMap model i proxy n current) :
    Step host models s { s with
      registry := { s.registry with loadedModels := Function.update current (host.name model) (some proxy) }
      manager := .incGauge model i n }
  | counted (model i n) (hp : s.manager = .incGauge model i n) :
    Step host models s { s with
      registry := { s.registry with loadedGauge := s.registry.loadedGauge + 1 }
      manager := .spawn model i n 0 }
  | spawned (model i n j) (hp : s.manager = .spawn model i n j) (hj : j < n)
      (hspawns : host.os.spawns (host.name model) j = true) :
    Step host models s { s with
      registry := s.registry.spawnSession host.executorPinPool (host.name model) j
      starting := s.starting ++ [(host.name model, j, s.registry.pinCpu host.executorPinPool)]
      manager := .spawn model i n (j + 1) }
  | notSpawned (model i n j) (hp : s.manager = .spawn model i n j) (hj : j < n)
      (hspawns : host.os.spawns (host.name model) j = false) :
    Step host models s { s with exit := some (.spawnFailed (host.name model) j) }
  | allSpawned (model i n j) (hp : s.manager = .spawn model i n j) (hj : ¬ j < n) :
    Step host models s { s with manager := .reply i (.ok ()) }
  | replied (i result) (hp : s.manager = .reply i result) :
    Step host models s
      { s with replies := Function.update s.replies i (Oneshot.send (s.replies i) result), manager := .recv }
  -- a session thread
  | serves (k : ℕ) (thread) (hk : s.starting[k]? = some thread) (hstart : host.sessionFailure thread = none) :
    Step host models s { s with starting := s.starting.eraseIdx k }
  | sessionFailed (k : ℕ) (thread exit) (hk : s.starting[k]? = some thread)
      (hstart : host.sessionFailure thread = some exit) : Step host models s { s with exit := some exit }

/-- What the main thread does. -/
theorem step_of_mainStep {host : Host M ν P} {models : List M} {s s' : Startup M ν P σ τ}
    (h : s.mainStep host models = some s') : Step host models s s' := by
  unfold mainStep at h
  split at h
  · rename_i i hm
    split at h
    · cases h
      exact .allSent i hm ‹_›
    · split at h
      · cases h
        exact .sent i _ _ hm ‹_› ‹_›
      · cases h
        exact .sendFailed i _ hm ‹_› ‹_›
      · cases h
  · rename_i i hm
    split at h
    · cases h
      exact .allLoaded i hm ‹_›
    · split at h
      · cases h
        exact .loaded i _ hm ‹_› ‹_›
      · cases h
        exact .notLoaded i _ _ hm ‹_› ‹_›
      · cases h
        exact .noReply i _ hm ‹_› ‹_›
      · cases h
  · cases h

/-- What the manager does. -/
theorem step_of_managerStep {host : Host M ν P} {models : List M} {s s' : Startup M ν P σ τ}
    (h : s.managerStep host = some s') : Step host models s s' := by
  unfold managerStep at h
  split at h
  · obtain ⟨⟨⟨model, i⟩, channel⟩, hrecv, rfl⟩ := Option.map_eq_some_iff.1 h
    exact .received model i channel ‹_› hrecv
  · rename_i model i hp
    split at h
    · cases h
      exact .panicked model i hp ‹_›
    · cases h
      exact .failed model i _ hp ‹_›
    · cases h
      exact .ready model i _ _ hp ‹_›
  · cases h
    exact .mapLoaded _ _ _ _ ‹_›
  · cases h
    exact .mapStored _ _ _ _ _ ‹_›
  · cases h
    exact .counted _ _ _ ‹_›
  · rename_i model i n j hp
    split_ifs at h with hj hspawns
    · cases h
      exact .spawned model i n j hp hj hspawns
    · cases h
      exact .notSpawned model i n j hp hj (Bool.eq_false_of_not_eq_true hspawns)
    · cases h
      exact .allSpawned model i n j hp hj
  · cases h
    exact .replied _ _ ‹_›

/-- What a session thread does. -/
theorem step_of_sessionStep {host : Host M ν P} {models : List M} {s s' : Startup M ν P σ τ} {k : ℕ}
    (h : s.sessionStep host k = some s') : Step host models s s' := by
  unfold sessionStep at h
  split at h
  · cases h
  · rename_i thread hk
    split at h
    · cases h
      exact .serves k thread hk ‹_›
    · cases h
      exact .sessionFailed k thread _ hk ‹_›

/-- A step is one of these, of a process that has not ended. -/
theorem step_of_step {host : Host M ν P} {models : List M} {s s' : Startup M ν P σ τ} {a : Actor}
    (h : s.step host models a = some s') : s.exit = none ∧ Step host models s s' := by
  unfold step at h
  split_ifs at h with hexit
  refine ⟨Option.not_isSome_iff_eq_none.1 hexit, ?_⟩
  cases a with
  | main => exact step_of_mainStep h
  | manager => exact step_of_managerStep h
  | session k => exact step_of_sessionStep h

/-- The steps of a list of threads, one after the other. -/
def run (host : Host M ν P) (models : List M) : List Actor → Startup M ν P σ τ → Option (Startup M ν P σ τ)
  | [], s => some s
  | a :: as, s => (s.step host models a).bind (run host models as)

end Startup

end Toutates
