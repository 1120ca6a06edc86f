/-
# The invariant of loading

The invariant of `Runtime.Startup`, however its threads are interleaved.  `Loading` refers to the number
of models that the manager is through with, and to what it is doing to the next one (`Doing`): what is
registered meanwhile, which requests wait in the channel, which have been replied to and with what, and
which session threads have come to serve.

A step also takes one of the steps that the process has `left`, which there are finitely many of
(`Loading.step`, `Loading.run`).
-/

import Toutates.Runtime.Startup

namespace Toutates

open Basis

variable {M ν P σ τ : Type} [DecidableEq ν] {host : Host M ν P} {models : List M}

/-- What the manager replies about a model. -/
def Built.result : Built P → Option (Except LoadError Unit)
  | .panicked => none
  | .failed e => some (.error e)
  | .ready _ _ => some (.ok ())

/-- A model that is replied to with success is ready. -/
theorem Built.eq_ready_of_result {b : Built P} (h : b.result = some (.ok ())) : ∃ proxy n, b = .ready proxy n := by
  cases b with
  | panicked => cases h
  | failed e => cases h
  | ready proxy n => exact ⟨proxy, n, rfl⟩

/-- A model that is replied to with an error failed with it. -/
theorem Built.eq_failed_of_result {b : Built P} {e : LoadError} (h : b.result = some (.error e)) : b = .failed e := by
  cases b with
  | panicked => cases h
  | failed e' =>
    obtain rfl := Except.error.inj (Option.some.inj h)
    rfl
  | ready proxy n => cases h

/-! ### The registry after some models -/

namespace Registry

/-- One more model. -/
theorem after_take_succ {k : ℕ} {model : M} (h : models[k]? = some model) :
    after host (models.take (k + 1)) = (after host (models.take k)).register host model := by
  rw [after, List.take_add_one, h, Option.toList_some, List.foldl_append]
  rfl

/-- A model that fails leaves the registry as it is. -/
theorem register_of_failed {r : Registry ν P} {model : M} {e : LoadError} (h : host.load model = .failed e) :
    r.register host model = r := by
  rw [register, h]

/-- A model that is ready is entered, and its sessions are spawned. -/
theorem register_of_ready {r : Registry ν P} {model : M} {proxy : P} {n : ℕ} (h : host.load model = .ready proxy n) :
    r.register host model =
      spawnSessions host.executorPinPool (host.name model) n (r.enter (host.name model) proxy) := by
  rw [register, h]

omit [DecidableEq ν] in
/-- A session thread is added behind the others. -/
theorem spawnSession_sessionThreads (pool : Option (List ℕ)) (name : ν) (i : ℕ) (r : Registry ν P) :
    (r.spawnSession pool name i).sessionThreads = r.sessionThreads ++ [(name, i, r.pinCpu pool)] := by
  unfold spawnSession
  split
  · rfl
  · rename_i hpool
    have hnone : r.pinCpu pool = none := by
      unfold pinCpu
      split
      · exact absurd rfl (hpool _ _)
      · rfl
    rw [hnone]

omit [DecidableEq ν] in
/-- The threads of the first sessions are the first threads. -/
theorem spawnSessions_first (pool : Option (List ℕ)) (name : ν) (r : Registry ν P) {j n : ℕ} (h : j ≤ n) :
    (spawnSessions pool name j r).sessionThreads <+: (spawnSessions pool name n r).sessionThreads := by
  induction n with
  | zero =>
    obtain rfl := Nat.le_zero.1 h
    exact List.prefix_refl _
  | succ n ih =>
    rcases Nat.le_succ_iff.1 h with hle | rfl
    · refine (ih hle).trans ?_
      rw [spawnSessions, spawnSession_sessionThreads]
      exact List.prefix_append _ _
    · exact List.prefix_refl _

/-- The threads that there are stay the first ones. -/
theorem register_first (host : Host M ν P) (r : Registry ν P) (model : M) :
    r.sessionThreads <+: (r.register host model).sessionThreads := by
  unfold register
  split
  · exact spawnSessions_first host.executorPinPool _ (r.enter _ _) (Nat.zero_le _)
  · exact List.prefix_refl _

/-- The threads of the first models are the first threads. -/
theorem after_first (host : Host M ν P) (models : List M) (k : ℕ) :
    (after host (models.take k)).sessionThreads <+: (after host models).sessionThreads := by
  have hrest : after host models = (models.drop k).foldl (register host) (after host (models.take k)) := by
    rw [after, after, ← List.foldl_append, List.take_append_drop]
  rw [hrest]
  generalize after host (models.take k) = r
  induction models.drop k generalizing r with
  | nil => exact List.prefix_refl _
  | cons model rest ih => exact (register_first host r model).trans (ih _)

end Registry

/-! ### What is done, and what is left to do -/

/-- How many requests the main thread has sent, of `n`. -/
def MainPhase.sent (n : ℕ) : MainPhase → ℕ
  | send i => i
  | _ => n

/-- How many replies the main thread has read, of `n`. -/
def MainPhase.read (n : ℕ) : MainPhase → ℕ
  | send _ => 0
  | receive i => i
  | join => n

/-- How many requests the manager has received when it is through with `h` of them. -/
def ManagerPhase.received (h : ℕ) : ManagerPhase M ν P → ℕ
  | recv => h
  | _ => h + 1

/-- How many models have been put into the map when the manager is through with `h` of them. -/
def ManagerPhase.published (h : ℕ) : ManagerPhase M ν P → ℕ
  | incGauge .. | spawn .. | reply .. => h + 1
  | _ => h

/-- How many steps the main thread can still take, with `n` models. -/
def MainPhase.left (n : ℕ) : MainPhase → ℕ
  | send i => 2 * n + 2 - i
  | receive i => n - i + 1
  | join => 0

/-- How many steps are taken for a model that has been received, those of its session threads
included. -/
def Built.steps : Built P → ℕ
  | .panicked => 0
  | .failed _ => 2
  | .ready _ n => 2 * n + 6

/-- How many steps can still be taken for the model that has been received, but for those of the
session threads that have been spawned. -/
def ManagerPhase.left (host : Host M ν P) : ManagerPhase M ν P → ℕ
  | recv => 0
  | load model _ => (host.load model).steps
  | loadMap _ _ _ n => 2 * n + 5
  | storeMap _ _ _ n _ => 2 * n + 4
  | incGauge _ _ n => 2 * n + 3
  | spawn _ _ n j => 2 * (n - j) + 2
  | reply _ _ => 1

/-- How many steps are taken for some models. -/
def Host.steps (host : Host M ν P) (models : List M) : ℕ := (models.map fun model => (host.load model).steps + 1).sum

omit [DecidableEq ν] in
/-- The steps for the next model, and for those behind it. -/
theorem Host.steps_drop {i : ℕ} {model : M} (h : models[i]? = some model) :
    host.steps (models.drop i) = (host.load model).steps + 1 + host.steps (models.drop (i + 1)) := by
  obtain ⟨hlt, rfl⟩ := List.getElem?_eq_some_iff.1 h
  rw [List.drop_eq_getElem_cons hlt]
  rfl

/-- What the manager is doing when it is through with `h` models, and what is registered meanwhile. -/
def Doing (host : Host M ν P) (models : List M) (h : ℕ) : ManagerPhase M ν P → Registry ν P → Prop
  | .recv, r => r = .after host (models.take h)
  | .load model i, r => i = h ∧ models[h]? = some model ∧ r = .after host (models.take h)
  | .loadMap model i proxy n, r =>
    i = h ∧ models[h]? = some model ∧ host.load model = .ready proxy n ∧ r = .after host (models.take h)
  | .storeMap model i proxy n current, r =>
    i = h ∧ models[h]? = some model ∧ host.load model = .ready proxy n ∧ current = r.loadedModels ∧
      r = .after host (models.take h)
  | .incGauge model i n, r => i = h ∧ models[h]? = some model ∧ ∃ proxy, host.load model = .ready proxy n ∧
      { r with loadedGauge := r.loadedGauge + 1 } = (Registry.after host (models.take h)).enter (host.name model) proxy
  | .spawn model i n j, r => i = h ∧ j ≤ n ∧ models[h]? = some model ∧ ∃ proxy, host.load model = .ready proxy n ∧
      r = Registry.spawnSessions host.executorPinPool (host.name model) j
        ((Registry.after host (models.take h)).enter (host.name model) proxy)
  | .reply i result, r => i = h ∧ (∃ model, models[h]? = some model ∧ (host.load model).result = some result) ∧
      r = .after host (models.take (h + 1))

/-- While sessions are spawned, the next one is among those of all models. -/
theorem Doing.mem_of_spawn {h i n j : ℕ} {model : M} {r : Registry ν P}
    (hdoing : Doing host models h (.spawn model i n j) r) (hj : j < n) :
    (host.name model, j, r.pinCpu host.executorPinPool) ∈ (Registry.after host models).sessionThreads := by
  obtain ⟨rfl, -, hi, proxy, hload, rfl⟩ := hdoing
  have hafter := Registry.after_first host models (i + 1)
  rw [Registry.after_take_succ hi, Registry.register_of_ready hload] at hafter
  refine ((Registry.spawnSessions_first _ _ _ (Nat.succ_le_of_lt hj)).trans hafter).subset ?_
  rw [Registry.spawnSessions, Registry.spawnSession_sessionThreads]
  exact List.mem_append_right _ (List.mem_singleton_self _)

/-- The session threads are the first of those of all models. -/
theorem Doing.first {h : ℕ} {phase : ManagerPhase M ν P} {r : Registry ν P} (hdoing : Doing host models h phase r) :
    r.sessionThreads <+: (Registry.after host models).sessionThreads := by
  have hafter := Registry.after_first host models h
  cases phase with
  | recv =>
    obtain rfl : r = .after host (models.take h) := hdoing
    exact hafter
  | load model i =>
    obtain ⟨-, -, rfl⟩ := hdoing
    exact hafter
  | loadMap model i proxy n =>
    obtain ⟨-, -, -, rfl⟩ := hdoing
    exact hafter
  | storeMap model i proxy n current =>
    obtain ⟨-, -, -, -, rfl⟩ := hdoing
    exact hafter
  | incGauge model i n =>
    obtain ⟨-, -, proxy, -, heq⟩ := hdoing
    have hthreads := congrArg Registry.sessionThreads heq
    exact hthreads ▸ hafter
  | spawn model i n j =>
    obtain ⟨rfl, hle, hi, proxy, hload, rfl⟩ := hdoing
    have hafter := Registry.after_first host models (i + 1)
    rw [Registry.after_take_succ hi, Registry.register_of_ready hload] at hafter
    exact (Registry.spawnSessions_first _ _ _ hle).trans hafter
  | reply i result =>
    obtain ⟨-, -, rfl⟩ := hdoing
    exact Registry.after_first host models (h + 1)

/-! ### Why the process ends -/

/-- Model number `i` is there and is loaded. -/
def Host.Loads (host : Host M ν P) (models : List M) (i : ℕ) : Prop :=
  ∃ model proxy n, models[i]? = some model ∧ host.load model = .ready proxy n

/-- What keeps a session thread from serving. -/
def Host.threadFailure (host : Host M ν P) (thread : ν × ℕ × Option ℕ) : Option (Exit ν) :=
  if host.os.spawns thread.1 thread.2.1 then host.sessionFailure thread
  else some (.spawnFailed thread.1 thread.2.1)

/-- Why the process may have ended: the first model that is not loaded fails, the load of some model
panics, or a session thread of some model is not spawned, pinned or given a runtime. -/
def Host.Explains (host : Host M ν P) (models : List M) : Exit ν → Prop
  | .loadFailed name e => ∃ i model, models[i]? = some model ∧ host.load model = .failed e ∧ host.name model = name ∧
      ∀ j < i, host.Loads models j
  | .loadPanicked name => ∃ model ∈ models, host.load model = .panicked ∧ host.name model = name
  | .sendFailed | .loaderDropped _ => False
  | exit => ∃ thread ∈ (Registry.after host models).sessionThreads, host.threadFailure thread = some exit

/-- A session thread that does not serve explains the end. -/
theorem Host.explains_of_threadFailure {thread : ν × ℕ × Option ℕ} {exit : Exit ν}
    (hmem : thread ∈ (Registry.after host models).sessionThreads) (h : host.threadFailure thread = some exit) :
    host.Explains models exit := by
  have hthread : ∃ thread ∈ (Registry.after host models).sessionThreads, host.threadFailure thread = some exit :=
    ⟨thread, hmem, h⟩
  obtain ⟨name, i, pinCpu⟩ := thread
  by_cases hspawns : host.os.spawns name i = true
  · rw [Host.threadFailure, if_pos hspawns, Host.sessionFailure] at h
    split at h
    · obtain rfl := Option.some.inj h
      exact hthread
    · split_ifs at h
      obtain rfl := Option.some.inj h
      exact hthread
  · rw [Host.threadFailure, if_neg hspawns] at h
    obtain rfl := Option.some.inj h
    exact hthread

namespace Startup

variable [Mpsc σ (M × ℕ)] [Oneshot τ (Except LoadError Unit)]

/-- The requests of the models, in the order in which they are sent. -/
def requests (models : List M) : List (M × ℕ) := models.zipIdx

/-- A request has its model and its number. -/
theorem requests_getElem? (i : ℕ) : (requests models)[i]? = models[i]?.map fun model => (model, i) := by
  rw [requests, List.getElem?_zipIdx, Nat.zero_add]

/-- The requests up to one, and the one. -/
theorem take_requests_succ {i : ℕ} {model : M} (h : models[i]? = some model) :
    (requests models).take (i + 1) = (requests models).take i ++ [(model, i)] := by
  rw [List.take_add_one, requests_getElem?, h]
  rfl

/-- A request that has been sent. -/
theorem of_take_requests {k i j : ℕ} {model : M} (h : ((requests models).take k)[i]? = some (model, j)) :
    j = i ∧ models[i]? = some model := by
  rw [List.getElem?_take] at h
  split_ifs at h
  rw [requests_getElem?] at h
  obtain ⟨model', hi, heq⟩ := Option.map_eq_some_iff.1 h
  obtain ⟨rfl, rfl⟩ := Prod.mk.inj heq
  exact ⟨rfl, hi⟩

/-- **The invariant**, when the manager is through with `h` models. -/
structure Loading (host : Host M ν P) (models : List M) (h : ℕ) (s : Startup M ν P σ τ) : Prop where
  doing : Doing host models h s.manager s.registry
  sent_le : s.main.sent models.length ≤ models.length
  carries : Mpsc.Carries s.loadTx 16 ((requests models).take (s.main.sent models.length)) (s.manager.received h)
  replied : ∀ i < h, ∃ model result, models[i]? = some model ∧ (host.load model).result = some result ∧
    Oneshot.recv (s.replies i) = .value result
  waiting : ∀ i, h ≤ i → Oneshot.recv (s.replies i) = .pending
  read : s.main.read models.length ≤ h
  passed : ∀ i < s.main.read models.length, host.Loads models i
  starting : ∀ thread ∈ s.starting, thread ∈ s.registry.sessionThreads
  spawned : ∀ thread ∈ s.registry.sessionThreads, host.os.spawns thread.1 thread.2.1 = true ∧
    (thread ∈ s.starting ∨ host.sessionFailure thread = none)
  explained : ∀ x, s.exit = some x → host.Explains models x

/-- The invariant holds at the start. -/
theorem Loading.start (host : Host M ν P) (models : List M) :
    Loading host models 0 (start : Startup M ν P σ τ) where
  doing := rfl
  sent_le := Nat.zero_le _
  carries := Mpsc.Carries.channel 16
  replied _ h := absurd h (Nat.not_lt_zero _)
  waiting _ _ := Oneshot.recv_channel
  read := le_rfl
  passed _ h := absurd h (Nat.not_lt_zero _)
  starting _ h := absurd h List.not_mem_nil
  spawned _ h := absurd h List.not_mem_nil
  explained _ h := by cases h

namespace Loading

variable {h : ℕ} {s s' : Startup M ν P σ τ}

/-- Only what the manager is through with has been replied to. -/
theorem lt_of_replied (hl : Loading host models h s) {i : ℕ} (hr : Oneshot.recv (s.replies i) ≠ .pending) : i < h := by
  by_contra hge
  exact hr (hl.waiting i (Nat.le_of_not_lt hge))

/-- What a reply says is what `load_model` came to. -/
theorem result_of_replied (hl : Loading host models h s) {i : ℕ} {model : M} {result : Except LoadError Unit}
    (hi : models[i]? = some model) (hr : Oneshot.recv (s.replies i) = .value result) :
    (host.load model).result = some result := by
  obtain ⟨model', result', hi', hres, hr'⟩ := hl.replied i (hl.lt_of_replied (by rw [hr]; exact nofun))
  obtain rfl := Option.some.inj (hi.symm.trans hi')
  obtain rfl := Received.value.inj (hr.symm.trans hr')
  exact hres

/-- The manager drops no reply. -/
theorem recv_ne_dropped (hl : Loading host models h s) (i : ℕ) : Oneshot.recv (s.replies i) ≠ .dropped := by
  intro hdropped
  obtain ⟨_, _, _, _, hr⟩ := hl.replied i (hl.lt_of_replied (by rw [hdropped]; exact nofun))
  rw [hdropped] at hr
  cases hr

/-- A step of the main thread that sends nothing. -/
theorem main (hl : Loading host models h s) {phase : MainPhase}
    (hsent : phase.sent models.length = s.main.sent models.length)
    (hread : phase.read models.length ≤ h) (hpassed : ∀ i < phase.read models.length, host.Loads models i) :
    Loading host models h { s with main := phase } :=
  { hl with
    sent_le := hsent ▸ hl.sent_le
    carries := hsent ▸ hl.carries
    read := hread
    passed := hpassed }

/-- The process ends. -/
theorem exits (hl : Loading host models h s) {x : Exit ν} (hx : host.Explains models x) :
    Loading host models h { s with exit := some x } :=
  { hl with explained := fun _ hx' => Option.some.inj hx' ▸ hx }

/-- A step of the manager that neither receives, spawns nor replies. -/
theorem busy (hl : Loading host models h s) {phase : ManagerPhase M ν P} {r : Registry ν P}
    (hdoing : Doing host models h phase r) (hreceived : phase.received h = s.manager.received h)
    (hthreads : r.sessionThreads = s.registry.sessionThreads) :
    Loading host models h { s with manager := phase, registry := r } :=
  { hl with
    doing := hdoing
    carries := hreceived ▸ hl.carries
    starting := fun thread hthread => by
      rw [hthreads]
      exact hl.starting thread hthread
    spawned := fun thread hthread => by
      rw [hthreads] at hthread
      exact hl.spawned thread hthread }

/-- The manager spawns a session thread. -/
theorem spawn (hl : Loading host models h s) {i n j : ℕ} {model : M} (hp : s.manager = .spawn model i n j) (hj : j < n)
    (hspawns : host.os.spawns (host.name model) j = true) : Loading host models h { s with
      registry := s.registry.spawnSession host.executorPinPool (host.name model) j
      starting := s.starting ++ [(host.name model, j, s.registry.pinCpu host.executorPinPool)]
      manager := .spawn model i n (j + 1) } := by
  have hdoing := hl.doing
  have hcarries := hl.carries
  rw [hp] at hdoing hcarries
  obtain ⟨rfl, -, hi, proxy, hload, hr⟩ := hdoing
  have hthreads := Registry.spawnSession_sessionThreads host.executorPinPool (host.name model) j s.registry
  refine { hl with
    doing := ⟨rfl, hj, hi, proxy, hload, by rw [hr]; rfl⟩
    carries := hcarries
    starting := fun thread hthread => ?_
    spawned := fun thread hthread => ?_ }
  · rw [hthreads, List.mem_append]
    exact (List.mem_append.1 hthread).imp_left (hl.starting thread)
  · rw [hthreads, List.mem_append, List.mem_singleton] at hthread
    rcases hthread with hthread | rfl
    · obtain ⟨hspawned, hserves⟩ := hl.spawned thread hthread
      exact ⟨hspawned, hserves.imp_left (List.mem_append_left _)⟩
    · exact ⟨hspawns, .inl (List.mem_append_right _ (List.mem_singleton_self _))⟩

/-- A session thread comes to serve. -/
theorem serves (hl : Loading host models h s) {k : ℕ} {thread : ν × ℕ × Option ℕ} (hk : s.starting[k]? = some thread)
    (hstart : host.sessionFailure thread = none) :
    Loading host models h { s with starting := s.starting.eraseIdx k } := by
  refine { hl with
    starting := fun thread' hthread => hl.starting thread' (List.mem_of_mem_eraseIdx hthread)
    spawned := fun thread' hthread => ?_ }
  obtain ⟨hspawned, hserves⟩ := hl.spawned thread' hthread
  refine ⟨hspawned, ?_⟩
  rcases hserves with hmem | hserves
  · obtain ⟨m, hm⟩ := List.mem_iff_getElem?.1 hmem
    by_cases hne : m = k
    · subst hne
      obtain rfl := Option.some.inj (hk.symm.trans hm)
      exact .inr hstart
    · exact .inl (List.mem_eraseIdx_iff_getElem?.2 ⟨m, hne, hm⟩)
  · exact .inr hserves

/-- The main thread sends the next request. -/
theorem send (hl : Loading host models h s) {i : ℕ} {model : M} {channel : σ} (hm : s.main = .send i)
    (hi : models[i]? = some model) (hsend : Mpsc.send s.loadTx (model, i) = .sent channel) :
    Loading host models h { s with loadTx := channel, main := .send (i + 1) } := by
  have hcarries := hl.carries
  have hpassed := hl.passed
  rw [hm] at hcarries hpassed
  exact { hl with
    sent_le := (List.getElem?_eq_some_iff.1 hi).1
    carries := by
      show Mpsc.Carries channel 16 ((requests models).take (i + 1)) _
      rw [take_requests_succ hi]
      exact hcarries.send hsend
    read := Nat.zero_le h
    passed := hpassed }

/-- The manager receives the next request. -/
theorem receive (hl : Loading host models h s) {i : ℕ} {model : M} {channel : σ} (hp : s.manager = .recv)
    (hrecv : Mpsc.recv s.loadTx = some ((model, i), channel)) :
    Loading host models h { s with loadTx := channel, manager := .load model i } := by
  have hdoing := hl.doing
  have hcarries := hl.carries
  rw [hp] at hdoing hcarries
  obtain ⟨hget, hcarries'⟩ := hcarries.recv hrecv
  obtain ⟨rfl, hi⟩ := of_take_requests hget
  exact { hl with
    doing := ⟨rfl, hi, hdoing⟩
    carries := hcarries' }

/-- The manager replies, and is through with one more model. -/
theorem reply (hl : Loading host models h s) {i : ℕ} {result : Except LoadError Unit}
    (hp : s.manager = .reply i result) : Loading host models (h + 1)
      { s with replies := Function.update s.replies i (Oneshot.send (s.replies i) result), manager := .recv } := by
  have hdoing := hl.doing
  have hcarries := hl.carries
  rw [hp] at hdoing hcarries
  obtain ⟨rfl, ⟨model, hi, hres⟩, hr⟩ := hdoing
  refine { hl with
    doing := hr
    carries := hcarries
    replied := fun j hj => ?_
    waiting := fun j hj => ?_
    read := Nat.le_succ_of_le hl.read }
  · rcases Nat.lt_succ_iff_lt_or_eq.1 hj with hlt | rfl
    · obtain ⟨model', result', hj', hres', hrep⟩ := hl.replied j hlt
      refine ⟨model', result', hj', hres', ?_⟩
      show Oneshot.recv (Function.update s.replies i _ j) = _
      rw [Function.update_of_ne (Nat.ne_of_lt hlt), hrep]
    · refine ⟨model, result, hi, hres, ?_⟩
      show Oneshot.recv (Function.update s.replies j _ j) = _
      rw [Function.update_self, Oneshot.recv_send _ _ (hl.waiting j le_rfl)]
  · show Oneshot.recv (Function.update s.replies i _ j) = _
    rw [Function.update_of_ne (Nat.ne_of_gt hj), hl.waiting j (Nat.le_of_succ_le hj)]

/-- A step of the main thread that reads a reply. -/
theorem reads (hl : Loading host models h s) {i : ℕ} {model : M} (hm : s.main = .receive i)
    (hi : models[i]? = some model) (hreply : Oneshot.recv (s.replies i) = .value (.ok ())) :
    Loading host models h { s with main := .receive (i + 1) } := by
  obtain ⟨proxy, n, hload⟩ := Built.eq_ready_of_result (hl.result_of_replied hi hreply)
  have hpassed := hl.passed
  rw [hm] at hpassed
  refine hl.main (by rw [hm]; rfl) (hl.lt_of_replied (by rw [hreply]; exact nofun)) fun j hj => ?_
  rcases Nat.lt_succ_iff_lt_or_eq.1 hj with hlt | rfl
  · exact hpassed j hlt
  · exact ⟨model, proxy, n, hi, hload⟩

end Loading

/-- How many steps the process can still take when the manager is through with `h` models. -/
def left (host : Host M ν P) (models : List M) (h : ℕ) (s : Startup M ν P σ τ) : ℕ :=
  s.main.left models.length + (s.manager.left host + host.steps (models.drop (s.manager.received h))) +
    s.starting.length + (if s.exit.isSome then 0 else 1)

/-- What a step brings: the invariant again, no model less in the map, and one step less to take. -/
def Advances (host : Host M ν P) (models : List M) (h : ℕ) (s s' : Startup M ν P σ τ) : Prop :=
  ∃ h', Loading host models h' s' ∧ s.manager.published h ≤ s'.manager.published h' ∧
    s'.left host models h' + 1 = s.left host models h

namespace Advances

variable {h : ℕ} {s : Startup M ν P σ τ}

/-- A step of the main thread. -/
theorem of_main {phase : MainPhase} {channel : σ}
    (hl : Loading host models h { s with loadTx := channel, main := phase })
    (hleft : phase.left models.length + 1 = s.main.left models.length) :
    Advances host models h s { s with loadTx := channel, main := phase } := by
  refine ⟨h, hl, le_rfl, ?_⟩
  simp only [left]
  omega

/-- The last step. -/
theorem of_exit (hl : Loading host models h s) (hexit : s.exit = none) {x : Exit ν} (hx : host.Explains models x) :
    Advances host models h s { s with exit := some x } := by
  refine ⟨h, hl.exits hx, le_rfl, ?_⟩
  simp only [left, hexit]
  rfl

/-- A step of the manager that spawns nothing. -/
theorem of_manager {h' : ℕ} {phase : ManagerPhase M ν P} {channel : σ} {replies : ℕ → τ} {r : Registry ν P}
    (hl : Loading host models h' { s with manager := phase, loadTx := channel, replies := replies, registry := r })
    (hpublished : s.manager.published h ≤ phase.published h')
    (hleft : phase.left host + host.steps (models.drop (phase.received h')) + 1 =
      s.manager.left host + host.steps (models.drop (s.manager.received h))) :
    Advances host models h s { s with manager := phase, loadTx := channel, replies := replies, registry := r } := by
  refine ⟨h', hl, hpublished, ?_⟩
  simp only [left]
  omega

/-- A step of the manager that neither receives, spawns nor replies. -/
theorem of_busy (hl : Loading host models h s) {phase phase' : ManagerPhase M ν P} {r : Registry ν P}
    (hp : s.manager = phase) (hdoing : Doing host models h phase' r) (hreceived : phase'.received h = phase.received h)
    (hthreads : r.sessionThreads = s.registry.sessionThreads)
    (hpublished : phase.published h ≤ phase'.published h) (hleft : phase'.left host + 1 = phase.left host) :
    Advances host models h s { s with manager := phase', registry := r } := by
  subst hp
  refine of_manager (hl.busy hdoing hreceived hthreads) hpublished ?_
  rw [hreceived]
  omega

end Advances

/-- **A step.** -/
theorem Loading.step {h : ℕ} {s s' : Startup M ν P σ τ} (hl : Loading host models h s) (hexit : s.exit = none)
    (hs : Step host models s s') : Advances host models h s s' := by
  have hdoing := hl.doing
  have hpassed := hl.passed
  have hsent := hl.sent_le
  have hread := hl.read
  cases hs with
  | sent i model channel hm hi hsend =>
    have hlt := (List.getElem?_eq_some_iff.1 hi).1
    refine .of_main (hl.send hm hi hsend) ?_
    simp only [hm, MainPhase.left]
    omega
  | sendFailed i model hm hi hsend => exact absurd hsend hl.carries.send_ne_closed
  | allSent i hm hi =>
    rw [hm] at hsent
    obtain rfl : i = models.length := Nat.le_antisymm hsent (List.getElem?_eq_none_iff.1 hi)
    refine .of_main (hl.main (by rw [hm]; rfl) (Nat.zero_le h) fun j hj => absurd hj (Nat.not_lt_zero j)) ?_
    simp only [hm, MainPhase.left]
    omega
  | loaded i model hm hi hreply =>
    have hlt := (List.getElem?_eq_some_iff.1 hi).1
    refine .of_main (hl.reads hm hi hreply) ?_
    simp only [hm, MainPhase.left]
    omega
  | notLoaded i model e hm hi hreply =>
    rw [hm] at hpassed
    have hload := Built.eq_failed_of_result (hl.result_of_replied hi hreply)
    exact .of_exit hl hexit ⟨i, model, hi, hload, rfl, hpassed⟩
  | noReply i model hm hi hreply => exact absurd hreply (hl.recv_ne_dropped i)
  | allLoaded i hm hi =>
    rw [hm] at hpassed hread
    have hlen := List.getElem?_eq_none_iff.1 hi
    refine .of_main (hl.main (by rw [hm]; rfl) (hlen.trans hread) fun j hj => hpassed j (hj.trans_le hlen)) ?_
    simp only [hm, MainPhase.left]
    omega
  | received model i channel hp hrecv =>
    have hl' := hl.receive hp hrecv
    obtain ⟨rfl, hi, -⟩ := hl'.doing
    refine .of_manager hl' (by rw [hp]; rfl) ?_
    simp only [hp, ManagerPhase.left, ManagerPhase.received, Host.steps_drop hi]
    omega
  | panicked model i hp hload =>
    rw [hp] at hdoing
    exact .of_exit hl hexit ⟨model, List.mem_of_getElem? hdoing.2.1, hload, rfl⟩
  | failed model i e hp hload =>
    rw [hp] at hdoing
    obtain ⟨rfl, hi, hr⟩ := hdoing
    have hres : (host.load model).result = some (.error e) := by rw [hload]; rfl
    refine .of_busy hl hp ⟨rfl, ⟨model, hi, hres⟩, ?_⟩ rfl rfl (Nat.le_succ i) ?_
    · rw [Registry.after_take_succ hi, Registry.register_of_failed hload]
      exact hr
    · simp only [ManagerPhase.left, hload, Built.steps]
  | ready model i proxy n hp hload =>
    rw [hp] at hdoing
    obtain ⟨rfl, hi, hr⟩ := hdoing
    refine .of_busy hl hp ⟨rfl, hi, hload, hr⟩ rfl rfl le_rfl ?_
    simp only [ManagerPhase.left, hload, Built.steps]
  | mapLoaded model i proxy n hp =>
    rw [hp] at hdoing
    obtain ⟨rfl, hi, hload, hr⟩ := hdoing
    exact .of_busy hl hp ⟨rfl, hi, hload, rfl, hr⟩ rfl rfl le_rfl rfl
  | mapStored model i proxy n current hp =>
    rw [hp] at hdoing
    obtain ⟨rfl, hi, hload, rfl, hr⟩ := hdoing
    refine .of_busy hl hp ⟨rfl, hi, proxy, hload, ?_⟩ rfl rfl (Nat.le_succ i) rfl
    rw [hr]
    rfl
  | counted model i n hp =>
    rw [hp] at hdoing
    obtain ⟨rfl, hi, proxy, hload, hr⟩ := hdoing
    exact .of_busy hl hp ⟨rfl, Nat.zero_le n, hi, proxy, hload, hr⟩ rfl rfl le_rfl rfl
  | spawned model i n j hp hj hspawns =>
    refine ⟨h, hl.spawn hp hj hspawns, by rw [hp]; rfl, ?_⟩
    simp only [left, hp, ManagerPhase.left, ManagerPhase.received, List.length_append, List.length_singleton]
    omega
  | notSpawned model i n j hp hj hspawns =>
    rw [hp] at hdoing
    exact .of_exit hl hexit
      (Host.explains_of_threadFailure (hdoing.mem_of_spawn hj) (by simp [Host.threadFailure, hspawns]))
  | allSpawned model i n j hp hj =>
    rw [hp] at hdoing
    obtain ⟨rfl, hle, hi, proxy, hload, hr⟩ := hdoing
    obtain rfl := Nat.le_antisymm hle (Nat.le_of_not_lt hj)
    have hres : (host.load model).result = some (.ok ()) := by rw [hload]; rfl
    refine .of_busy hl hp ⟨rfl, ⟨model, hi, hres⟩, ?_⟩ rfl rfl le_rfl ?_
    · rw [Registry.after_take_succ hi, Registry.register_of_ready hload]
      exact hr
    · simp only [ManagerPhase.left]
      omega
  | replied i result hp =>
    refine .of_manager (hl.reply hp) (by rw [hp]; rfl) ?_
    simp only [hp, ManagerPhase.left, ManagerPhase.received]
    omega
  | serves k thread hk hstart =>
    refine ⟨h, hl.serves hk hstart, le_rfl, ?_⟩
    have hlen := List.length_eraseIdx_add_one (List.getElem?_eq_some_iff.1 hk).1
    simp only [left]
    omega
  | sessionFailed k thread exit hk hstart =>
    have hmem := hl.starting thread (List.mem_of_getElem? hk)
    have hfailure : host.threadFailure thread = some exit := by
      rw [Host.threadFailure, if_pos (hl.spawned thread hmem).1, hstart]
    exact .of_exit hl hexit (Host.explains_of_threadFailure (hdoing.first.subset hmem) hfailure)

/-- **A run.** -/
theorem Loading.run {as : List Actor} {h : ℕ} {s s' : Startup M ν P σ τ} (hl : Loading host models h s)
    (hrun : s.run host models as = some s') : ∃ h', Loading host models h' s' ∧
      s.manager.published h ≤ s'.manager.published h' ∧ s'.left host models h' + as.length = s.left host models h := by
  induction as generalizing h s with
  | nil =>
    obtain rfl := Option.some.inj hrun
    exact ⟨h, hl, le_rfl, rfl⟩
  | cons a as ih =>
    obtain ⟨t, hstep, hrest⟩ := Option.bind_eq_some_iff.1 hrun
    obtain ⟨hexit, hs⟩ := step_of_step hstep
    obtain ⟨h₁, hl₁, hpub₁, hleft₁⟩ := hl.step hexit hs
    obtain ⟨h₂, hl₂, hpub₂, hleft₂⟩ := ih hl₁ hrest
    refine ⟨h₂, hl₂, hpub₁.trans hpub₂, ?_⟩
    rw [List.length_cons, ← Nat.add_assoc, hleft₂, hleft₁]

end Startup

end Toutates
