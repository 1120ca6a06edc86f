/-
# What a server serves

`main` from a repository to the map of loaded models.  Where a server goes on after it has loaded its
models, what the handlers find is each model of the repository that passes the filter, under its own
name, built from the `model.onnx` of its latest version (`served_from_disk`, `served_from_bucket`).
-/

import Toutates.Repository.Interchange
import Toutates.Runtime.Outcome

namespace Toutates

open Basis

/-- Every model is found, and nothing else. -/
theorem Startup.served_iff {M ν P σ τ : Type} [DecidableEq ν] [Mpsc σ (M × ℕ)] [Oneshot τ (Except LoadError Unit)]
    {host : Host M ν P} {models : List M} {s : Startup M ν P σ τ} {as : List Actor}
    (hnames : (models.map host.name).Nodup) (hs : start.run host models as = some s)
    (hstuck : ∀ a, s.step host models a = none) (hexit : s.exit = none) :
    (∀ name, (∃ proxy, s.registry.loadedModels name = some proxy) ↔ name ∈ models.map host.name) ∧
      ∀ name proxy, s.registry.loadedModels name = some proxy →
        ∃ model ∈ models, host.name model = name ∧ ∃ n, host.load model = .ready proxy n := by
  obtain ⟨h, hl, -, -⟩ := (Startup.Loading.start host models).run hs
  obtain ⟨hready, hregistry⟩ := hl.outcome hstuck
  rw [(hregistry hexit).1]
  refine ⟨fun name => ⟨?_, ?_⟩, fun name proxy => Registry.mem_of_after⟩
  · rintro ⟨proxy, hfound⟩
    obtain ⟨model, hmem, rfl, -⟩ := Registry.mem_of_after hfound
    exact List.mem_map_of_mem hmem
  · intro hname
    obtain ⟨model, hmem, rfl⟩ := List.mem_map.1 hname
    obtain ⟨proxy, n, hload⟩ := Built.eq_ready_of_result ((hready.1 hexit).1 model hmem)
    exact ⟨proxy, Registry.after_loadedModels hnames hmem hload⟩

/-- What passes the filter of `main`. -/
theorem mem_filterModels {κ : Type} {filter : Option (List (List Char))} {models : List (LoadedModel κ)}
    {model : LoadedModel κ} : model ∈ filterModels filter models ↔ model ∈ models ∧ passes filter model.name = true :=
  List.mem_filter

/-- The names that pass it. -/
theorem mem_map_name_filterModels {κ : Type} {filter : Option (List (List Char))} {models : List (LoadedModel κ)}
    {name : List Char} : name ∈ (filterModels filter models).map LoadedModel.name ↔
      name ∈ models.map LoadedModel.name ∧ passes filter name = true := by
  simp only [List.mem_map, mem_filterModels]
  constructor
  · rintro ⟨model, ⟨hmem, hpass⟩, rfl⟩
    exact ⟨⟨model, hmem, rfl⟩, hpass⟩
  · rintro ⟨⟨model, hmem, rfl⟩, hpass⟩
    exact ⟨model, ⟨hmem, hpass⟩, rfl⟩

section Disk

variable {κ : Type} {fs : FileSystem} {root : Path} {layout : Layout} {parse : List UInt8 → Except String κ}
  {models : List (LoadedModel κ)}

/-- The names on disk, in the order of the entries. -/
theorem OnDisk.map_name (hdisk : OnDisk fs root layout)
    (hload : (LocalModelRepository.mk root).loadAll fs parse = .ok models) :
    (models.map LoadedModel.name).Perm (layout.models.map ModelDir.name) := by
  obtain ⟨entries, hperm, hiff⟩ := hdisk.loadAll_eq_ok_iff parse
  have hmodels := (hiff models).1 hload
  have hentries : entries.map DirEntry.fileName = (models.map LoadedModel.name).map some := by
    rw [← List.forall₂_eq_eq_eq, List.map_map, List.forall₂_map_left_iff, List.forall₂_map_right_iff]
    refine hmodels.imp fun entry model h => ?_
    obtain ⟨name, hname, hmodel⟩ := h
    obtain ⟨-, -, -, -, -, -, -, -, -, rfl⟩ := LocalModelRepository.loadModel_eq_ok_iff.1 hmodel
    exact hname
  have hdirs : (layout.models.map fun m => DirEntry.dir m.name).map DirEntry.fileName =
      (layout.models.map ModelDir.name).map some := by
    rw [List.map_map, List.map_map]
    rfl
  have hnames := hperm.map DirEntry.fileName
  rw [hentries, hdirs] at hnames
  exact (List.map_perm_map_iff (Option.some_injective _)).1 hnames

end Disk

/-- The names that pass the filter are different if all are. -/
theorem nodup_filterModels {κ : Type} {filter : Option (List (List Char))} {models : List (LoadedModel κ)}
    (h : (models.map LoadedModel.name).Nodup) : ((filterModels filter models).map LoadedModel.name).Nodup :=
  h.sublist (List.filter_sublist.map _)

/-- The `model.onnx` of a version of a model, below the root of a repository or below the cache. -/
def Path.modelOnnx (dir : Path) (name : List Char) (version : ℕ) : Path :=
  ((dir.join name).join (Nat.toDigits 10 version)).join "model.onnx".toList

section Serving

variable {σ τ : Type} [Mpsc σ (LoadedModel ModelRepositoryConfig × ℕ)] [Oneshot τ (Except LoadError Unit)]
  {ort : Ort} {pool : Option (List ℕ)} {os : Os (List Char)} {filter : Option (List (List Char))}
  {models : List (LoadedModel ModelRepositoryConfig)} {as : List Startup.Actor}
  {s : Startup (LoadedModel ModelRepositoryConfig) (List Char) ModelProxy σ τ}
  {parse : List UInt8 → Except String ModelRepositoryConfig}

/-- **From a directory to the map**: a server that goes on serves each model of the directory that passes the
filter, built from the `model.onnx` and the configuration in the directory of its latest version. -/
theorem served_from_disk {fs : FileSystem} {root : Path} {layout : Layout} (hdisk : OnDisk fs root layout)
    (hload : (LocalModelRepository.mk root).loadAll fs parse = .ok models)
    (hs : Startup.start.run (Host.ofOrt ort pool os) (filterModels filter models) as = some s)
    (hstuck : ∀ a, s.step (Host.ofOrt ort pool os) (filterModels filter models) a = none) (hexit : s.exit = none) :
    (∀ name, (∃ proxy, s.registry.loadedModels name = some proxy) ↔
      passes filter name = true ∧ ∃ m ∈ layout.models, m.name = name) ∧
    ∀ name proxy, s.registry.loadedModels name = some proxy →
      ∃ m ∈ layout.models, m.name = name ∧ ∃ version config, m.Loads parse version config ∧
        (∃ d ∈ m.versions, d.name = Nat.toDigits 10 version ∧ fs.read (root.modelOnnx name version) = .ok d.onnx) ∧
        ∃ n, prepare ort (root.modelOnnx name version) config = .ready proxy n := by
  have hperm := hdisk.map_name hload
  have hnames : (models.map LoadedModel.name).Nodup := hperm.nodup_iff.2 layout.nodup
  obtain ⟨hfound, hserved⟩ := Startup.served_iff (nodup_filterModels hnames) hs hstuck hexit
  refine ⟨fun name => ?_, fun name proxy h => ?_⟩
  · rw [hfound, and_comm]
    refine mem_map_name_filterModels.trans (and_congr_left' ?_)
    rw [hperm.mem_iff, List.mem_map]
  · obtain ⟨model, hmem, rfl, n, hready⟩ := hserved name proxy h
    obtain ⟨m, hm, hmodel⟩ := hdisk.exists_loadModel hload (mem_filterModels.1 hmem).1
    obtain ⟨-, version, -, config, -, -, -, -, -, rfl⟩ := LocalModelRepository.loadModel_eq_ok_iff.1 hmodel
    have hloads := (hdisk.loadModel_eq_ok_iff hm).1 ⟨_, hmodel⟩
    obtain ⟨d, hd, hversion, -⟩ := hloads.config
    have hread := (hdisk.files m hm d hd _ d.onnx_mem).2
    rw [hversion] at hread
    exact ⟨m, hm, rfl, version, config, hloads, ⟨d, hd, hversion, hread⟩, n, hready⟩

/-- A session of a model with an input of four floats, that runs. -/
def echoOrt : Ort where
  session _ _ _ := .ok ⟨[⟨"x", .tensor .float32 [-1, 4]⟩], [⟨"y", .tensor .float32 [-1, 4]⟩]⟩
  allocator _ _ := .ok ()
  warmup _ _ _ _ := true

/-- An operating system that starts every thread. -/
def willing : Os (List Char) := ⟨fun _ _ => true, fun _ => true, fun _ _ => true⟩

/-- The models of the README. -/
def readmeModels : List (LoadedModel ModelRepositoryConfig) :=
  (((LocalModelRepository.mk "models".toList).loadAll readmeDisk readmeParse).toOption).get rfl

/-- A server of the README's repository that has loaded it. -/
def readmeServer : Startup (LoadedModel ModelRepositoryConfig) (List Char) ModelProxy
    (Queue (LoadedModel ModelRepositoryConfig × ℕ)) (Cell (Except LoadError Unit)) :=
  (Startup.start.run (Host.ofOrt echoOrt none willing) (filterModels none readmeModels)
    [.main, .main, .manager, .manager, .manager, .manager, .manager, .manager, .manager, .manager, .session 0, .manager,
      .manager, .manager, .manager, .manager, .session 0, .session 0, .session 0, .session 0, .session 0, .main,
      .main]).get rfl

/-- The model of the README is served. -/
theorem served_from_disk_readme :
    ∃ proxy, readmeServer.registry.loadedModels "my_model".toList = some proxy := by
  have hload : (LocalModelRepository.mk "models".toList).loadAll readmeDisk readmeParse = .ok readmeModels := rfl
  have hs : Startup.start.run (Host.ofOrt echoOrt none willing) (filterModels none readmeModels) _ =
      some readmeServer := (Option.some_get _).symm
  have hserved := served_from_disk readme_onDisk hload hs (fun a => by cases a <;> rfl) rfl
  exact (hserved.1 _).2 ⟨rfl, readmeModel, List.mem_singleton_self _, rfl⟩

/-- **From a bucket to the map**, where nothing in the bucket can be mistaken for a model or a version: a server
that goes on serves each model of the bucket that passes the filter, built from the configuration beside
its versions and from the file of the cache that the `model.onnx` of its latest version has been written
to. -/
theorem served_from_bucket {fs : FileSystem} {repo : ModelRepository} {store : ObjectStore} {keys : Set Key}
    {iter : List (List Char) → List (List Char)} (hkeys : Unmistakable repo.keyPrefix filter keys)
    (hstore : store.Lists keys) (hiter : ∀ names, (iter names).Perm names)
    (hload : repo.loadAll store fs parse iter filter = .ok models)
    (hs : Startup.start.run (Host.ofOrt ort pool os) (filterModels filter models) as = some s)
    (hstuck : ∀ a, s.step (Host.ofOrt ort pool os) (filterModels filter models) a = none) (hexit : s.exit = none) :
    (∀ name, (∃ proxy, s.registry.loadedModels name = some proxy) ↔
      passes filter name = true ∧ IsModel keys repo.keyPrefix name) ∧
    ∀ name proxy, s.registry.loadedModels name = some proxy →
      ∃ version config bytes onnx, IsGreatest {v | HasVersion keys repo.keyPrefix name v} version ∧
        store.read (repo.modelPrefix name ++ "/config.yaml".toList) = .ok bytes ∧ parse bytes = .ok config ∧
        store.read (repo.modelPrefix name ++ '/' :: Nat.toDigits 10 version ++ "/model.onnx".toList) = .ok onnx ∧
        fs.write (repo.localCacheDir.modelOnnx name version) onnx = .ok () ∧
        ∃ n, prepare ort (repo.localCacheDir.modelOnnx name version) config = .ready proxy n := by
  obtain ⟨names, hnames, hmodels⟩ := ModelRepository.loadAll_eq_ok_iff.1 hload
  obtain ⟨hmem, hversion⟩ := hkeys.loaded hstore hiter hload
  have hnodup : (models.map LoadedModel.name).Nodup := by
    obtain ⟨entries, -, rfl⟩ := Fallible.map_eq_ok_iff.1 hnames
    rw [ModelRepository.map_name_of_forall₂ hmodels, (hiter _).nodup_iff]
    exact List.nodup_dedup _
  obtain ⟨hfound, hserved⟩ := Startup.served_iff (nodup_filterModels hnodup) hs hstuck hexit
  refine ⟨fun name => ?_, fun name proxy h => ?_⟩
  · rw [hfound]
    refine mem_map_name_filterModels.trans ?_
    rw [hmem, and_right_comm, and_self]
  · obtain ⟨model, hmodel, rfl, n, hready⟩ := hserved name proxy h
    have hmodel := (mem_filterModels.1 hmodel).1
    have hready : prepare ort model.modelPath model.config = .ready proxy n := hready
    obtain ⟨m, -, hm⟩ := Fallible.exists_mem_of_forall₂ hmodels hmodel
    obtain ⟨rfl, -, ⟨bytes, hbytes, hparse⟩, hpath, onnx, honnx, hwrite⟩ := ModelRepository.of_loadModel hm
    rw [hpath] at hwrite hready
    exact ⟨model.version, model.config, bytes, onnx, hversion _ hmodel, hbytes, hparse, honnx, hwrite, n, hready⟩

/-- A model with its configuration beside the versions. -/
def oneModel : List (Key × List UInt8) :=
  [("models/m/1/model.onnx".toList, []), ("models/m/config.yaml".toList, readmeConfig)]

/-- Nothing in it can be mistaken. -/
theorem oneModel_unmistakable :
    Unmistakable readmeRepository.keyPrefix none {key | key ∈ oneModel.map Prod.fst} := by
  refine unmistakable_of_one (m := ['m']) (w := 1) (fun key hkey => ?_) ⟨"config.yaml".toList, by decide, by decide⟩
    ⟨by decide, "model.onnx".toList, by decide⟩ fun key hkey => ?_
  · have hall : ∀ key ∈ oneModel.map Prod.fst, readmeRepository.modelName none key = some ['m'] := by decide
    intro name hname
    exact Option.some.inj (hname.symm.trans (hall key hkey))
  · have hall : ∀ key ∈ oneModel.map Prod.fst,
        (ModelRepository.versionOf (readmeRepository.modelPrefix ['m']) key).all (· ≤ 1) = true := by decide
    intro v hv
    have hle := hall key hkey
    rw [hv] at hle
    exact of_decide_eq_true hle

/-- What the loader finds there. -/
def oneModelLoaded : List (LoadedModel ModelRepositoryConfig) :=
  ((readmeRepository.loadAll (bucketOf oneModel) readmeDisk readmeParse id none).toOption).get rfl

/-- A server that has loaded it. -/
def oneModelServer : Startup (LoadedModel ModelRepositoryConfig) (List Char) ModelProxy
    (Queue (LoadedModel ModelRepositoryConfig × ℕ)) (Cell (Except LoadError Unit)) :=
  (Startup.start.run (Host.ofOrt echoOrt none willing) (filterModels none oneModelLoaded)
    [.main, .main, .manager, .manager, .manager, .manager, .manager, .manager, .manager, .manager, .session 0, .manager,
      .manager, .manager, .manager, .manager, .session 0, .session 0, .session 0, .session 0, .session 0, .main,
      .main]).get rfl

/-- It is served. -/
theorem served_from_bucket_oneModel :
    ∃ proxy, oneModelServer.registry.loadedModels ['m'] = some proxy := by
  have hload : readmeRepository.loadAll (bucketOf oneModel) readmeDisk readmeParse id none = .ok oneModelLoaded := rfl
  have hs : Startup.start.run (Host.ofOrt echoOrt none willing) (filterModels none oneModelLoaded) _ =
      some oneModelServer := (Option.some_get _).symm
  have hserved := served_from_bucket oneModel_unmistakable (bucketOf_lists oneModel) (fun _ => .refl _) hload hs
    (fun a => by cases a <;> rfl) rfl
  exact (hserved.1 _).2 ⟨rfl, by decide, by decide, "config.yaml".toList, by decide, by decide⟩

end Serving

end Toutates
