/-
# The two places a repository can be in

The documented layout has a directory for each model, in it a directory for each version, and in
that `model.onnx` and `config.yaml`.  `LocalModelRepository` reads the configuration of the latest
version, or else one beside the versions; `ModelRepository` only looks for the one beside the
versions.  In the documented layout there is none, so every model that the S3 loader considers makes
it fail (`InBucket.loadAll_eq_ok_iff`), while the local loader loads the repository if the latest
version of every model has a configuration that can be read (`OnDisk.loadAll_ok_iff`).

The two do the same exactly when there is nothing to load, or something that neither can load
(`interchangeable_iff`).
-/

import Toutates.Repository.Discovery
import Toutates.Runtime.Shapes

namespace Toutates

open Basis

/-! ### The documented layout -/

/-- A version directory. -/
structure VersionDir where
  name : List Char
  onnx : List UInt8
  config : List UInt8
  name_ne : name ≠ []
  numeric : ∀ c ∈ name, c.isDigit = true

/-- A model directory. -/
structure ModelDir where
  name : List Char
  versions : List VersionDir
  name_ne : name ≠ []
  slash : '/' ∉ name
  versions_ne : versions ≠ []
  nodup : (versions.map VersionDir.name).Nodup

/-- A repository. -/
structure Layout where
  models : List ModelDir
  nodup : (models.map ModelDir.name).Nodup

/-- The files of a version directory. -/
def VersionDir.files (d : VersionDir) : List (List Char × List UInt8) :=
  [("model.onnx".toList, d.onnx), ("config.yaml".toList, d.config)]

/-- A version has its model. -/
theorem VersionDir.onnx_mem (d : VersionDir) : ("model.onnx".toList, d.onnx) ∈ d.files := List.mem_cons_self

/-- A version has its configuration. -/
theorem VersionDir.config_mem (d : VersionDir) : ("config.yaml".toList, d.config) ∈ d.files :=
  List.mem_cons_of_mem _ List.mem_cons_self

/-- The numbers of the versions that fit in a `u64`. -/
def ModelDir.numbers (m : ModelDir) : Set ℕ := {v | ∃ d ∈ m.versions, Decimal.Literal (2 ^ 64) d.name v}

/-- The model as it is to be loaded: its latest version, with the configuration in the directory of that
version. -/
structure ModelDir.Loads {κ : Type} (parse : List UInt8 → Except String κ) (m : ModelDir) (version : ℕ) (config : κ) :
    Prop where
  latest : IsGreatest m.numbers version
  config : ∃ d ∈ m.versions, d.name = Nat.toDigits 10 version ∧ parse d.config = .ok config

/-! ### On disk -/

/-- The entry of a directory in its parent. -/
def DirEntry.dir (name : List Char) : DirEntry := ⟨some name, .ok true⟩

/-- All entries are directories, in whatever order. -/
theorem DirEntry.isDir_of_perm {α : Type*} {l : List α} {name : α → List Char} {entries : List DirEntry}
    (h : entries.Perm (l.map fun a => .dir (name a))) : ∀ entry ∈ entries, entry.isDir = .ok true := by
  intro entry hentry
  obtain ⟨a, -, rfl⟩ := List.mem_map.1 (h.mem_iff.1 hentry)
  rfl

/-- The files of the repository are below `root`, and no others. -/
structure OnDisk (fs : FileSystem) (root : Path) (layout : Layout) : Prop where
  models : ∃ entries, fs.readDir root = .ok entries ∧
    entries.Perm (layout.models.map fun m => .dir m.name)
  versions : ∀ m ∈ layout.models, ∃ entries, fs.readDir (root.join m.name) = .ok entries ∧
    entries.Perm (m.versions.map fun d => .dir d.name)
  files : ∀ m ∈ layout.models, ∀ d ∈ m.versions, ∀ file ∈ d.files,
    fs.fileExists (((root.join m.name).join d.name).join file.1) = true ∧
      fs.read (((root.join m.name).join d.name).join file.1) = .ok file.2
  noVersion : ∀ m ∈ layout.models, ∀ name, name ∉ m.versions.map VersionDir.name → name ≠ [] → '/' ∉ name →
    name ≠ ['.'] → name ≠ ['.', '.'] →
      fs.fileExists (((root.join m.name).join name).join "config.yaml".toList) = false
  noConfig : ∀ m ∈ layout.models, ∃ e, fs.read ((root.join m.name).join "config.yaml".toList) = .error e

section OnDisk

variable {fs : FileSystem} {root : Path} {layout : Layout} (hdisk : OnDisk fs root layout) {m : ModelDir}
  (hm : m ∈ layout.models) {d : VersionDir} (hd : d ∈ m.versions)

include hdisk hm hd

/-- The configuration of a version is on disk. -/
theorem OnDisk.config : fs.fileExists (((root.join m.name).join d.name).join "config.yaml".toList) = true ∧
    fs.read (((root.join m.name).join d.name).join "config.yaml".toList) = .ok d.config :=
  hdisk.files m hm d hd ("config.yaml".toList, d.config) d.config_mem

/-- The model of a version is on disk. -/
theorem OnDisk.onnx : fs.fileExists (((root.join m.name).join d.name).join "model.onnx".toList) = true :=
  (hdisk.files m hm d hd ("model.onnx".toList, d.onnx) d.onnx_mem).1

end OnDisk

/-! ### In a bucket -/

/-- The objects of a repository below a prefix. -/
def Layout.objects (layout : Layout) (p : Key) : List (Key × List UInt8) :=
  layout.models.flatMap fun m => m.versions.flatMap fun d => d.files.map fun file =>
    (p ++ '/' :: m.name ++ '/' :: d.name ++ '/' :: file.1, file.2)

/-- Of the keys that begin with the prefix, the store has those of the repository. -/
structure InBucket (store : ObjectStore) (p : Key) (layout : Layout) : Prop where
  lists : ∃ keys, store.Lists keys ∧ ∀ key, p <+: key → (key ∈ keys ↔ key ∈ (layout.objects p).map Prod.fst)
  read : ∀ object ∈ layout.objects p, store.read object.1 = .ok object.2
  absent : ∀ key, p <+: key → key ∉ (layout.objects p).map Prod.fst → ∃ e, store.read key = .error e

/-! ### The same models -/

/-- What the rest of the server goes by. -/
def LoadedModel.contents {κ : Type} (model : LoadedModel κ) : List Char × ℕ × κ :=
  (model.name, model.version, model.config)

/-- Both fail, or both find the same models. -/
def SameModels {κ : Type} : Except String (List (LoadedModel κ)) → Except String (List (LoadedModel κ)) → Prop
  | .ok models, .ok models' => {c | c ∈ models.map LoadedModel.contents} = {c | c ∈ models'.map LoadedModel.contents}
  | .error _, .error _ => True
  | _, _ => False

section SameModels

variable {κ : Type} {found found' : Except String (List (LoadedModel κ))}

/-- With a side that fails the two agree if the other fails, too. -/
theorem sameModels_right_error (h : ∀ models, found' ≠ .ok models) :
    SameModels found found' ↔ ¬ ∃ models, found = .ok models := by
  cases found' with
  | ok models => exact absurd rfl (h models)
  | error e => cases found <;> simp [SameModels]

/-- With a side that finds no model the two agree if the other finds none. -/
theorem sameModels_right_nil : SameModels found (.ok []) ↔ found = .ok [] := by
  cases found with
  | error e => simp [SameModels]
  | ok models =>
    rw [Except.ok.injEq]
    constructor
    · intro h
      refine List.eq_nil_iff_forall_not_mem.2 fun model hmodel => ?_
      have hempty : model.contents ∈ {c | c ∈ ([] : List (LoadedModel κ)).map LoadedModel.contents} :=
        h ▸ List.mem_map_of_mem hmodel
      cases hempty
    · rintro rfl
      rfl

end SameModels

/-! ### The local loader -/

namespace LocalModelRepository

variable {κ : Type} {repo : LocalModelRepository} {fs : FileSystem} {parse : List UInt8 → Except String κ}
  {entries : List DirEntry}

/-- Among directories the latest version is a scan of the names. -/
theorem latestVersion_of_isDir (h : ∀ entry ∈ entries, entry.isDir = .ok true) (latest : Option ℕ) :
    latestVersion entries latest =
      .ok (entries.foldl (fun latest entry => newer latest (entry.fileName.bind parseVersion)) latest) := by
  induction entries generalizing latest with
  | nil => rfl
  | cons entry rest ih =>
    obtain ⟨hentry, hrest⟩ := List.forall_mem_cons.1 h
    rw [latestVersion, hentry]
    exact ih hrest _

/-- The latest version is that of the names that are versions. -/
theorem latestVersion_dirs {versions : List VersionDir}
    (h : entries.Perm (versions.map fun d => .dir d.name)) : ∃ latest, latestVersion entries none = .ok latest ∧
      Latest {v | ∃ d ∈ versions, Decimal.Literal (2 ^ 64) d.name v} latest := by
  refine ⟨_, latestVersion_of_isDir (DirEntry.isDir_of_perm h) none, ?_⟩
  have hset : {v | ∃ entry ∈ entries, entry.fileName.bind parseVersion = some v} =
      {v | ∃ d ∈ versions, Decimal.Literal (2 ^ 64) d.name v} := by
    ext v
    simp [h.mem_iff, DirEntry.dir, parseVersion_eq_some_iff]
  rw [← hset]
  exact latest_foldl _ _

/-- All directories are loaded when each one is. -/
theorem loadEntries_eq_ok_iff (h : ∀ entry ∈ entries, entry.isDir = .ok true) {models : List (LoadedModel κ)} :
    repo.loadEntries fs parse entries = .ok models ↔ List.Forall₂ (fun entry model =>
      ∃ name, entry.fileName = some name ∧ repo.loadModel fs parse name = .ok model) entries models := by
  induction entries generalizing models with
  | nil => cases models <;> simp [loadEntries]
  | cons entry rest ih =>
    obtain ⟨hentry, hrest⟩ := List.forall_mem_cons.1 h
    have hcons : repo.loadEntries fs parse (entry :: rest) =
        (entry.fileName.elim (Except.error "non-UTF8 model directory name") Except.ok).bind fun name =>
          (repo.loadModel fs parse name).bind fun model =>
            (repo.loadEntries fs parse rest).bind fun models => .ok (model :: models) := by
      rw [loadEntries, hentry]
      rfl
    rw [hcons, List.forall₂_cons_left_iff]
    simp only [Fallible.bind_eq_ok_iff, Fallible.elim_eq_ok_iff, ih hrest]
    constructor
    · rintro ⟨name, hname, model, hmodel, models', hmodels, hload⟩
      obtain rfl := Except.ok.inj hload
      exact ⟨model, models', ⟨name, hname, hmodel⟩, hmodels, rfl⟩
    · rintro ⟨model, models', ⟨name, hname, hmodel⟩, hmodels, rfl⟩
      exact ⟨name, hname, model, hmodel, models', hmodels, rfl⟩

/-- A local model is loaded from its latest version. -/
theorem loadModel_eq_ok_iff {name : List Char} {model : LoadedModel κ} :
    repo.loadModel fs parse name = .ok model ↔ ∃ entries version bytes config,
      fs.readDir (repo.root.join name) = .ok entries ∧ latestVersion entries none = .ok (some version) ∧
      fs.read (configPath fs (repo.root.join name) ((repo.root.join name).join (Nat.toDigits 10 version))) = .ok bytes ∧
      parse bytes = .ok config ∧
      fs.fileExists (((repo.root.join name).join (Nat.toDigits 10 version)).join "model.onnx".toList) = true ∧
      model =
        ⟨name, version, ((repo.root.join name).join (Nat.toDigits 10 version)).join "model.onnx".toList, config⟩ := by
  constructor
  · intro h
    obtain ⟨entries, hentries, h⟩ := Fallible.bind_eq_ok_iff.1 h
    obtain ⟨latest, hlatest, h⟩ := Fallible.bind_eq_ok_iff.1 h
    obtain ⟨version, hversion, h⟩ := Fallible.bind_eq_ok_iff.1 h
    obtain ⟨bytes, hbytes, h⟩ := Fallible.bind_eq_ok_iff.1 h
    obtain ⟨config, hconfig, h⟩ := Fallible.bind_eq_ok_iff.1 h
    rw [Fallible.elim_eq_ok_iff.1 hversion] at hlatest
    dsimp only at h
    split_ifs at h with honnx
    obtain rfl := Except.ok.inj h
    exact ⟨entries, version, bytes, config, hentries, hlatest, Fallible.mapError_eq_ok_iff.1 hbytes, hconfig, honnx,
      rfl⟩
  · rintro ⟨entries, version, bytes, config, hentries, hlatest, hbytes, hconfig, honnx, rfl⟩
    refine Fallible.bind_eq_ok_iff.2 ⟨entries, hentries, ?_⟩
    refine Fallible.bind_eq_ok_iff.2 ⟨some version, hlatest, ?_⟩
    refine Fallible.bind_eq_ok_iff.2 ⟨version, rfl, ?_⟩
    refine Fallible.bind_eq_ok_iff.2 ⟨bytes, Fallible.mapError_eq_ok_iff.2 hbytes, ?_⟩
    refine Fallible.bind_eq_ok_iff.2 ⟨config, hconfig, ?_⟩
    exact if_pos honnx

end LocalModelRepository

/-- A printed number is neither the directory itself nor its parent. -/
theorem toDigits_ne_dots (v : ℕ) : Nat.toDigits 10 v ≠ ['.'] ∧ Nat.toDigits 10 v ≠ ['.', '.'] := by
  have hdigits : ∀ c ∈ Nat.toDigits 10 v, c.isDigit = true := fun c hc =>
    Nat.isDigit_of_mem_toDigits (by decide) (by decide) hc
  constructor <;> intro h <;> exact absurd (hdigits '.' (by simp [h])) (by decide)

/-- **What the local loader makes of a model** in the documented layout. -/
theorem OnDisk.loadModel_eq_ok_iff {κ : Type} {fs : FileSystem} {root : Path} {layout : Layout}
    {parse : List UInt8 → Except String κ} (hdisk : OnDisk fs root layout) {m : ModelDir} (hm : m ∈ layout.models)
    {version : ℕ} {config : κ} : (∃ path, (LocalModelRepository.mk root).loadModel fs parse m.name =
      .ok ⟨m.name, version, path, config⟩) ↔ m.Loads parse version config := by
  obtain ⟨entries, hentries, hperm⟩ := hdisk.versions m hm
  obtain ⟨latest, hlatest, hfound⟩ := LocalModelRepository.latestVersion_dirs hperm
  have hconfigPath : ∀ d ∈ m.versions, d.name = Nat.toDigits 10 version →
      LocalModelRepository.configPath fs (root.join m.name) ((root.join m.name).join (Nat.toDigits 10 version)) =
        ((root.join m.name).join d.name).join "config.yaml".toList := by
    intro d hd hname
    rw [LocalModelRepository.configPath, ← hname, if_pos (hdisk.config hm hd).1]
  constructor
  · rintro ⟨path, hload⟩
    obtain ⟨entries', v, bytes, c, hentries', hlatest', hbytes, hconfig, -, heq⟩ :=
      LocalModelRepository.loadModel_eq_ok_iff.1 hload
    obtain ⟨-, rfl, -, rfl⟩ := LoadedModel.mk.inj heq
    obtain rfl := Except.ok.inj (hentries.symm.trans hentries')
    obtain rfl := Except.ok.inj (hlatest.symm.trans hlatest')
    refine ⟨hfound.greatest _ rfl, ?_⟩
    by_cases hmem : Nat.toDigits 10 version ∈ m.versions.map VersionDir.name
    · obtain ⟨d, hd, hname⟩ := List.mem_map.1 hmem
      rw [hconfigPath d hd hname, (hdisk.config hm hd).2] at hbytes
      obtain rfl := Except.ok.inj hbytes
      exact ⟨d, hd, hname, hconfig⟩
    · -- the latest version is only written otherwise, and no configuration is found
      have habsent := hdisk.noVersion m hm _ hmem Nat.toDigits_ne_nil (slash_notMem_toDigits version)
        (toDigits_ne_dots version).1 (toDigits_ne_dots version).2
      obtain ⟨e, he⟩ := hdisk.noConfig m hm
      rw [LocalModelRepository.configPath, habsent, if_neg Bool.false_ne_true, he] at hbytes
      cases hbytes
  · rintro ⟨hgreatest, d, hd, hname, hconfig⟩
    refine ⟨_, LocalModelRepository.loadModel_eq_ok_iff.2
      ⟨entries, version, d.config, config, hentries, ?_, ?_, hconfig, ?_, rfl⟩⟩
    · rw [hlatest, hfound.eq_some_iff.2 hgreatest]
    · rw [hconfigPath d hd hname]
      exact (hdisk.config hm hd).2
    · rw [← hname]
      exact hdisk.onnx hm hd

section Local

variable {κ : Type} {fs : FileSystem} {root : Path} {layout : Layout} {parse : List UInt8 → Except String κ}

/-- The entries of the root, and what each is loaded as. -/
theorem OnDisk.loadAll_eq_ok_iff (hdisk : OnDisk fs root layout) (parse : List UInt8 → Except String κ) :
    ∃ entries : List DirEntry, entries.Perm (layout.models.map fun m => .dir m.name) ∧
      ∀ models : List (LoadedModel κ), (LocalModelRepository.mk root).loadAll fs parse = .ok models ↔
        List.Forall₂ (fun entry model => ∃ name, entry.fileName = some name ∧
          (LocalModelRepository.mk root).loadModel fs parse name = .ok model) entries models := by
  obtain ⟨entries, hentries, hperm⟩ := hdisk.models
  refine ⟨entries, hperm, fun models => ?_⟩
  rw [← LocalModelRepository.loadEntries_eq_ok_iff (DirEntry.isDir_of_perm hperm)]
  constructor
  · intro h
    obtain ⟨entries', hentries', h⟩ := Fallible.bind_eq_ok_iff.1 h
    obtain rfl := Except.ok.inj (hentries.symm.trans hentries')
    exact h
  · exact fun h => Fallible.bind_eq_ok_iff.2 ⟨entries, hentries, h⟩

/-- The local loader loads the repository when it loads every model. -/
theorem OnDisk.loadAll_ok_iff (hdisk : OnDisk fs root layout) (parse : List UInt8 → Except String κ) :
    (∃ models, (LocalModelRepository.mk root).loadAll fs parse = .ok models) ↔
      ∀ m ∈ layout.models, ∃ version config, m.Loads parse version config := by
  obtain ⟨entries, hperm, hload⟩ := hdisk.loadAll_eq_ok_iff parse
  simp only [hload, Fallible.exists_forall₂_iff]
  constructor
  · intro h m hm
    obtain ⟨model, name, hname, hmodel⟩ := h (.dir m.name) (hperm.mem_iff.2 (List.mem_map_of_mem hm))
    obtain rfl := Option.some.inj hname
    obtain ⟨-, version, -, config, -, -, -, -, -, rfl⟩ := LocalModelRepository.loadModel_eq_ok_iff.1 hmodel
    exact ⟨version, config, (hdisk.loadModel_eq_ok_iff hm).1 ⟨_, hmodel⟩⟩
  · intro h entry hentry
    obtain ⟨m, hm, rfl⟩ := List.mem_map.1 (hperm.mem_iff.1 hentry)
    obtain ⟨version, config, hloads⟩ := h m hm
    obtain ⟨path, hpath⟩ := (hdisk.loadModel_eq_ok_iff hm).2 hloads
    exact ⟨_, m.name, rfl, hpath⟩

/-- A model that is loaded is one of the layout. -/
theorem OnDisk.exists_loadModel (hdisk : OnDisk fs root layout) {models : List (LoadedModel κ)}
    (hload : (LocalModelRepository.mk root).loadAll fs parse = .ok models) {model : LoadedModel κ}
    (hmodel : model ∈ models) :
    ∃ m ∈ layout.models, (LocalModelRepository.mk root).loadModel fs parse m.name = .ok model := by
  obtain ⟨entries, hperm, hiff⟩ := hdisk.loadAll_eq_ok_iff parse
  obtain ⟨entry, hentry, name, hname, hloaded⟩ := Fallible.exists_mem_of_forall₂ ((hiff models).1 hload) hmodel
  obtain ⟨m, hm, rfl⟩ := List.mem_map.1 (hperm.mem_iff.1 hentry)
  obtain rfl := Option.some.inj hname
  exact ⟨m, hm, hloaded⟩

/-- What it loads. -/
theorem OnDisk.loaded (hdisk : OnDisk fs root layout) {models : List (LoadedModel κ)}
    (hload : (LocalModelRepository.mk root).loadAll fs parse = .ok models) (c : List Char × ℕ × κ) :
    c ∈ models.map LoadedModel.contents ↔ ∃ m ∈ layout.models, m.name = c.1 ∧ m.Loads parse c.2.1 c.2.2 := by
  obtain ⟨entries, hperm, hiff⟩ := hdisk.loadAll_eq_ok_iff parse
  have hmodels := (hiff models).1 hload
  rw [List.mem_map]
  constructor
  · rintro ⟨model, hmodel, rfl⟩
    obtain ⟨m, hm, hloaded⟩ := hdisk.exists_loadModel hload hmodel
    obtain ⟨-, version, -, config, -, -, -, -, -, rfl⟩ := LocalModelRepository.loadModel_eq_ok_iff.1 hloaded
    exact ⟨m, hm, rfl, (hdisk.loadModel_eq_ok_iff hm).1 ⟨_, hloaded⟩⟩
  · obtain ⟨name, version, config⟩ := c
    rintro ⟨m, hm, rfl, hloads⟩
    obtain ⟨path, hpath⟩ := (hdisk.loadModel_eq_ok_iff hm).2 hloads
    obtain ⟨model, hmodel, name, hname, hloaded⟩ := Fallible.exists_mem_of_forall₂ hmodels.flip
      (hperm.mem_iff.2 (List.mem_map_of_mem hm))
    obtain rfl := Option.some.inj hname
    obtain rfl := Except.ok.inj (hpath.symm.trans hloaded)
    exact ⟨_, hmodel, rfl⟩

end Local

/-! ### The S3 loader -/

section S3

variable {κ : Type} {repo : ModelRepository} {store : ObjectStore} {fs : FileSystem} {layout : Layout}
  {parse : List UInt8 → Except String κ} {filter : Option (List (List Char))}

/-- The keys of a layout are those of its files. -/
theorem Layout.mem_keys_iff {p key : Key} : key ∈ (layout.objects p).map Prod.fst ↔
    ∃ m ∈ layout.models, ∃ d ∈ m.versions, ∃ file ∈ d.files,
      key = p ++ '/' :: m.name ++ '/' :: d.name ++ '/' :: file.1 := by
  simp only [Layout.objects, List.mem_map, List.mem_flatMap]
  constructor
  · rintro ⟨-, ⟨m, hm, d, hd, file, hfile, rfl⟩, rfl⟩
    exact ⟨m, hm, d, hd, file, hfile, rfl⟩
  · rintro ⟨m, hm, d, hd, file, hfile, rfl⟩
    exact ⟨_, ⟨m, hm, d, hd, file, hfile, rfl⟩, rfl⟩

/-- It considers the models of the repository. -/
theorem InBucket.considered (hbucket : InBucket store repo.keyPrefix layout) (filter : Option (List (List Char))) :
    ∃ names, repo.considered store filter = .ok names ∧
      ∀ n, n ∈ names ↔ passes filter n = true ∧ ∃ m ∈ layout.models, m.name = n := by
  obtain ⟨keys, hlists, hkeys⟩ := hbucket.lists
  obtain ⟨names, hnames, hmem⟩ := hlists.considered repo filter
  refine ⟨names, hnames, fun n => (hmem n).trans ?_⟩
  constructor
  · rintro ⟨hne, hpass, rest, hkey, hpart⟩
    rw [hkeys _ (List.prefix_append _ _), Layout.mem_keys_iff] at hkey
    obtain ⟨m, hm, d, -, file, -, heq⟩ := hkey
    have hrest : rest = '/' :: m.name ++ '/' :: (d.name ++ '/' :: file.1) := by simpa using heq
    have hfirst : Text.firstPart '/' rest = m.name := by
      rw [hrest]
      exact (Text.firstPart_eq_iff m.name_ne).2 (.between m.slash _)
    exact ⟨hpass, m, hm, hfirst.symm.trans ((Text.firstPart_eq_iff hne).2 hpart)⟩
  · rintro ⟨hpass, m, hm, rfl⟩
    obtain ⟨d, hd⟩ := List.exists_mem_of_ne_nil _ m.versions_ne
    refine ⟨m.name_ne, hpass, '/' :: m.name ++ '/' :: (d.name ++ '/' :: "model.onnx".toList), ?_, .between m.slash _⟩
    rw [hkeys _ (List.prefix_append _ _), Layout.mem_keys_iff]
    exact ⟨m, hm, d, hd, _, d.onnx_mem, by simp⟩

/-- No configuration is beside the versions of a model. -/
theorem InBucket.config_absent (hbucket : InBucket store repo.keyPrefix layout) {n : List Char} (hn : '/' ∉ n) :
    ∃ e, store.read (repo.modelPrefix n ++ "/config.yaml".toList) = .error e := by
  refine hbucket.absent _ ?_ fun hmem => ?_
  · rw [ModelRepository.modelPrefix, List.append_assoc]
    exact List.prefix_append _ _
  · obtain ⟨m, -, d, -, file, -, heq⟩ := Layout.mem_keys_iff.1 hmem
    have hcut : n ++ '/' :: "config.yaml".toList = m.name ++ '/' :: (d.name ++ '/' :: file.1) := by
      simpa [ModelRepository.modelPrefix] using heq
    obtain ⟨-, hconfig⟩ := Text.append_cons_inj hn m.slash hcut
    have hslash : '/' ∈ "config.yaml".toList := hconfig ▸ List.mem_append_right _ List.mem_cons_self
    exact absurd hslash (by decide)

/-- The S3 loader loads nothing but nothing. -/
theorem InBucket.loadAll_eq_ok_iff (hbucket : InBucket store repo.keyPrefix layout)
    {iter : List (List Char) → List (List Char)} (hiter : ∀ names, (iter names).Perm names)
    {models : List (LoadedModel κ)} : repo.loadAll store fs parse iter filter = .ok models ↔
      models = [] ∧ ∀ m ∈ layout.models, passes filter m.name = false := by
  obtain ⟨names, hnames, hmem⟩ := hbucket.considered filter
  constructor
  · intro h
    obtain ⟨names', hnames', hmodels⟩ := ModelRepository.loadAll_eq_ok_iff.1 h
    obtain rfl := Except.ok.inj (hnames.symm.trans hnames')
    have hnone : ∀ n, n ∉ iter names := by
      intro n hn
      obtain ⟨-, m, -, rfl⟩ := (hmem n).1 ((hiter names).mem_iff.1 hn)
      obtain ⟨model, -, hmodel⟩ := Fallible.exists_mem_of_forall₂ hmodels.flip hn
      obtain ⟨-, -, ⟨bytes, hread, -⟩, -⟩ := ModelRepository.of_loadModel hmodel
      obtain ⟨e, habsent⟩ := hbucket.config_absent m.slash
      rw [habsent] at hread
      cases hread
    have hnil := List.eq_nil_iff_forall_not_mem.2 hnone
    rw [hnil, List.forall₂_nil_left_iff] at hmodels
    refine ⟨hmodels, fun m hm => ?_⟩
    by_contra hpass
    exact hnone m.name ((hiter names).mem_iff.2 ((hmem m.name).2 ⟨by simpa using hpass, m, hm, rfl⟩))
  · rintro ⟨rfl, hpass⟩
    refine ModelRepository.loadAll_eq_ok_iff.2 ⟨names, hnames, ?_⟩
    have hnone : ∀ n, n ∉ names := by
      intro n hn
      obtain ⟨hn, m, hm, rfl⟩ := (hmem n).1 hn
      rw [hpass m hm] at hn
      cases hn
    obtain rfl := List.eq_nil_iff_forall_not_mem.2 hnone
    rw [List.perm_nil.1 (hiter [])]
    exact .nil

end S3

/-! ### The comparison -/

/-- When no model passes the filter, the filter leaves nothing of what the local loader found. -/
theorem OnDisk.filterModels_eq_nil {κ : Type} {fs : FileSystem} {root : Path} {layout : Layout}
    {parse : List UInt8 → Except String κ} (hdisk : OnDisk fs root layout) (filter : Option (List (List Char)))
    (hpass : ∀ m ∈ layout.models, passes filter m.name = false) {models : List (LoadedModel κ)}
    (hload : (LocalModelRepository.mk root).loadAll fs parse = .ok models) : filterModels filter models = [] := by
  rw [filterModels, List.filter_eq_nil_iff]
  intro model hmodel
  obtain ⟨m, hm, hname, -⟩ := (hdisk.loaded hload model.contents).1 (List.mem_map_of_mem hmodel)
  have hmodelName : m.name = model.name := hname
  rw [← hmodelName, hpass m hm]
  exact Bool.false_ne_true

/-- **The two sources give the same models** exactly when the filter admits a model if and only if some
model cannot be loaded: otherwise the S3 loader fails for the configuration that it looks for
beside the versions, and the local loader does not, or the local loader fails for a model that the
filter leaves out, and the S3 loader does not. -/
theorem interchangeable_iff {κ : Type} {fs cache : FileSystem} {root : Path} {store : ObjectStore}
    {repo : ModelRepository} {layout : Layout} {parse : List UInt8 → Except String κ}
    {iter : List (List Char) → List (List Char)} {filter : Option (List (List Char))}
    (hdisk : OnDisk fs root layout) (hbucket : InBucket store repo.keyPrefix layout)
    (hiter : ∀ names, (iter names).Perm names) :
    SameModels (((LocalModelRepository.mk root).loadAll fs parse).map (filterModels filter))
        (repo.loadAll store cache parse iter filter) ↔
      ((∃ m ∈ layout.models, passes filter m.name = true) ↔
        ∃ m ∈ layout.models, ∀ version config, ¬ m.Loads parse version config) := by
  have hlocal : (∃ models, (LocalModelRepository.mk root).loadAll fs parse = .ok models) ↔
      ¬ ∃ m ∈ layout.models, ∀ version config, ¬ m.Loads parse version config := by
    rw [hdisk.loadAll_ok_iff]
    push Not
    rfl
  have hs3 (models : List (LoadedModel κ)) : repo.loadAll store cache parse iter filter = .ok models ↔
      models = [] ∧ ¬ ∃ m ∈ layout.models, passes filter m.name = true := by
    rw [hbucket.loadAll_eq_ok_iff hiter]
    simp
  by_cases hpass : ∃ m ∈ layout.models, passes filter m.name = true
  · -- the S3 loader fails
    have hfails : SameModels (((LocalModelRepository.mk root).loadAll fs parse).map (filterModels filter))
        (repo.loadAll store cache parse iter filter) ↔
          ¬ ∃ models, (LocalModelRepository.mk root).loadAll fs parse = .ok models := by
      rw [sameModels_right_error fun models h => ((hs3 models).1 h).2 hpass, Fallible.exists_map_eq_ok_iff]
    rw [hfails, hlocal, not_not, iff_true_left hpass]
  · -- the S3 loader finds nothing, and the filter leaves nothing of what the local loader finds
    have hfinds : SameModels (((LocalModelRepository.mk root).loadAll fs parse).map (filterModels filter))
        (repo.loadAll store cache parse iter filter) ↔
          ∃ models, (LocalModelRepository.mk root).loadAll fs parse = .ok models := by
      rw [(hs3 []).2 ⟨rfl, hpass⟩, sameModels_right_nil, Fallible.map_eq_ok_iff]
      exact exists_congr fun models => and_iff_left_of_imp fun h =>
        hdisk.filterModels_eq_nil filter (by simpa using hpass) h
    rw [hfinds, hlocal, iff_false_left hpass]

/-! ### The repository of the README -/

/-- `Path::join` with a name. -/
theorem Path.join_name {path name : Path} (hpath : path ≠ []) (hend : path.getLast? ≠ some '/') (hname : '/' ∉ name) :
    Path.join path name = path ++ '/' :: name := by
  have hhead : name.head? ≠ some '/' := fun h => hname (List.mem_of_mem_head? h)
  rw [Path.join, if_neg hhead, if_neg (not_or.2 ⟨hpath, hend⟩)]

/-- A file system with these directories and files. -/
def diskOf (dirs : List (Path × List DirEntry)) (files : List (Path × List UInt8)) : FileSystem where
  readDir path := (dirs.lookup path).elim (.error "not found") .ok
  fileExists path := (dirs.lookup path).isSome || (files.lookup path).isSome
  read path := (files.lookup path).elim (.error "not found") .ok
  createDirAll _ := .ok ()
  write _ _ := .ok ()

/-- A bucket of the objects of a layout holds it. -/
theorem bucketOf_inBucket {layout : Layout} {p : Key}
    (hread : ∀ object ∈ layout.objects p, (layout.objects p).lookup object.1 = some object.2) :
    InBucket (bucketOf (layout.objects p)) p layout where
  lists := ⟨_, bucketOf_lists _, fun _ _ => Iff.rfl⟩
  read object hobject := by
    show ((layout.objects p).lookup object.1).elim _ _ = _
    rw [hread object hobject]
    rfl
  absent key _ hkey := by
    have hnone : (layout.objects p).lookup key = none := by
      rw [List.lookup_eq_none_iff]
      intro object hobject
      rw [bne_iff_ne]
      rintro rfl
      exact hkey (List.mem_map_of_mem hobject)
    refine ⟨"not found", ?_⟩
    show ((layout.objects p).lookup key).elim _ _ = _
    rw [hnone]
    rfl

/-- A `config.yaml` with what is required. -/
def readmeConfig : List UInt8 :=
  "backend: supertensor\nbatch_size: 256\ncapacity: 64\nnum_executors: 6\nallocator: cpu\n".toList.map
    fun c => .ofNat c.toNat

/-- The parser, as far as it reads that one. -/
def readmeParse (bytes : List UInt8) : Except String ModelRepositoryConfig :=
  if bytes = readmeConfig then .ok ⟨256, 64, 6, .cpu, fun _ => none, fun _ => none⟩
  else .error "invalid configuration"

/-- `my_model/1/model.onnx` and `my_model/1/config.yaml`. -/
def readmeModel : ModelDir where
  name := "my_model".toList
  versions := [⟨['1'], [], readmeConfig, List.cons_ne_nil _ _, List.forall_mem_singleton.2 rfl⟩]
  name_ne := by decide
  slash := by decide
  versions_ne := by decide
  nodup := by decide

def readmeLayout : Layout := ⟨[readmeModel], by decide⟩

def readmeDisk : FileSystem :=
  diskOf [("models".toList, [.dir "my_model".toList]), ("models/my_model".toList, [.dir ['1']]),
      ("models/my_model/1".toList, [⟨some "model.onnx".toList, .ok false⟩, ⟨some "config.yaml".toList, .ok false⟩])]
    [("models/my_model/1/model.onnx".toList, []), ("models/my_model/1/config.yaml".toList, readmeConfig)]

def readmeRepository : ModelRepository := .new "bucket".toList "models".toList "/tmp".toList

/-- The layout of the README, on disk. -/
theorem readme_onDisk : OnDisk readmeDisk "models".toList readmeLayout where
  models := ⟨[.dir "my_model".toList], rfl, .refl _⟩
  versions := List.forall_mem_singleton.2 ⟨[.dir ['1']], rfl, .refl _⟩
  files := List.forall_mem_singleton.2 <| List.forall_mem_singleton.2 <| List.forall_mem_cons.2
    ⟨⟨rfl, rfl⟩, List.forall_mem_singleton.2 ⟨rfl, rfl⟩⟩
  noVersion := by
    refine List.forall_mem_singleton.2 fun name hname hne hslash _ _ => ?_
    have hdir : Path.join "models".toList readmeModel.name = "models/my_model".toList := by decide
    have hend : ("models/my_model".toList ++ '/' :: name).getLast? ≠ some '/' := by
      intro h
      obtain ⟨c, hc⟩ := Option.ne_none_iff_exists'.1 (List.getLast?_eq_none_iff.not.2 hne)
      rw [List.getLast?_append, List.getLast?_cons, hc] at h
      exact hslash (Option.some.inj h ▸ List.mem_of_getLast? hc)
    rw [hdir, Path.join_name (by decide) (by decide) hslash, Path.join_name (by simp) hend (by decide)]
    have hone : name ≠ ['1'] := fun h => hname (h ▸ List.mem_singleton_self _)
    obtain ⟨c, rest, rfl⟩ := List.exists_cons_of_ne_nil hne
    have hrest : c = '1' → rest ≠ [] := by
      rintro rfl rfl
      exact hone rfl
    simp only [readmeDisk, diskOf, Bool.or_eq_false_iff, Option.isSome_eq_false_iff, Option.isNone_iff_eq_none,
      List.lookup_eq_none_iff]
    simpa using ⟨fun _ h => absurd (congrArg List.length h) (by simp), hrest⟩
  noConfig := List.forall_mem_singleton.2 ⟨_, rfl⟩

/-- The layout of the README, in a bucket. -/
theorem readme_inBucket : InBucket (bucketOf (readmeLayout.objects readmeRepository.keyPrefix))
    readmeRepository.keyPrefix readmeLayout :=
  bucketOf_inBucket (List.forall_mem_cons.2 ⟨rfl, List.forall_mem_singleton.2 rfl⟩)

/-- What the two sources give there depends on whether the configuration can be read. -/
theorem interchangeable_iff_readme :
    SameModels (((LocalModelRepository.mk "models".toList).loadAll readmeDisk readmeParse).map (filterModels none))
        (readmeRepository.loadAll (bucketOf (readmeLayout.objects readmeRepository.keyPrefix)) readmeDisk
          readmeParse id none) ↔
      ((∃ m ∈ readmeLayout.models, passes none m.name = true) ↔
        ∃ m ∈ readmeLayout.models, ∀ version config, ¬ m.Loads readmeParse version config) :=
  interchangeable_iff readme_onDisk readme_inBucket fun _ => .refl _

/-- The repository of the README is loaded from the disk, and not from a bucket. -/
theorem readme_not_interchangeable :
    ¬ ∀ (fs cache : FileSystem) (root : Path) (store : ObjectStore) (repo : ModelRepository) (layout : Layout)
      (parse : List UInt8 → Except String ModelRepositoryConfig) (iter : List (List Char) → List (List Char))
      (filter : Option (List (List Char))), repo.keyPrefix ≠ [] → OnDisk fs root layout →
        InBucket store repo.keyPrefix layout → (∀ names, (iter names).Perm names) →
          SameModels (((LocalModelRepository.mk root).loadAll fs parse).map (filterModels filter))
            (repo.loadAll store cache parse iter filter) := by
  intro hall
  have h := hall readmeDisk readmeDisk "models".toList _ readmeRepository readmeLayout readmeParse id none
    (by decide) readme_onDisk readme_inBucket fun _ => .refl _
  obtain ⟨models, hmodels⟩ : ∃ models,
      (LocalModelRepository.mk "models".toList).loadAll readmeDisk readmeParse = .ok models := ⟨_, rfl⟩
  obtain ⟨e, he⟩ : ∃ e, readmeRepository.loadAll (bucketOf (readmeLayout.objects readmeRepository.keyPrefix)) readmeDisk
      readmeParse id none = .error e := ⟨_, rfl⟩
  rw [hmodels, he] at h
  exact h

end Toutates
