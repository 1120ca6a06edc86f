/-
# What the S3 loader finds in a bucket

The store lists the keys that begin with a text.  `ModelRepository` takes the text `prefix` off them
for the models and `prefix/name` for the versions of a model, then the slashes that follow, if any, and
reads the next segment.  A text is no path: what follows `prefix` need not follow a slash, nor be
a directory.

A segment that stands for a model or a version is always found (`IsModel.mem_modelNames`,
`HasVersion.versionOf`).  What is found besides is harmless to the names only if it is a model, and
to the versions only if the model has a version as high: that is when the loader finds the right
models and versions (`discovers_iff`).
-/

import Mathlib.Order.Bounds.Basic
import Toutates.Basis.Fallible
import Toutates.Repository.Loader

namespace Toutates

open Basis

/-! ### The latest version -/

/-- `latest` is the greatest version of a set, if there is one. -/
structure Latest (versions : Set ℕ) (latest : Option ℕ) : Prop where
  greatest : ∀ v ∈ latest, IsGreatest versions v
  empty : latest = none → versions = ∅

/-- The latest version is the greatest one. -/
theorem Latest.eq_some_iff {versions : Set ℕ} {latest : Option ℕ} (h : Latest versions latest) {v : ℕ} :
    latest = some v ↔ IsGreatest versions v := by
  constructor
  · exact fun hv => h.greatest v hv
  · intro hv
    cases hlatest : latest with
    | none =>
      have hmem := hv.1
      rw [h.empty hlatest] at hmem
      exact absurd hmem (Set.notMem_empty v)
    | some w => rw [(h.greatest w hlatest).unique hv]

/-- One turn of the loops that look for the latest version. -/
theorem Latest.newer {versions : Set ℕ} {latest : Option ℕ} (h : Latest versions latest) (version : Option ℕ) :
    Latest (versions ∪ {v | version = some v}) (newer latest version) := by
  cases version with
  | none => simpa [Toutates.newer] using h
  | some w =>
    show Latest _ (if latest.all fun v => v < w then some w else latest)
    split_ifs with hnewer
    · refine ⟨fun v hv => ?_, fun hnone => by cases hnone⟩
      obtain rfl := Option.some.inj hv
      refine ⟨.inr rfl, fun x hx => ?_⟩
      rcases hx with hx | hx
      · cases hlatest : latest with
        | none => simp [h.empty hlatest] at hx
        | some u =>
          have hlt : u < w := by simpa [hlatest] using hnewer
          exact ((h.greatest u hlatest).2 hx).trans hlt.le
      · exact (Option.some.inj hx).ge
    · obtain ⟨u, rfl⟩ : ∃ u, latest = some u := by
        cases latest with
        | none => exact absurd rfl hnewer
        | some u => exact ⟨u, rfl⟩
      have hle : w ≤ u := by simpa using hnewer
      refine ⟨fun v hv => ?_, fun hnone => by cases hnone⟩
      obtain rfl := Option.some.inj hv
      refine ⟨.inl (h.greatest u rfl).1, fun x hx => ?_⟩
      rcases hx with hx | hx
      · exact (h.greatest u rfl).2 hx
      · rwa [← Option.some.inj hx]

/-- A scan finds the latest of what it has seen and what is there. -/
theorem Latest.foldl {α : Type*} (version : α → Option ℕ) (entries : List α) {versions : Set ℕ}
    {latest : Option ℕ} (h : Latest versions latest) :
    Latest (versions ∪ {v | ∃ entry ∈ entries, version entry = some v})
      (entries.foldl (fun latest entry => Toutates.newer latest (version entry)) latest) := by
  induction entries generalizing versions latest with
  | nil => simpa using h
  | cons entry entries ih =>
    have hrest := ih (h.newer (version entry))
    have hset : versions ∪ {v | version entry = some v} ∪ {v | ∃ entry ∈ entries, version entry = some v} =
        versions ∪ {v | ∃ e ∈ entry :: entries, version e = some v} := by
      ext v
      simp [or_assoc]
    rwa [hset] at hrest

/-- The loop from the start. -/
theorem latest_foldl {α : Type*} (version : α → Option ℕ) (entries : List α) :
    Latest {v | ∃ entry ∈ entries, version entry = some v}
      (entries.foldl (fun latest entry => newer latest (version entry)) none) := by
  have hnone : Latest ∅ none := ⟨fun v hv => absurd hv (Option.not_mem_none v), fun _ => rfl⟩
  simpa using hnone.foldl version entries

/-- The greatest of a set is not changed by more elements that are below some old one. -/
theorem isGreatest_iff_of_cofinal {s t : Set ℕ} (hsub : t ⊆ s) (hcofinal : ∀ v ∈ s, ∃ w ∈ t, v ≤ w) {v : ℕ} :
    IsGreatest s v ↔ IsGreatest t v := by
  constructor
  · rintro ⟨hv, hub⟩
    obtain ⟨w, hw, hle⟩ := hcofinal v hv
    obtain rfl := hle.antisymm (hub (hsub hw))
    exact ⟨hw, fun x hx => hub (hsub hx)⟩
  · rintro ⟨hv, hub⟩
    refine ⟨hsub hv, fun x hx => ?_⟩
    obtain ⟨w, hw, hle⟩ := hcofinal x hx
    exact hle.trans (hub hw)

/-! ### What one key says -/

/-- A version is a literal of 64 bits. -/
theorem parseVersion_eq_some_iff {s : List Char} {v : ℕ} :
    parseVersion s = some v ↔ Decimal.Literal (2 ^ 64) s v := by
  rw [← Decimal.parseUnsigned_eq_ok_iff (Nat.pow_pos (by decide)), parseVersion]
  cases Decimal.parseUnsigned (2 ^ 64) s <;> simp [Except.toOption]

/-- A number has no slash. -/
theorem slash_notMem_toDigits (v : ℕ) : '/' ∉ Nat.toDigits 10 v := fun h =>
  absurd (Nat.isDigit_of_mem_toDigits (by decide) (by decide) h) (by decide)

/-- What is behind the start of a key. -/
theorem dropPrefix_eq_some_iff {path start rest : Key} : path.dropPrefix? start = some rest ↔ path = start ++ rest := by
  rw [List.dropPrefix?_eq_some_iff]
  simp

namespace ModelRepository

variable {repo : ModelRepository} {filter : Option (List (List Char))}

/-- A name is what follows the prefix, up to slashes. -/
theorem modelName_eq_some_iff {path : Key} {m : List Char} :
    repo.modelName filter path = some m ↔
      m ≠ [] ∧ passes filter m = true ∧ ∃ rest, path = repo.keyPrefix ++ rest ∧ Text.FirstPart '/' rest m := by
  unfold modelName
  cases hdrop : path.dropPrefix? repo.keyPrefix with
  | none =>
    simp only [reduceCtorEq, false_iff]
    rintro ⟨-, -, rest, rfl, -⟩
    rw [dropPrefix_eq_some_iff.2 rfl] at hdrop
    cases hdrop
  | some rest =>
    obtain rfl := dropPrefix_eq_some_iff.1 hdrop
    simp only [Option.ite_none_right_eq_some, Option.some.injEq, List.append_cancel_left_eq, exists_eq_left']
    constructor
    · rintro ⟨⟨hne, hpass⟩, rfl⟩
      exact ⟨hne, hpass, (Text.firstPart_eq_iff hne).1 rfl⟩
    · rintro ⟨hne, hpass, hpart⟩
      obtain rfl := (Text.firstPart_eq_iff hne).2 hpart
      exact ⟨⟨hne, hpass⟩, rfl⟩

/-- A version is what follows the name of the model, up to slashes. -/
theorem versionOf_eq_some_iff {start path : Key} {v : ℕ} :
    versionOf start path = some v ↔
      ∃ rest s, path = start ++ rest ∧ Text.FirstPart '/' rest s ∧ Decimal.Literal (2 ^ 64) s v := by
  simp only [versionOf, Option.bind_eq_some_iff, dropPrefix_eq_some_iff, parseVersion_eq_some_iff]
  constructor
  · rintro ⟨rest, rfl, hv⟩
    exact ⟨rest, _, rfl, (Text.firstPart_eq_iff hv.ne_nil).1 rfl, hv⟩
  · rintro ⟨rest, s, rfl, hpart, hv⟩
    obtain rfl := (Text.firstPart_eq_iff hv.ne_nil).2 hpart
    exact ⟨rest, rfl, hv⟩

/-! ### What the loader goes by -/

/-- The names that `load_all` loads. -/
def considered (repo : ModelRepository) (store : ObjectStore) (filter : Option (List (List Char))) :
    Except String (List (List Char)) :=
  (store.list repo.keyPrefix).map (repo.modelNames filter)

/-- The version that `load_model` loads, if it finds any. -/
def selected (repo : ModelRepository) (store : ObjectStore) (m : List Char) : Except String (Option ℕ) :=
  (store.list (repo.modelPrefix m)).map (latestVersion (repo.modelPrefix m))

variable {κ : Type} {store : ObjectStore} {fs : FileSystem} {parse : List UInt8 → Except String κ}

/-- All models are loaded when each one that is considered is. -/
theorem loadAll_eq_ok_iff {iter : List (List Char) → List (List Char)} {models : List (LoadedModel κ)} :
    repo.loadAll store fs parse iter filter = .ok models ↔
      ∃ names, repo.considered store filter = .ok names ∧
        List.Forall₂ (fun m model => repo.loadModel store fs parse m = .ok model) (iter names) models := by
  simp only [considered, Fallible.map_eq_ok_iff, ← Fallible.mapM_eq_ok_iff]
  constructor
  · intro h
    obtain ⟨entries, hentries, h⟩ := Fallible.bind_eq_ok_iff.1 h
    exact ⟨_, ⟨entries, hentries, rfl⟩, h⟩
  · rintro ⟨-, ⟨entries, hentries, rfl⟩, h⟩
    exact Fallible.bind_eq_ok_iff.2 ⟨entries, hentries, h⟩

/-- A model that is loaded has the name that was asked for, the version that was selected and the
configuration beside the versions, and the `model.onnx` of that version has been written to its path. -/
theorem of_loadModel {m : List Char} {model : LoadedModel κ} (h : repo.loadModel store fs parse m = .ok model) :
    model.name = m ∧ repo.selected store m = .ok (some model.version) ∧
      (∃ bytes, store.read (repo.modelPrefix m ++ "/config.yaml".toList) = .ok bytes ∧
        parse bytes = .ok model.config) ∧
      model.modelPath = ((repo.localCacheDir.join m).join (Nat.toDigits 10 model.version)).join "model.onnx".toList ∧
      ∃ onnx, store.read (repo.modelPrefix m ++ '/' :: Nat.toDigits 10 model.version ++ "/model.onnx".toList) =
        .ok onnx ∧ fs.write model.modelPath onnx = .ok () := by
  obtain ⟨bytes, hbytes, h⟩ := Fallible.bind_eq_ok_iff.1 h
  obtain ⟨config, hconfig, h⟩ := Fallible.bind_eq_ok_iff.1 h
  obtain ⟨entries, hentries, h⟩ := Fallible.bind_eq_ok_iff.1 h
  obtain ⟨version, hversion, h⟩ := Fallible.bind_eq_ok_iff.1 h
  obtain ⟨onnx, honnx, h⟩ := Fallible.bind_eq_ok_iff.1 h
  obtain ⟨-, -, h⟩ := Fallible.bind_eq_ok_iff.1 h
  obtain ⟨⟨⟩, hwrite, h⟩ := Fallible.bind_eq_ok_iff.1 h
  obtain rfl := Except.ok.inj h
  refine ⟨rfl, ?_, ⟨bytes, Fallible.mapError_eq_ok_iff.1 hbytes, Fallible.mapError_eq_ok_iff.1 hconfig⟩, rfl,
    onnx, Fallible.mapError_eq_ok_iff.1 honnx, hwrite⟩
  exact Fallible.map_eq_ok_iff.2 ⟨entries, hentries, Fallible.elim_eq_ok_iff.1 hversion⟩

/-- The models that are loaded have the names that were asked for, in their order. -/
theorem map_name_of_forall₂ {names : List (List Char)} {models : List (LoadedModel κ)}
    (h : List.Forall₂ (fun m model => repo.loadModel store fs parse m = .ok model) names models) :
    models.map LoadedModel.name = names := by
  rw [eq_comm, ← List.forall₂_eq_eq_eq, List.forall₂_map_right_iff]
  exact h.imp fun _ _ hload => (of_loadModel hload).1.symm

end ModelRepository

/-! ### A store that lists by prefix -/

/-- The store lists the keys that begin with the text that it is asked for. -/
def ObjectStore.Lists (store : ObjectStore) (keys : Set Key) : Prop :=
  ∀ q, ∃ entries, store.list q = .ok entries ∧ ∀ key, key ∈ entries ↔ key ∈ keys ∧ q <+: key

/-- There is something in the directory `m` of the directory `p`. -/
def IsModel (keys : Set Key) (p : Key) (m : List Char) : Prop :=
  m ≠ [] ∧ '/' ∉ m ∧ ∃ rest, rest ≠ [] ∧ p ++ '/' :: m ++ '/' :: rest ∈ keys

/-- The directory `m` of the directory `p` has the version directory `v`. -/
def HasVersion (keys : Set Key) (p : Key) (m : List Char) (v : ℕ) : Prop :=
  v < 2 ^ 64 ∧ ∃ rest, p ++ '/' :: m ++ '/' :: Nat.toDigits 10 v ++ '/' :: rest ∈ keys

/-- The loader considers exactly the models, and selects the latest version of each. -/
structure Discovers (repo : ModelRepository) (store : ObjectStore) (filter : Option (List (List Char)))
    (keys : Set Key) : Prop where
  names : ∃ names, repo.considered store filter = .ok names ∧
    ∀ m, m ∈ names ↔ passes filter m = true ∧ IsModel keys repo.keyPrefix m
  versions : ∀ m, passes filter m = true → IsModel keys repo.keyPrefix m →
    ∃ latest, repo.selected store m = .ok latest ∧
      ∀ v, latest = some v ↔ IsGreatest {v | HasVersion keys repo.keyPrefix m v} v

/-- What can be taken for a model or a version is one, or changes nothing. -/
structure Unmistakable (p : Key) (filter : Option (List (List Char))) (keys : Set Key) : Prop where
  /-- The first segment of what follows the prefix, slash or not, is a model. -/
  names : ∀ rest m, p ++ rest ∈ keys → Text.FirstPart '/' rest m → m ≠ [] → passes filter m = true →
    ∃ below, below ≠ [] ∧ p ++ '/' :: m ++ '/' :: below ∈ keys
  /-- A number that is the first segment of what follows the path of a model is no higher than some
  version of that model. -/
  versions : ∀ m, passes filter m = true → IsModel keys p m → ∀ rest s v,
    p ++ '/' :: m ++ rest ∈ keys → Text.FirstPart '/' rest s → Decimal.Literal (2 ^ 64) s v →
    ∃ w, HasVersion keys p m w ∧ v ≤ w

section Lists

variable {repo : ModelRepository} {store : ObjectStore} {filter : Option (List (List Char))} {keys : Set Key}

/-- The keys that names come from. -/
theorem ObjectStore.Lists.considered (hstore : store.Lists keys) (repo : ModelRepository)
    (filter : Option (List (List Char))) : ∃ names, repo.considered store filter = .ok names ∧
      ∀ m, m ∈ names ↔ m ≠ [] ∧ passes filter m = true ∧
        ∃ rest, repo.keyPrefix ++ rest ∈ keys ∧ Text.FirstPart '/' rest m := by
  obtain ⟨entries, hentries, hmem⟩ := hstore repo.keyPrefix
  refine ⟨_, Fallible.map_eq_ok_iff.2 ⟨entries, hentries, rfl⟩, fun m => ?_⟩
  rw [ModelRepository.modelNames, List.mem_dedup, List.mem_filterMap]
  constructor
  · rintro ⟨path, hpath, hname⟩
    obtain ⟨hne, hpass, rest, rfl, hpart⟩ := ModelRepository.modelName_eq_some_iff.1 hname
    exact ⟨hne, hpass, rest, ((hmem _).1 hpath).1, hpart⟩
  · rintro ⟨hne, hpass, rest, hkey, hpart⟩
    exact ⟨_, (hmem _).2 ⟨hkey, List.prefix_append _ _⟩,
      ModelRepository.modelName_eq_some_iff.2 ⟨hne, hpass, rest, rfl, hpart⟩⟩

/-- The keys that versions come from. -/
theorem ObjectStore.Lists.selected (hstore : store.Lists keys) (repo : ModelRepository) (m : List Char) :
    ∃ latest, repo.selected store m = .ok latest ∧ Latest {v | ∃ rest s,
      repo.keyPrefix ++ '/' :: m ++ rest ∈ keys ∧ Text.FirstPart '/' rest s ∧ Decimal.Literal (2 ^ 64) s v} latest := by
  obtain ⟨entries, hentries, hmem⟩ := hstore (repo.modelPrefix m)
  refine ⟨_, Fallible.map_eq_ok_iff.2 ⟨entries, hentries, rfl⟩, ?_⟩
  have hset : {v | ∃ path ∈ entries, ModelRepository.versionOf (repo.modelPrefix m) path = some v} =
      {v | ∃ rest s, repo.keyPrefix ++ '/' :: m ++ rest ∈ keys ∧ Text.FirstPart '/' rest s ∧
        Decimal.Literal (2 ^ 64) s v} := by
    ext v
    constructor
    · rintro ⟨path, hpath, hv⟩
      obtain ⟨rest, s, rfl, hpart, hliteral⟩ := ModelRepository.versionOf_eq_some_iff.1 hv
      exact ⟨rest, s, ((hmem _).1 hpath).1, hpart, hliteral⟩
    · rintro ⟨rest, s, hkey, hpart, hliteral⟩
      exact ⟨_, (hmem _).2 ⟨hkey, List.prefix_append _ _⟩,
        ModelRepository.versionOf_eq_some_iff.2 ⟨rest, s, rfl, hpart, hliteral⟩⟩
  rw [← hset]
  exact latest_foldl _ _

/-- A version directory stands for its number. -/
theorem HasVersion.literal {p : Key} {m : List Char} {v : ℕ} (h : HasVersion keys p m v) : ∃ rest s,
    p ++ '/' :: m ++ rest ∈ keys ∧ Text.FirstPart '/' rest s ∧ Decimal.Literal (2 ^ 64) s v := by
  obtain ⟨hlt, rest, hkey⟩ := h
  exact ⟨'/' :: Nat.toDigits 10 v ++ '/' :: rest, _, by simpa using hkey,
    Text.FirstPart.between (slash_notMem_toDigits v) rest, Decimal.literal_toDigits hlt⟩

/-- What is discovered right cannot be mistaken. -/
theorem Discovers.unmistakable (h : Discovers repo store filter keys) (hstore : store.Lists keys) :
    Unmistakable repo.keyPrefix filter keys := by
  obtain ⟨names, hnames, hmem⟩ := h.names
  constructor
  · intro rest m hkey hpart hne hpass
    obtain ⟨names', hnames', hfound⟩ := hstore.considered repo filter
    obtain rfl := Except.ok.inj (hnames.symm.trans hnames')
    obtain ⟨-, -, -, hbelow⟩ := (hmem m).1 ((hfound m).2 ⟨hne, hpass, rest, hkey, hpart⟩)
    exact hbelow
  · intro m hpass hmodel rest s v hkey hpart hliteral
    obtain ⟨latest, hlatest, hgreatest⟩ := h.versions m hpass hmodel
    obtain ⟨latest', hlatest', hfound⟩ := hstore.selected repo m
    obtain rfl := Except.ok.inj (hlatest.symm.trans hlatest')
    cases latest with
    | none => exact absurd (hfound.empty rfl) (Set.Nonempty.ne_empty ⟨v, rest, s, hkey, hpart, hliteral⟩)
    | some w => exact ⟨w, ((hgreatest w).1 rfl).1, (hfound.greatest w rfl).2 ⟨rest, s, hkey, hpart, hliteral⟩⟩

/-- What cannot be mistaken is discovered right. -/
theorem Unmistakable.discovers (h : Unmistakable repo.keyPrefix filter keys) (hstore : store.Lists keys) :
    Discovers repo store filter keys := by
  constructor
  · obtain ⟨names, hnames, hfound⟩ := hstore.considered repo filter
    refine ⟨names, hnames, fun m => ?_⟩
    rw [hfound]
    constructor
    · rintro ⟨hne, hpass, rest, hkey, hpart⟩
      exact ⟨hpass, hne, hpart.notMem, h.names rest m hkey hpart hne hpass⟩
    · -- a model is always found, whatever else there is
      rintro ⟨hpass, hne, hslash, below, -, hkey⟩
      exact ⟨hne, hpass, '/' :: m ++ '/' :: below, by simpa using hkey, Text.FirstPart.between hslash below⟩
  · intro m hpass hmodel
    obtain ⟨latest, hlatest, hfound⟩ := hstore.selected repo m
    refine ⟨latest, hlatest, fun v => ?_⟩
    rw [hfound.eq_some_iff]
    refine isGreatest_iff_of_cofinal (fun w hw => HasVersion.literal hw) ?_
    rintro w ⟨rest, s, hkey, hpart, hliteral⟩
    exact h.versions m hpass hmodel rest s w hkey hpart hliteral

/-- **The loader finds the right models and versions** exactly when nothing in the bucket can be
mistaken for one. -/
theorem discovers_iff (repo : ModelRepository) (filter : Option (List (List Char))) (hstore : store.Lists keys) :
    Discovers repo store filter keys ↔ Unmistakable repo.keyPrefix filter keys :=
  ⟨fun h => h.unmistakable hstore, fun h => h.discovers hstore⟩

/-- A bucket in which all names that can be read are that of one model, and no number that follows it is
above one of its versions. -/
theorem unmistakable_of_one {m : List Char} {w : ℕ}
    (hname : ∀ key ∈ keys, ∀ name, repo.modelName filter key = some name → name = m)
    (hbelow : ∃ below, below ≠ [] ∧ repo.keyPrefix ++ '/' :: m ++ '/' :: below ∈ keys)
    (hversion : HasVersion keys repo.keyPrefix m w)
    (hle : ∀ key ∈ keys, ∀ v, ModelRepository.versionOf (repo.modelPrefix m) key = some v → v ≤ w) :
    Unmistakable repo.keyPrefix filter keys := by
  have hfirst : ∀ rest name, repo.keyPrefix ++ rest ∈ keys → Text.FirstPart '/' rest name → name ≠ [] →
      passes filter name = true → name = m := fun rest name hkey hpart hne hpass =>
    hname _ hkey name (ModelRepository.modelName_eq_some_iff.2 ⟨hne, hpass, rest, rfl, hpart⟩)
  constructor
  · intro rest name hkey hpart hne hpass
    obtain rfl := hfirst rest name hkey hpart hne hpass
    exact hbelow
  · rintro name hpass ⟨hne, hslash, below, -, hkey⟩ rest s v hversioned hpart hliteral
    have hmodel : repo.keyPrefix ++ ('/' :: name ++ '/' :: below) ∈ keys := by simpa using hkey
    obtain rfl := hfirst _ name hmodel (Text.FirstPart.between hslash below) hne hpass
    refine ⟨w, hversion, hle _ hversioned v ?_⟩
    exact ModelRepository.versionOf_eq_some_iff.2 ⟨rest, s, rfl, hpart, hliteral⟩

/-- What `load_all` then returns: each model once, in its latest version. -/
theorem Unmistakable.loaded {κ : Type} {fs : FileSystem} {parse : List UInt8 → Except String κ}
    {iter : List (List Char) → List (List Char)} {models : List (LoadedModel κ)}
    (h : Unmistakable repo.keyPrefix filter keys) (hstore : store.Lists keys) (hiter : ∀ names, (iter names).Perm names)
    (hload : repo.loadAll store fs parse iter filter = .ok models) :
    (∀ m, m ∈ models.map LoadedModel.name ↔ passes filter m = true ∧ IsModel keys repo.keyPrefix m) ∧
      ∀ model ∈ models, IsGreatest {v | HasVersion keys repo.keyPrefix model.name v} model.version := by
  obtain ⟨⟨names, hnames, hmem⟩, hversions⟩ := h.discovers hstore
  obtain ⟨names', hnames', hmodels⟩ := ModelRepository.loadAll_eq_ok_iff.1 hload
  obtain rfl := Except.ok.inj (hnames.symm.trans hnames')
  have hfound : ∀ m, m ∈ models.map LoadedModel.name ↔ passes filter m = true ∧ IsModel keys repo.keyPrefix m := by
    intro m
    rw [ModelRepository.map_name_of_forall₂ hmodels, (hiter names).mem_iff, hmem]
  refine ⟨hfound, fun model hmodel => ?_⟩
  obtain ⟨hpass, his⟩ := (hfound model.name).1 (List.mem_map_of_mem hmodel)
  obtain ⟨latest, hlatest, hgreatest⟩ := hversions model.name hpass his
  obtain ⟨m, -, hm⟩ := Fallible.exists_mem_of_forall₂ hmodels hmodel
  obtain ⟨rfl, hselected, -⟩ := ModelRepository.of_loadModel hm
  obtain rfl := Except.ok.inj (hlatest.symm.trans hselected)
  exact (hgreatest _).1 rfl

end Lists

/-! ### A bucket -/

/-- The store over the objects of a bucket. -/
def bucketOf (objects : List (Key × List UInt8)) : ObjectStore where
  list q := .ok ((objects.map Prod.fst).filter fun key => q.isPrefixOf key)
  read key := (objects.lookup key).elim (.error "not found") .ok

/-- A bucket lists the keys of its objects. -/
theorem bucketOf_lists (objects : List (Key × List UInt8)) :
    (bucketOf objects).Lists {key | key ∈ objects.map Prod.fst} := by
  intro q
  refine ⟨_, rfl, fun key => ?_⟩
  rw [List.mem_filter, List.isPrefixOf_iff_prefix]
  rfl

/-- Two models, the name of one going on with digits after the name of the other. -/
def resnets : List (Key × List UInt8) :=
  [("models/resnet/config.yaml".toList, []), ("models/resnet/1/model.onnx".toList, []),
    ("models/resnet50/config.yaml".toList, []), ("models/resnet50/1/model.onnx".toList, [])]

/-- The repository that they are in. -/
def resnetRepository : ModelRepository := .new "bucket".toList "models/".toList "/tmp".toList

/-- The start of the keys. -/
theorem resnetRepository_keyPrefix : resnetRepository.keyPrefix = "models".toList := by decide

/-- The first of them on its own. -/
def resnetAlone : List (Key × List UInt8) :=
  [("models/resnet/config.yaml".toList, []), ("models/resnet/1/model.onnx".toList, [])]

/-- A single model cannot be mistaken. -/
theorem resnetAlone_unmistakable :
    Unmistakable resnetRepository.keyPrefix none {key | key ∈ resnetAlone.map Prod.fst} := by
  refine unmistakable_of_one (m := "resnet".toList) (w := 1) (fun key hkey => ?_)
    ⟨"config.yaml".toList, by decide, by decide⟩ ⟨by decide, "model.onnx".toList, by decide⟩ fun key hkey => ?_
  · have hall : ∀ key ∈ resnetAlone.map Prod.fst,
        resnetRepository.modelName none key = some "resnet".toList := by decide
    rintro name hname
    exact Option.some.inj (hname.symm.trans (hall key hkey))
  · have hall : ∀ key ∈ resnetAlone.map Prod.fst,
        (ModelRepository.versionOf (resnetRepository.modelPrefix "resnet".toList) key).all (· ≤ 1) = true := by decide
    intro v hv
    have hle := hall key hkey
    rw [hv] at hle
    exact of_decide_eq_true hle

/-- On its own, the first is found, in its version 1. -/
theorem discovers_iff_resnetAlone :
    Discovers resnetRepository (bucketOf resnetAlone) none {key | key ∈ resnetAlone.map Prod.fst} :=
  (discovers_iff resnetRepository none (bucketOf_lists resnetAlone)).2 resnetAlone_unmistakable

/-- Beside the second, the loader looks for version 50 of `resnet`, which is the end of the name of
the second. -/
theorem discovers_wrong_version :
    ¬ ∀ (repo : ModelRepository) (store : ObjectStore) (filter : Option (List (List Char))) (keys : Set Key),
      repo.keyPrefix ≠ [] → store.Lists keys → Discovers repo store filter keys := by
  intro hall
  have h := hall resnetRepository (bucketOf resnets) none _ (by decide) (bucketOf_lists resnets)
  have hmodel : IsModel {key | key ∈ resnets.map Prod.fst} resnetRepository.keyPrefix "resnet".toList :=
    ⟨by decide, by decide, "1/model.onnx".toList, by decide, by decide⟩
  obtain ⟨latest, hlatest, hgreatest⟩ := h.versions "resnet".toList rfl hmodel
  obtain rfl : some 50 = latest := Except.ok.inj hlatest
  obtain ⟨-, rest, hkey⟩ := ((hgreatest 50).1 rfl).1
  have hdigits : Nat.toDigits 10 50 = ['5', '0'] := by decide
  rw [resnetRepository_keyPrefix, hdigits] at hkey
  simp [resnets] at hkey

end Toutates
