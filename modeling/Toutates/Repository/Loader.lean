/-
# Where models come from

`ModelRepository` and `LocalModelRepository` of `src/model_repository/repository.rs`, and the choice
between them in `main`.  A model is a directory of version directories; the loader takes the highest
version that it finds, its `model.onnx`, and a `config.yaml`.

Names, keys and paths are lists of characters.  The object store, the file system and the parser of
the configuration are parameters: the store lists and reads keys (`ObjectStore`), the file system
lists directories and reads and writes files (`FileSystem`), and the parser makes a configuration of
type `κ` of the bytes.  The names that the S3 loader collects are in a `HashSet`; the order that it
gives them back in is a parameter too.
-/

import Mathlib.Algebra.Group.Nat.Defs
import Mathlib.Data.List.Dedup
import Toutates.Basis.Decimal
import Toutates.Basis.Text

namespace Toutates

open Basis

/-- A key of the object store. -/
abbrev Key := List Char

/-- A path of the file system. -/
abbrev Path := List Char

/-- `PathBuf::join`. -/
def Path.join (path component : Path) : Path :=
  if component.head? = some '/' then component
  else if path = [] ∨ path.getLast? = some '/' then path ++ component
  else path ++ '/' :: component

/-- `LoadedModel`, with a configuration of type `κ`. -/
structure LoadedModel (κ : Type) where
  name : List Char
  version : ℕ
  modelPath : Path
  config : κ

/-- Whether `--load-models` admits a name: `map_or(true, |f| f.contains(name))`. -/
def passes (filter : Option (List (List Char))) (name : List Char) : Bool := filter.all fun names => name ∈ names

/-- `if latest_version.map_or(true, |v| version > v) { latest_version = Some(version) }`, where there is
a version. -/
def newer (latest : Option ℕ) : Option ℕ → Option ℕ
  | some version => if latest.all fun v => v < version then some version else latest
  | none => latest

/-- `parse::<u64>().ok()`. -/
def parseVersion (s : List Char) : Option ℕ := (Decimal.parseUnsigned (2 ^ 64) s).toOption

/-! ### The object store -/

/-- What the loader asks of the object store. -/
structure ObjectStore where
  list : Key → Except String (List Key)
  read : Key → Except String (List UInt8)

/-- What the loaders ask of the file system; a name that is not UTF-8 is `none`. -/
structure DirEntry where
  fileName : Option (List Char)
  isDir : Except String Bool

structure FileSystem where
  readDir : Path → Except String (List DirEntry)
  fileExists : Path → Bool
  read : Path → Except String (List UInt8)
  createDirAll : Path → Except String Unit
  write : Path → List UInt8 → Except String Unit

/-- `ModelRepository`. -/
structure ModelRepository where
  bucket : List Char
  keyPrefix : Key
  localCacheDir : Path

namespace ModelRepository

variable {κ : Type}

/-- `ModelRepository::new`, without the connection to the store. -/
def new (bucket : List Char) (keyPrefix : Key) (cacheDir : Path) : ModelRepository where
  bucket := bucket
  keyPrefix := Text.trim (· = '/') keyPrefix
  localCacheDir := cacheDir

/-- The name that one key adds to `model_names`. -/
def modelName (repo : ModelRepository) (filter : Option (List (List Char))) (path : Key) : Option (List Char) :=
  match path.dropPrefix? repo.keyPrefix with
  | none => none
  | some rest =>
    if Text.firstPart '/' rest ≠ [] ∧ passes filter (Text.firstPart '/' rest) then some (Text.firstPart '/' rest)
    else none

/-- `model_names`, in some order. -/
def modelNames (repo : ModelRepository) (filter : Option (List (List Char))) (entries : List Key) : List (List Char) :=
  (entries.filterMap (repo.modelName filter)).dedup

/-- `model_prefix`. -/
def modelPrefix (repo : ModelRepository) (modelName : List Char) : Key := repo.keyPrefix ++ '/' :: modelName

/-- The version that one key adds, if any. -/
def versionOf (modelPrefix : Key) (path : Key) : Option ℕ :=
  (path.dropPrefix? modelPrefix).bind fun rest => parseVersion (Text.firstPart '/' rest)

/-- `latest_version`. -/
def latestVersion (modelPrefix : Key) (entries : List Key) : Option ℕ :=
  entries.foldl (fun latest path => newer latest (versionOf modelPrefix path)) none

/-- `ModelRepository::load_model`. -/
def loadModel (repo : ModelRepository) (store : ObjectStore) (fs : FileSystem)
    (parse : List UInt8 → Except String κ) (modelName : List Char) : Except String (LoadedModel κ) := do
  let configKey := repo.modelPrefix modelName ++ "/config.yaml".toList
  let configBytes ← (store.read configKey).mapError fun e =>
    "failed to fetch config.yaml for model '" ++ String.ofList modelName ++ "' at s3://" ++
      String.ofList repo.bucket ++ "/" ++ String.ofList configKey ++ ": " ++ e
  let config ← (parse configBytes).mapError fun e =>
    "failed to parse config.yaml for model '" ++ String.ofList modelName ++ "': " ++ e
  let entries ← store.list (repo.modelPrefix modelName)
  let version ← (latestVersion (repo.modelPrefix modelName) entries).elim
    (.error ("no version directory found for model '" ++ String.ofList modelName ++ "'")) .ok
  let onnxKey := repo.modelPrefix modelName ++ '/' :: Nat.toDigits 10 version ++ "/model.onnx".toList
  let onnxBytes ← (store.read onnxKey).mapError fun e =>
    "failed to fetch model.onnx for model '" ++ String.ofList modelName ++ "' (version " ++ toString version ++
      ") at s3://" ++ String.ofList repo.bucket ++ "/" ++ String.ofList onnxKey ++ ": " ++ e
  let localDir := (Path.join repo.localCacheDir modelName).join (Nat.toDigits 10 version)
  fs.createDirAll localDir
  let localPath := localDir.join "model.onnx".toList
  fs.write localPath onnxBytes
  return ⟨modelName, version, localPath, config⟩

/-- `ModelRepository::load_all`, when `iter` is the order of the names. -/
def loadAll (repo : ModelRepository) (store : ObjectStore) (fs : FileSystem)
    (parse : List UInt8 → Except String κ) (iter : List (List Char) → List (List Char))
    (filter : Option (List (List Char))) : Except String (List (LoadedModel κ)) := do
  let entries ← store.list repo.keyPrefix
  (iter (repo.modelNames filter entries)).mapM (repo.loadModel store fs parse)

end ModelRepository

/-! ### The file system -/

/-- `LocalModelRepository`. -/
structure LocalModelRepository where
  root : Path

namespace LocalModelRepository

variable {κ : Type}

/-- The loop over the entries of a model directory. -/
def latestVersion : List DirEntry → Option ℕ → Except String (Option ℕ)
  | [], latest => .ok latest
  | entry :: rest, latest => do
    if ← entry.isDir then latestVersion rest (newer latest (entry.fileName.bind parseVersion))
    else latestVersion rest latest

/-- `config_path`: the configuration of the version, or else the one of the model. -/
def configPath (fs : FileSystem) (modelDir versionDir : Path) : Path :=
  if fs.fileExists (versionDir.join "config.yaml".toList) then versionDir.join "config.yaml".toList
  else modelDir.join "config.yaml".toList

/-- `LocalModelRepository::load_model`. -/
def loadModel (repo : LocalModelRepository) (fs : FileSystem) (parse : List UInt8 → Except String κ)
    (modelName : List Char) : Except String (LoadedModel κ) := do
  let modelDir := Path.join repo.root modelName
  let entries ← fs.readDir modelDir
  let latest ← latestVersion entries none
  let version ← latest.elim
    (.error ("no version directory found for model '" ++ String.ofList modelName ++ "'")) .ok
  let versionDir := modelDir.join (Nat.toDigits 10 version)
  let configBytes ← (fs.read (configPath fs modelDir versionDir)).mapError fun e =>
    "failed to read " ++ String.ofList (configPath fs modelDir versionDir) ++ ": " ++ e ++
      " (each model must contain a config.yaml in its model or version directory)"
  let config ← parse configBytes
  let modelPath := versionDir.join "model.onnx".toList
  if fs.fileExists modelPath then return ⟨modelName, version, modelPath, config⟩
  else throw ("model.onnx not found at " ++ String.ofList modelPath)

/-- The loop over the entries of the root. -/
def loadEntries (repo : LocalModelRepository) (fs : FileSystem) (parse : List UInt8 → Except String κ) :
    List DirEntry → Except String (List (LoadedModel κ))
  | [] => .ok []
  | entry :: rest => do
    if ← entry.isDir then
      let modelName ← entry.fileName.elim (.error "non-UTF8 model directory name") .ok
      let model ← repo.loadModel fs parse modelName
      let models ← repo.loadEntries fs parse rest
      return model :: models
    else repo.loadEntries fs parse rest

/-- `LocalModelRepository::load_all`. -/
def loadAll (repo : LocalModelRepository) (fs : FileSystem) (parse : List UInt8 → Except String κ) :
    Except String (List (LoadedModel κ)) := do
  let entries ← fs.readDir repo.root
  repo.loadEntries fs parse entries

end LocalModelRepository

/-- The filter of `main` over what a loader found. -/
def filterModels {κ : Type} (filter : Option (List (List Char))) (models : List (LoadedModel κ)) :
    List (LoadedModel κ) :=
  models.filter fun m => passes filter m.name

end Toutates
