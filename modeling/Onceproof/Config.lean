import Onceproof.KeyringFile
import Onceproof.Lib.Toml

/-!
# Instance files

`initialize_instance` writes an instance directory: a keyring, a database and a TOML file with
the address to listen on. `load_config` reads the TOML file and checks the directory again. Both
are modelled over a file system with permission bits, as on POSIX; no system call fails.

* `FileSystem`: nodes by path. `FileSystem.resolve` is the identity on a path without links.
* `renderConfig`, `initializeInstance`: what is written.
* `loadConfig`: what is read, with its checks in the order of the source.
-/

namespace Onceproof

namespace Config

/-- Absolute paths by their components. -/
abbrev Path : Type := List Str

/-- What a file holds. -/
inductive Content
  | text (s : Str)
  | json (document : Json.Document)
  | database
  | other

/-- What is at a path. -/
inductive Node
  | directory (mode : ℕ)
  | file (mode : ℕ) (content : Content)
  | symlink

/-- The node is a link. -/
def Node.isSymlink : Node → Bool
  | symlink => true
  | _ => false

/-- `stat.S_IMODE(st_mode)`. -/
def Node.mode : Node → ℕ
  | directory mode => mode
  | file mode _ => mode
  | symlink => 0

/-- `Path.is_file()`. -/
def Node.isFile : Node → Bool
  | file _ _ => true
  | _ => false

/-- No component of the path is a link. -/
def linkFree (node : Path → Option Node) (path : Path) : Bool :=
  path.inits.all fun q => (node q).all fun n => !n.isSymlink

/-- A file system. -/
structure FileSystem where
  node : Path → Option Node
  /-- `Path.resolve` on a path that goes through a link. -/
  follow : Path → Path
  follow_linkFree : ∀ path, linkFree node (follow path) = true

namespace FileSystem

/-- `Path.resolve`. -/
def resolve (fs : FileSystem) (path : Path) : Path :=
  if linkFree fs.node path then path else fs.follow path

/-- `Path.stat`. -/
def stat (fs : FileSystem) (path : Path) : Option Node := fs.node (fs.resolve path)

/-- `Path.lstat`, which does not follow the last component. -/
def lstat (fs : FileSystem) (path : Path) : Option Node :=
  match path.getLast? with
  | none => fs.node []
  | some name => fs.node (fs.resolve path.dropLast ++ [name])

theorem linkFree_update {node : Path → Option Node} {path : Path} {n : Node}
    (hn : n.isSymlink = false) {q : Path} (h : linkFree node q = true) :
    linkFree (Function.update node path (some n)) q = true := by
  simp only [linkFree, List.all_eq_true] at h ⊢
  intro p hp
  by_cases hpath : p = path
  · rw [hpath, Function.update_self]
    simp [hn]
  · rw [Function.update_of_ne hpath]
    exact h p hp

/-- The file system with a new node that is no link. -/
def put (fs : FileSystem) (path : Path) (n : Node) (hn : n.isSymlink = false) : FileSystem where
  node := Function.update fs.node path (some n)
  follow := fs.follow
  follow_linkFree p := linkFree_update hn (fs.follow_linkFree p)

/-- `Path.mkdir(exist_ok=False)` and `os.chmod`. Missing parents are created as well; nothing
below reads them. -/
def mkdir (fs : FileSystem) (path : Path) (mode : ℕ) : Except Error FileSystem :=
  if (fs.lstat path).isSome then .error .fileExistsError
  else .ok (fs.put path (.directory mode) rfl)

/-- `os.open(..., O_CREAT | O_EXCL)`, the writes, and `os.chmod`. -/
def create (fs : FileSystem) (path : Path) (mode : ℕ) (content : Content) :
    Except Error FileSystem :=
  if (fs.lstat path).isSome then .error .fileExistsError
  else .ok (fs.put path (.file mode content) rfl)

end FileSystem

/-! ### Values -/

/-- `_strict_int`. -/
def strictInt (value : Toml.Value) (field : String) (minimum maximum : ℤ) : Except Error ℤ :=
  match value with
  | .int n =>
    if minimum ≤ n ∧ n ≤ maximum then .ok n else .error (.valueError s!"invalid_{field}")
  | _ => .error (.valueError s!"invalid_{field}")

/-- `_strict_bool`. -/
def strictBool (value : Toml.Value) (field : String) : Except Error Bool :=
  match value with
  | .bool b => .ok b
  | _ => .error (.valueError s!"invalid_{field}")

/-- `_strict_text`. -/
def strictText (value : Toml.Value) (field : String) : Except Error Str :=
  match value with
  | .str s => if s = [] ∨ 0 ∈ s then .error (.valueError s!"invalid_{field}") else .ok s
  | _ => .error (.valueError s!"invalid_{field}")

/-- `value == n` in Python. -/
def equalsInt (value : Toml.Value) (n : ℤ) : Bool :=
  match value with
  | .int m => m = n
  | .bool b => (if b then 1 else 0) = n
  | .str _ => false

/-- The components of a relative or absolute path, without empty ones and dots. -/
def components (text : Str) : Path :=
  (text.splitOn 47).filter fun part => !(part = [] || part = lit ".")

/-- `_resolved_child`. -/
def resolvedChild (base : Path) (value : Toml.Value) (field : String) : Except Error Path := do
  let text ← strictText value field
  if text.head? = some 47 then .ok (components text) else .ok (base ++ components text)

/-- The operations on texts and addresses that `_is_loopback_host` uses. -/
structure AddressLib where
  /-- `str.lower`. -/
  lower : Str → Str
  /-- `ipaddress.ip_address(host).is_loopback`; `none` is its `ValueError`. -/
  isLoopback : Str → Option Bool

/-- `_is_loopback_host`. -/
def isLoopbackHost (A : AddressLib) (host : Str) : Bool :=
  A.lower host = lit "localhost" || (A.isLoopback host).getD false

/-- `_DEFAULT_MAX_REQUEST_BYTES`. -/
def defaultMaxRequestBytes : ℕ := 16384

/-- `str(port)`. -/
def integer (n : ℤ) : Str :=
  if n < 0 then lit "-" ++ Toml.decimal n.natAbs else Toml.decimal n.natAbs

/-- `_render_config`. -/
def renderConfig (host : Str) (port : ℤ) (allowPublicBind : Bool) : Str :=
  lit "version = 1\n" ++ (lit "database = \"onceproof.sqlite3\"\n" ++
    (lit "keyring = \"keyring.json\"\n" ++
      ((lit "host = " ++ (Json.dumpsStr host ++ lit "\n")) ++
        ((lit "port = " ++ (integer port ++ lit "\n")) ++
          ((lit "max_request_bytes = " ++ (Toml.decimal defaultMaxRequestBytes ++ lit "\n")) ++
            (lit "allow_public_bind = " ++ (Toml.boolean allowPublicBind ++ lit "\n")))))))

/-! ### Initialization -/

/-- The paths that `initialize_instance` created. -/
structure InitializedInstance where
  root : Path
  configPath : Path
  databasePath : Path
  keyringPath : Path
  deriving DecidableEq

/-- `initialize_instance`, with the id and the key that `KeyRing.create` draws. A `ValueError` or
a `FileExistsError` undoes what was created. -/
def initializeInstance (A : AddressLib) (fs : FileSystem) (root : Path)
    (host port allowPublicBind : Toml.Value) (kidBytes : Bytes) (key : RootKey) :
    Except Error (FileSystem × InitializedInstance) := do
  let acceptedHost ← strictText host "host"
  let acceptedPort ← strictInt port "port" 1 65535
  let acceptedPublicBind ← strictBool allowPublicBind "allow_public_bind"
  if !isLoopbackHost A acceptedHost && !acceptedPublicBind then
    .error (.valueError "public_bind_not_allowed")
  else do
    let target := fs.resolve root
    let fs ← fs.mkdir target 0o700
    let configPath := target ++ [lit "onceproof.toml"]
    let keyringPath := target ++ [lit "keyring.json"]
    let databasePath := target ++ [lit "onceproof.sqlite3"]
    let keyring := KeyRing.created (lit "hk_" ++ hexlify kidBytes) key
    let fs ← fs.create keyringPath 0o600 (.json (.written keyring.serializedPayload))
    let fs ← fs.create databasePath 0o600 .database
    let fs ← fs.create configPath 0o600
      (.text (renderConfig acceptedHost acceptedPort acceptedPublicBind))
    .ok (fs, ⟨target, configPath, databasePath, keyringPath⟩)

/-! ### Loading -/

/-- The bits that let the group or others write. -/
def writableByOthers (mode : ℕ) : Bool := mode &&& 0o022 ≠ 0

/-- The bits that give the group or others any access. -/
def openToOthers (mode : ℕ) : Bool := mode &&& 0o077 ≠ 0

/-- A regular file that is not reached through a link. -/
def FileSystem.isRegular (fs : FileSystem) (path : Path) : Bool :=
  !(fs.lstat path).any Node.isSymlink && (fs.stat path).any Node.isFile

/-- The permission bits, or the `OSError` of `stat`. -/
def FileSystem.mode (fs : FileSystem) (path : Path) : Except Error ℕ :=
  match fs.stat path with
  | none => .error .interrupted
  | some n => .ok n.mode

/-- `_validate_config_file`. -/
def validateConfigFile (fs : FileSystem) (path : Path) : Except Error Unit :=
  if !fs.isRegular path then .error (.valueError "config_not_regular")
  else do
    let mode ← fs.mode path
    if writableByOthers mode then .error (.valueError "config_permissions_too_open") else .ok ()

/-- `_validate_parent_integrity`. -/
def validateParentIntegrity (fs : FileSystem) (path : Path) (field : String) :
    Except Error Unit := do
  let mode ← fs.mode path.dropLast
  if writableByOthers mode then .error (.valueError s!"{field}_parent_permissions_too_open")
  else .ok ()

/-- `KeyRing.load`. -/
def loadKeyring (fs : FileSystem) (path : Path) : Except Error KeyRing :=
  if !fs.isRegular path then .error (.valueError "keyring_not_regular")
  else do
    let mode ← fs.mode path
    let parentMode ← fs.mode path.dropLast
    if openToOthers mode then .error (.valueError "keyring_permissions_too_open")
    else if writableByOthers parentMode then
      .error (.valueError "keyring_parent_permissions_too_open")
    else
      match fs.node (fs.resolve path) with
      | some (.file _ (.json document)) => KeyRing.readPayload document.value
      | _ => .error (.valueError "unreadable_keyring")

/-- `_validate_keyring_file`. -/
def validateKeyringFile (fs : FileSystem) (path : Path) : Except Error Unit :=
  if (fs.stat path).isNone then .error (.valueError "keyring_missing")
  else if !fs.isRegular path then .error (.valueError "keyring_not_regular")
  else do
    let mode ← fs.mode path
    if openToOthers mode then .error (.valueError "keyring_permissions_too_open")
    else do
      let _ ← loadKeyring fs path
      .ok ()

/-- `_CONFIG_VERSION`. -/
def configVersion : ℤ := 1

/-- `_CONFIG_FIELDS`. -/
def configFields : Finset Str :=
  {lit "version", lit "database", lit "keyring", lit "host", lit "port", lit "max_request_bytes",
    lit "allow_public_bind"}

/-- The text of a list of fields in an error. -/
def fieldList (fields : Finset Str) : String :=
  String.intercalate "," ((sortedTexts fields).map fun field =>
    String.ofList (field.map fun c => Char.ofNat c.val))

/-- `raw[field]`. -/
def get (raw : List (Str × Toml.Value)) (field : String) : Except Error Toml.Value :=
  match (raw.find? fun entry => entry.1 = lit field).map Prod.snd with
  | some value => .ok value
  | none => .error (.keyError (lit field))

/-- What an instance file says. -/
structure InstanceConfig where
  configPath : Path
  databasePath : Path
  keyringPath : Path
  host : Str
  port : ℤ
  maxRequestBytes : ℤ
  allowPublicBind : Bool
  deriving DecidableEq

/-- `tomllib.load` on the file. -/
def readConfig (fs : FileSystem) (path : Path) : Except Error (List (Str × Toml.Value)) :=
  match fs.node path with
  | some (.file _ (.text s)) =>
    match Toml.loads s with
    | some raw => .ok raw
    | none => .error (.valueError "unreadable_config")
  | _ => .error (.valueError "unreadable_config")

/-- `load_config` on an absolute path. -/
def loadConfig (A : AddressLib) (fs : FileSystem) (path : Path) : Except Error InstanceConfig := do
  -- a file that is not there fails when it is read
  if (fs.stat path).isSome then do
    validateConfigFile fs path
    validateParentIntegrity fs path "config"
  let configPath := fs.resolve path
  let raw ← readConfig fs configPath
  let fields := (raw.map Prod.fst).toFinset
  if (fields \ configFields).Nonempty then
    .error (.valueError ("unknown_config_fields:" ++ fieldList (fields \ configFields)))
  else if (configFields \ fields).Nonempty then
    .error (.valueError ("missing_config_fields:" ++ fieldList (configFields \ fields)))
  else do
    let version ← get raw "version"
    if !equalsInt version configVersion then .error (.valueError "unsupported_config_version")
    else do
      let base := configPath.dropLast
      let databasePath ← resolvedChild base (← get raw "database") "database"
      let keyringPath ← resolvedChild base (← get raw "keyring") "keyring"
      let host ← strictText (← get raw "host") "host"
      let port ← strictInt (← get raw "port") "port" 1 65535
      let maxRequestBytes ←
        strictInt (← get raw "max_request_bytes") "max_request_bytes" 1024 1048576
      let allowPublicBind ← strictBool (← get raw "allow_public_bind") "allow_public_bind"
      if ¬ [configPath, fs.resolve databasePath, fs.resolve keyringPath].Nodup then
        .error (.valueError "config_path_collision")
      else if !isLoopbackHost A host && !allowPublicBind then
        .error (.valueError "public_bind_not_allowed")
      else do
        validateParentIntegrity fs databasePath "database"
        validateParentIntegrity fs keyringPath "keyring"
        validateKeyringFile fs keyringPath
        .ok ⟨configPath, databasePath, keyringPath, host, port, maxRequestBytes, allowPublicBind⟩

end Config

end Onceproof
