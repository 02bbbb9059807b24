import Onceproof.Config

/-!
# Initialized instances load

What `initialize_instance` leaves behind, and what `load_config` makes of it. The configuration
is written with the string encoder of JSON and read with the string grammar of TOML. The two agree
on all escapes of one code unit that name a scalar value; they do not agree on surrogates, which
JSON writes for every code point above `0xFFFF`.

* `loads_renderConfig`, `loads_renderConfig_none`: the text of the configuration as TOML.
* `Created`: the directory after an initialization.
* `loadConfig_created`: a directory with a readable text loads.
* `initialized_loads_iff`: which hosts are loaded back.
-/

namespace Onceproof

namespace Config

open Toml (IsBasic)

/-! ### The text -/

/-- What the text of a configuration says. -/
def rendered (host : Str) (port : ℤ) (allowPublicBind : Bool) : List (Str × Toml.Value) :=
  [(lit "version", .int 1), (lit "database", .str (lit "onceproof.sqlite3")),
    (lit "keyring", .str (lit "keyring.json")), (lit "host", .str host), (lit "port", .int port),
    (lit "max_request_bytes", .int 16384), (lit "allow_public_bind", .bool allowPublicBind)]

section Text

variable {host : Str} {port : ℤ} {allowPublicBind : Bool}

/-- A text without carriage returns. -/
def IsPlain (s : Str) : Prop := ∀ c ∈ s, c.val ≠ 13

instance (s : Str) : Decidable (IsPlain s) :=
  decidable_of_iff ((s.all fun c => c.val ≠ 13) = true) (by simp [IsPlain])

theorem IsPlain.append {s t : Str} (hs : IsPlain s) (ht : IsPlain t) : IsPlain (s ++ t) := by
  intro c hc
  rcases List.mem_append.mp hc with hc | hc
  · exact hs c hc
  · exact ht c hc

theorem isPlain_hexDigit (n : ℕ) : (hexDigit n).val ≠ 13 := by
  have hdigit := hexDigit_cases n
  omega

theorem isPlain_dumpsStr (s : Str) : IsPlain (Json.dumpsStr s) := by
  intro c hc
  have hprintable := Json.printable_dumpsStr hc
  omega

theorem isPlain_decimal (n : ℕ) : IsPlain (Toml.decimal n) := by
  intro c hc
  rw [Toml.decimal] at hc
  split_ifs at hc
  · rw [List.mem_singleton.mp hc]
    decide
  · obtain ⟨d, -, rfl⟩ := List.mem_map.mp hc
    exact isPlain_hexDigit d

theorem isPlain_renderConfig (hport : 1 ≤ port) :
    IsPlain (renderConfig host port allowPublicBind) := by
  have hend : IsPlain (lit "\n") := by decide
  have hinteger : IsPlain (integer port) := by
    rw [integer, if_neg (by omega)]
    exact isPlain_decimal _
  have hboolean : IsPlain (Toml.boolean allowPublicBind) := by
    cases allowPublicBind <;> decide
  refine IsPlain.append (by decide) (IsPlain.append (by decide) (IsPlain.append (by decide) ?_))
  refine IsPlain.append (IsPlain.append (by decide) ((isPlain_dumpsStr host).append hend)) ?_
  refine IsPlain.append (IsPlain.append (by decide) (hinteger.append hend)) ?_
  refine IsPlain.append (IsPlain.append (by decide) ((isPlain_decimal _).append hend)) ?_
  exact IsPlain.append (by decide) (hboolean.append hend)

/-- The text, line by line. -/
theorem renderConfig_eq : renderConfig host port allowPublicBind =
    lit "version" ++ (lit " = " ++ (lit "1" ++ Toml.newline ::
      (lit "database" ++ (lit " = " ++ (Json.dumpsStr (lit "onceproof.sqlite3") ++ Toml.newline ::
        (lit "keyring" ++ (lit " = " ++ (Json.dumpsStr (lit "keyring.json") ++ Toml.newline ::
          (lit "host" ++ (lit " = " ++ (Json.dumpsStr host ++ Toml.newline ::
            (lit "port" ++ (lit " = " ++ (integer port ++ Toml.newline ::
              (lit "max_request_bytes" ++ (lit " = " ++
                (Toml.decimal defaultMaxRequestBytes ++ Toml.newline ::
                  (lit "allow_public_bind" ++ (lit " = " ++
                    (Toml.boolean allowPublicBind ++ Toml.newline :: [])))))))))))))))))))) := by
  have hend : lit "\n" = [Toml.newline] := by decide
  have hversion : lit "version = 1\n" = lit "version" ++ (lit " = " ++ (lit "1" ++ lit "\n")) := by
    decide
  have hdatabase : lit "database = \"onceproof.sqlite3\"\n" = lit "database" ++ (lit " = " ++
      (Json.dumpsStr (lit "onceproof.sqlite3") ++ lit "\n")) := by decide
  have hkeyring : lit "keyring = \"keyring.json\"\n" = lit "keyring" ++ (lit " = " ++
      (Json.dumpsStr (lit "keyring.json") ++ lit "\n")) := by decide
  have hhost : lit "host = " = lit "host" ++ lit " = " := by decide
  have hport : lit "port = " = lit "port" ++ lit " = " := by decide
  have hmaximum : lit "max_request_bytes = " = lit "max_request_bytes" ++ lit " = " := by decide
  have hbind : lit "allow_public_bind = " = lit "allow_public_bind" ++ lit " = " := by decide
  rw [renderConfig, hversion, hdatabase, hkeyring, hhost, hport, hmaximum, hbind, hend]
  simp only [List.append_assoc, List.cons_append, List.nil_append]

theorem exists_dumpsStr_eq (s : Str) :
    ∃ c t, Json.dumpsStr s = c :: t ∧ Toml.isSpace c = false :=
  ⟨Json.quote, _, rfl, by decide⟩

theorem exists_boolean_eq (b : Bool) :
    ∃ c t, Toml.boolean b = c :: t ∧ Toml.isSpace c = false := by
  cases b with
  | false => exact ⟨102, _, rfl, by decide⟩
  | true => exact ⟨116, _, rfl, by decide⟩

theorem exists_decimal_nonspace (n : ℕ) :
    ∃ c t, Toml.decimal n = c :: t ∧ Toml.isSpace c = false := by
  obtain ⟨c, t, ht, hdigit⟩ := Toml.exists_decimal_eq n
  refine ⟨c, t, ht, ?_⟩
  simp only [Toml.isDigit, Bool.and_eq_true, decide_eq_true_eq] at hdigit
  simp only [Toml.isSpace, Bool.or_eq_false_iff, decide_eq_false_iff_not]
  omega

/-- The loop over the lines has enough turns. -/
theorem exists_length_renderConfig :
    ∃ n, (renderConfig host port allowPublicBind).length + 1 = n + 8 := by
  have hlength : (lit "version = 1\n").length = 12 := by decide
  refine ⟨(renderConfig host port allowPublicBind).length - 7, ?_⟩
  have hle : 12 ≤ (renderConfig host port allowPublicBind).length := by
    rw [renderConfig, List.length_append, hlength]
    exact Nat.le_add_right _ _
  omega

theorem lit_one_read (r : Str) :
    Toml.parseValue (lit "1" ++ Toml.newline :: r) = some (.int 1, Toml.newline :: r) := rfl

/-- **A configuration is read** as what it was made of, if the host is basic. -/
theorem loads_renderConfig (hhost : host ≠ []) (hbasic : IsBasic host) (hport : 1 ≤ port) :
    Toml.loads (renderConfig host port allowPublicBind) =
      some (rendered host port allowPublicBind) := by
  have hinteger : integer port = Toml.decimal port.natAbs := if_neg (by omega)
  have hnumber : ((port.natAbs : ℕ) : ℤ) = port := by omega
  obtain ⟨n, hn⟩ : ∃ n, (renderConfig host port allowPublicBind).length + 1 = n + 8 :=
    exists_length_renderConfig
  rw [Toml.loads, Toml.joinNewlines_of_forall (isPlain_renderConfig hport)]
  rw [hn, renderConfig_eq, hinteger,
    Toml.statements_line (by decide) (by decide) ⟨49, [], by decide, by decide⟩ (lit_one_read _),
    Toml.statements_line (by decide) (by decide) (exists_dumpsStr_eq _)
      (Toml.parseValue_dumpsStr (by decide) (by decide)),
    Toml.statements_line (by decide) (by decide) (exists_dumpsStr_eq _)
      (Toml.parseValue_dumpsStr (by decide) (by decide)),
    Toml.statements_line (by decide) (by decide) (exists_dumpsStr_eq _)
      (Toml.parseValue_dumpsStr hhost hbasic),
    Toml.statements_line (by decide) (by decide) (exists_decimal_nonspace _)
      (Toml.parseValue_decimal _ _),
    Toml.statements_line (by decide) (by decide) (exists_decimal_nonspace _)
      (Toml.parseValue_decimal _ _),
    Toml.statements_line (by decide) (by decide) (exists_boolean_eq _)
      (Toml.parseValue_boolean _), hnumber]
  rfl

/-- **Every other configuration** is no TOML. -/
theorem loads_renderConfig_none (hhost : host ≠ []) (hbasic : ¬ IsBasic host) (hport : 1 ≤ port) :
    Toml.loads (renderConfig host port allowPublicBind) = none := by
  obtain ⟨n, hn⟩ : ∃ n, (renderConfig host port allowPublicBind).length + 1 = n + 8 :=
    exists_length_renderConfig
  rw [Toml.loads, Toml.joinNewlines_of_forall (isPlain_renderConfig hport)]
  rw [hn, renderConfig_eq,
    Toml.statements_line (by decide) (by decide) ⟨49, [], by decide, by decide⟩ (lit_one_read _),
    Toml.statements_line (by decide) (by decide) (exists_dumpsStr_eq _)
      (Toml.parseValue_dumpsStr (by decide) (by decide)),
    Toml.statements_line (by decide) (by decide) (exists_dumpsStr_eq _)
      (Toml.parseValue_dumpsStr (by decide) (by decide)),
    Toml.statements_line_none (by decide) (by decide) (exists_dumpsStr_eq _)
      (Toml.parseValue_dumpsStr_none hhost hbasic)]
  rfl

end Text

/-! ### The directory -/

/-- The directory after an initialization. -/
structure Created (fs : FileSystem) (target : Path) (text : Str) (keyring : KeyRing) : Prop where
  linkFree : linkFree fs.node target = true
  root : fs.node target = some (.directory 0o700)
  config : fs.node (target ++ [lit "onceproof.toml"]) = some (.file 0o600 (.text text))
  database : fs.node (target ++ [lit "onceproof.sqlite3"]) = some (.file 0o600 .database)
  keyring : fs.node (target ++ [lit "keyring.json"]) =
    some (.file 0o600 (.json (.written keyring.serializedPayload)))

/-- What is behind a path without links. -/
theorem stat_of_linkFree {fs : FileSystem} {path : Path} (h : linkFree fs.node path = true) :
    fs.resolve path = path ∧ fs.stat path = fs.node path := by
  have hresolve : fs.resolve path = path := if_pos h
  exact ⟨hresolve, by rw [FileSystem.stat, hresolve]⟩

theorem linkFree_resolve (fs : FileSystem) (path : Path) :
    linkFree fs.node (fs.resolve path) = true := by
  rw [FileSystem.resolve]
  split_ifs with h
  · exact h
  · exact fs.follow_linkFree path

section Child

variable {fs : FileSystem} {target : Path} {name : Str} {mode : ℕ} {content : Content}

/-- A file in a directory without links has no link on its path either. -/
theorem linkFree_child (h : linkFree fs.node target = true)
    (hchild : fs.node (target ++ [name]) = some (.file mode content)) :
    linkFree fs.node (target ++ [name]) = true := by
  simp only [linkFree, List.all_eq_true] at h ⊢
  intro q hq
  rcases List.mem_inits _ _ |>.mp hq with hprefix
  rcases List.prefix_concat_iff.mp hprefix with rfl | hprefix
  · rw [hchild]
    rfl
  · exact h q (List.mem_inits _ _ |>.mpr hprefix)

theorem isRegular_child (h : linkFree fs.node target = true)
    (hchild : fs.node (target ++ [name]) = some (.file mode content)) :
    fs.isRegular (target ++ [name]) = true := by
  have hlstat : fs.lstat (target ++ [name]) = some (.file mode content) := by
    rw [FileSystem.lstat, List.getLast?_concat]
    dsimp only
    rw [List.dropLast_concat, (stat_of_linkFree h).1, hchild]
  rw [FileSystem.isRegular, hlstat, (stat_of_linkFree (linkFree_child h hchild)).2, hchild]
  rfl

theorem mode_child (h : linkFree fs.node target = true)
    (hchild : fs.node (target ++ [name]) = some (.file mode content)) :
    fs.mode (target ++ [name]) = .ok mode := by
  rw [FileSystem.mode, (stat_of_linkFree (linkFree_child h hchild)).2, hchild]
  rfl

theorem mode_parent (h : linkFree fs.node target = true)
    (hroot : fs.node target = some (.directory mode)) :
    fs.mode (target ++ [name]).dropLast = .ok mode := by
  rw [List.dropLast_concat, FileSystem.mode, (stat_of_linkFree h).2, hroot]
  rfl

end Child

section Checks

variable {A : AddressLib} {fs : FileSystem} {target : Path} {text : Str} {keyring : KeyRing}

/-- The directory is private. -/
theorem Created.parent (h : Created fs target text keyring) (name : Str) (field : String) :
    validateParentIntegrity fs (target ++ [name]) field = .ok () := by
  rw [validateParentIntegrity, mode_parent h.linkFree h.root]
  rfl

theorem Created.configFile (h : Created fs target text keyring) :
    validateConfigFile fs (target ++ [lit "onceproof.toml"]) = .ok () := by
  rw [validateConfigFile, isRegular_child h.linkFree h.config, mode_child h.linkFree h.config]
  rfl

/-- The keyring file is accepted. -/
theorem Created.keyringFile (h : Created fs target text keyring) (hkeyring : keyring.WellNamed) :
    validateKeyringFile fs (target ++ [lit "keyring.json"]) = .ok () := by
  have hregular := isRegular_child h.linkFree h.keyring
  have hmode := mode_child h.linkFree h.keyring
  have hstat := stat_of_linkFree (linkFree_child h.linkFree h.keyring)
  have hload : loadKeyring fs (target ++ [lit "keyring.json"]) = .ok keyring := by
    rw [loadKeyring, hregular, hmode, mode_parent h.linkFree h.root, hstat.1, h.keyring]
    exact KeyRing.readPayload_persist_serializedPayload hkeyring
  rw [validateKeyringFile, hstat.2, h.keyring, hregular, hmode, hload]
  rfl

/-- Every field of a configuration is found. -/
theorem get_rendered (host : Str) (port : ℤ) (allowPublicBind : Bool) :
    get (rendered host port allowPublicBind) "version" = .ok (.int 1) ∧
    get (rendered host port allowPublicBind) "database" = .ok (.str (lit "onceproof.sqlite3")) ∧
    get (rendered host port allowPublicBind) "keyring" = .ok (.str (lit "keyring.json")) ∧
    get (rendered host port allowPublicBind) "host" = .ok (.str host) ∧
    get (rendered host port allowPublicBind) "port" = .ok (.int port) ∧
    get (rendered host port allowPublicBind) "max_request_bytes" = .ok (.int 16384) ∧
    get (rendered host port allowPublicBind) "allow_public_bind" = .ok (.bool allowPublicBind) := by
  have hfound : ∀ field value,
      (rendered host port allowPublicBind).find? (fun entry => entry.1 = lit field) =
        some (lit field, value) → get (rendered host port allowPublicBind) field = .ok value := by
    intro field value hfind
    rw [get, hfind]
    rfl
  refine ⟨hfound _ _ ?_, hfound _ _ ?_, hfound _ _ ?_, hfound _ _ ?_, hfound _ _ ?_,
    hfound _ _ ?_, hfound _ _ ?_⟩
  all_goals simp [rendered, lit_inj]

/-- **A created directory loads** as what its configuration says. -/
theorem loadConfig_created (h : Created fs target text keyring) (hkeyring : keyring.WellNamed)
    {host : Str} {port : ℤ} {allowPublicBind : Bool}
    (htext : Toml.loads text = some (rendered host port allowPublicBind))
    (hhost : host ≠ [] ∧ 0 ∉ host) (hport : 1 ≤ port ∧ port ≤ 65535)
    (hbind : isLoopbackHost A host = true ∨ allowPublicBind = true) :
    loadConfig A fs (target ++ [lit "onceproof.toml"]) = .ok {
      configPath := target ++ [lit "onceproof.toml"]
      databasePath := target ++ [lit "onceproof.sqlite3"]
      keyringPath := target ++ [lit "keyring.json"]
      host := host
      port := port
      maxRequestBytes := 16384
      allowPublicBind := allowPublicBind } := by
  have hread : readConfig fs (target ++ [lit "onceproof.toml"]) =
      .ok (rendered host port allowPublicBind) := by
    rw [readConfig, h.config]
    dsimp only
    rw [htext]
  have hstat := stat_of_linkFree (linkFree_child h.linkFree h.config)
  have hdatabase := stat_of_linkFree (linkFree_child h.linkFree h.database)
  have hkeyringPath := stat_of_linkFree (linkFree_child h.linkFree h.keyring)
  have hfields : ((rendered host port allowPublicBind).map Prod.fst).toFinset = configFields := by
    simp only [rendered, List.map_cons, List.map_nil, configFields]
    decide +kernel
  have hchild : ∀ name : String, name = "onceproof.sqlite3" ∨ name = "keyring.json" → ∀ field,
      resolvedChild target (.str (lit name)) field = .ok (target ++ [lit name]) := by
    rintro name (rfl | rfl) field <;> rfl
  have hstrict : strictText (.str host) "host" = .ok host :=
    if_neg (not_or.mpr hhost)
  have hpaths : [target ++ [lit "onceproof.toml"], target ++ [lit "onceproof.sqlite3"],
      target ++ [lit "keyring.json"]].Nodup := by
    simp [lit_inj]
  have hallowed : (!isLoopbackHost A host && !allowPublicBind) = false := by
    rcases hbind with hbind | hbind <;> simp [hbind]
  have hportRange : strictInt (.int port) "port" 1 65535 = .ok port := if_pos hport
  obtain ⟨hversion, hdatabaseName, hkeyringName, hhostValue, hportValue, hmaximum, hbindValue⟩ :=
    get_rendered host port allowPublicBind
  rw [loadConfig, hstat.2, h.config]
  simp only [Option.isSome_some, if_true, h.configFile, h.parent, except_ok_bind, hstat.1, hread,
    hfields, Finset.sdiff_self, Finset.not_nonempty_empty, if_false, hversion, hdatabaseName,
    hkeyringName, hhostValue, hportValue, hmaximum, hbindValue, List.dropLast_concat,
    hchild _ (Or.inl rfl), hchild _ (Or.inr rfl), hstrict, hdatabase.1, hkeyringPath.1, hpaths,
    not_true_eq_false, h.keyringFile hkeyring]
  rw [if_neg (by decide), hportRange, except_ok_bind]
  exact if_neg (by simp [hallowed])

end Checks

/-! ### Initialization -/

section Initialization

variable {A : AddressLib} {fs fs' : FileSystem} {root : Path}
variable {host port allowPublicBind : Toml.Value} {kidBytes : Bytes} {key : RootKey}
variable {created : InitializedInstance}

theorem strictText_eq_ok {value : Toml.Value} {field : String} {s : Str}
    (h : strictText value field = .ok s) : value = .str s ∧ s ≠ [] ∧ 0 ∉ s := by
  cases value with
  | str s' =>
    rw [strictText] at h
    split_ifs at h with hempty
    obtain rfl := Except.ok.inj h
    exact ⟨rfl, not_or.mp hempty⟩
  | int n => cases h
  | bool b => cases h

theorem strictInt_eq_ok {value : Toml.Value} {field : String} {minimum maximum n : ℤ}
    (h : strictInt value field minimum maximum = .ok n) :
    value = .int n ∧ minimum ≤ n ∧ n ≤ maximum := by
  cases value with
  | int m =>
    rw [strictInt] at h
    split_ifs at h with hrange
    obtain rfl := Except.ok.inj h
    exact ⟨rfl, hrange⟩
  | str s => cases h
  | bool b => cases h

theorem strictBool_eq_ok {value : Toml.Value} {field : String} {b : Bool}
    (h : strictBool value field = .ok b) : value = .bool b := by
  cases value with
  | bool b' =>
    obtain rfl := Except.ok.inj h
    rfl
  | str s => cases h
  | int n => cases h

/-- What an accepted initialization leaves behind. -/
structure Initialized (A : AddressLib) (fs fs' : FileSystem) (root : Path) (host : Str) (port : ℤ)
    (allowPublicBind : Bool) (keyring : KeyRing) (created : InitializedInstance) : Prop where
  hostText : host ≠ [] ∧ 0 ∉ host
  portRange : 1 ≤ port ∧ port ≤ 65535
  bind : isLoopbackHost A host = true ∨ allowPublicBind = true
  paths : created = ⟨fs.resolve root, fs.resolve root ++ [lit "onceproof.toml"],
    fs.resolve root ++ [lit "onceproof.sqlite3"], fs.resolve root ++ [lit "keyring.json"]⟩
  directory : Created fs' (fs.resolve root) (renderConfig host port allowPublicBind) keyring

theorem mkdir_eq_ok {path : Path} {mode : ℕ} (h : fs.mkdir path mode = .ok fs') :
    fs' = fs.put path (.directory mode) rfl := by
  rw [FileSystem.mkdir] at h
  split_ifs at h
  exact (Except.ok.inj h).symm

theorem create_eq_ok {path : Path} {mode : ℕ} {content : Content}
    (h : fs.create path mode content = .ok fs') : fs' = fs.put path (.file mode content) rfl := by
  rw [FileSystem.create] at h
  split_ifs at h
  exact (Except.ok.inj h).symm

/-- The four steps leave the directory and its files behind. -/
theorem created_of_steps {fs₁ fs₂ fs₃ : FileSystem} {target : Path} {text : Str}
    {keyring : KeyRing} (htarget : linkFree fs.node target = true)
    (hmkdir : fs.mkdir target 0o700 = .ok fs₁)
    (hkeyring : fs₁.create (target ++ [lit "keyring.json"]) 0o600
      (.json (.written keyring.serializedPayload)) = .ok fs₂)
    (hdatabase : fs₂.create (target ++ [lit "onceproof.sqlite3"]) 0o600 .database = .ok fs₃)
    (hconfig : fs₃.create (target ++ [lit "onceproof.toml"]) 0o600 (.text text) = .ok fs') :
    Created fs' target text keyring := by
  obtain rfl := mkdir_eq_ok hmkdir
  obtain rfl := create_eq_ok hkeyring
  obtain rfl := create_eq_ok hdatabase
  obtain rfl := create_eq_ok hconfig
  have hchild : ∀ name : Str, target ≠ target ++ [name] := fun name h =>
    absurd (congrArg List.length h) (by rw [List.length_append]; exact (Nat.lt_succ_self _).ne)
  exact {
    linkFree := FileSystem.linkFree_update rfl (FileSystem.linkFree_update rfl
      (FileSystem.linkFree_update rfl (FileSystem.linkFree_update rfl htarget)))
    root := by simp [FileSystem.put, hchild]
    config := by simp [FileSystem.put]
    database := by simp [FileSystem.put, lit_inj]
    keyring := by simp [FileSystem.put, lit_inj] }

theorem initializeInstance_eq_ok
    (h : initializeInstance A fs root host port allowPublicBind kidBytes key = .ok (fs', created)) :
    ∃ acceptedHost acceptedPort acceptedPublicBind, host = .str acceptedHost ∧
      port = .int acceptedPort ∧ allowPublicBind = .bool acceptedPublicBind ∧
      Initialized A fs fs' root acceptedHost acceptedPort acceptedPublicBind
        (.created (lit "hk_" ++ hexlify kidBytes) key) created := by
  obtain ⟨acceptedHost, hhost, h₁⟩ := except_bind_eq_ok h
  obtain ⟨acceptedPort, hport, h₂⟩ := except_bind_eq_ok h₁
  obtain ⟨acceptedPublicBind, hbind, h₃⟩ := except_bind_eq_ok h₂
  clear h h₁ h₂
  obtain ⟨rfl, hhostText⟩ := strictText_eq_ok hhost
  obtain ⟨rfl, hportRange⟩ := strictInt_eq_ok hport
  obtain rfl := strictBool_eq_ok hbind
  by_cases hpublic : (!isLoopbackHost A acceptedHost && !acceptedPublicBind) = true
  · rw [if_pos hpublic] at h₃
    cases h₃
  rw [if_neg hpublic] at h₃
  obtain ⟨fs₁, hmkdir, h₄⟩ := except_bind_eq_ok h₃
  obtain ⟨fs₂, hkeyring, h₅⟩ := except_bind_eq_ok h₄
  obtain ⟨fs₃, hdatabase, h₆⟩ := except_bind_eq_ok h₅
  obtain ⟨fs₄, hconfig, h₇⟩ := except_bind_eq_ok h₆
  obtain ⟨rfl, rfl⟩ := Prod.mk.inj (Except.ok.inj h₇)
  have hallowed : isLoopbackHost A acceptedHost = true ∨ acceptedPublicBind = true := by
    cases hloopback : isLoopbackHost A acceptedHost with
    | true => exact Or.inl rfl
    | false =>
      rw [hloopback] at hpublic
      exact Or.inr (by simpa using hpublic)
  exact ⟨acceptedHost, acceptedPort, acceptedPublicBind, rfl, rfl, rfl, {
    hostText := hhostText
    portRange := hportRange
    bind := hallowed
    paths := rfl
    directory := created_of_steps (linkFree_resolve fs root) hmkdir hkeyring hdatabase hconfig }⟩

end Initialization

/-- **Initialized instances load** back what they were given, as the paths that were created and
the accepted host, port and public bind, if and only if every character of the host is a scalar
value of at most sixteen bits. -/
theorem initialized_loads_iff {A : AddressLib} {fs fs' : FileSystem} {root : Path}
    {host port allowPublicBind : Toml.Value} {kidBytes : Bytes} {key : RootKey}
    {created : InitializedInstance}
    (h : initializeInstance A fs root host port allowPublicBind kidBytes key = .ok (fs', created)) :
    ∃ acceptedHost acceptedPort acceptedPublicBind, host = .str acceptedHost ∧
      port = .int acceptedPort ∧ allowPublicBind = .bool acceptedPublicBind ∧
      fs'.node created.configPath = some (.file 0o600
        (.text (renderConfig acceptedHost acceptedPort acceptedPublicBind))) ∧
      (((∃ raw, Toml.loads (renderConfig acceptedHost acceptedPort acceptedPublicBind) = some raw) ∧
        loadConfig A fs' created.configPath = .ok {
          configPath := created.configPath
          databasePath := created.databasePath
          keyringPath := created.keyringPath
          host := acceptedHost
          port := acceptedPort
          maxRequestBytes := defaultMaxRequestBytes
          allowPublicBind := acceptedPublicBind }) ↔
        ∀ c ∈ acceptedHost, c.isSurrogate = false ∧ c.isAstral = false) := by
  obtain ⟨acceptedHost, acceptedPort, acceptedPublicBind, rfl, rfl, rfl, hinit⟩ :=
    initializeInstance_eq_ok h
  obtain rfl := hinit.paths
  have hnamed : (KeyRing.created (lit "hk_" ++ hexlify kidBytes) key).WellNamed :=
    KeyRing.wellNamed_created key (KeyRing.isKid_hexlify kidBytes)
  refine ⟨acceptedHost, acceptedPort, acceptedPublicBind, rfl, rfl, rfl, hinit.directory.config, ?_⟩
  constructor
  · rintro ⟨⟨raw, hraw⟩, -⟩
    by_contra hbasic
    -- such a host is rendered with an escaped surrogate, which is not TOML
    rw [loads_renderConfig_none hinit.hostText.1 hbasic hinit.portRange.1] at hraw
    cases hraw
  · intro hbasic
    have hraw : Toml.loads (renderConfig acceptedHost acceptedPort acceptedPublicBind) =
        some (rendered acceptedHost acceptedPort acceptedPublicBind) :=
      loads_renderConfig hinit.hostText.1 hbasic hinit.portRange.1
    exact ⟨⟨_, hraw⟩, loadConfig_created hinit.directory hnamed hraw hinit.hostText hinit.portRange
      hinit.bind⟩

/-! ### Two hosts -/

/-- An empty file system. -/
def noFiles : FileSystem := ⟨fun _ => none, id, fun path => by simp [linkFree]⟩

/-- Texts in small letters, and the two usual addresses of the loopback interface. -/
def plainAddresses : AddressLib where
  lower s := s
  isLoopback host := if host = lit "127.0.0.1" ∨ host = lit "::1" then some true else none

/-- The path of an instance. -/
def instanceRoot : Path := [lit "srv", lit "instance"]

/-- A host with one character above `0xFFFF`. -/
def astralHost : Str := [0x1F600]

/-- The default address. -/
theorem initialized_loads_localhost : ∃ fs' created,
    initializeInstance plainAddresses noFiles instanceRoot (.str (lit "127.0.0.1")) (.int 8787)
      (.bool false) [0] ⟨List.replicate 32 0, by simp⟩ = .ok (fs', created) ∧
    loadConfig plainAddresses fs' created.configPath = .ok {
      configPath := created.configPath
      databasePath := created.databasePath
      keyringPath := created.keyringPath
      host := lit "127.0.0.1"
      port := 8787
      maxRequestBytes := defaultMaxRequestBytes
      allowPublicBind := false } := by
  refine ⟨_, _, rfl, ?_⟩
  obtain ⟨host, port, allowPublicBind, hhost, hport, hbind, -, hiff⟩ :=
    @initialized_loads_iff plainAddresses noFiles _ instanceRoot (.str (lit "127.0.0.1"))
      (.int 8787) (.bool false) [0] ⟨List.replicate 32 0, by simp⟩ _ rfl
  obtain rfl := Toml.Value.str.inj hhost
  obtain rfl := Toml.Value.int.inj hport
  obtain rfl := Toml.Value.bool.inj hbind
  have hbasic : IsBasic (lit "127.0.0.1") := by decide
  exact (hiff.mpr hbasic).2

/-- **A host that is initialized and not loaded.** -/
theorem initialized_loads_counterexample : ∃ fs' created,
    initializeInstance plainAddresses noFiles instanceRoot (.str astralHost) (.int 8787)
      (.bool true) [0] ⟨List.replicate 32 0, by simp⟩ = .ok (fs', created) ∧
    Toml.loads (renderConfig astralHost 8787 true) = none ∧
    loadConfig plainAddresses fs' created.configPath =
      .error (.valueError "unreadable_config") := by
  refine ⟨_, _, rfl, by decide +kernel, ?_⟩
  decide +kernel

end Config

end Onceproof
