import Osmdbt.System.Connection
import Osmdbt.System.World

/-! The config file: what the constructor of `Config` makes of its entries. -/

namespace Osmdbt

/-- A node of a config file. Of the entries of a map only those with a scalar key matter. -/
inductive Yaml where
  | null
  | scalar (text : Text)
  | sequence (items : List Yaml)
  | map (entries : List (Text × Yaml))

inductive ConfigFault where
  /-- `config_error` -/
  | config (what : Text)
  /-- `YAML::Exception` -/
  | yaml
  | systemError (what : Text)
  /-- An operation the C++ standard leaves undefined. -/
  | undefined
  deriving DecidableEq, Repr

/-- What yaml-cpp does: `YAML::Load`, and `as<std::string>` of a null, which depends on its version. -/
structure YamlLibrary where
  load : Text → Except ConfigFault Yaml
  nullString : Except ConfigFault Text

namespace Yaml

/-- `operator[]`: only a scalar has no entries it could be asked for. -/
def entry (key : Text) : Yaml → Except ConfigFault (Option Yaml)
  | .scalar _ => .error .yaml
  | .map entries => .ok (entries.lookup key)
  | _ => .ok none

def isMap : Yaml → Bool
  | .map _ => true
  | _ => false

/-- `as<std::string>` -/
def asString (library : YamlLibrary) : Yaml → Except ConfigFault Text
  | .null => library.nullString
  | .scalar text => .ok text
  | _ => .error .yaml

/-- An entry for `set_config`: it can be missing, or a null, or a text. -/
def setting (node : Yaml) (key : Text) : Except ConfigFault (Option (Option Text)) := do
  match ← node.entry key with
  | none => return none
  | some .null => return some none
  | some (.scalar text) => return some (some text)
  | some _ => .error .yaml

end Yaml

/-- `files` are the files that can be opened; without a name on the command line there are two to try. -/
def loadConfigFile (library : YamlLibrary) (files : Text → Option Text) (configFile : Text) :
    Except ConfigFault Yaml :=
  if configFile = [] then
    match files "osmdbt-config.yaml".toList, files "/etc/replication/osmdbt-config.yaml".toList with
    | some data, _ => library.load data
    | none, some data => library.load data
    | none, none =>
      .error (.systemError ("Config error: Could not open config file 'osmdbt-config.yaml' in current ".toList ++
        "directory or '/etc/replication'".toList))
  else
    match files configFile with
    | some data => library.load data
    | none => .error (.systemError ("Config error: Could not open config file '".toList ++ configFile ++ "'".toList))

def setDir (library : YamlLibrary) (config : Option Yaml) (var : Text) : Except ConfigFault Text :=
  match config with
  | none => .ok var
  | some node => do
    let var ← node.asString library
    match var.getLast? with
    -- `back` of an empty string
    | none => .error .undefined
    | some last => return if last = '/' then var else var ++ ['/']

def mapExpected : ConfigFault := .config ("Config error: ".toList ++ "'database' entry must be a Map.".toList)

/-- The settings of the database, and the names of slot and publication. -/
def readDatabaseEntry (node : Yaml) (config : Config) : Except ConfigFault (DatabaseConfig × Config) := do
  match ← node.entry "database".toList with
  | none => return ({}, config)
  | some database =>
    if database.isMap then
      let host ← database.setting "host".toList
      let port ← database.setting "port".toList
      let dbname ← database.setting "dbname".toList
      let user ← database.setting "user".toList
      let password ← database.setting "password".toList
      let replicationSlot ← database.setting "replication_slot".toList
      let publication ← database.setting "publication".toList
      return (readDatabase { host, port, dbname, user, password },
        { config with
          replicationSlot := setConfig replicationSlot config.replicationSlot
          publication := setConfig publication config.publication })
    else .error mapExpected

/-- The constructor of `Config`. -/
def readConfig (library : YamlLibrary) (files : Text → Option Text) (configFile : Text) :
    Except ConfigFault (DatabaseConfig × Config) := do
  let node ← loadConfigFile library files configFile
  let (database, config) ← readDatabaseEntry node {}
  let logDir ← setDir library (← node.entry "log_dir".toList) config.logDir
  let changesDir ← setDir library (← node.entry "changes_dir".toList) config.changesDir
  let tmpDir ← setDir library (← node.entry "tmp_dir".toList) config.tmpDir
  let runDir ← setDir library (← node.entry "run_dir".toList) config.runDir
  return (database, { config with logDir, changesDir, tmpDir, runDir })

/-- Every directory ends with a slash. -/
def Slashed (config : Config) : Prop := ∀ dir, dir ≠ .root → (config.dir dir).getLast? = some '/'

section Directories

variable {library : YamlLibrary}

theorem bind_ok {ε α β : Type} {first : Except ε α} {next : α → Except ε β} {value : β}
    (success : first >>= next = .ok value) :
    ∃ middle, first = .ok middle ∧ next middle = .ok value := by
  cases first with
  | error fault => cases success
  | ok middle => exact ⟨middle, rfl, success⟩

theorem setDir_slash {config : Option Yaml} {var dir : Text} (before : var.getLast? = some '/')
    (success : setDir library config var = .ok dir) : dir.getLast? = some '/' := by
  cases config with
  | none =>
    obtain rfl := Except.ok.inj success
    exact before
  | some node =>
    obtain ⟨text, _, success⟩ := bind_ok success
    cases last : text.getLast? with
    | none =>
      rw [last] at success
      cases success
    | some c =>
      rw [last] at success
      obtain rfl := Except.ok.inj success
      split
      · rename_i slash
        rw [last, slash]
      · exact List.getLast?_concat

/-- The directories are still those of the defaults. -/
private theorem readDatabaseEntry_dirs {node : Yaml} {config config' : Config} {database : DatabaseConfig}
    (success : readDatabaseEntry node config = .ok (database, config')) (dir : Dir) :
    config'.dir dir = config.dir dir := by
  obtain ⟨entry, _, success⟩ := bind_ok success
  cases entry with
  | none =>
    obtain ⟨_, rfl⟩ := Prod.mk.inj (Except.ok.inj success)
    rfl
  | some entry =>
    cases isMap : entry.isMap with
    | false =>
      simp [isMap] at success
    | true =>
      simp only [isMap, if_true] at success
      obtain ⟨_, _, success⟩ := bind_ok success
      obtain ⟨_, _, success⟩ := bind_ok success
      obtain ⟨_, _, success⟩ := bind_ok success
      obtain ⟨_, _, success⟩ := bind_ok success
      obtain ⟨_, _, success⟩ := bind_ok success
      obtain ⟨_, _, success⟩ := bind_ok success
      obtain ⟨_, _, success⟩ := bind_ok success
      obtain ⟨_, rfl⟩ := Prod.mk.inj (Except.ok.inj success)
      cases dir <;> rfl

theorem readConfig_slashed {files : Text → Option Text} {configFile : Text} {database : DatabaseConfig}
    {config : Config}
    (success : readConfig library files configFile = .ok (database, config)) : Slashed config := by
  obtain ⟨node, _, success⟩ := bind_ok success
  obtain ⟨⟨_, defaults⟩, read, success⟩ := bind_ok success
  have start (dir : Dir) (named : dir ≠ .root) : (defaults.dir dir).getLast? = some '/' := by
    rw [readDatabaseEntry_dirs read]
    cases dir with
    | root => exact absurd rfl named
    | _ => rfl
  obtain ⟨_, _, success⟩ := bind_ok success
  obtain ⟨logDir, log, success⟩ := bind_ok success
  obtain ⟨_, _, success⟩ := bind_ok success
  obtain ⟨changesDir, changes, success⟩ := bind_ok success
  obtain ⟨_, _, success⟩ := bind_ok success
  obtain ⟨tmpDir, tmp, success⟩ := bind_ok success
  obtain ⟨_, _, success⟩ := bind_ok success
  obtain ⟨runDir, run, success⟩ := bind_ok success
  obtain ⟨_, rfl⟩ := Prod.mk.inj (Except.ok.inj success)
  intro dir named
  cases dir with
  | log => exact setDir_slash (start .log named) log
  | changes => exact setDir_slash (start .changes named) changes
  | tmp => exact setDir_slash (start .tmp named) tmp
  | run => exact setDir_slash (start .run named) run
  | root => exact absurd rfl named

end Directories

end Osmdbt
