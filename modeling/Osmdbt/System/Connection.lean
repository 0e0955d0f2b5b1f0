import Osmdbt.General.Conninfo
import Osmdbt.Log.Lsn

/-! The connection string: the config file's settings of the database, written
one after the other as they are. -/

namespace Osmdbt

open General General.Conninfo

/-- The `database` entry of the config file: each setting can be missing, or a null, or a text. -/
structure DatabaseEntry where
  host : Option (Option Text) := none
  port : Option (Option Text) := none
  dbname : Option (Option Text) := none
  user : Option (Option Text) := none
  password : Option (Option Text) := none

structure DatabaseConfig where
  dbHost : Text := []
  dbPort : Text := "5432".toList
  dbDbname : Text := "osm".toList
  dbUser : Text := "osm".toList
  dbPassword : Text := "osm".toList

def setConfig (node : Option (Option Text)) (config : Text) : Text :=
  match node with
  | none => config
  | some none => []
  | some (some text) => text

/-- The first part of the constructor of `Config`. -/
def readDatabase (entry : DatabaseEntry) : DatabaseConfig :=
  let config : DatabaseConfig := {}
  { dbHost := setConfig entry.host config.dbHost
    dbPort := setConfig entry.port config.dbPort
    dbDbname := setConfig entry.dbname config.dbDbname
    dbUser := setConfig entry.user config.dbUser
    dbPassword := setConfig entry.password config.dbPassword }

def buildConnStr (str key val : Text) : Text :=
  if val = [] then str
  else (if str = [] then str else str ++ [' ']) ++ key ++ ['='] ++ val

namespace DatabaseConfig

variable (config : DatabaseConfig)

/-- The last part of the constructor of `Config`. -/
def dbConnection : Text :=
  let str := buildConnStr [] "host".toList config.dbHost
  let str := buildConnStr str "port".toList config.dbPort
  let str := buildConnStr str "dbname".toList config.dbDbname
  let str := buildConnStr str "user".toList config.dbUser
  buildConnStr str "password".toList config.dbPassword

def all : Settings :=
  [("host".toList, config.dbHost), ("port".toList, config.dbPort), ("dbname".toList, config.dbDbname),
    ("user".toList, config.dbUser), ("password".toList, config.dbPassword)]

/-- The settings that the string is to hold. -/
def given : Settings := config.all.filter (fun setting => setting.2 ≠ [])

/-- libpq, which gets a C string, finds the given settings in it and no others. -/
def Faithful : Prop :=
  ∃ read, parse (cString config.dbConnection) = some read ∧ ∀ key, settingOf read key = settingOf config.given key

end DatabaseConfig

private theorem line_ne_nil {read : Settings} (some : read ≠ []) : line read ≠ [] := by
  obtain ⟨⟨key, v⟩, rest, rfl⟩ := List.exists_cons_of_ne_nil some
  cases rest with
  | nil => exact List.append_ne_nil_of_right_ne_nil _ (List.cons_ne_nil _ _)
  | cons next rest => exact List.append_ne_nil_of_right_ne_nil _ (List.cons_ne_nil _ _)

private theorem line_append {read : Settings} (some : read ≠ []) (key v : Text) :
    line (read ++ [(key, v)]) = line read ++ ' ' :: (key ++ '=' :: v) := by
  induction read with
  | nil => exact absurd rfl some
  | cons setting rest ih =>
    cases rest with
    | nil => simp [line]
    | cons next rest =>
      have later := ih (List.cons_ne_nil _ _)
      rw [List.cons_append] at later
      rw [List.cons_append, List.cons_append, line, later, line]
      simp

/-- One more setting, unless it is empty. -/
private theorem buildConnStr_line (read : Settings) (key v : Text) :
    buildConnStr (line read) key v = line (read ++ [(key, v)].filter (fun setting => setting.2 ≠ [])) := by
  by_cases empty : v = []
  · subst empty
    rw [buildConnStr, if_pos rfl]
    simp
  · have kept : [(key, v)].filter (fun setting => setting.2 ≠ []) = [(key, v)] :=
      List.filter_cons_of_pos (decide_eq_true empty)
    rw [buildConnStr, if_neg empty, kept]
    by_cases first : read = []
    · subst first
      simp [line]
    · rw [if_neg (line_ne_nil first), line_append first]
      simp

private theorem dbConnection_line (config : DatabaseConfig) : config.dbConnection = line config.given := by
  have start : ([] : Text) = line [] := rfl
  rw [DatabaseConfig.dbConnection, start]
  simp only [buildConnStr_line]
  rw [List.nil_append, ← List.filter_append, ← List.filter_append, ← List.filter_append, ← List.filter_append]
  rfl

private theorem given_names (config : DatabaseConfig) :
    (∀ setting ∈ config.given, Name setting.1 ∧ '\x00' ∉ setting.1) ∧ (config.given.map Prod.fst).Nodup := by
  have keys : config.all.map Prod.fst = ["host".toList, "port".toList, "dbname".toList, "user".toList,
    "password".toList] := rfl
  have plain : ∀ key ∈ config.all.map Prod.fst, key ≠ [] ∧ key.all isName = true ∧ '\x00' ∉ key := by
    rw [keys]
    decide
  constructor
  · intro setting member
    obtain ⟨nonempty, name, free⟩ := plain _ (List.mem_map_of_mem (List.mem_of_mem_filter member))
    exact ⟨⟨nonempty, List.all_eq_true.mp name⟩, free⟩
  · refine (List.filter_sublist.map Prod.fst).nodup ?_
    rw [keys]
    decide

/-- Only in the values can the line have a zero. -/
private theorem zero_mem_line {read : Settings} (named : ∀ setting ∈ read, '\x00' ∉ setting.1) :
    '\x00' ∈ line read ↔ ∃ setting ∈ read, '\x00' ∈ setting.2 := by
  induction read with
  | nil => simp [line]
  | cons setting rest ih =>
    obtain ⟨key, v⟩ := setting
    have plain : '\x00' ∉ key := named (key, v) List.mem_cons_self
    have later := ih (fun other member => named other (List.mem_cons_of_mem _ member))
    cases rest with
    | nil => simp [line, plain]
    | cons next rest =>
      rw [List.exists_mem_cons_iff, ← later, line]
      simp [plain]

private theorem cString_eq_iff (s : Text) : cString s = s ↔ '\x00' ∉ s := by
  rw [cString, List.takeWhile_eq_self_iff]
  constructor
  · intro all member
    exact of_decide_eq_true (all _ member) rfl
  · intro free c member
    exact decide_eq_true (fun zero => free (zero ▸ member))

theorem dbConnection_faithful (entry : DatabaseEntry) :
    (readDatabase entry).Faithful ↔ ∀ setting ∈ (readDatabase entry).given, Bare setting.2 ∧ '\x00' ∉ setting.2 := by
  obtain ⟨named, distinct⟩ := given_names (readDatabase entry)
  have nonempty : ∀ setting ∈ (readDatabase entry).given, setting.2 ≠ [] :=
    fun setting member => of_decide_eq_true (List.mem_filter.mp member).2
  have read := parse_line (fun setting member => (named setting member).1) distinct nonempty
    (List.takeWhile_prefix (· ≠ '\x00'))
  rw [DatabaseConfig.Faithful, dbConnection_line]
  rw [← cString, cString_eq_iff, zero_mem_line (fun setting member => (named setting member).2)] at read
  rw [read]
  constructor
  · rintro ⟨free, bare⟩ setting member
    exact ⟨bare setting member, fun zero => free ⟨setting, member, zero⟩⟩
  · intro plain
    refine ⟨?_, fun setting member => (plain setting member).1⟩
    rintro ⟨setting, member, zero⟩
    exact (plain setting member).2 zero

/-- A password with a blank in it that names another user. -/
def twoUsers : DatabaseEntry := { password := some (some "x user=postgres".toList) }

theorem dbConnection_otherUser :
    (parse (cString (readDatabase twoUsers).dbConnection)).bind (settingOf · "user".toList) = some "postgres".toList ∧
      settingOf (readDatabase twoUsers).given "user".toList = some "osm".toList ∧
        ¬ (readDatabase twoUsers).Faithful := by
  have other : (parse (cString (readDatabase twoUsers).dbConnection)).bind (settingOf · "user".toList) =
      some "postgres".toList := by
    decide
  have meant : settingOf (readDatabase twoUsers).given "user".toList = some "osm".toList := by decide
  refine ⟨other, meant, ?_⟩
  rintro ⟨read, success, same⟩
  rw [success, Option.bind_some, same, meant] at other
  exact absurd other (by decide)

end Osmdbt
