import Osmdbt.System.World
import Mathlib.Logic.Function.Basic

/-! The system calls behind a log file and a pid file: directory entries, inodes and
open descriptors. `write` may take less than it is given, and every call may fail. -/

namespace Osmdbt.Descriptors

open General

inductive Call where
  | openExcl (fileName : Text)
  | openDir (dirName : Text)
  | write (fd : Int) (data : Text)
  | fsync (fd : Int)
  | close (fd : Int)
  | rename (oldName newName : Text)
  | getpid

/-- How much `write` took: something, if it was given something. -/
abbrev Took (data : Text) : Type := { n : Nat // n ≤ data.length ∧ (data ≠ [] → 0 < n) }

abbrev Call.Value : Call → Type
  | .openExcl _ => Nat
  | .openDir _ => Nat
  | .write _ data => Took data
  | .getpid => Nat
  | _ => Unit

def Reply (call : Call) : Type := Except Errno call.Value

abbrev FileProg (α : Type) := Program Call Reply Fault α

structure File where
  data : Text
  synced : Bool
  deriving DecidableEq, Repr

inductive Target where
  | file (inode : Nat)
  | dir
  deriving DecidableEq, Repr

/-- Directory entries, what the inodes hold, and what the open descriptors refer to. -/
structure Disk where
  inode : Text → Option Nat
  file : Nat → File
  opened : Nat → Option Target

namespace Disk

variable (d : Disk)

def get (name : Text) : Option File := (d.inode name).map d.file

/-- A negative number is no descriptor. -/
def target (fd : Int) : Option Target := if fd < 0 then none else d.opened fd.toNat

/-- No directory entry and no descriptor refers to the inode. -/
def Unused (i : Nat) : Prop := (∀ name, d.inode name ≠ some i) ∧ ∀ fd, d.opened fd ≠ some (.file i)

def store (i : Nat) (file : File) : Disk := { d with file := Function.update d.file i file }

/-- Two names of one file stay as they are. -/
def rename (oldName newName : Text) (i : Nat) : Disk :=
  if d.inode newName = some i then d
  else { d with inode := Function.update (Function.update d.inode oldName none) newName (some i) }

@[simp] theorem store_file (i : Nat) (file : File) : (d.store i file).file i = file := by
  simp [store]

theorem target_natCast (fd : Nat) : d.target fd = d.opened fd := by
  rw [target, if_neg (Int.not_lt.mpr (Int.natCast_nonneg fd)), Int.toNat_natCast]

end Disk

/-- The effect of a call that succeeds. -/
def Done (d : Disk) : (call : Call) → call.Value → Disk → Prop
  | .openExcl name, (fd : Nat), d' =>
    d.inode name = none ∧ d.opened fd = none ∧ ∃ i, d.Unused i ∧ d' =
      { inode := Function.update d.inode name (some i), file := Function.update d.file i ⟨[], false⟩,
        opened := Function.update d.opened fd (some (.file i)) }
  | .openDir _, (fd : Nat), d' =>
    d.opened fd = none ∧ d' = { d with opened := Function.update d.opened fd (some .dir) }
  | .write fd data, taken, d' =>
    ∃ i, d.target fd = some (.file i) ∧ d' = d.store i ⟨(d.file i).data ++ data.take taken.1, false⟩
  | .fsync fd, _, d' =>
    (∃ i, d.target fd = some (.file i) ∧ d' = d.store i ⟨(d.file i).data, true⟩) ∨ d.target fd = some .dir ∧ d' = d
  | .close fd, _, d' => (d.target fd).isSome ∧ d' = { d with opened := Function.update d.opened fd.toNat none }
  | .rename oldName newName, _, d' => ∃ i, d.inode oldName = some i ∧ d' = d.rename oldName newName i
  | .getpid, _, d' => d' = d

/-- A call that fails has no effect. `EEXIST` is reported only for a file that is there. -/
def Step (d : Disk) (call : Call) : Reply call → Disk → Prop
  | .ok value, d' => Done d call value d'
  | .error code, d' => call ≠ .getpid ∧ d' = d ∧ ∀ name, call = .openExcl name → code = .exist → (d.inode name).isSome

def perform (call : Call) (what : Text) : FileProg call.Value := do
  match ← Program.request call with
  | .ok value => return value
  | .error _ => Program.raise (.systemError what)

/-- The descriptor, or the error it stands for. -/
def exclWriteOpen (fileName : Text) : FileProg (Except Errno Nat) := Program.request (Call.openExcl fileName)

/-- The number that `excl_write_open` returns. -/
def descriptor : Except Errno Nat → Int
  | .ok fd => fd
  | .error _ => -1

def renameFile (oldName newName : Text) : FileProg Unit :=
  perform (.rename oldName newName)
    ("Renaming '".toList ++ oldName ++ "' to '".toList ++ newName ++ "' failed.".toList)

def syncDir (dirName : Text) : FileProg Unit := do
  let dirFd : Nat ← perform (.openDir dirName)
    ("Opening output directory failed for '".toList ++ dirName ++ "'".toList)
  perform (.fsync dirFd) ("Syncing output directory failed for '".toList ++ dirName ++ "'".toList)
  perform (.close dirFd) ("Closing output directory failed for '".toList ++ dirName ++ "'".toList)

/-- The functions of libosmium that work on a descriptor. -/
structure Osmium where
  reliableWrite : Int → Text → FileProg Unit
  reliableFsync : Int → FileProg Unit
  reliableClose : Int → FileProg Unit

/-- What is known of them: each makes its own calls only. Writing loops until all bytes
are written, or it raises; it raises for a number that is no open descriptor. -/
structure Osmium.Reliable (osmium : Osmium) : Prop where
  writes : ∀ fd data, (osmium.reliableWrite fd data).Uses (fun call => ∃ piece, call = .write fd piece) (fun _ => True)
  syncs : ∀ fd, (osmium.reliableFsync fd).Uses (fun call => call = .fsync fd) (fun _ => True)
  closes : ∀ fd, (osmium.reliableClose fd).Uses (fun call => call = .close fd) (fun _ => True)
  whole : ∀ fd data d d' i, d.target fd = some (.file i) → (osmium.reliableWrite fd data).Ends Step d (.ok ()) d' →
    (d'.file i).data = (d.file i).data ++ data
  unopened : ∀ fd data d d', d.target fd = none → ¬ (osmium.reliableWrite fd data).Ends Step d (.ok ()) d'
  synced : ∀ fd d d' i, d.target fd = some (.file i) → (osmium.reliableFsync fd).Ends Step d (.ok ()) d' →
    (d'.file i).synced = true

def writeDataToFile (osmium : Osmium) (data dirName fileName : Text) : FileProg Unit := do
  let fileNameFinal := dirName ++ fileName
  let fileNameTmp := fileNameFinal ++ ".new".toList
  let fd := descriptor (← exclWriteOpen fileNameTmp)
  osmium.reliableWrite fd data
  osmium.reliableFsync fd
  osmium.reliableClose fd
  renameFile fileNameTmp fileNameFinal
  syncDir dirName

def pidPath (dir name : Text) : Text := dir ++ name ++ ".pid".toList

def pidFileFault (path name : Text) : Errno → Fault
  | .exist =>
    .runtimeError ("pid file '".toList ++ path ++ "' exists. Is another ".toList ++ name ++ " process running?".toList)
  | .other => .runtimeError ("Can not create pid file '".toList ++ path ++ "'.".toList)

/-- The constructor of `PIDFile`; the result is the path that the destructor unlinks. -/
def makePidFile (osmium : Osmium) (dir name : Text) : FileProg Text :=
  if dir = [] then pure []
  else do
    let path := pidPath dir name
    match ← exclWriteOpen path with
    | .error code => Program.raise (pidFileFault path name code)
    | .ok fd =>
      let pid : Nat ← perform .getpid []
      osmium.reliableWrite fd (natText pid ++ ['\n'])
      osmium.reliableClose fd
      return path

/-- A call on a descriptor. -/
inductive On (fd : Int) : Call → Prop where
  | write (data : Text) : On fd (.write fd data)
  | fsync : On fd (.fsync fd)
  | close : On fd (.close fd)

/-- Since `d` only the file `tmp` was made: a new inode, to which the descriptor refers. -/
structure Making (d : Disk) (tmp : Text) (i : Nat) (fd : Int) (d' : Disk) : Prop where
  fresh : ∀ name, d.inode name ≠ some i
  names : d'.inode = Function.update d.inode tmp (some i)
  others : ∀ j, j ≠ i → d'.file j = d.file j
  own : ∀ target, d'.target fd = some target → target = .file i

section Making

variable {d d' d₁ : Disk} {tmp : Text} {i : Nat} {fd : Int}

private theorem making_openExcl {number : Nat} (done : Done d (.openExcl tmp) number d') :
    d.inode tmp = none ∧ ∃ i, Making d tmp i number d' ∧ d'.target number = some (.file i) ∧
      d'.file i = ⟨[], false⟩ := by
  obtain ⟨absent, _, i, ⟨unnamed, _⟩, rfl⟩ := done
  have opened : Disk.target ⟨Function.update d.inode tmp (some i), Function.update d.file i ⟨[], false⟩,
      Function.update d.opened number (some (.file i))⟩ number = some (.file i) :=
    (Disk.target_natCast _ number).trans (Function.update_self _ _ _)
  refine ⟨absent, i, ⟨unnamed, rfl, fun j other => Function.update_of_ne other _ _, fun target same => ?_⟩, opened,
    Function.update_self _ _ _⟩
  rw [opened] at same
  exact (Option.some.inj same).symm

theorem Making.get (making : Making d tmp i fd d') {name : Text} (other : name ≠ tmp) : d'.get name = d.get name := by
  rw [Disk.get, Disk.get, making.names, Function.update_of_ne other]
  cases found : d.inode name with
  | none => rfl
  | some j =>
    have different : j ≠ i := by
      rintro rfl
      exact making.fresh name found
    rw [Option.map_some, Option.map_some, making.others j different]

theorem Making.store (making : Making d tmp i fd d') (file : File) : Making d tmp i fd (d'.store i file) where
  fresh := making.fresh
  names := making.names
  others j other := (Function.update_of_ne other _ _).trans (making.others j other)
  own := making.own

/-- A call on the descriptor keeps to the file. -/
theorem Making.step (making : Making d tmp i fd d₁) {call : Call} {reply : Reply call} (on : On fd call)
    (done : Step d₁ call reply d') :
    Making d tmp i fd d' := by
  cases reply with
  | error code => exact done.2.1 ▸ making
  | ok value =>
    have inode {j : Nat} (here : d₁.target fd = some (.file j)) : j = i := Target.file.inj (making.own _ here)
    cases on with
    | write data =>
      obtain ⟨j, here, rfl⟩ := done
      obtain rfl := inode here
      exact making.store _
    | fsync =>
      obtain ⟨j, here, rfl⟩ | ⟨_, rfl⟩ := done
      · obtain rfl := inode here
        exact making.store _
      · exact making
    | close =>
      obtain ⟨here, rfl⟩ := done
      refine ⟨making.fresh, making.names, making.others, fun target same => ?_⟩
      unfold Disk.target at same
      split at same
      · cases same
      · exact nomatch (Function.update_self fd.toNat none d₁.opened).symm.trans same

end Making

/-- The file was created, and it is open and empty. -/
structure Created (d : Disk) (name : Text) (i fd : Nat) (d' : Disk) : Prop extends Making d name i fd d' where
  absent : d.inode name = none
  opened : d'.target fd = some (.file i)
  empty : (d'.file i).data = []

theorem openExcl_created {d d' : Disk} {name : Text} {fd : Nat} (done : Done d (.openExcl name) fd d') :
    ∃ i, Created d name i fd d' := by
  obtain ⟨absent, i, making, opened, empty⟩ := making_openExcl done
  exact ⟨i, making, absent, opened, congrArg File.data empty⟩

theorem exclWriteOpen_visits {α : Type} {d d' : Disk} {name : Text} {next : Except Errno Nat → FileProg α}
    (visits : (exclWriteOpen name >>= next).Visits Step d d') :
    d' = d ∨ (∃ code, (next (.error code)).Visits Step d d') ∨
      ∃ i fd d₁, Created d name i fd d₁ ∧ (next (.ok fd)).Visits Step d₁ d' := by
  rcases visits with rfl | ⟨reply, d₁, done, rest⟩
  · exact .inl rfl
  cases reply with
  | error code =>
    obtain rfl : d₁ = d := done.2.1
    exact .inr (.inl ⟨code, rest⟩)
  | ok fd =>
    obtain ⟨i, created⟩ := openExcl_created done
    exact .inr (.inr ⟨i, fd, d₁, created, rest⟩)

theorem exclWriteOpen_ends {α : Type} {d d' : Disk} {name : Text} {next : Except Errno Nat → FileProg α}
    {result : Except Fault α}
    (ends : (exclWriteOpen name >>= next).Ends Step d result d') :
    (∃ code, (next (.error code)).Ends Step d result d') ∨
      ∃ i fd d₁, Created d name i fd d₁ ∧ (next (.ok fd)).Ends Step d₁ result d' := by
  obtain ⟨reply, d₁, done, rest⟩ := ends
  cases reply with
  | error code =>
    obtain rfl : d₁ = d := done.2.1
    exact .inl ⟨code, rest⟩
  | ok fd =>
    obtain ⟨i, created⟩ := openExcl_created done
    exact .inr ⟨i, fd, d₁, created, rest⟩

/-- What a reader sees of a file that is being written under another name first. -/
structure WrittenAtomically (program : FileProg Unit) (data final tmp : Text) (d : Disk) : Prop where
  visible : ∀ d', program.Visits Step d d' → d'.get final = d.get final ∨ d'.get final = some ⟨data, true⟩
  returned : ∀ d', program.Ends Step d (.ok ()) d' → d'.get final = some ⟨data, true⟩
  refused : (d.get tmp).isSome → (∀ result d', program.Ends Step d result d' → ∃ fault, result = .error fault) ∧
    ∀ d', program.Visits Step d d' → d'.get tmp = d.get tmp ∧ d'.get final = d.get final

variable {osmium : Osmium} {d d' d₁ : Disk}

section Parts

variable {tmp data : Text} {i : Nat} {fd : Int}

theorem perform_ends {call : Call} {what : Text} {value : call.Value} :
    (perform call what).Ends Step d (.ok value) d' ↔ Done d call value d' := by
  constructor
  · intro ends
    obtain ⟨reply, d₁, asked, rest⟩ := Program.ends_bind_ok.mp ends
    obtain ⟨_, done, same⟩ := Program.ends_request.mp asked
    obtain rfl := Except.ok.inj same
    cases reply with
    | error code => cases rest.1
    | ok value' =>
      obtain ⟨same, rfl⟩ := rest
      obtain rfl := Except.ok.inj same
      exact done
  · exact fun done => Program.ends_bind_ok.mpr ⟨.ok value, d', Program.ends_request.mpr
      ⟨.ok value, done, rfl⟩, rfl, rfl⟩

/-- The three parts that work on the descriptor. -/
theorem Osmium.Reliable.on (reliable : osmium.Reliable) (fd : Int) (data : Text) :
    (osmium.reliableWrite fd data).Uses (On fd) (fun _ => True) ∧
      (osmium.reliableFsync fd).Uses (On fd) (fun _ => True) ∧
      (osmium.reliableClose fd).Uses (On fd) (fun _ => True) := by
  refine ⟨(reliable.writes fd data).weaken ?_ (fun _ _ => trivial), (reliable.syncs fd).weaken ?_ (fun _ _ => trivial),
    (reliable.closes fd).weaken ?_ (fun _ _ => trivial)⟩
  · rintro _ ⟨piece, rfl⟩
    exact .write piece
  · rintro _ rfl
    exact .fsync
  · rintro _ rfl
    exact .close

theorem Making.visits {program : FileProg Unit} (making : Making d tmp i fd d₁)
    (uses : program.Uses (On fd) (fun _ => True))
    (visits : program.Visits Step d₁ d') : Making d tmp i fd d' :=
  visits.kept uses (fun _ _ _ _ making on done => making.step on done) making

theorem perform_uses {allowed : Call → Prop} {call : Call} {what : Text} (here : allowed call) :
    (perform call what).Uses allowed (fun _ => True) := by
  refine (Program.Uses.request here).bind (fun reply _ => ?_)
  cases reply with
  | ok value => trivial
  | error code => trivial

private theorem reliableWrite_data (reliable : osmium.Reliable) (opened : d.target fd = some (.file i))
    (empty : (d.file i).data = [])
    (ends : (osmium.reliableWrite fd data).Ends Step d (.ok ()) d') : d'.target fd = some (.file i) ∧
      (d'.file i).data = data := by
  refine ⟨?_, by rw [reliable.whole fd data d d' i opened ends, empty, List.nil_append]⟩
  refine ends.kept (P := fun d => d.target fd = some (.file i)) (reliable.writes fd data) ?_ opened
  rintro d₁ _ reply d₂ opened ⟨piece, rfl⟩ done
  cases reply with
  | error code => exact done.2.1 ▸ opened
  | ok taken =>
    obtain ⟨j, _, rfl⟩ := done
    exact opened

private theorem reliableFsync_file (reliable : osmium.Reliable) (opened : d.target fd = some (.file i))
    (written : (d.file i).data = data)
    (ends : (osmium.reliableFsync fd).Ends Step d (.ok ()) d') : d'.file i = ⟨data, true⟩ := by
  have synced := reliable.synced fd d d' i opened ends
  obtain ⟨_, same⟩ := ends.kept (P := fun d => d.target fd = some (.file i) ∧ (d.file i).data = data)
      (reliable.syncs fd) (by
    rintro d₁ _ reply d₂ ⟨opened, held⟩ rfl done
    cases reply with
    | error code => exact done.2.1 ▸ ⟨opened, held⟩
    | ok _ =>
      rcases done with ⟨j, here, rfl⟩ | ⟨_, rfl⟩
      · obtain rfl : j = i := Target.file.inj (Option.some.inj (here.symm.trans opened))
        exact ⟨opened, by rw [Disk.store_file]; exact held⟩
      · exact ⟨opened, held⟩) ⟨opened, written⟩
  rw [← same, ← synced]

private theorem reliableClose_file (reliable : osmium.Reliable)
    (ends : (osmium.reliableClose fd).Ends Step d (.ok ()) d') :
    d'.file = d.file := by
  refine ends.kept (P := fun d₁ => d₁.file = d.file) (reliable.closes fd) ?_ rfl
  rintro d₁ _ reply d₂ same rfl done
  cases reply with
  | error code => exact done.2.1 ▸ same
  | ok _ =>
    obtain ⟨_, rfl⟩ := done
    exact same

theorem perform_visits {call : Call} {what : Text} (visits : (perform call what).Visits Step d d') :
    d' = d ∨ ∃ value, Done d call value d' := by
  rcases visits with rfl | ⟨reply, d₁, done, rest⟩
  · exact .inl rfl
  · cases reply with
    | error code =>
      obtain rfl : d' = d₁ := rest
      exact .inl done.2.1
    | ok value =>
      obtain rfl : d' = d₁ := rest
      exact .inr ⟨value, done⟩

/-- Syncing a directory changes no file. -/
theorem syncDir_visits {dirName : Text} (visits : (syncDir dirName).Visits Step d d') :
    d'.inode = d.inode ∧ d'.file = d.file := by
  rcases Program.visits_bind visits with inside | ⟨dirFd, d₁, opened, rest⟩
  · rcases perform_visits inside with rfl | ⟨_, _, rfl⟩ <;> exact ⟨rfl, rfl⟩
  obtain ⟨_, rfl⟩ := perform_ends.mp opened
  have isDir : Disk.target { d with opened := Function.update d.opened dirFd (some .dir) } dirFd = some .dir :=
    (Disk.target_natCast _ dirFd).trans (Function.update_self _ _ _)
  have synced {d₂ : Disk} (done : Done { d with opened := Function.update d.opened dirFd (some .dir) }
    (.fsync dirFd) () d₂) :
      d₂ = { d with opened := Function.update d.opened dirFd (some .dir) } := by
    rcases done with ⟨i, wrong, _⟩ | ⟨_, same⟩
    · exact nomatch isDir.symm.trans wrong
    · exact same
  rcases Program.visits_bind rest with inside | ⟨_, d₂, fsynced, rest⟩
  · rcases perform_visits inside with rfl | ⟨_, done⟩
    · exact ⟨rfl, rfl⟩
    · obtain rfl := synced done
      exact ⟨rfl, rfl⟩
  obtain rfl := synced (perform_ends.mp fsynced)
  rcases perform_visits rest with rfl | ⟨_, _, rfl⟩ <;> exact ⟨rfl, rfl⟩

end Parts

/-- `write_data_to_file` behind the call of `excl_write_open`. -/
def writeOpened (osmium : Osmium) (data dirName final tmp : Text) (fd : Int) : FileProg Unit := do
  osmium.reliableWrite fd data
  osmium.reliableFsync fd
  osmium.reliableClose fd
  renameFile tmp final
  syncDir dirName

theorem writeDataToFile_eq (osmium : Osmium) (data dirName fileName : Text) :
    writeDataToFile osmium data dirName fileName = exclWriteOpen (dirName ++ fileName ++ ".new".toList)
      >>= fun reply =>
      writeOpened osmium data dirName (dirName ++ fileName) (dirName ++ fileName ++ ".new".toList)
        (descriptor reply) := rfl

section Written

variable {data dirName final tmp : Text} {i : Nat} {fd : Int}

/-- The file appears under its final name when all of it is written and synced. -/
theorem renamed_get (making : Making d tmp i fd d₁) (other : final ≠ tmp) {file : File} (stored : d₁.file i = file)
    (done : Done d₁ (.rename tmp final) () d') : d'.get final = some file := by
  obtain ⟨j, named, rfl⟩ := done
  rw [making.names, Function.update_self] at named
  obtain rfl := Option.some.inj named
  have unnamed : d₁.inode final ≠ some i := by
    rw [making.names, Function.update_of_ne other]
    exact making.fresh final
  rw [Disk.rename, if_neg unnamed, Disk.get]
  simp [stored]

/-- What is known when the descriptor is closed. -/
theorem closed_file (reliable : osmium.Reliable) {fd : Nat} (created : Created d tmp i fd d₁) {dw ds dc : Disk}
    (written : (osmium.reliableWrite fd data).Ends Step d₁ (.ok ()) dw)
    (synced : (osmium.reliableFsync fd).Ends Step dw (.ok ()) ds)
    (closed : (osmium.reliableClose fd).Ends Step ds (.ok ()) dc) :
    Making d tmp i fd dc ∧ dc.file i = ⟨data, true⟩ := by
  obtain ⟨writes, syncs, closes⟩ := reliable.on fd data
  have making := ((created.toMaking.visits writes written.visits).visits syncs synced.visits).visits
    closes closed.visits
  obtain ⟨still, whole⟩ := reliableWrite_data reliable created.opened created.empty written
  exact ⟨making, by rw [reliableClose_file reliable closed, reliableFsync_file reliable still whole synced]⟩

/-- Behind the `rename` the file has its final name. -/
private theorem renamed_visits (making : Making d tmp i fd d₁) (other : final ≠ tmp) {file : File}
    (stored : d₁.file i = file)
    (visits : (renameFile tmp final >>= fun _ => syncDir dirName).Visits Step d₁ d') :
    d'.get final = d.get final ∨ d'.get final = some file := by
  rcases Program.visits_bind visits with inside | ⟨_, d₂, renamed, rest⟩
  · rcases perform_visits inside with rfl | ⟨_, done⟩
    · exact .inl (making.get other)
    · exact .inr (renamed_get making other stored done)
  · obtain ⟨inode, file⟩ := syncDir_visits rest
    right
    rw [Disk.get, inode, file]
    exact renamed_get making other stored (perform_ends.mp renamed)

private theorem writeOpened_visits (reliable : osmium.Reliable) {fd : Nat} (created : Created d tmp i fd d₁)
    (other : final ≠ tmp)
    (visits : (writeOpened osmium data dirName final tmp fd).Visits Step d₁ d') :
    d'.get final = d.get final ∨ d'.get final = some ⟨data, true⟩ := by
  obtain ⟨writes, syncs, closes⟩ := reliable.on fd data
  rcases Program.visits_bind visits with inside | ⟨_, dw, written, rest⟩
  · exact .inl ((created.toMaking.visits writes inside).get other)
  have makingW := created.toMaking.visits writes written.visits
  rcases Program.visits_bind rest with inside | ⟨_, ds, synced, rest⟩
  · exact .inl ((makingW.visits syncs inside).get other)
  rcases Program.visits_bind rest with inside | ⟨_, dc, closed, rest⟩
  · exact .inl (((makingW.visits syncs synced.visits).visits closes inside).get other)
  obtain ⟨makingC, stored⟩ := closed_file reliable created written synced closed
  exact renamed_visits makingC other stored rest

private theorem writeOpened_ends (reliable : osmium.Reliable) {fd : Nat} (created : Created d tmp i fd d₁)
    (other : final ≠ tmp)
    (ends : (writeOpened osmium data dirName final tmp fd).Ends Step d₁ (.ok ()) d') :
    d'.get final = some ⟨data, true⟩ := by
  obtain ⟨_, dw, written, rest⟩ := Program.ends_bind_ok.mp ends
  obtain ⟨_, ds, synced, rest⟩ := Program.ends_bind_ok.mp rest
  obtain ⟨_, dc, closed, rest⟩ := Program.ends_bind_ok.mp rest
  obtain ⟨_, dr, renamed, rest⟩ := Program.ends_bind_ok.mp rest
  obtain ⟨makingC, stored⟩ := closed_file reliable created written synced closed
  obtain ⟨inode, file⟩ := syncDir_visits rest.visits
  rw [Disk.get, inode, file]
  exact renamed_get makingC other stored (perform_ends.mp renamed)

/-- Without an open descriptor nothing happens, and writing raises. -/
theorem writeOpened_unopened (reliable : osmium.Reliable) (unopened : d.target fd = none) :
    (∀ d', (writeOpened osmium data dirName final tmp fd).Visits Step d d' → d' = d) ∧
      ∀ result d', (writeOpened osmium data dirName final tmp fd).Ends Step d result d' → ∃ fault,
        result = .error fault := by
  constructor
  · intro d' visits
    rcases Program.visits_bind visits with inside | ⟨_, dw, written, _⟩
    · refine inside.kept (P := fun d₁ => d₁ = d) (reliable.writes fd data) ?_ rfl
      rintro d₁ _ reply d₂ rfl ⟨piece, rfl⟩ done
      cases reply with
      | error code => exact done.2.1
      | ok taken =>
        obtain ⟨i, opened, _⟩ := done
        exact nomatch unopened.symm.trans opened
    · exact absurd written (reliable.unopened fd data d dw unopened)
  · intro result d' ends
    rcases Program.ends_bind.mp ends with ⟨_, dw, written, _⟩ | ⟨fault, same, _⟩
    · exact absurd written (reliable.unopened fd data d dw unopened)
    · exact ⟨fault, same⟩

end Written

/-- A log file is seen as it was, or whole and synced, at every moment; a left-over file
under the other name stops the call before it changes anything. -/
theorem writeDataToFile_atomic (reliable : osmium.Reliable) (data dirName fileName : Text) (d : Disk) :
    WrittenAtomically (writeDataToFile osmium data dirName fileName) data (dirName ++ fileName)
      (dirName ++ fileName ++ ".new".toList) d := by
  have other : dirName ++ fileName ≠ dirName ++ fileName ++ ".new".toList := by
    intro same
    exact nomatch List.append_right_eq_self.mp same.symm
  have unopened {d : Disk} (code : Errno) : d.target (descriptor (.error code)) = none := rfl
  rw [writeDataToFile_eq]
  constructor
  · intro d' visits
    rcases exclWriteOpen_visits visits with rfl | ⟨code, rest⟩ | ⟨i, fd, d₁, created, rest⟩
    · exact .inl rfl
    · obtain rfl := (writeOpened_unopened reliable (unopened code)).1 d' rest
      exact .inl rfl
    · exact writeOpened_visits reliable created other rest
  · intro d' ends
    rcases exclWriteOpen_ends ends with ⟨code, rest⟩ | ⟨i, fd, d₁, created, rest⟩
    · obtain ⟨_, wrong⟩ := (writeOpened_unopened reliable (unopened code)).2 _ d' rest
      cases wrong
    · exact writeOpened_ends reliable created other rest
  · intro there
    have taken {i fd : Nat} {d₁ : Disk} (created : Created d (dirName ++ fileName ++ ".new".toList) i fd d₁) :
        False := by
      rw [Disk.get, created.absent] at there
      cases there
    constructor
    · intro result d' ends
      rcases exclWriteOpen_ends ends with ⟨code, rest⟩ | ⟨i, fd, d₁, created, _⟩
      · exact (writeOpened_unopened reliable (unopened code)).2 result d' rest
      · exact (taken created).elim
    · intro d' visits
      rcases exclWriteOpen_visits visits with rfl | ⟨code, rest⟩ | ⟨i, fd, d₁, created, _⟩
      · exact ⟨rfl, rfl⟩
      · obtain rfl := (writeOpened_unopened reliable (unopened code)).1 d' rest
        exact ⟨rfl, rfl⟩
      · exact (taken created).elim

/-- Notes down whether a file was created. -/
def noteCreated (created : Bool) : (call : Call) → Reply call → Bool → Prop
  | .openExcl _, .ok _, created' => created' = true
  | _, _, created' => created' = created

/-- What the constructor does once it has created the file. -/
def PidCall (fd : Int) (call : Call) : Prop := call = .getpid ∨ On fd call

/-- The constructor behind the call of `excl_write_open`. -/
def makeOpened (osmium : Osmium) (path : Text) (fd : Nat) : FileProg Text := do
  let pid : Nat ← perform .getpid []
  osmium.reliableWrite fd (natText pid ++ ['\n'])
  osmium.reliableClose fd
  return path

private theorem makeOpened_uses (reliable : osmium.Reliable) (path : Text) (fd : Nat) :
    (makeOpened osmium path fd).Uses (PidCall fd) (fun _ => True) := by
  refine (perform_uses (.inl rfl)).bind (fun (pid : Nat) _ => ?_)
  obtain ⟨writes, _, closes⟩ := reliable.on fd (natText pid ++ ['\n'])
  refine (writes.weaken (fun _ on => .inr on) (fun _ here => here)).bind (fun _ _ => ?_)
  exact (closes.weaken (fun _ on => .inr on) (fun _ here => here)).bind (fun _ _ => Program.Uses.pure trivial)

theorem Making.pidStep {d d₁ d' : Disk} {path : Text} {i : Nat} {fd : Int}
    (making : Making d path i fd d₁) {call : Call}
    {reply : Reply call} (used : PidCall fd call) (done : Step d₁ call reply d') : Making d path i fd d' := by
  rcases used with rfl | on
  · cases reply with
    | error code => exact done.2.1 ▸ making
    | ok pid =>
      obtain rfl : d' = d₁ := done
      exact making
  · exact making.step on done

/-- Nobody removes the file. -/
private theorem makeOpened_leaves (reliable : osmium.Reliable) {path : Text} {i fd : Nat}
    (made : Created d path i fd d₁) {created : Bool}
    {result : Except Fault Text}
    (ends : (makeOpened osmium path fd).Ends (Program.Observed Step noteCreated) (d₁, true) result (d', created)) :
    d'.get path ≠ d.get path ∧ created = true := by
  obtain ⟨making, was⟩ := ends.kept (P := fun c : Disk × Bool => Making d path i fd c.1 ∧ c.2 = true)
    (makeOpened_uses reliable path fd) (by
      rintro ⟨d₂, b₂⟩ call reply ⟨d₃, b₃⟩ ⟨making, was⟩ used ⟨done, noted⟩
      refine ⟨making.pidStep used done, ?_⟩
      rcases used with rfl | on
      · exact Eq.trans noted was
      · cases on <;> exact Eq.trans noted was) ⟨made.toMaking, rfl⟩
  refine ⟨?_, was⟩
  rw [Disk.get, making.names, Function.update_self, Disk.get, made.absent]
  exact fun wrong => nomatch wrong

/-- A constructor that raises leaves everything as it was iff it had not created the file. -/
theorem makePidFile_unchanged_iff (reliable : osmium.Reliable) {dir name : Text} {fault : Fault} {created : Bool}
    (ends : (makePidFile osmium dir name).Ends (Program.Observed Step noteCreated) (d, false) (.error fault)
      (d', created)) :
    (∀ file, d'.get file = d.get file) ↔ created = false := by
  by_cases none : dir = []
  · rw [makePidFile, if_pos none] at ends
    cases ends.1
  rw [makePidFile, if_neg none] at ends
  obtain ⟨reply, ⟨d₁, noted⟩, ⟨done, same⟩, rest⟩ := ends
  cases reply with
  | error code =>
    obtain ⟨_, final⟩ := rest
    obtain ⟨rfl, rfl⟩ := Prod.mk.inj final
    obtain rfl : d' = d := done.2.1
    exact ⟨fun _ => same, fun _ _ => rfl⟩
  | ok fd =>
    obtain rfl : noted = true := same
    obtain ⟨i, made⟩ := openExcl_created done
    obtain ⟨left, was⟩ := makeOpened_leaves reliable made rest
    exact ⟨fun same => absurd (same _) left, fun wrong => nomatch was.symm.trans wrong⟩

/-- With the file there every constructor raises. -/
private theorem makePidFile_taken {dir name : Text} (some : dir ≠ []) (there : (d.get (pidPath dir name)).isSome)
    {result : Except Fault Text}
    (ends : (makePidFile osmium dir name).Ends Step d result d') : ∃ fault, result = .error fault := by
  rw [makePidFile, if_neg some] at ends
  rcases exclWriteOpen_ends ends with ⟨code, rest⟩ | ⟨i, fd, d₁, created, _⟩
  · exact ⟨_, rest.1⟩
  · rw [Disk.get, created.absent] at there
    cases there

/-- One call after the other, until nothing is left. -/
def loopWrite (fd : Int) (data : Text) : FileProg Unit := do
  let taken : Took data ← perform (.write fd data) "Write failed".toList
  if _rest : data.drop taken.1 = [] then pure () else loopWrite fd (data.drop taken.1)
termination_by data.length
decreasing_by
  have some : data ≠ [] := by
    rintro rfl
    exact _rest List.drop_nil
  rw [List.length_drop]
  exact Nat.sub_lt (List.length_pos_iff.mpr some) (taken.2.2 some)

def loopClose (fd : Int) : FileProg Unit := if fd < 0 then pure () else perform (.close fd) "Close failed".toList

def loopOsmium : Osmium where
  reliableWrite := loopWrite
  reliableFsync fd := perform (.fsync fd) "Fsync failed".toList
  reliableClose := loopClose

theorem loopWrite_ends {fd : Int} {data : Text} :
    (loopWrite fd data).Ends Step d (.ok ()) d' ↔ ∃ (taken : Took data) (d₁ : Disk), Done d (.write fd data) taken d₁ ∧
      ((data.drop taken.1 = [] ∧ d' = d₁) ∨ data.drop taken.1 ≠ [] ∧
        (loopWrite fd (data.drop taken.1)).Ends Step d₁ (.ok ()) d') := by
  rw [loopWrite]
  refine Program.ends_bind_ok.trans ?_
  refine exists_congr (fun (taken : Took data) => exists_congr (fun d₁ => and_congr perform_ends ?_))
  split
  · rename_i last
    exact ⟨fun ends => .inl ⟨last, ends.2⟩, fun either =>
      ⟨rfl, either.elim And.right (fun wrong => absurd last wrong.1)⟩⟩
  · rename_i more
    exact ⟨fun ends => .inr ⟨more, ends⟩, fun either => either.elim (fun wrong => absurd wrong.1 more) And.right⟩

private theorem loopWrite_uses (fd : Int) (data : Text) :
    (loopWrite fd data).Uses (fun call => ∃ piece, call = .write fd piece) (fun _ => True) := by
  induction data using loopWrite.induct with
  | case1 data ih =>
    rw [loopWrite]
    refine (perform_uses ⟨data, rfl⟩).bind (fun (taken : Took data) _ => ?_)
    split
    · exact Program.Uses.pure trivial
    · rename_i more
      exact ih taken more

/-- The loop does what is known of `reliable_write`. -/
theorem loop_reliable : loopOsmium.Reliable where
  writes := loopWrite_uses
  syncs fd := @perform_uses (· = .fsync fd) _ _ rfl
  closes fd := Program.Uses.ite (fun _ => Program.Uses.pure trivial) (fun _ => @perform_uses (· = .close fd) _ _ rfl)
  whole fd data d d' i opened ends := by
    induction data using loopWrite.induct generalizing d with
    | case1 data ih =>
      obtain ⟨taken, d₁, ⟨j, here, rfl⟩, ⟨last, rfl⟩ | ⟨more, rest⟩⟩ := loopWrite_ends.mp ends
      all_goals obtain rfl : j = i := Target.file.inj (Option.some.inj (here.symm.trans opened))
      · rw [Disk.store_file, List.take_of_length_le (List.drop_eq_nil_iff.mp last)]
      · rw [ih taken more (d.store j _) opened rest, Disk.store_file, List.append_assoc, List.take_append_drop]
  unopened fd data d d' unopened ends := by
    obtain ⟨taken, d₁, ⟨i, opened, _⟩, _⟩ := loopWrite_ends.mp ends
    exact nomatch unopened.symm.trans opened
  synced fd d d' i opened ends := by
    rcases perform_ends.mp ends with ⟨j, here, rfl⟩ | ⟨wrong, _⟩
    · obtain rfl : j = i := Target.file.inj (Option.some.inj (here.symm.trans opened))
      rw [Disk.store_file]
    · exact nomatch opened.symm.trans wrong

def emptyDisk : Disk where
  inode _ := none
  file _ := ⟨[], false⟩
  opened _ := none

/-- Everything is taken by one call. -/
private theorem loopWrite_does {fd : Int} {i : Nat} (data : Text) (opened : d.target fd = some (.file i)) :
    (loopWrite fd data).Ends Step d (.ok ()) (d.store i ⟨(d.file i).data ++ data, false⟩) := by
  refine loopWrite_ends.mpr ⟨⟨data.length, le_rfl, List.length_pos_iff.mpr⟩, _, ⟨i, opened, rfl⟩,
    .inl ⟨List.drop_length, ?_⟩⟩
  rw [List.take_length]

private theorem loopClose_does {fd : Nat} (opened : (d.target fd).isSome) :
    (loopClose fd).Ends Step d (.ok ()) { d with opened := Function.update d.opened fd none } := by
  have number : ¬ (fd : Int) < 0 := Int.not_lt.mpr (Int.natCast_nonneg fd)
  have closed : Done d (.close fd) () { d with opened := Function.update d.opened fd none } := ⟨opened, rfl⟩
  rw [loopClose, if_neg number]
  exact perform_ends.mpr closed

theorem syncDir_does {dirName : Text} {fd : Nat} (free : d.opened fd = none) :
    ∃ d', (syncDir dirName).Ends Step d (.ok ()) d' := by
  let dir : Disk := { d with opened := Function.update d.opened fd (some .dir) }
  have opened : dir.target fd = some .dir := (Disk.target_natCast _ fd).trans (Function.update_self _ _ _)
  refine ⟨{ dir with opened := Function.update dir.opened fd none }, ?_⟩
  refine Program.ends_bind_ok.mpr ⟨fd, dir, perform_ends.mpr ⟨free, rfl⟩, ?_⟩
  refine Program.ends_bind_ok.mpr ⟨(), dir, perform_ends.mpr (.inr ⟨opened, rfl⟩), ?_⟩
  exact perform_ends.mpr ⟨congrArg Option.isSome opened, rfl⟩

/-- A log file is written when there is no left-over file, and an inode and a descriptor are free. -/
theorem writeDataToFile_does {data dirName fileName : Text} {i fd : Nat}
    (absent : d.inode (dirName ++ fileName ++ ".new".toList) = none)
    (unused : d.Unused i) (free : d.opened fd = none) :
    ∃ d', (writeDataToFile loopOsmium data dirName fileName).Ends Step d (.ok ()) d' := by
  let d₁ : Disk :=
    { inode := Function.update d.inode (dirName ++ fileName ++ ".new".toList) (some i)
      file := Function.update d.file i ⟨[], false⟩
      opened := Function.update d.opened fd (some (.file i)) }
  have opened : d₁.target fd = some (.file i) := (Disk.target_natCast _ fd).trans (Function.update_self _ _ _)
  let d₂ := d₁.store i ⟨(d₁.file i).data ++ data, false⟩
  let d₃ := d₂.store i ⟨(d₂.file i).data, true⟩
  let d₄ : Disk := { d₃ with opened := Function.update d₃.opened fd none }
  have closed : d₄.opened fd = none := Function.update_self _ _ _
  have renamed : (d₄.rename (dirName ++ fileName ++ ".new".toList) (dirName ++ fileName) i).opened fd = none := by
    rw [Disk.rename]
    split <;> exact closed
  obtain ⟨d', synced⟩ := @syncDir_does _ dirName _ renamed
  have created : (exclWriteOpen (dirName ++ fileName ++ ".new".toList)).Ends Step d (.ok (.ok fd)) d₁ :=
    Program.ends_request.mpr ⟨.ok fd, ⟨absent, free, i, unused, rfl⟩, rfl⟩
  rw [writeDataToFile_eq]
  refine ⟨d', Program.ends_bind_ok.mpr ⟨_, d₁, created, Program.ends_bind_ok.mpr
    ⟨(), d₂, loopWrite_does data opened, ?_⟩⟩⟩
  refine Program.ends_bind_ok.mpr ⟨(), d₃, perform_ends.mpr (.inl ⟨i, opened, rfl⟩), ?_⟩
  refine Program.ends_bind_ok.mpr ⟨(), d₄, loopClose_does (congrArg Option.isSome opened), ?_⟩
  exact Program.ends_bind_ok.mpr ⟨(), _, perform_ends.mpr ⟨i, Function.update_self _ _ _, rfl⟩, synced⟩

theorem emptyDisk_unused (i : Nat) : emptyDisk.Unused i := ⟨fun _ => nofun, fun _ => nofun⟩

/-- One call that writes a log file on an empty disk. -/
theorem writeDataToFile_atomic_empty :
    ∃ d', (writeDataToFile loopOsmium "ab".toList "/log/".toList "x.log".toList).Ends Step emptyDisk (.ok ()) d' ∧
    d'.get "/log/x.log".toList = some ⟨"ab".toList, true⟩ := by
  obtain ⟨d', ends⟩ := @writeDataToFile_does emptyDisk "ab".toList "/log/".toList "x.log".toList 0 3 rfl
    (emptyDisk_unused 0) rfl
  exact ⟨d', ends, (writeDataToFile_atomic loop_reliable _ _ _ _).returned d' ends⟩

/-- The disk when the pid file was created. -/
def pidDisk : Disk :=
  { inode := Function.update emptyDisk.inode (pidPath "/run/".toList "osmdbt-log".toList) (some 0)
    file := Function.update emptyDisk.file 0 ⟨[], false⟩
    opened := Function.update emptyDisk.opened 3 (some (.file 0)) }

def writeFailed : Fault := .systemError "Write failed".toList

/-- The disk is full: the pid cannot be written. -/
theorem makePidFile_full : (makePidFile loopOsmium "/run/".toList "osmdbt-log".toList).Ends
    (Program.Observed Step noteCreated)
    (emptyDisk, false) (.error writeFailed) (pidDisk, true) := by
  have created : Program.Observed Step noteCreated (emptyDisk, false)
      (.openExcl (pidPath "/run/".toList "osmdbt-log".toList)) (.ok (3 : Nat)) (pidDisk, true) :=
    ⟨⟨rfl, rfl, 0, emptyDisk_unused 0, rfl⟩, rfl⟩
  have asked : (perform .getpid []).Ends (Program.Observed Step noteCreated) (pidDisk, true) (.ok (1 : Nat))
      (pidDisk, true) :=
    ⟨.ok (1 : Nat), _, ⟨rfl, rfl⟩, rfl, rfl⟩
  have full (data : Text) : (loopWrite 3 data).Ends (Program.Observed Step noteCreated) (pidDisk, true)
      (.error writeFailed) (pidDisk, true) := by
    rw [loopWrite]
    refine Program.ends_bind.mpr (.inr ⟨_, rfl, .error .other, (pidDisk, true),
      ⟨⟨nofun, rfl, fun _ => nofun⟩, rfl⟩, rfl, rfl⟩)
  have raised : (makeOpened loopOsmium (pidPath "/run/".toList "osmdbt-log".toList) 3).Ends
    (Program.Observed Step noteCreated)
      (pidDisk, true) (.error writeFailed) (pidDisk, true) :=
    Program.ends_bind.mpr (.inl ⟨(1 : Nat), _, asked, Program.ends_bind.mpr (.inr ⟨_, rfl, full _⟩)⟩)
  rw [makePidFile, if_neg (by decide)]
  exact ⟨.ok (3 : Nat), _, created, raised⟩

theorem makePidFile_unchanged_full : ¬ ∀ file, pidDisk.get file = emptyDisk.get file := by
  intro same
  cases (makePidFile_unchanged_iff loop_reliable makePidFile_full).mp same

/-- The constructor raised, and the file it leaves stops every later one. -/
theorem makePidFile_leftover : ∃ (d d' : Disk) (fault : Fault),
    (makePidFile loopOsmium "/run/".toList "osmdbt-log".toList).Ends Step d (.error fault) d' ∧
      d'.get (pidPath "/run/".toList "osmdbt-log".toList) ≠ d.get (pidPath "/run/".toList "osmdbt-log".toList) ∧
        ∀ result d'', (makePidFile loopOsmium "/run/".toList "osmdbt-log".toList).Ends Step d' result d'' →
          ∃ fault, result = .error fault := by
  refine ⟨emptyDisk, pidDisk, _, makePidFile_full.unobserved, ?_, fun result d'' ends =>
    makePidFile_taken (by decide) ?_ ends⟩
  · decide
  · decide

end Osmdbt.Descriptors
