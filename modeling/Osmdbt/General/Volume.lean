import Osmdbt.General.PowerLoss

/-! Files on a disk: the names in the directories, and the contents of the files they lead
to. A name is durable when its directory was synced, the contents of a file when the file was. -/

namespace Osmdbt.General

variable {κ ν δ : Type} [DecidableEq κ] [DecidableEq δ]

theorem Storage.current_single (s : Storage κ ν) (key : κ) (value : Option ν) :
    (s.add [(key, value)]).current = Function.update s.current key value := s.current_add [(key, value)]

/-- An entry that was not touched since it was synced is certain. -/
theorem Storage.sure_settled {s : Storage κ ν} {key : κ} (settled : ∀ value, (key, value) ∉ s.pending) :
    s.Sure key (· = s.current key) := by
  have same {value : Option ν} (possible : s.Possible key value) : value = s.durable key :=
    possible.resolve_right (settled value)
  exact fun value possible => (same possible).trans (same (s.possible_current key)).symm

/-- A file is known by the name it was created under, and by the number of files before it. -/
structure Volume (κ ν : Type) where
  names : Storage κ (κ × Nat)
  data : Storage (κ × Nat) ν
  next : Nat

namespace Volume

/-- What everybody reads before the power is lost. -/
def read (volume : Volume κ ν) (path : κ) : Option ν := (volume.names.current path).bind volume.data.current

def create (volume : Volume κ ν) (path : κ) (content : ν) : Volume κ ν where
  names := volume.names.add [(path, some (path, volume.next))]
  data := volume.data.add [((path, volume.next), some content)]
  next := volume.next + 1

def store (volume : Volume κ ν) (path : κ) (content : ν) : Volume κ ν :=
  match volume.names.current path with
  | none => volume
  | some file => { volume with data := volume.data.add [(file, some content)] }

def fsync (volume : Volume κ ν) (path : κ) : Volume κ ν :=
  match volume.names.current path with
  | none => volume
  | some file => { volume with data := volume.data.sync id file }

def move (volume : Volume κ ν) (oldName newName : κ) : Volume κ ν :=
  { volume with names := volume.names.add [(oldName, none), (newName, volume.names.current oldName)] }

def remove (volume : Volume κ ν) (path : κ) : Volume κ ν := { volume with names := volume.names.add [(path, none)] }

def syncDir (volume : Volume κ ν) (holder : κ → δ) (dir : δ) :
    Volume κ ν := { volume with names := volume.names.sync holder dir }

/-- A disk on which everything is synced. -/
def initial (files : κ → Option ν) : Volume κ ν where
  names := { durable := fun path => (files path).map (fun _ => (path, 0)) }
  data := { durable := fun file => if file.2 = 0 then files file.1 else none }
  next := 1

/-- The files that may be there after a power loss. -/
def Survives (volume : Volume κ ν) (files : κ → Option ν) : Prop :=
  ∃ names data, volume.names.Survives names ∧ volume.data.Survives data ∧ ∀ path, files path = (names path).bind data

/-- Whatever is lost, the file is there. -/
def Sure (volume : Volume κ ν) (path : κ) (content : ν) : Prop :=
  ∃ file, volume.names.Sure path (· = some file) ∧ volume.data.Sure file (· = some content)

variable {volume : Volume κ ν} {path other oldName newName : κ} {content : ν} {files : κ → Option ν}
    {holder : κ → δ} {dir : δ}

/-- Everything may survive. -/
theorem survives_read (volume : Volume κ ν) : volume.Survives volume.read :=
  ⟨_, _, ⟨_, List.Sublist.refl _, rfl⟩, ⟨_, List.Sublist.refl _, rfl⟩, fun _ => rfl⟩

theorem Sure.survives (sure : volume.Sure path content) (survives : volume.Survives files) :
    files path = some content := by
  obtain ⟨file, named, stored⟩ := sure
  obtain ⟨names, data, keptNames, keptData, same⟩ := survives
  rw [same, named.survives keptNames, Option.bind_some, stored.survives keptData]

theorem Sure.read (sure : volume.Sure path content) : volume.read path = some content := by
  obtain ⟨file, named, stored⟩ := sure
  rw [Volume.read, named.current, Option.bind_some, stored.current]

theorem read_initial (files : κ → Option ν) (path : κ) : (initial files).read path = files path := by
  change ((files path).map (fun _ => (path, 0))).bind _ = _
  cases stored : files path with
  | none => rfl
  | some content => exact stored

omit [DecidableEq κ] in
theorem initial_possible {file : Option (κ × Nat)} (possible : (initial files).names.Possible path file) :
    file = (files path).map (fun _ => (path, 0)) := possible.resolve_right List.not_mem_nil

omit [DecidableEq κ] in
theorem initial_sure (stored : files path = some content) : (initial files).Sure path content := by
  refine ⟨(path, 0), fun file possible => ?_, fun value possible => ?_⟩
  · rw [initial_possible possible, stored]
    rfl
  · exact (possible.resolve_right List.not_mem_nil).trans stored

/-- A sealed name leads to files that are synced and that nobody writes to any more. -/
structure Sealed (sealed : κ → Prop) (good : κ → ν → Prop) (volume : Volume κ ν) : Prop where
  linked : ∀ path other file, volume.names.current path = some file →
    volume.names.current other = some file → path = other
  fresh : ∀ path file, volume.names.Possible path (some file) → file.2 < volume.next
  apart : ∀ path other file, sealed path → volume.names.Possible path (some file) →
    volume.names.current other = some file → other = path
  finished : ∀ path file, sealed path → volume.names.Possible path (some file) →
    ∃ content, volume.data.Sure file (· = some content) ∧ good path content

variable {sealed : κ → Prop} {good : κ → ν → Prop}

theorem sealed_initial (fine : ∀ path content, sealed path → files path = some content → good path content) :
    (initial files).Sealed sealed good := by
  have own {path : κ} {file : κ × Nat} (possible : (initial files).names.Possible path (some file)) :
      file = (path, 0) ∧ ∃ content, files path = some content := by
    obtain ⟨content, stored, same⟩ := Option.map_eq_some_iff.mp (initial_possible possible).symm
    exact ⟨same.symm, content, stored⟩
  have named {path : κ} {file : κ × Nat} (current : (initial files).names.current path = some file) :
      file = (path, 0) :=
    (own (current ▸ Storage.possible_current _ path)).1
  refine ⟨fun path other file here there => ?_, fun path file possible => ?_,
    fun path other file _ possible there => ?_,
    fun path file isSealed possible => ?_⟩
  · exact congrArg Prod.fst ((named here).symm.trans (named there))
  · rw [(own possible).1]
    exact Nat.one_pos
  · exact congrArg Prod.fst ((named there).symm.trans (own possible).1)
  · obtain ⟨rfl, content, stored⟩ := own possible
    exact ⟨content, fun value possible => (possible.resolve_right List.not_mem_nil).trans stored,
      fine path content isSealed stored⟩

namespace Sealed

variable (here : volume.Sealed sealed good)
include here

theorem mono {good' : κ → ν → Prop} (more : ∀ path content, good path content → good' path content) :
    volume.Sealed sealed good' :=
  ⟨here.linked, here.fresh, here.apart, fun path file isSealed possible =>
    (here.finished path file isSealed possible).imp (fun content both => ⟨both.1, more path content both.2⟩)⟩

/-- A sealed file that can be read is good. -/
theorem good_read (isSealed : sealed path) (stored : volume.read path = some content) : good path content := by
  obtain ⟨file, named, data⟩ := Option.bind_eq_some_iff.mp stored
  obtain ⟨own, sure, good⟩ := here.finished path file isSealed (named ▸ volume.names.possible_current path)
  obtain rfl : content = own := Option.some.inj (data.symm.trans sure.current)
  exact good

theorem good_survives (isSealed : sealed path) (survives : volume.Survives files)
    (stored : files path = some content) :
    good path content := by
  obtain ⟨names, data, keptNames, keptData, same⟩ := survives
  obtain ⟨file, named, inside⟩ := Option.bind_eq_some_iff.mp ((same path).symm.trans stored)
  obtain ⟨own, sure, good⟩ := here.finished path file isSealed (named ▸ keptNames.possible path)
  obtain rfl : content = own := Option.some.inj (inside.symm.trans (sure.survives keptData))
  exact good

/-- A sealed file is certain when its name was not touched since its directory was synced. -/
theorem sure_settled (isSealed : sealed path) (settled : ∀ file, (path, file) ∉ volume.names.pending)
    (stored : volume.read path = some content) : volume.Sure path content := by
  obtain ⟨file, named, data⟩ := Option.bind_eq_some_iff.mp stored
  obtain ⟨own, sure, _⟩ := here.finished path file isSealed (named ▸ volume.names.possible_current path)
  obtain rfl : content = own := Option.some.inj (data.symm.trans sure.current)
  exact ⟨file, named ▸ Storage.sure_settled settled, sure⟩

end Sealed

/-- No other file can appear under a sealed name, and nothing else in its files. -/
structure Aside (sealed : κ → Prop) (volume volume' : Volume κ ν) : Prop where
  names : ∀ path value, sealed path → volume'.names.Possible path value → volume.names.Possible path value
  data : ∀ path file value, sealed path → volume.names.Possible path (some file) → volume'.data.Possible file value →
    volume.data.Possible file value

theorem Aside.sure {volume' : Volume κ ν} (aside : Aside sealed volume volume') (isSealed : sealed path)
    (sure : volume.Sure path content) :
    volume'.Sure path content := by
  obtain ⟨file, named, stored⟩ := sure
  have possible : volume.names.Possible path (some file) := named.current ▸ volume.names.possible_current path
  exact ⟨file, fun value possibly => named value (aside.names path value isSealed possibly),
    fun value possibly => stored value (aside.data path file value isSealed possible possibly)⟩

theorem Sealed.aside {volume' : Volume κ ν} (here : volume.Sealed sealed good) (aside : Aside sealed volume volume')
    (linked : ∀ path other file, volume'.names.current path = some file →
      volume'.names.current other = some file → path = other)
    (fresh : ∀ path file, volume'.names.Possible path (some file) → file.2 < volume'.next)
    (apart : ∀ path other file, sealed path → volume.names.Possible path (some file) →
      volume'.names.current other = some file →
      other = path) : volume'.Sealed sealed good where
  linked := linked
  fresh := fresh
  apart path other file isSealed possible := apart path other file isSealed (aside.names path _ isSealed possible)
  finished path file isSealed possible := by
    have before := aside.names path _ isSealed possible
    obtain ⟨content, sure, fine⟩ := here.finished path file isSealed before
    exact ⟨content, fun value possibly => sure value (aside.data path file value isSealed before possibly), fine⟩

theorem store_names (volume : Volume κ ν) (path : κ) (content : ν) :
    (volume.store path content).names = volume.names ∧ (volume.store path content).next = volume.next := by
  unfold Volume.store
  split <;> exact ⟨rfl, rfl⟩

theorem fsync_aside (sealed : κ → Prop) (volume : Volume κ ν) (path : κ) :
    Aside sealed volume (volume.fsync path) := by
  unfold fsync
  split
  · exact ⟨fun _ _ _ => id, fun _ _ _ _ _ => id⟩
  · exact ⟨fun _ _ _ => id, fun _ _ _ _ _ possible => possible.synced⟩

theorem fsync_names (volume : Volume κ ν) (path : κ) :
    (volume.fsync path).names = volume.names ∧ (volume.fsync path).next = volume.next := by
  unfold Volume.fsync
  split <;> exact ⟨rfl, rfl⟩

theorem syncDir_aside (sealed : κ → Prop) (volume : Volume κ ν) (holder : κ → δ) (dir : δ) :
    Aside sealed volume (volume.syncDir holder dir) :=
  ⟨fun _ _ _ possible => possible.synced, fun _ _ _ _ _ => id⟩

omit [DecidableEq κ] in
theorem remove_aside (other : ¬ sealed path) : Aside sealed volume (volume.remove path) where
  names own value isSealed possible := by
    refine possible.added.resolve_right (fun new => other ?_)
    obtain ⟨rfl, _⟩ := Prod.mk.inj (List.mem_singleton.mp new)
    exact isSealed
  data _ _ _ _ _ := id

theorem current_move (oldName newName : κ) : (volume.move oldName newName).names.current =
    Function.update (Function.update volume.names.current oldName none) newName (volume.names.current oldName) :=
  Storage.current_add _ _

/-- A name after a move. -/
theorem move_cases {file : κ × Nat} (named : (volume.move oldName newName).names.current path = some file) :
    (path = newName ∧ volume.names.current oldName = some file) ∨ path ≠ newName ∧ path ≠ oldName ∧
      volume.names.current path = some file := by
  rw [current_move] at named
  by_cases isNew : path = newName
  · rw [isNew, Function.update_self] at named
    exact .inl ⟨isNew, named⟩
  · rw [Function.update_of_ne isNew] at named
    by_cases isOld : path = oldName
    · rw [isOld, Function.update_self] at named
      cases named
    · rw [Function.update_of_ne isOld] at named
      exact .inr ⟨isNew, isOld, named⟩

theorem move_possible {value : Option (κ × Nat)} (possible : (volume.move oldName newName).names.Possible path value) :
    volume.names.Possible path value ∨ path = oldName ∧ value = none ∨ path = newName ∧
      value = volume.names.current oldName := by
  refine possible.added.imp_right (fun new => ?_)
  rcases List.mem_cons.mp new with same | member
  · exact .inl (Prod.mk.inj same)
  · exact .inr (Prod.mk.inj (List.mem_singleton.mp member))

private theorem move_aside (notOld : ¬ sealed oldName) (notNew : ¬ sealed newName) :
    Aside sealed volume (volume.move oldName newName) where
  names path value isSealed possible := by
    rcases move_possible possible with before | ⟨rfl, _⟩ | ⟨rfl, _⟩
    · exact before
    · exact absurd isSealed notOld
    · exact absurd isSealed notNew
  data _ _ _ _ _ := id

/-- What was certain under other sealed names is certain. -/
theorem publish_sure (notOld : ¬ sealed oldName) (isSealed : sealed path) (other : path ≠ newName) {certain : ν}
    (sure : volume.Sure path certain) : (volume.move oldName newName).Sure path certain := by
  obtain ⟨file, named, stored⟩ := sure
  refine ⟨file, fun value possible => ?_, stored⟩
  rcases move_possible possible with before | ⟨rfl, _⟩ | ⟨isNew, _⟩
  · exact named value before
  · exact absurd isSealed notOld
  · exact absurd isNew other

namespace Sealed

variable (here : volume.Sealed sealed good)
include here

/-- The file a sealed name may lead to is not written through another name. -/
theorem not_written (writable : ¬ sealed other) {file : κ × Nat} (named : volume.names.current other = some file)
    (isSealed : sealed path)
    (possible : volume.names.Possible path (some file)) : False :=
  writable (here.apart path other file isSealed possible named ▸ isSealed)

theorem create_aside (other : ¬ sealed path) (content : ν) : Aside sealed volume (volume.create path content) where
  names own value isSealed possible := by
    refine possible.added.resolve_right (fun new => other ?_)
    obtain ⟨rfl, _⟩ := Prod.mk.inj (List.mem_singleton.mp new)
    exact isSealed
  data own file value isSealed named possible := by
    refine possible.added.resolve_right (fun new => ?_)
    obtain ⟨rfl, _⟩ := Prod.mk.inj (List.mem_singleton.mp new)
    exact Nat.lt_irrefl _ (here.fresh own _ named)

theorem create (other : ¬ sealed path) (content : ν) : (volume.create path content).Sealed sealed good := by
  have current : (volume.create path content).names.current =
      Function.update volume.names.current path (some (path, volume.next)) :=
    Storage.current_single _ _ _
  have old {own : κ} {file : κ × Nat} (named : volume.names.current own = some file) : file ≠ (path, volume.next) := by
    rintro rfl
    exact Nat.lt_irrefl _ (here.fresh own _ (named ▸ volume.names.possible_current own))
  refine here.aside (here.create_aside other content) (fun first second file => ?_) (fun own file possible => ?_)
    (fun own second file isSealed possible named => ?_)
  · rw [current]
    intro named named'
    by_cases isFirst : first = path <;> by_cases isSecond : second = path
    · exact isFirst.trans isSecond.symm
    · rw [isFirst, Function.update_self] at named
      rw [Function.update_of_ne isSecond] at named'
      exact absurd (Option.some.inj named).symm (old named')
    · rw [isSecond, Function.update_self] at named'
      rw [Function.update_of_ne isFirst] at named
      exact absurd (Option.some.inj named').symm (old named)
    · rw [Function.update_of_ne isFirst] at named
      rw [Function.update_of_ne isSecond] at named'
      exact here.linked first second file named named'
  · rcases possible.added with before | new
    · exact Nat.lt_succ_of_lt (here.fresh own file before)
    · obtain ⟨_, same⟩ := Prod.mk.inj (List.mem_singleton.mp new)
      obtain rfl := Option.some.inj same
      exact Nat.lt_succ_self _
  · rw [current] at named
    by_cases isSecond : second = path
    · rw [isSecond, Function.update_self] at named
      obtain rfl := Option.some.inj named
      exact absurd (here.fresh own _ possible) (Nat.lt_irrefl _)
    · rw [Function.update_of_ne isSecond] at named
      exact here.apart own second file isSealed possible named

theorem store_aside (other : ¬ sealed path) (content : ν) : Aside sealed volume (volume.store path content) := by
  unfold store
  split
  · exact ⟨fun _ _ _ => id, fun _ _ _ _ _ => id⟩
  · rename_i file named
    refine ⟨fun _ _ _ => id, fun own inside value isSealed possible written =>
      written.added.resolve_right (fun new => ?_)⟩
    obtain ⟨rfl, _⟩ := Prod.mk.inj (List.mem_singleton.mp new)
    exact here.not_written other named isSealed possible

theorem store (other : ¬ sealed path) (content : ν) : (volume.store path content).Sealed sealed good := by
  obtain ⟨names, next⟩ := store_names volume path content
  refine here.aside (here.store_aside other content) ?_ ?_ ?_ <;> rw [names]
  · exact here.linked
  · exact next ▸ here.fresh
  · exact here.apart

theorem fsync (path : κ) : (volume.fsync path).Sealed sealed good := by
  obtain ⟨names, next⟩ := fsync_names volume path
  refine here.aside (fsync_aside sealed volume path) ?_ ?_ ?_ <;> rw [names]
  · exact here.linked
  · exact next ▸ here.fresh
  · exact here.apart

theorem syncDir (holder : κ → δ) (dir : δ) : (volume.syncDir holder dir).Sealed sealed good := by
  have current (path : κ) : (volume.syncDir holder dir).names.current path = volume.names.current path :=
    Storage.current_sync _ _ _ _
  refine here.aside (syncDir_aside sealed volume holder dir) (fun path other file => ?_) (fun path file possible => ?_)
    (fun path other file isSealed possible => ?_)
  · rw [current, current]
    exact here.linked path other file
  · exact here.fresh path file possible.synced
  · rw [current]
    exact here.apart path other file isSealed possible

theorem remove (other : ¬ sealed path) : (volume.remove path).Sealed sealed good := by
  have named {own : κ} {file : κ × Nat} (here : (volume.remove path).names.current own = some file) :
      volume.names.current own = some file := by
    have current : (volume.remove path).names.current = Function.update volume.names.current path none :=
      Storage.current_single _ _ _
    rw [current] at here
    by_cases same : own = path
    · rw [same, Function.update_self] at here
      cases here
    · rwa [Function.update_of_ne same] at here
  refine here.aside (remove_aside other) (fun first second file atFirst atSecond => ?_) (fun own file possible => ?_)
    (fun own second file isSealed possible atSecond => ?_)
  · exact here.linked first second file (named atFirst) (named atSecond)
  · refine here.fresh own file (possible.added.resolve_right (fun new => ?_))
    cases List.mem_singleton.mp new
  · exact here.apart own second file isSealed possible (named atSecond)

theorem move_linked (first second : κ) (file : κ × Nat)
    (atFirst : (volume.move oldName newName).names.current first = some file)
    (atSecond : (volume.move oldName newName).names.current second = some file) : first = second := by
  rcases move_cases atFirst with ⟨isNew, named⟩ | ⟨_, notOld, named⟩ <;>
    rcases move_cases atSecond with ⟨isNew', named'⟩ | ⟨_, notOld', named'⟩
  · exact isNew.trans isNew'.symm
  · exact absurd (here.linked second oldName file named' named) notOld'
  · exact absurd (here.linked first oldName file named named') notOld
  · exact here.linked first second file named named'

theorem move_fresh (path : κ) (file : κ × Nat)
    (possible : (volume.move oldName newName).names.Possible path (some file)) :
    file.2 < volume.next := by
  rcases move_possible possible with before | ⟨_, wrong⟩ | ⟨_, named⟩
  · exact here.fresh path file before
  · cases wrong
  · exact here.fresh oldName file (named ▸ volume.names.possible_current oldName)

theorem move (notOld : ¬ sealed oldName) (notNew : ¬ sealed newName) :
    (volume.move oldName newName).Sealed sealed good := by
  refine here.aside (move_aside notOld notNew) here.move_linked here.move_fresh
    (fun path other file isSealed possible named => ?_)
  rcases move_cases named with ⟨_, named⟩ | ⟨_, _, named⟩
  · exact (here.not_written notOld named isSealed possible).elim
  · exact here.apart path other file isSealed possible named

/-- A finished file gets its sealed name. -/
theorem publish (notOld : ¬ sealed oldName) {file : κ × Nat} (named : volume.names.current oldName = some file)
    (stored : volume.data.Sure file (· = some content)) (fine : good newName content) :
    (volume.move oldName newName).Sealed sealed good where
  linked := here.move_linked
  fresh := here.move_fresh
  apart path other own isSealed possible atOther := by
    rcases move_possible possible with before | ⟨_, wrong⟩ | ⟨rfl, same⟩
    · rcases move_cases atOther with ⟨_, atOld⟩ | ⟨_, _, atOther⟩
      · exact (here.not_written notOld atOld isSealed before).elim
      · exact here.apart path other own isSealed before atOther
    · cases wrong
    · rcases move_cases atOther with ⟨isNew, _⟩ | ⟨_, otherOld, atOther⟩
      · exact isNew
      · exact absurd (here.linked other oldName own atOther same.symm) otherOld
  finished path own isSealed possible := by
    rcases move_possible possible with before | ⟨_, wrong⟩ | ⟨rfl, same⟩
    · exact here.finished path own isSealed before
    · cases wrong
    · obtain rfl : own = file := Option.some.inj (same.trans named)
      exact ⟨content, stored, fine⟩

end Sealed

section Read

variable (linked : ∀ path other file, volume.names.current path = some file →
    volume.names.current other = some file → path = other)

theorem read_create (fresh : ∀ path file, volume.names.Possible path (some file) → file.2 < volume.next)
    (path : κ) (content : ν) :
    (volume.create path content).read = Function.update volume.read path (some content) := by
  funext own
  have names : (volume.create path content).names.current =
      Function.update volume.names.current path (some (path, volume.next)) :=
    Storage.current_single _ _ _
  have data : (volume.create path content).data.current =
      Function.update volume.data.current (path, volume.next) (some content) :=
    Storage.current_single _ _ _
  rw [read, names, data]
  by_cases same : own = path
  · rw [same, Function.update_self, Function.update_self, Option.bind_some, Function.update_self]
  · rw [Function.update_of_ne same, Function.update_of_ne same, read]
    cases named : volume.names.current own with
    | none => rfl
    | some file =>
      refine Function.update_of_ne ?_ _ _
      rintro rfl
      exact Nat.lt_irrefl _ (fresh own _ (named ▸ volume.names.possible_current own))

include linked in
theorem read_store {old : ν} (stored : volume.read path = some old) (content : ν) :
    (volume.store path content).read = Function.update volume.read path (some content) := by
  obtain ⟨file, named, _⟩ := Option.bind_eq_some_iff.mp stored
  funext own
  rw [store, named]
  change (volume.names.current own).bind (volume.data.add [(file, some content)]).current = _
  rw [Storage.current_single]
  by_cases same : own = path
  · rw [same, Function.update_self, named, Option.bind_some, Function.update_self]
  · rw [Function.update_of_ne same, read]
    cases atOwn : volume.names.current own with
    | none => rfl
    | some other =>
      refine Function.update_of_ne ?_ _ _
      rintro rfl
      exact same (linked own path _ atOwn named)

theorem read_fsync (path : κ) : (volume.fsync path).read = volume.read := by
  funext own
  unfold fsync
  split
  · rfl
  · have same (file : κ × Nat) : (volume.data.sync id file).current = volume.data.current :=
      funext (volume.data.current_sync id file)
    change (volume.names.current own).bind _ = _
    rw [same, read]

theorem read_syncDir (holder : κ → δ) (dir : δ) : (volume.syncDir holder dir).read = volume.read := by
  funext own
  change ((volume.names.sync holder dir).current own).bind _ = _
  rw [Storage.current_sync, read]
  rfl

theorem read_remove (path : κ) : (volume.remove path).read = Function.update volume.read path none := by
  funext own
  change ((volume.names.add [(path, none)]).current own).bind _ = _
  rw [Storage.current_single]
  by_cases same : own = path
  · rw [same, Function.update_self, Function.update_self]
    rfl
  · rw [Function.update_of_ne same, Function.update_of_ne same, read]
    rfl

theorem read_move (oldName newName : κ) : (volume.move oldName newName).read =
    Function.update (Function.update volume.read oldName none) newName (volume.read oldName) := by
  funext own
  rw [read, current_move]
  by_cases isNew : own = newName
  · rw [isNew, Function.update_self, Function.update_self, read]
    rfl
  · rw [Function.update_of_ne isNew, Function.update_of_ne isNew]
    by_cases isOld : own = oldName
    · rw [isOld, Function.update_self, Function.update_self]
      rfl
    · rw [Function.update_of_ne isOld, Function.update_of_ne isOld, read]
      rfl

end Read

end Volume

end Osmdbt.General
