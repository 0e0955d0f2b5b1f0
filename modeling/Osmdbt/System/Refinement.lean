import Osmdbt.System.Descriptors
import Osmdbt.System.Effects

/-! The file helpers on descriptors refine the ones on files: what a run of system calls
leaves in a directory, a run on the files leaves there too, with the same result. -/

namespace Osmdbt.Descriptors

open General

/-- The files of a configured directory and the texts in them. -/
def Shows (config : Config) (dir : Dir) (d : Disk) (w : World) : Prop :=
  ∀ name, w.get ⟨dir, name⟩ = (d.get ((Path.mk dir name).text config)).map (fun file => .text file.data)

/-- Nothing but the path refers to the inode. -/
structure Named (config : Config) (path : Path) (i : Nat) (d : Disk) (w : World) : Prop where
  shows : Shows config path.dir d w
  name : ∀ name, d.inode name = some i ↔ name = path.text config

/-- The file is open for writing. -/
structure Opened (config : Config) (path : Path) (i : Nat) (fd : Int) (d : Disk) (w : World) :
    Prop extends Named config path i d w where
  opened : d.target fd = some (.file i)

/-- Every run of system calls is one of the operations on the files. -/
abbrev Refines {α : Type} (before after : Disk → World → Prop) (program : FileProg α) (program' : Prog α) : Prop :=
  Program.Refines Step Osmdbt.Step before after program program'

section Refinement

variable {config : Config} {path : Path} {d d' : Disk} {w : World} {i : Nat}

theorem text_inj {dir : Dir} {name other : Text}
    (same : (Path.mk dir name).text config = (Path.mk dir other).text config) :
    name = other := List.append_cancel_left same

theorem Named.content (named : Named config path i d w) : w.get path = some (.text (d.file i).data) := by
  have here : w.get path = (d.get (path.text config)).map (fun file => .text file.data) := named.shows path.name
  rw [here, Disk.get, (named.name _).mpr rfl]
  rfl

/-- Writing to the inode is writing to the path. -/
theorem Named.store (named : Named config path i d w) {file : File} {w' : World}
    (written : w'.get path = some (.text file.data))
    (others : Untouched (· = path) w w') : Named config path i (d.store i file) w' := by
  refine ⟨fun name => ?_, named.name⟩
  have same : (d.store i file).inode = d.inode := rfl
  by_cases own : (⟨path.dir, name⟩ : Path) = path
  · rw [own, written, Disk.get, same, (named.name _).mpr rfl, Option.map_some, Disk.store_file]
    rfl
  · rw [others.get _ own, named.shows name, Disk.get, Disk.get, same]
    cases found : d.inode ((Path.mk path.dir name).text config) with
    | none => rfl
    | some j =>
      have other : j ≠ i := by
        rintro rfl
        exact own (congrArg (Path.mk path.dir) (text_inj ((named.name _).mp found)))
      have kept : (d.store i file).file j = d.file j := Function.update_of_ne other _ _
      rw [Option.map_some, Option.map_some, Option.map_some, Option.map_some, kept]

/-- A new file has one name. -/
theorem Created.opened_file {fd : Nat} (created : Created d (path.text config) i fd d')
    (shows : Shows config path.dir d w) :
    w.get path = none ∧ Opened config path i fd d' (w.put path (.text [])) := by
  have here : w.get path = (d.get (path.text config)).map (fun file => .text file.data) := shows path.name
  refine ⟨?_, ⟨fun name => ?_, fun name => ?_⟩, created.opened⟩
  · rw [here, Disk.get, created.absent]
    rfl
  · by_cases own : (⟨path.dir, name⟩ : Path) = path
    · rw [own, World.get_put_self, Disk.get, created.names, Function.update_self, Option.map_some,
        Option.map_some, created.empty]
    · have other : (Path.mk path.dir name).text config ≠ path.text config :=
        fun same => own (congrArg (Path.mk path.dir) (text_inj same))
      rw [World.get_put_ne _ _ _ own, created.get other]
      exact shows name
  · rw [created.names]
    by_cases own : name = path.text config
    · simp [own]
    · rw [Function.update_of_ne own]
      exact ⟨fun wrong => absurd wrong (created.fresh name), fun same => absurd same own⟩

theorem perform_raises {call : Call} {what : Text} {fault : Fault}
    (ends : (perform call what).Ends Step d (.error fault) d') :
    fault = .systemError what ∧ d' = d := by
  obtain ⟨reply, d₁, done, rest⟩ := ends
  cases reply with
  | ok value => cases rest.1
  | error code =>
    obtain ⟨same, rfl⟩ := rest
    exact ⟨Except.error.inj same, done.2.1⟩

/-- A call and an operation that fail with the same message. -/
theorem perform_failed (op : Op) (fallible : op.Fallible) {call : Call} {what : Text} {fault : Fault}
    (ends : (perform call what).Ends Step d (.error fault) d') :
    Ends (Osmdbt.perform op what) w (.error fault) w ∧ d' = d := by
  obtain ⟨rfl, same⟩ := perform_raises ends
  exact ⟨Osmdbt.perform_ends.mpr (.inr ⟨fallible, rfl, rfl⟩), same⟩

private theorem reliableFsync_refines (path : Path) (i : Nat) (fd : Int) :
    Refines (Opened config path i fd) (Opened config path i fd) (perform (.fsync fd) "Fsync failed".toList)
      (Osmdbt.reliableFsync path) := by
  intro d w result d' here ends
  cases result with
  | error fault =>
    obtain ⟨failed, rfl⟩ := perform_failed (.fsync path) trivial ends
    exact ⟨w, failed, here⟩
  | ok _ =>
    refine ⟨w, perform_ok.mpr rfl, ?_⟩
    rcases perform_ends.mp ends with ⟨j, inode, rfl⟩ | ⟨wrong, _⟩
    · obtain rfl : j = i := Target.file.inj (Option.some.inj (inode.symm.trans here.opened))
      exact ⟨here.store here.content (Untouched.refl w), here.opened⟩
    · cases here.opened.symm.trans wrong

theorem reliableClose_refines (path : Path) (i fd : Nat) :
    Refines (Opened config path i fd) (Named config path i) (loopClose fd) (Osmdbt.reliableClose path) := by
  intro d w result d' here ends
  rw [loopClose, if_neg (Int.not_lt.mpr (Int.natCast_nonneg fd))] at ends
  cases result with
  | error fault =>
    obtain ⟨failed, rfl⟩ := perform_failed (.close path) trivial ends
    exact ⟨w, failed, here.toNamed⟩
  | ok _ =>
    obtain ⟨_, rfl⟩ := perform_ends.mp ends
    exact ⟨w, perform_ok.mpr rfl, here.shows, here.name⟩

/-- Renaming the only name of the inode. -/
private theorem renameFile_refines {dir : Dir} {oldName newName : Text} (different : newName ≠ oldName) (i : Nat) :
    Refines (Named config ⟨dir, oldName⟩ i) (Shows config dir)
      (renameFile ((Path.mk dir oldName).text config) ((Path.mk dir newName).text config))
      (Osmdbt.renameFile config ⟨dir, oldName⟩ ⟨dir, newName⟩) := by
  intro d w result d' here ends
  cases result with
  | error fault =>
    obtain ⟨failed, rfl⟩ := perform_failed (.rename ⟨dir, oldName⟩ ⟨dir, newName⟩) trivial ends
    exact ⟨w, failed, here.shows⟩
  | ok _ =>
    obtain ⟨j, inode, rfl⟩ := perform_ends.mp ends
    obtain rfl : j = i := Option.some.inj (inode.symm.trans ((here.name _).mpr rfl))
    have other : d.inode ((Path.mk dir newName).text config) ≠ some j := fun same =>
      different (text_inj ((here.name _).mp same))
    have apart : (⟨dir, oldName⟩ : Path) ≠ ⟨dir, newName⟩ := fun same => different (congrArg Path.name same).symm
    have files : (d.rename ((Path.mk dir oldName).text config) ((Path.mk dir newName).text config) j).file =
        d.file := by
      rw [Disk.rename, if_neg other]
    have inodes : (d.rename ((Path.mk dir oldName).text config) ((Path.mk dir newName).text config) j).inode =
        Function.update (Function.update d.inode ((Path.mk dir oldName).text config) none)
          ((Path.mk dir newName).text config) (some j) := by
      rw [Disk.rename, if_neg other]
    refine ⟨_, perform_ok.mpr ⟨_, here.content, rfl⟩, fun name => ?_⟩
    rw [Disk.get, inodes, files]
    by_cases new : name = newName
    · subst new
      rw [World.get_rename_new, Function.update_self]
      rfl
    rw [Function.update_of_ne (fun same => new (text_inj same))]
    by_cases old : name = oldName
    · subst old
      rw [World.get_rename_old _ _ _ apart, Function.update_self]
      rfl
    rw [Function.update_of_ne (fun same => old (text_inj same)),
      World.get_rename_ne _ _ _ (fun same => old (congrArg Path.name same))
        (fun same => new (congrArg Path.name same))]
    exact here.shows name

private theorem reliableWrite_append (path : Path) (first second : Text) :
    Osmdbt.reliableWrite path (first ++ second) =
    Osmdbt.reliableWrite path first >>= fun _ => Osmdbt.reliableWrite path second := List.forM_append

/-- However much each call takes, the pieces together are the text. -/
theorem loopWrite_refines {path : Path} {i : Nat} {fd : Int} {data : Text} (some : data ≠ []) :
    Refines (Opened config path i fd) (Opened config path i fd) (loopWrite fd data)
      (Osmdbt.reliableWrite path data) := by
  intro d w result d' here ends
  induction data using loopWrite.induct generalizing d w with
  | case1 data ih =>
    rw [loopWrite] at ends
    rcases Program.ends_bind.mp ends with ⟨taken, d₁, wrote, rest⟩ | ⟨fault, rfl, failed⟩
    · obtain ⟨j, inode, rfl⟩ := perform_ends.mp wrote
      obtain rfl : j = i := Target.file.inj (Option.some.inj (inode.symm.trans here.opened))
      obtain ⟨w₁, written⟩ := @reliableWrite_does Osmdbt.Step (fun _ _ _ _ done => done)
        w path _ (data.take taken.1) here.content
      obtain ⟨content, others⟩ := reliableWrite_ok here.content written
      have here₁ : Opened config path j fd (d.store j ⟨(d.file j).data ++ data.take taken.1, false⟩) w₁ :=
        ⟨here.store content others, here.opened⟩
      have split := List.take_append_drop taken.1 data
      split at rest
      · rename_i last
        obtain ⟨rfl, rfl⟩ := rest
        rw [last, List.append_nil] at split
        exact ⟨w₁, split ▸ written, here₁⟩
      · rename_i more
        obtain ⟨w', later, here'⟩ := ih taken more more _ w₁ here₁ rest
        refine ⟨w', ?_, here'⟩
        rw [← split, reliableWrite_append]
        exact Program.ends_bind.mpr (.inl ⟨(), w₁, written, later⟩)
    · obtain ⟨rfl, rfl⟩ := perform_raises failed
      obtain ⟨c, rest, rfl⟩ := List.exists_cons_of_ne_nil some
      refine ⟨w, ?_, here⟩
      exact Program.ends_bind.mpr (.inr ⟨_, rfl, Osmdbt.perform_ends.mpr (.inr ⟨trivial, rfl, rfl⟩)⟩)

private theorem syncDir_refines (dir : Dir) :
    Refines (Shows config dir) (Shows config dir) (syncDir (config.dir dir)) (Osmdbt.syncDir config ⟨dir, []⟩) := by
  have text : (Path.mk dir []).text config = config.dir dir := List.append_nil _
  unfold Osmdbt.syncDir
  rw [text]
  intro d w result d' here ends
  rcases Program.ends_bind.mp ends with ⟨fd, d₁, opened, rest⟩ | ⟨fault, rfl, failed⟩
  swap
  · obtain ⟨failed, rfl⟩ := perform_failed (.openDir ⟨dir, []⟩) trivial failed
    exact ⟨w, Program.ends_bind.mpr (.inr ⟨fault, rfl, failed⟩), here⟩
  obtain ⟨_, rfl⟩ := perform_ends.mp opened
  have dirs : Disk.target { d with opened := Function.update d.opened fd (some .dir) } fd = some .dir :=
    (Disk.target_natCast _ fd).trans (Function.update_self _ _ _)
  have synced : Refines (fun d₁ w => d₁.target fd = some .dir ∧ Shows config dir d₁ w) (Shows config dir)
      (perform (.fsync fd) ("Syncing output directory failed for '".toList ++ config.dir dir ++ "'".toList))
      (Osmdbt.perform (.fsyncDir ⟨dir, []⟩)
          ("Syncing output directory failed for '".toList ++ config.dir dir ++ "'".toList)) := by
    rintro d w result d' ⟨target, here⟩ ends
    cases result with
    | error fault =>
      obtain ⟨failed, rfl⟩ := perform_failed (.fsyncDir ⟨dir, []⟩) trivial ends
      exact ⟨w, failed, here⟩
    | ok _ =>
      obtain ⟨i, wrong, _⟩ | ⟨_, rfl⟩ := perform_ends.mp ends
      · cases target.symm.trans wrong
      · exact ⟨w, perform_ok.mpr rfl, here⟩
  have closed : Refines (Shows config dir) (Shows config dir)
      (perform (.close fd) ("Closing output directory failed for '".toList ++ config.dir dir ++ "'".toList))
      (Osmdbt.perform (.closeDir ⟨dir, []⟩)
          ("Closing output directory failed for '".toList ++ config.dir dir ++ "'".toList)) := by
    intro d w result d' here ends
    cases result with
    | error fault =>
      obtain ⟨failed, rfl⟩ := perform_failed (.closeDir ⟨dir, []⟩) trivial ends
      exact ⟨w, failed, here⟩
    | ok _ =>
      obtain ⟨_, rfl⟩ := perform_ends.mp ends
      exact ⟨w, perform_ok.mpr rfl, here⟩
  obtain ⟨w', ran, last⟩ := Program.Refines.bind synced (fun _ => closed) (fun _ _ => id)
    _ w result d' ⟨dirs, here⟩ rest
  exact ⟨w', Program.ends_bind.mpr (.inl ⟨(), w, perform_ok.mpr rfl, ran⟩), last⟩

/-- The error of `openat` is reported when writing to no descriptor fails. -/
private theorem writeOpened_refused {data dirName final tmp : Text} {result : Except Fault Unit}
    (ends : (writeOpened loopOsmium data dirName final tmp (-1)).Ends Step d result d') :
    result = .error (.systemError "Write failed".toList) ∧ d' = d := by
  rcases Program.ends_bind.mp ends with ⟨_, d₁, wrong, _⟩ | ⟨fault, rfl, failed⟩
  · exact absurd wrong (loop_reliable.unopened (-1) data d d₁ rfl)
  rw [show loopOsmium.reliableWrite = loopWrite from rfl, loopWrite] at failed
  rcases Program.ends_bind.mp failed with ⟨taken, d₁, wrote, _⟩ | ⟨_, same, failed⟩
  · obtain ⟨i, wrong, _⟩ := perform_ends.mp wrote
    cases wrong
  · obtain rfl := Except.error.inj same
    obtain ⟨rfl, rfl⟩ := perform_raises failed
    exact ⟨rfl, rfl⟩

private theorem writeOpened_refines {data : Text} (some : data ≠ []) (fileName : Text) (i fd : Nat) :
    Refines (Opened config ⟨.log, fileName ++ ".new".toList⟩ i fd) (Shows config .log)
      (writeOpened loopOsmium data config.logDir ((Path.mk .log fileName).text config)
        ((Path.mk .log (fileName ++ ".new".toList)).text config) fd)
      (writeSynced ⟨.log, fileName ++ ".new".toList⟩ data >>= fun _ =>
        Osmdbt.renameFile config ⟨.log, fileName ++ ".new".toList⟩ ⟨.log, fileName⟩ >>= fun _ =>
            Osmdbt.syncDir config ⟨.log, []⟩) := by
  have different : fileName ≠ fileName ++ ".new".toList := fun same => by simpa using congrArg List.length same
  unfold writeSynced
  simp only [bind_assoc]
  refine Program.Refines.bind (loopWrite_refines some) (fun _ => ?_) (fun _ _ here => here.shows)
  refine Program.Refines.bind (reliableFsync_refines _ i fd) (fun _ => ?_) (fun _ _ here => here.shows)
  refine Program.Refines.bind (reliableClose_refines _ i fd) (fun _ => ?_) (fun _ _ here => here.shows)
  exact Program.Refines.bind (renameFile_refines different i) (fun _ => syncDir_refines .log) (fun _ _ => id)

/-- A run that writes a log file is one of the same helper on the files. -/
theorem writeDataToFile_refines {data : Text} (some : data ≠ []) (fileName : Text) :
    Refines (Shows config .log) (Shows config .log) (writeDataToFile loopOsmium data config.logDir fileName)
      (Osmdbt.writeDataToFile config data fileName) := by
  have text : config.logDir ++ fileName ++ ".new".toList = (Path.mk .log (fileName ++ ".new".toList)).text
    config := List.append_assoc _ _ _
  rw [writeDataToFile_eq, text]
  rintro d w result d' here ⟨reply, d₁, done, rest⟩
  cases reply with
  | error code =>
    obtain ⟨rfl, rfl⟩ := writeOpened_refused rest
    obtain ⟨_, rfl, there⟩ := done
    refine ⟨w, ⟨.error code, w, ⟨trivial, rfl, ?_⟩, rfl, rfl⟩, here⟩
    rintro _ ⟨⟩ exist
    have present := there _ rfl exist
    rw [here, Option.isSome_map, Disk.get, Option.isSome_map]
    exact present
  | ok fd =>
    obtain ⟨i, created⟩ := openExcl_created done
    obtain ⟨free, opened⟩ := created.opened_file here
    obtain ⟨w', ran, last⟩ := writeOpened_refines some fileName i fd _ _ result d' opened rest
    exact ⟨w', ⟨.ok (), _, ⟨free, rfl⟩, ran⟩, last⟩

/-- The constructor behind the call of `excl_write_open`, up to the path it returns. -/
private theorem makeOpened_refines {name : Text} {i fd : Nat} {result : Except Fault Text}
    (opened : Opened config (Osmdbt.pidPath name) i fd d w)
    (ends : (makeOpened loopOsmium ((Osmdbt.pidPath name).text config) fd).Ends Step d result d') :
    ∃ w', Ends (Osmdbt.perform .getpid [] >>= fun pid => Osmdbt.reliableWrite (Osmdbt.pidPath name)
        (natText pid ++ ['\n']) >>= fun _ =>
      Osmdbt.reliableClose (Osmdbt.pidPath name)) w (result.map (fun _ => ())) w' ∧ Shows config .run d' w' := by
  rcases Program.ends_bind.mp ends with ⟨(pid : Nat), d₁, asked, rest⟩ | ⟨fault, rfl, reply, d₁, done, failed⟩
  swap
  · cases reply with
    | ok value => cases failed.1
    | error code => exact absurd rfl done.1
  obtain rfl : d₁ = d := perform_ends.mp asked
  have written : Refines (Opened config (Osmdbt.pidPath name) i fd) (Shows config .run)
      (loopWrite fd (natText pid ++ ['\n']) >>= fun _ => loopClose fd)
      (Osmdbt.reliableWrite (Osmdbt.pidPath name) (natText pid ++ ['\n']) >>= fun _ =>
          Osmdbt.reliableClose (Osmdbt.pidPath name)) := by
    refine Program.Refines.bind (loopWrite_refines (by simp)) (fun _ d w result d' here ends => ?_)
      (fun _ _ here => here.shows)
    obtain ⟨w', ran, last⟩ := reliableClose_refines _ i fd d w result d' here ends
    exact ⟨w', ran, last.shows⟩
  have both : ((loopWrite fd (natText pid ++ ['\n']) >>= fun _ => loopClose fd) >>= fun _ =>
      pure ((Osmdbt.pidPath name).text config)).Ends Step d₁ result d' := by
    rw [bind_assoc]
    exact rest
  have asked' : Ends (Osmdbt.perform .getpid []) w (.ok pid) w := perform_ok.mpr rfl
  rcases Program.ends_bind.mp both with ⟨_, d₂, ran, rfl, rfl⟩ | ⟨fault, rfl, failed⟩
  · obtain ⟨w', ran', last⟩ := written _ w _ _ opened ran
    exact ⟨w', Program.ends_bind.mpr (.inl ⟨pid, w, asked', ran'⟩), last⟩
  · obtain ⟨w', failed', last⟩ := written _ w _ _ opened failed
    exact ⟨w', Program.ends_bind.mpr (.inl ⟨pid, w, asked', failed'⟩), last⟩

/-- A constructor that makes a pid file is the one on the files. -/
theorem makePidFile_refines {name : Text} (some : config.runDir ≠ []) {result : Except Fault Text}
    (here : Shows config .run d w)
    (ends : (makePidFile loopOsmium config.runDir name).Ends Step d result d') :
    ∃ w', Ends (Osmdbt.makePidFile config name) w (result.map (fun _ => ())) w' ∧ Shows config .run d' w' := by
  have text : pidPath config.runDir name = (Osmdbt.pidPath name).text config := List.append_assoc _ _ _
  rw [makePidFile, if_neg some] at ends
  obtain ⟨reply, d₁, done, rest⟩ := ends
  cases reply with
  | error code =>
    obtain ⟨rfl, rfl⟩ := rest
    obtain ⟨_, rfl, there⟩ := done
    have fault : pidFileFault (pidPath config.runDir name) name code = Osmdbt.pidFileFault config name code := by
      cases code <;> simp only [pidFileFault, Osmdbt.pidFileFault, text]
    refine ⟨w, ⟨.error code, w, ⟨trivial, rfl, ?_⟩, congrArg Except.error fault, rfl⟩, here⟩
    rintro _ ⟨⟩ exist
    have present := there _ rfl exist
    rw [text] at present
    rw [Osmdbt.pidPath, here, Option.isSome_map, Disk.get, Option.isSome_map]
    exact present
  | ok fd =>
    rw [text] at done
    obtain ⟨i, created⟩ := openExcl_created done
    obtain ⟨free, opened⟩ := created.opened_file here
    obtain ⟨w', ran, last⟩ := makeOpened_refines opened (text ▸ rest)
    exact ⟨w', ⟨.ok (), _, ⟨free, rfl⟩, ran⟩, last⟩

end Refinement

end Osmdbt.Descriptors
