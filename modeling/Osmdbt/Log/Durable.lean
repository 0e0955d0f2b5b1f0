import Osmdbt.System.Durability
import Osmdbt.System.Parallel
import Osmdbt.Log.Rules

/-! Power losses at any time while get-log and catchup do their work: what the slot has passed
is on the disk. -/

namespace Osmdbt

open General

section GetLog

variable {origin : Nat} {w w' : World} {disk : LogDisk} {sent : List Commit} {last : Commit}
    {name data written : Text} {calm : Prop}

/-- The directory was synced, if it was so when the program started. -/
def Calm (calm : Prop) (c : World × LogDisk) : Prop := calm → LogsSynced c.2

/-- get-log has read the first transactions behind the slot. -/
def Fetched (calm : Prop) (sent : List Commit) (c : World × LogDisk) : Prop := sent <+: c.1.pending ∧ Calm calm c

def Writing (calm : Prop) (sent : List Commit) (name written : Text) (c : World × LogDisk) : Prop :=
  Fetched calm sent c ∧ c.1.get (newLog name) = some (.text written)

/-- The file is on the disk, under its first name. -/
def Flushed (calm : Prop) (sent : List Commit) (name data : Text) (c : World × LogDisk) : Prop :=
  Fetched calm sent c ∧ ∃ file, c.2.names.current (newLog name) = some file ∧
    c.2.data.Sure file (· = some (.text data))

/-- The file has its name, which may still be lost. -/
def Renamed (calm : Prop) (sent : List Commit) (name data : Text) (c : World × LogDisk) : Prop :=
  sent <+: c.1.pending ∧ (calm → ∀ path file, LogPath path → (path, file) ∈ c.2.names.pending → path = ⟨.log, name⟩) ∧
    ∃ file, c.2.names.current ⟨.log, name⟩ = some file ∧ c.2.data.Sure file (· = some (.text data))

/-- Nothing of what was read can be lost. -/
def Certain (calm : Prop) (sent : List Commit) (c : World × LogDisk) : Prop :=
  Fetched calm sent c ∧ ∀ last, sent.getLast? = some last → ∀ obj ∈ Commit.objects sent, OnDisk c.2 last.lsn obj

theorem enduring_calm : Enduring (Calm calm) := fun _ _ _ _ => id

theorem enduring_fetched : Enduring (Fetched calm sent) := fun _ _ _ commits here => ⟨commits.front here.1, here.2⟩

theorem enduring_writing : Enduring (Writing calm sent name written) :=
  fun _ _ _ commits here => ⟨enduring_fetched _ _ _ commits here.1, commits.get ▸ here.2⟩

theorem enduring_flushed : Enduring (Flushed calm sent name data) :=
  fun _ _ _ commits here => ⟨enduring_fetched _ _ _ commits here.1, here.2⟩

theorem enduring_renamed : Enduring (Renamed calm sent name data) := fun _ _ _ commits here =>
    ⟨commits.front here.1, here.2⟩

theorem enduring_certain : Enduring (Certain calm sent) := fun _ _ _ commits here =>
    ⟨enduring_fetched _ _ _ commits here.1, here.2⟩

theorem apart_calm : Apart (Calm calm) := fun _ _ spared here known => spared.settled (here known)

theorem apart_fetched : Apart (Fetched calm sent) := by
  rintro c c' spared ⟨front, here⟩
  exact ⟨pending_same spared.wal spared.slot ▸ front, apart_calm c c' spared here⟩

private theorem apart_certain : Apart (Certain calm sent) := fun c c' spared here => ⟨apart_fetched c c' spared here.1,
  fun last ends obj inside => (here.2 last ends obj inside).aside spared.aside⟩

/-- Every transaction up to the last one that was read was read. -/
theorem front_complete (order : w.wal.Pairwise (fun a b => a.lsn < b.lsn)) (front : sent <+: w.pending)
    (ends : sent.getLast? = some last) {commit : Commit} (member : commit ∈ w.wal) (later : w.slot < commit.lsn)
    (below : commit.lsn ≤ last.lsn) : commit ∈ sent := by
  obtain ⟨rest, split⟩ := front
  have here : commit ∈ sent ++ rest := split ▸ List.mem_filter.mpr ⟨member, by simpa using later⟩
  refine (List.mem_append.mp here).resolve_right (fun beyond => ?_)
  have sorted : (sent ++ rest).Pairwise (fun a b => a.lsn < b.lsn) := split ▸ order.filter _
  have := (List.pairwise_append.mp sorted).2.2 last (List.mem_of_getLast? ends) commit beyond
  omega

theorem front_last (front : sent <+: w.pending) (ends : sent.getLast? = some last) :
    last ∈ w.wal ∧ w.slot < last.lsn := by
  simpa using List.mem_filter.mp (front.subset (List.mem_of_getLast? ends))

theorem newLog_spared (name : Text) : ¬ LogPath (newLog name) := by
  rintro ⟨_, log⟩
  rw [newLog, isLog_new] at log
  cases log

private theorem get_rename (w : World) (oldName newName : Path) (content : Content) :
    (w.rename oldName newName content).get =
    Function.update (Function.update w.get oldName none) newName (some content) := by
  change ((w.drop oldName).put newName content).get = _
  rw [get_put, get_drop]

/-- The finished file gets its name. -/
theorem Durable.renamed (durable : Durable origin (w, disk)) (flushed : Flushed calm sent name data (w, disk))
    (log : isLog name = true) (ends : sent.getLast? = some last) (lsn : lsnOfName name = .ok last.lsn)
    (entries : logEntries data = .ok (Commit.objects sent)) {content : Content}
    (found : w.get (newLog name) = some content) :
    Durable origin (w.rename (newLog name) ⟨.log, name⟩ content, disk.move (newLog name) ⟨.log, name⟩) ∧
      Renamed calm sent name data (w.rename (newLog name) ⟨.log, name⟩ content, disk.move (newLog name)
        ⟨.log, name⟩) := by
  obtain ⟨⟨front, settled⟩, file, atNew, stored⟩ := flushed
  obtain ⟨committed, later⟩ := front_last front ends
  have shown : w.get = disk.read := durable.shown
  have files : disk.Sealed LogPath (FilledTo origin w) := durable.files
  have filled : FilledTo origin w ⟨.log, name⟩ (.text data) := by
    refine ⟨data, _, last.lsn, w.slot, rfl, entries, lsn, durable.small last committed,
      .inr ⟨last, committed, le_rfl⟩, le_rfl, ?_⟩
    intro commit member _ after below obj inside
    exact List.mem_flatMap.mpr ⟨commit, front_complete durable.order front ends member after below, inside⟩
  have outside := newLog_spared name
  refine ⟨⟨durable.order, durable.small, durable.reached, ?_, ?_, ?_⟩, front, ?_, file, ?_, stored⟩
  · change (w.rename _ _ _).get = (disk.move _ _).read
    rw [get_rename, shown, Volume.read_move, ← shown, found]
  · exact files.publish outside atNew stored filled
  · intro commit member after below obj inside
    obtain ⟨other, text, read, own, otherLog, otherLsn, bound, sure, rest⟩ :=
      durable.logged commit member after below obj inside
    have bound : own ≤ w.slot := bound
    have different : (⟨.log, other⟩ : Path) ≠ ⟨.log, name⟩ := by
      intro same
      obtain rfl : other = name := congrArg Path.name same
      obtain rfl : own = last.lsn := Except.ok.inj (otherLsn.symm.trans lsn)
      omega
    exact ⟨other, text, read, own, otherLog, otherLsn, bound, Volume.publish_sure outside ⟨rfl, otherLog⟩
      different sure, rest⟩
  · intro known path value isLogPath member
    rcases List.mem_append.mp member with before | new
    · exact absurd before (settled known path value isLogPath)
    rcases List.mem_cons.mp new with same | new
    · obtain rfl : path = newLog name := congrArg Prod.fst same
      exact absurd isLogPath outside
    · exact congrArg Prod.fst (List.mem_singleton.mp new)
  · change (disk.move _ _).names.current _ = _
    rw [Volume.current_move, Function.update_self, atNew]

/-- The directory of the log files. -/
theorem holder_log (plain : '/' ∉ name) : (Path.mk .log name).holder = ⟨.log, []⟩ := by
  have nothing : directoryPart name = [] := by
    rw [directoryPart, List.dropWhile_eq_nil_iff.mpr]
    · rfl
    · simpa using fun c member => ne_of_mem_of_not_mem member plain
  rw [Path.holder, nothing]

/-- The directory is synced after the file got its name. -/
theorem Durable.filed (durable : Durable origin (w, disk)) (renamed : Renamed calm sent name data (w, disk))
    (log : isLog name = true)
    (plain : '/' ∉ name) (ends : sent.getLast? = some last) (lsn : lsnOfName name = .ok last.lsn)
    (entries : logEntries data = .ok (Commit.objects sent)) :
    Durable origin (w, disk.syncDir Path.holder ⟨.log, []⟩) ∧
        Certain calm sent (w, disk.syncDir Path.holder ⟨.log, []⟩) := by
  obtain ⟨front, only, file, named, stored⟩ := renamed
  have synced := (@Durable.done origin w w disk durable (.fsyncDir ⟨.log, []⟩) trivial () rfl).1
  refine ⟨synced, ⟨front, fun known path value isLogPath member => ?_⟩, fun other ends' obj inside => ?_⟩
  · obtain ⟨before, elsewhere⟩ := List.mem_filter.mp member
    obtain rfl := only known path value isLogPath before
    simp [holder_log plain] at elsewhere
  · obtain rfl : last = other := Option.some.inj (ends.symm.trans ends')
    refine ⟨name, data, _, last.lsn, log, lsn, le_rfl, ⟨file, ?_, stored⟩, entries, inside⟩
    rw [← holder_log plain]
    exact Storage.sure_synced named

variable {config : Config} {options : GetLogOptions}

private theorem accepted_glyph {glyphs : List Glyph} {text : Text}
    (accepted : List.Forall₂ (fun g c => g.accepts c = true) glyphs text) {c : Char}
    (member : c ∈ text) : ∃ glyph ∈ glyphs, glyph.accepts c = true := by
  induction accepted with
  | nil => cases member
  | cons here _ ih =>
    rcases List.mem_cons.mp member with rfl | later
    · exact ⟨_, List.mem_cons_self, here⟩
    · obtain ⟨glyph, inside, accepts⟩ := ih later
      exact ⟨glyph, List.mem_cons_of_mem _ inside, accepts⟩

theorem toIsoAll_plain (time : Timestamp) : '/' ∉ toIsoAll time := by
  intro slash
  obtain ⟨glyph, inside, accepts⟩ := accepted_glyph (toIsoAll_accepted time) slash
  have never : ∀ glyph ∈ datePattern, glyph.accepts '/' = false := by decide
  rw [never glyph inside] at accepts
  cases accepts

theorem createReplicationLogName_plain {name : Text} (plain : '/' ∉ name) (time : Timestamp) :
    '/' ∉ createReplicationLogName name time := by
  have fixed : '/' ∉ "osm-repl-".toList ∧ '/' ∉ ".log".toList := by decide
  intro slash
  rcases List.mem_append.mp slash with front | suffix
  · rcases List.mem_append.mp front with start | position
    · rcases List.mem_append.mp start with word | inDate
      · exact fixed.1 word
      · exact toIsoAll_plain time inDate
    · rcases List.mem_cons.mp position with wrong | position
      · cases wrong
      · exact plain position
  · exact fixed.2 suffix

theorem replicationLogName_plain (lsn : Text) (time : Timestamp) : '/' ∉ replicationLogName lsn time := by
  have dashes : '/' ∉ dashed lsn := by
    intro slash
    obtain ⟨c, _, same⟩ := List.mem_map.mp slash
    by_cases equal : c = '/'
    · rw [if_pos equal] at same
      cases same
    · rw [if_neg equal] at same
      exact equal same
  have fixed : '/' ∉ "lsn-".toList := by decide
  exact createReplicationLogName_plain (fun slash => (List.mem_append.mp slash).elim fixed dashes) time

private theorem openNew_triple : (diskRules origin).Triple (Keeping origin (Fetched calm sent))
    (exclWriteOpen (newLog name))
    (Replied origin (fun _ => Writing calm sent name [])) (fun _ => Keeping origin Anything) := by
  refine request_triple enduring_fetched (fun _ => enduring_writing) (fun w disk value w' durable here done => ?_)
  have spares : (Op.openExcl (newLog name)).Spares := newLog_spared name
  obtain ⟨later, spared⟩ := durable.done spares done
  obtain ⟨_, rfl⟩ := done
  exact ⟨later, apart_fetched _ _ spared here, World.get_put_self _ _ _⟩

private theorem writeSynced_triple (name data : Text) :
    (diskRules origin).Triple (Keeping origin (Writing calm sent name []))
    (writeSynced (newLog name) data) (fun _ => Keeping origin (Flushed calm sent name data))
      (fun _ => Keeping origin Anything) := by
  have begun (rest : Text) : Enduring (fun c => ∃ written, written ++ rest = data ∧
      Writing calm sent name written c) :=
    fun w w' disk commits ⟨written, split, here⟩ => ⟨written, split, enduring_writing w w' disk commits here⟩
  have loop : (diskRules origin).Triple (Keeping origin (fun c => ∃ written, written ++ data = data ∧
    Writing calm sent name written c))
      (reliableWrite (newLog name) data)
      (fun _ => Keeping origin (fun c => ∃ written, written ++ [] = data ∧ Writing calm sent name written c))
      (fun _ => Keeping origin Anything) := by
    refine Discipline.Triple.forM (fun rest => Keeping origin (fun c => ∃ written, written ++ rest = data ∧
      Writing calm sent name written c))
      data (begun []).stable (fun c rest => ?_)
    refine operate_triple (begun _) (fun _ => begun _) (fun w disk value w' durable here done => ?_)
    obtain ⟨written, split, fetched, stored⟩ := here
    have spares : (Op.write (newLog name) c).Spares := newLog_spared name
    obtain ⟨later, spared⟩ := durable.done spares done
    obtain ⟨old, found, rfl⟩ := done
    obtain rfl : written = old := Content.text.inj (Option.some.inj (stored.symm.trans found))
    exact ⟨later, written ++ [c], by simp [← split], apart_fetched _ _ spared fetched, World.get_put_self _ _ _⟩
  have flushed : (diskRules origin).Triple (Keeping origin (fun c => ∃ written, written ++ [] = data ∧
    Writing calm sent name written c))
      (reliableFsync (newLog name)) (fun _ => Keeping origin (Flushed calm sent name data))
        (fun _ => Keeping origin Anything) := by
    refine operate_triple (begun []) (fun _ => enduring_flushed) (fun w disk value w' durable here done => ?_)
    obtain ⟨written, whole, fetched, stored⟩ := here
    obtain rfl : written = data := (List.append_nil written).symm.trans whole
    obtain ⟨later, spared⟩ := durable.done (show (Op.fsync (newLog name)).Spares from trivial) done
    obtain rfl : w' = w := done
    have shown : w'.get = disk.read := durable.shown
    obtain ⟨file, named, inside⟩ := Option.bind_eq_some_iff.mp (show disk.read (newLog name) =
      some (.text written) from shown ▸ stored)
    refine ⟨later, apart_fetched _ _ spared fetched, file, ?_, ?_⟩
    · change (disk.fsync (newLog name)).names.current _ = _
      rw [(Volume.fsync_names _ _).1, named]
    · change (disk.fsync (newLog name)).data.Sure file _
      rw [Volume.fsync, named]
      exact Storage.sure_synced inside
  unfold writeSynced
  refine (loop.before (fun c here => ⟨here.1, [], rfl, here.2⟩)).bind (fun _ => flushed.bind (fun _ => ?_))
  exact idle_triple enduring_flushed (show (Op.close _).Idle from trivial)

private theorem syncLogDir_triple (log : isLog name = true) (plain : '/' ∉ name) (ends : sent.getLast? = some last)
    (lsn : lsnOfName name = .ok last.lsn) (entries : logEntries data = .ok (Commit.objects sent)) :
    (diskRules origin).Triple (Keeping origin (Renamed calm sent name data)) (syncDir config ⟨.log, []⟩)
      (fun _ => Keeping origin (Certain calm sent)) (fun _ => Keeping origin Anything) := by
  unfold syncDir
  refine (idle_triple enduring_renamed (show (Op.openDir _).Idle from trivial)).bind (fun _ => ?_)
  refine Discipline.Triple.via (fun _ => Keeping origin (Certain calm sent)) ?_
    (fun _ => idle_triple enduring_certain (show (Op.closeDir _).Idle from trivial))
  refine operate_triple enduring_renamed (fun _ => enduring_certain) (fun w disk value w' durable here done => ?_)
  obtain rfl : w' = w := done
  exact durable.filed here log plain ends lsn entries

private theorem writeLogFile_triple (time : Timestamp) (ends : sent.getLast? = some last) (small : last.lsn < 2 ^ 64)
    (entries : logEntries data = .ok (Commit.objects sent)) :
    (diskRules origin).Triple (Keeping origin (Fetched calm sent))
      (writeDataToFile config data (replicationLogName (lsnStr last.lsn) time))
      (fun _ => Keeping origin (Certain calm sent)) (fun _ => Keeping origin Anything) := by
  have log := isLog_replicationLogName (lsnStr last.lsn) time
  have lsn := lsnOfName_replicationLogName small time
  unfold writeDataToFile
  refine openNew_triple.bind (fun reply => ?_)
  cases reply with
  | error code => exact Discipline.Triple.raise stable_anything (fun _ here => here)
  | ok value =>
    refine (writeSynced_triple (replicationLogName (lsnStr last.lsn) time) data).bind (fun _ => ?_)
    refine Discipline.Triple.via (fun _ =>
      Keeping origin (Renamed calm sent (replicationLogName (lsnStr last.lsn) time) data)) ?_
      (fun _ => syncLogDir_triple log (replicationLogName_plain _ _) ends lsn entries)
    refine operate_triple enduring_flushed (fun _ => enduring_renamed) (fun w disk value w' durable here done => ?_)
    obtain ⟨content, found, rfl⟩ := done
    exact durable.renamed here log ends lsn entries found

theorem catchupToLsn_keeps {F G : World × LogDisk → Prop} (enduring : Enduring F) (apart : Apart F)
    (after : Enduring G) {lsn : Nat}
    (small : lsn < 2 ^ 64) (advance : ∀ w disk, Durable origin (w, disk) → F (w, disk) →
      Durable origin ({ w with slot := max w.slot lsn }, disk) ∧ G ({ w with slot := max w.slot lsn }, disk)) :
    (diskRules origin).Triple (Keeping origin F) (catchupToLsn (lsnStr lsn)) (fun _ => Keeping origin G)
      (fun _ => Keeping origin Anything) := by
  unfold catchupToLsn
  refine (spares_triple enduring apart (look_uses (show Op.serverVersion.Looks from trivial))).bind
    (fun (version : Nat) => ?_)
  refine Discipline.Triple.before ?_ (fun _ here => here.2)
  refine Discipline.Triple.ite (fun _ => ?_)
    (fun _ => Discipline.Triple.raise stable_anything (fun _ here => here.anything))
  refine operate_triple enduring (fun _ => after) (fun w disk value w' durable here done => ?_)
  obtain ⟨position, parsed, rfl⟩ := done
  obtain rfl : lsn = position := by
    rw [lsnStr, parseLsn_lsnText (.inr rfl) small] at parsed
    exact Except.ok.inj parsed
  exact advance w disk durable here

theorem spared_part {F : World × LogDisk → Prop} (enduring : Enduring F) (apart : Apart F) {program : Prog Unit}
    (uses : program.Uses Op.Spares (fun _ => True)) :
    (diskRules origin).Triple (Keeping origin F) program (fun _ => Keeping origin F)
      (fun _ => Keeping origin Anything) :=
  (spares_triple enduring apart uses).weaken (fun _ => id) (fun _ _ here => here.2) (fun _ _ => id)

theorem commits_part {F : World × LogDisk → Prop} (enduring : Enduring F) (apart : Apart F) :
    (diskRules origin).Triple (Keeping origin F) commitTransaction (fun _ => Keeping origin F)
      (fun _ => Keeping origin Anything) :=
  spared_part enduring apart (look_uses (show Op.commit.Looks from trivial))

/-- What was read is on the disk, or there was nothing to write. -/
private theorem saveLog_triple {log : LogState} (ends : sent.getLast? = some last) (small : last.lsn < 2 ^ 64)
    (entries : logEntries log.data = .ok (Commit.objects sent)) (lsn : log.lsn = lsnStr last.lsn)
    (actual : log.hasActualData = !(Commit.objects sent).isEmpty) :
    (diskRules origin).Triple (Keeping origin (Fetched calm sent)) (writeLog config log)
      (fun _ => Keeping origin (Certain calm sent))
      (fun _ => Keeping origin Anything) := by
  unfold writeLog
  refine Discipline.Triple.ite (fun _ => ?_) (fun empty => ?_)
  · refine (spares_triple enduring_fetched apart_fetched (look_uses (show Op.time.Looks from trivial))).bind
      (fun (now : Timestamp) => ?_)
    rw [lsn]
    exact (writeLogFile_triple now ends small entries).before (fun _ here => here.2)
  · have nothing : Commit.objects sent = [] := by simpa [actual] using empty
    refine Discipline.Triple.pure enduring_certain.stable
      (fun c here => ⟨here.1, here.2, fun other _ obj inside => ?_⟩)
    rw [nothing] at inside
    cases inside

private theorem advanceSlot_triple {log : LogState} (ends : sent.getLast? = some last)
    (small : last.lsn < 2 ^ 64) (lsn : log.lsn = lsnStr last.lsn) :
    (diskRules origin).Triple (Keeping origin (Certain calm sent)) (catchUpLog options log)
      (fun _ => Keeping origin (Calm calm))
      (fun _ => Keeping origin Anything) := by
  unfold catchUpLog
  refine Discipline.Triple.ite (fun _ => ?_)
    (fun _ => Discipline.Triple.pure enduring_calm.stable (fun c here => ⟨here.1, here.2.1.2⟩))
  have canonical : canonicalLsn log.lsn = .ok (lsnStr last.lsn) := by
    rw [canonicalLsn, lsn, lsnStr, parseLsn_lsnText (.inr rfl) small]
    rfl
  rw [canonical]
  change (diskRules origin).Triple _ (catchupToLsn (lsnStr last.lsn) >>= fun _ => commitTransaction) _ _
  refine (catchupToLsn_keeps enduring_certain apart_certain enduring_calm small (fun w disk durable here => ?_)).bind
    (fun _ => commits_part enduring_calm apart_calm)
  obtain ⟨⟨front, settled⟩, safe⟩ := here
  refine ⟨durable.advance (.inr ⟨last, (front_last front ends).1, le_rfl⟩)
    (fun commit member _ later below obj inside => ?_), settled⟩
  have read := front_complete durable.order front ends member later below
  exact safe last ends obj (List.mem_flatMap.mpr ⟨commit, read, inside⟩)

theorem getLog_keeps (config : Config) (options : GetLogOptions) (calm : Prop) :
    (diskRules origin).Triple (Keeping origin (Calm calm)) (getLog config options)
      (fun _ => Keeping origin (Calm calm))
      (fun _ => Keeping origin Anything) := by
  unfold getLog
  refine pidFile_keeps enduring_calm apart_calm enduring_calm apart_calm ?_
  refine (spared_part enduring_calm apart_calm (look_uses (show Op.connect.Looks from trivial))).bind (fun _ => ?_)
  refine (spares_triple enduring_calm apart_calm getDbVersion_uses).bind (fun _ => ?_)
  refine Discipline.Triple.before ?_ (fun _ here => here.2)
  have knows (rows : List PeekRow) : Enduring (fun c => ∃ sent, Sent sent rows ∧ Fetched calm sent c) :=
    fun w w' disk commits ⟨sent, carried, here⟩ => ⟨sent, carried, enduring_fetched w w' disk commits here⟩
  refine Discipline.Triple.via (fun (rows : List PeekRow) =>
    Keeping origin (fun c => ∃ sent, Sent sent rows ∧ Fetched calm sent c)) ?_
    (fun (rows : List PeekRow) => ?_)
  · refine operate_triple enduring_calm knows (fun w disk rows w' durable here done => ?_)
    obtain ⟨later, spared⟩ := durable.done (show (Op.peek (peekLimit options)).Spares from trivial) done
    obtain ⟨sent, taken, carried, rfl⟩ := done
    exact ⟨later, sent, carried, taken.front, apart_calm _ _ spared here⟩
  rintro c ⟨durable, sent, carried, here⟩
  by_cases none : rows = []
  · subst none
    exact (commits_part enduring_calm apart_calm) c ⟨durable, here.2⟩
  · have some : sent ≠ [] := fun empty => none ((sent_nil_iff carried).mpr empty)
    obtain ⟨log, decoded, entries, lsn, actual⟩ := decodeRows_sent carried
    have ends := List.getLast?_eq_some_getLast some
    have small := durable.small _ (front_last here.1 ends).1
    rw [ends, Option.map_some, Option.getD_some] at lsn
    rw [if_neg (by simpa using none), decoded]
    have rest : (diskRules origin).Triple (Keeping origin (Fetched calm sent))
      (writeLog config log >>= fun _ => catchUpLog options log)
        (fun _ => Keeping origin (Calm calm)) (fun _ => Keeping origin Anything) :=
      (saveLog_triple ends small entries lsn actual).bind (fun _ => advanceSlot_triple ends small lsn)
    exact rest c ⟨durable, here⟩

end GetLog

section Catchup

variable {origin : Nat} {config : Config}

/-- Everything up to the position is on the disk. -/
def SavedTo (origin lsn : Nat) (c : World × LogDisk) : Prop :=
  lsn ≠ 0 → lsn < 2 ^ 64 ∧ Reached origin c.1 lsn ∧
    ∀ commit ∈ c.1.wal, origin < commit.lsn → c.1.slot < commit.lsn → commit.lsn ≤ lsn →
      ∀ obj ∈ commit.inserts, OnDisk c.2 lsn obj

theorem enduring_savedTo (lsn : Nat) : Enduring (SavedTo origin lsn) := by
  intro w w' disk commits here other
  obtain ⟨small, reached, saved⟩ := here other
  obtain ⟨reached', known⟩ := commits.reached reached
  refine ⟨small, reached', fun commit member after later below obj inside => ?_⟩
  have slot : w'.slot = w.slot := by cases commits; rfl
  exact saved commit (known commit member after below) after (slot ▸ later) below obj inside

theorem apart_savedTo (lsn : Nat) : Apart (SavedTo origin lsn) := by
  intro c c' spared here other
  obtain ⟨small, reached, saved⟩ := here other
  refine ⟨small, ?_, fun commit member after later below obj inside => ?_⟩
  · rwa [Reached, spared.wal]
  · exact (saved commit (spared.wal ▸ member) after (spared.slot ▸ later) below obj inside).aside spared.aside

/-- The position in the name of a synced log file. -/
theorem Durable.savedTo {w : World} {disk : LogDisk} (durable : Durable origin (w, disk))
    (synced : LogsSynced disk) {name : Text}
    (log : isLog name = true) (there : (w.get ⟨.log, name⟩).isSome) {lsn : Nat} (named : lsnOfName name = .ok lsn) :
    SavedTo origin lsn (w, disk) := by
  intro _
  obtain ⟨content, stored⟩ := Option.isSome_iff_exists.mp there
  have shown : w.get = disk.read := durable.shown
  have read : disk.read ⟨.log, name⟩ = some content := shown ▸ stored
  have isLogPath : LogPath ⟨.log, name⟩ := ⟨rfl, log⟩
  have sure := durable.files.sure_settled isLogPath (fun file => synced _ file isLogPath) read
  obtain ⟨data, entries, own, start, rfl, parsed, ownName, small, reached, passed, holds⟩ :=
    durable.files.good_read isLogPath read
  obtain rfl : own = lsn := Except.ok.inj (ownName.symm.trans named)
  refine ⟨small, reached, fun commit member after later below obj inside => ?_⟩
  exact ⟨name, data, entries, own, log, named, le_rfl, sure, parsed, holds commit member after
    (passed.trans_lt later) below obj inside⟩

private theorem catchup_keeps (config : Config) :
    (diskRules origin).Triple (Keeping origin (Calm True)) (catchup config 0) (fun _ => Keeping origin Anything)
      (fun _ => Keeping origin Anything) := by
  unfold catchup
  refine pidFile_keeps enduring_calm apart_calm enduring_anything apart_anything ?_
  refine Discipline.Triple.via (fun (lsn : Nat) => Keeping origin (SavedTo origin lsn)) ?_ (fun (lsn : Nat) => ?_)
  · unfold catchupTarget
    rw [if_neg (by simp)]
    have learns (names : List Text) : Enduring (fun c => ∀ lsn, getLsn names = .ok lsn → SavedTo origin lsn c) :=
      fun w w' disk commits here lsn same => enduring_savedTo lsn w w' disk commits (here lsn same)
    refine Discipline.Triple.via (fun (names : List Text) =>
      Keeping origin (fun c => ∀ lsn, getLsn names = .ok lsn → SavedTo origin lsn c))
      ?_ (fun (names : List Text) => ?_)
    · refine operate_triple enduring_calm learns (fun w disk names w' durable here done => ?_)
      obtain ⟨_, complete, rfl⟩ := done
      refine ⟨durable, fun lsn same => ?_⟩
      rcases (getLsn_spec same).1 with rfl | ⟨name, member, log, named⟩
      · exact fun other => absurd rfl other
      · exact durable.savedTo (here trivial) log ((complete name).mp member) named
    · intro c here
      cases same : getLsn names with
      | error fault => exact fun c' later => stable_anything.later later here.anything
      | ok lsn => exact fun c' later => (enduring_savedTo lsn).stable.later later ⟨here.1, here.2 lsn same⟩
  · refine Discipline.Triple.ite (fun _ => Discipline.Triple.pure stable_anything (fun _ here => here.anything))
      (fun other => ?_)
    refine (spared_part (enduring_savedTo lsn) (apart_savedTo lsn)
      (look_uses (show Op.connect.Looks from trivial))).bind (fun _ => ?_)
    refine (spares_triple (enduring_savedTo lsn) (apart_savedTo lsn) getDbVersion_uses).bind (fun _ => ?_)
    rintro c ⟨_, here⟩
    have advanced : (diskRules origin).Triple (Keeping origin (SavedTo origin lsn)) (catchupToLsn (lsnStr lsn))
        (fun _ => Keeping origin Anything) (fun _ => Keeping origin Anything) := by
      refine catchupToLsn_keeps (enduring_savedTo lsn) (apart_savedTo lsn) enduring_anything
        (here.2 other).1 (fun w disk durable saved => ?_)
      obtain ⟨_, reached, each⟩ := saved other
      exact ⟨durable.advance reached each, trivial⟩
    exact (advanced.bind (fun _ => commits_part enduring_anything apart_anything)) c here

end Catchup

/-- What happens while nothing is running: get-log is started, catchup when the directory of the
log files is synced, a pid file that was left over is removed, or the power comes back. -/
inductive LogStart (config : Config) : World × LogDisk → Prog Unit → World × LogDisk → Prop where
  | getLog (options : GetLogOptions) (c : World × LogDisk) : LogStart config c (getLog config options) c
  | catchup (c : World × LogDisk) (synced : LogsSynced c.2) : LogStart config c (catchup config 0) c
  | cleanUp (c : World × LogDisk) : LogStart config c (unlink (pidPath logPidName)) c
  | restart {c c' : World × LogDisk} (lost : PowerLost c c') : LogStart config c (pure ()) c'

def DiskCommits (c c' : World × LogDisk) : Prop := Commits c.1 c'.1 ∧ c'.2 = c.2

section Whole

variable {config : Config} {origin : Nat} {current : (World × LogDisk) × Option (Prog Unit)}

/-- Every program that is started keeps what is durable. -/
theorem LogStart.safe {c c' : World × LogDisk} {program : Prog Unit} (started : LogStart config c program c')
    (durable : Durable origin c) :
    Durable origin c' ∧ (diskRules origin).Safe (fun _ => Keeping origin Anything)
      (fun _ => Keeping origin Anything) program (c', ()) := by
  cases started with
  | getLog options =>
    have triple := @getLog_keeps origin config options False
    exact ⟨durable, (triple (c, ()) ⟨durable, False.elim⟩).weaken (fun _ _ here => here.anything) (fun _ _ => id)⟩
  | catchup _ synced => exact ⟨durable, catchup_keeps config (c, ()) ⟨durable, fun _ => synced⟩⟩
  | cleanUp =>
    have triple := @spared_part origin _ enduring_anything apart_anything _ (unlink_uses (pidPath_spared logPidName))
    exact ⟨durable, triple (c, ()) ⟨durable, trivial⟩⟩
  | restart lost =>
    exact ⟨durable.restart lost, fun _ later => stable_anything.later later ⟨durable.restart lost, trivial⟩⟩

private theorem logTools_durable {start : World × LogDisk} (durable : Durable origin start)
    (reached : Relation.ReflTransGen (Sequential DiskStep DiskCommits (LogStart config)) (start, none) current) :
    Durable origin current.1 := by
  have kept : Sequential.Holds (diskRules origin) (fun _ => Keeping origin Anything) (fun _ => Keeping origin Anything)
      (fun c => Durable origin c.1) (fun c => Durable origin c.1) current := by
    have changed {c c' : World × LogDisk} (here : Durable origin c) (change : DiskCommits c c') :
        Durable origin c' := by
      obtain ⟨w, disk⟩ := c
      obtain ⟨w', disk'⟩ := c'
      obtain ⟨commits, same⟩ := change
      obtain rfl : disk' = disk := same
      exact here.commits commits
    refine Sequential.invariant (fun c c' _ here change => ⟨(), changed here change⟩)
      (fun c c' _ here change => ⟨(), change, changed here change⟩) (fun c program c' _ here started => ?_)
      (fun c c' here (move : Durable origin c.1 → Durable origin c'.1) => move here)
        (fun c _ here => ⟨(), here⟩) ?_ reached
    · obtain ⟨here', safe⟩ := started.safe here
      exact ⟨(), here', safe⟩
    · exact ⟨(), durable⟩
  obtain ⟨c, _ | program⟩ := current
  · obtain ⟨_, here⟩ := kept
    exact here
  · obtain ⟨_, here, _⟩ := kept
    exact here

/-- Nothing was logged yet, and everything is synced. -/
theorem durable_start {w : World} (order : w.wal.Pairwise (fun a b => a.lsn < b.lsn))
    (small : ∀ commit ∈ w.wal, commit.lsn < 2 ^ 64)
    (fresh : ∀ name, isLog name = true → w.get ⟨.log, name⟩ = none) : Durable w.slot (w, .initial w.get) := by
  refine ⟨order, small, .inl le_rfl, (funext (Volume.read_initial _)).symm, Volume.sealed_initial ?_,
    fun commit _ after below => ?_⟩
  · rintro ⟨dir, name⟩ content ⟨rfl, log⟩ stored
    cases (fresh name log).symm.trans stored
  · exact absurd after (not_lt.mpr below)

/-- get-log is started and stopped, transactions commit, the power is lost at any time, and catchup runs when the
directory is synced: whatever a power loss takes away, every log file that is left has all inserts from a position the
slot has passed up to the position in its name, and the inserts the slot has passed are in these files. -/
theorem logs_survive {w : World} (order : w.wal.Pairwise (fun a b => a.lsn < b.lsn))
    (small : ∀ commit ∈ w.wal, commit.lsn < 2 ^ 64)
    (fresh : ∀ name, isLog name = true → w.get ⟨.log, name⟩ = none)
    (reached : Relation.ReflTransGen (Sequential DiskStep DiskCommits (LogStart config))
      ((w, .initial w.get), none) current)
    {files : Path → Option Content} (survives : current.1.2.Survives files) :
    (∀ name content, isLog name = true → files ⟨.log, name⟩ = some content →
      ∃ data entries lsn first, content = .text data ∧ logEntries data = .ok entries ∧ lsnOfName name = .ok lsn ∧
        first ≤ current.1.1.slot ∧ ∀ commit ∈ current.1.1.wal, w.slot < commit.lsn → first < commit.lsn →
          commit.lsn ≤ lsn → ∀ obj ∈ commit.inserts, obj ∈ entries) ∧
    ∀ commit ∈ current.1.1.wal, w.slot < commit.lsn → commit.lsn ≤ current.1.1.slot → ∀ obj ∈ commit.inserts,
      ∃ name data entries, isLog name = true ∧ files ⟨.log, name⟩ = some (.text data) ∧
        logEntries data = .ok entries ∧ obj ∈ entries := by
  have durable := logTools_durable (durable_start order small fresh) reached
  constructor
  · intro name content log stored
    obtain ⟨data, entries, lsn, first, text, read, named, _, _, passed, holds⟩ :=
      durable.files.good_survives (show LogPath ⟨.log, name⟩ from ⟨rfl, log⟩) survives stored
    exact ⟨data, entries, lsn, first, text, read, named, passed, holds⟩
  · intro commit member after below obj inside
    obtain ⟨name, data, entries, _, log, _, _, sure, rest⟩ := durable.logged commit member after below obj inside
    exact ⟨name, data, entries, log, sure.survives survives, rest⟩

/-- A run of get-log that ends normally leaves the directory synced, if it was before. -/
private theorem getLog_synced {c c' : World × LogDisk} {options : GetLogOptions} (durable : Durable origin c)
    (synced : LogsSynced c.2)
    (run : Execution DiskStep DiskCommits (getLog config options) c (.ok ()) c') : LogsSynced c'.2 := by
  have safe := @getLog_keeps origin config options True (c, ()) ⟨durable, fun _ => synced⟩
  have follows {s s' : World × LogDisk} (t : Unit) (change : DiskCommits s s') :
      ∃ t', (diskRules origin).rely (s, t) (s', t') :=
    ⟨(), change⟩
  obtain ⟨_, _, calm⟩ := Execution.post follows run safe
  exact calm trivial

end Whole

/-- Every run happens on a disk. -/
theorem ends_disk {program : Prog Unit} {w w' : World} {result : Except Fault Unit}
    (ends : Ends program w result w') (disk : LogDisk) :
    ∃ disk', program.Ends DiskStep (w, disk) result (w', disk') := by
  have each (w : World) (op : Op) (reply : Reply op) (w' : World) (c : World × LogDisk) (same : w = c.1) (_ : True)
      (done : Step w op reply w') : ∃ c', DiskStep c op reply c' ∧ w' = c'.1 := by
    subst same
    cases reply with
    | ok value => exact ⟨(w', op.stored c.2 w'), ⟨done, rfl⟩, rfl⟩
    | error code => exact ⟨(w', c.2), ⟨done, rfl⟩, rfl⟩
  obtain ⟨⟨_, disk'⟩, ran, rfl⟩ := ends.simulate program.uses_anything each (show w = (w, disk).1 from rfl)
  exact ⟨disk', ran⟩

/-- get-log has written the first node. -/
def firstWritten : World := (answering 1 (getLog {} {}) firstChange).2

/-- catchup has moved the slot behind it. -/
def firstPassed : World := (answering 0 (catchup {} 0) firstWritten).2

private theorem firstPassed_runs : (answering 1 (getLog {} {}) firstChange).1 = some (.ok ()) ∧
    (answering 0 (catchup {} 0) firstWritten).1 = some (.ok ()) ∧ firstPassed.slot = 64 ∧
    firstPassed.wal = nodeCommits (twoChanges.take 1) := by
  decide +kernel

theorem firstChange_logless (name : Text) : firstChange.get ⟨.log, name⟩ = none := by
  cases found : firstChange.get ⟨.log, name⟩ with
  | none => rfl
  | some content => cases firstChange_only found

/-- catchup may start, because get-log ended normally. -/
theorem logs_survive_node : ∃ disk : LogDisk, ∃ name data entries, isLog name = true ∧
    disk.read ⟨.log, name⟩ = some (.text data) ∧ logEntries data = .ok entries ∧
    (⟨.node, 1, 1, 10⟩ : Osmobj) ∈ entries := by
  obtain ⟨logged, caught, slot, wal⟩ := firstPassed_runs
  obtain ⟨disk₁, logs⟩ := ends_disk (answering_ends logged) (.initial firstChange.get)
  obtain ⟨disk, catches⟩ := ends_disk (answering_ends caught) disk₁
  have durable : Durable 0 (firstChange, .initial firstChange.get) :=
    durable_start (by decide) (by decide) (fun name _ => firstChange_logless name)
  have synced : LogsSynced disk₁ := getLog_synced durable (fun _ _ _ none => nomatch none) logs.execution
  have reached : Relation.ReflTransGen (Sequential DiskStep DiskCommits (LogStart {}))
      ((firstChange, .initial firstChange.get), none) ((firstPassed, disk), none) :=
    (logs.visits.stopped (.getLog {} _)).trans (catches.visits.stopped (.catchup _ synced))
  have survived := (@logs_survive {} _ firstChange (by decide) (by decide) (fun name _ => firstChange_logless name)
    reached disk.read disk.survives_read).2
  dsimp only at survived
  have member : (⟨64, [⟨.node, 1, 1, 10⟩]⟩ : Commit) ∈ firstPassed.wal := by
    rw [wal]
    decide
  exact ⟨disk, survived _ member (by decide) slot.ge _ List.mem_cons_self⟩

end Osmdbt
