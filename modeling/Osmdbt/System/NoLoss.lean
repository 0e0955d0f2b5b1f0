import Osmdbt.Log.Rules
import Osmdbt.Diff.Requests
import Osmdbt.System.Serve

/-! No change is lost: in every interleaving of get-log, catchup and create-diff
the slot never gets ahead of what stands in the log files. -/

namespace Osmdbt

open General

section Logged

variable (origin : Nat)

/-- No position beyond what was committed since the slot was created at `origin`. -/
def Reached (w : World) (position : Nat) : Prop := position ≤ origin ∨ ∃ commit ∈ w.wal, position ≤ commit.lsn

/-- An insert stands in a complete log file with the given LSN. -/
def InFile (w : World) (name : Text) (lsn : Nat) (obj : Osmobj) : Prop :=
  ∃ data entries, LogFile w name (.text data) ∧ lsnOfName name = .ok lsn ∧
    logEntries data = .ok entries ∧ obj ∈ entries

/-- Everything that was committed up to the position stands in files up to it. -/
structure Logged (w : World) (position : Nat) : Prop where
  reached : Reached origin w position
  file : ∀ commit ∈ w.wal, commit.lsn ≤ position → ∀ obj ∈ commit.inserts,
    ∃ name lsn, InFile w name lsn obj ∧ commit.lsn ≤ lsn ∧ lsn ≤ position

/-- A file with everything from `start` up to its own LSN, and nothing before
`start` is missing elsewhere. -/
structure Covers (w : World) (name data : Text) (start lsn : Nat) : Prop where
  name : lsnOfName name = .ok lsn
  small : lsn < 2 ^ 64
  reached : Reached origin w lsn
  before : start < lsn
  logged : Logged origin w start
  entries : ∃ entries, logEntries data = .ok entries ∧ ∀ commit ∈ w.wal, start < commit.lsn → commit.lsn ≤ lsn →
    ∀ obj ∈ commit.inserts, obj ∈ entries

variable {origin} {w w' : World} {name data : Text} {start lsn position : Nat}

/-- The position of a file is logged. -/
theorem Covers.reach (covers : Covers origin w name data start lsn) (file : LogFile w name (.text data)) :
    Logged origin w lsn := by
  refine ⟨covers.reached, fun commit member below obj inside => ?_⟩
  obtain ⟨entries, read, holds⟩ := covers.entries
  by_cases after : start < commit.lsn
  · exact ⟨name, lsn, ⟨data, entries, file, covers.name, read, holds commit member after below obj inside⟩,
      below, le_rfl⟩
  · obtain ⟨other, own, stored, above, bound⟩ := covers.logged.file commit member (by omega) obj inside
    have before := covers.before
    exact ⟨other, own, stored, above, by omega⟩

/-- A covering file replaces another one of its name: nothing that was logged is lost. -/
theorem Logged.replace (logged : Logged origin w position) (covers : Covers origin w name data start lsn)
    (wal : w'.wal = w.wal)
    (others : ∀ other content, other ≠ name → LogFile w other content → LogFile w' other content)
    (new : LogFile w' name (.text data)) : Logged origin w' position := by
  have keep {other : Text} {own : Nat} {obj : Osmobj} (different : other ≠ name) (stored : InFile w other own obj) :
      InFile w' other own obj := by
    obtain ⟨stored, entries, file, rest⟩ := stored
    exact ⟨stored, entries, others other _ different file, rest⟩
  refine ⟨by rw [Reached, wal]; exact logged.reached, fun commit member below obj inside => ?_⟩
  rw [wal] at member
  obtain ⟨other, own, stored, above, bound⟩ := logged.file commit member below obj inside
  by_cases same : other = name
  · subst same
    obtain ⟨_, _, _, ownName, _⟩ := stored
    obtain rfl : own = lsn := Except.ok.inj (ownName.symm.trans covers.name)
    by_cases after : start < commit.lsn
    · obtain ⟨entries, read, holds⟩ := covers.entries
      exact ⟨other, own, ⟨data, entries, new, covers.name, read, holds commit member after above obj inside⟩,
        above, bound⟩
    · -- the insert is older than the replaced part, and so is its file
      obtain ⟨older, its, stored', above', bound'⟩ := covers.logged.file commit member (by omega) obj inside
      have before := covers.before
      have different : older ≠ other := by
        rintro rfl
        obtain ⟨_, _, _, itsName, _⟩ := stored'
        have equal : its = own := Except.ok.inj (itsName.symm.trans covers.name)
        omega
      exact ⟨older, its, keep different stored', above', by omega⟩
  · exact ⟨other, own, keep same stored, above, bound⟩

theorem Covers.keep {other stored : Text} {from' own : Nat} (covers : Covers origin w other stored from' own)
    (wal : w'.wal = w.wal) (logged : Logged origin w from' → Logged origin w' from') :
    Covers origin w' other stored from' own := by
  refine ⟨covers.name, covers.small, ?_, covers.before, logged covers.logged, ?_⟩
  · rw [Reached, wal]
    exact covers.reached
  · rw [wal]
    exact covers.entries

end Logged

/-- What always holds. -/
structure LogSafe (origin : Nat) (w : World) : Prop where
  order : w.wal.Pairwise (fun a b => a.lsn < b.lsn)
  bounds : ∀ commit ∈ w.wal, origin < commit.lsn ∧ commit.lsn < 2 ^ 64
  slot : Logged origin w w.slot
  files : ∀ name content, LogFile w name content →
    ∃ data start lsn, content = .text data ∧ Covers origin w name data start lsn

section Steps

variable {origin : Nat} {w w' : World}

/-- What a step leaves to everybody else. -/
structure Progress (origin : Nat) (w w' : World) : Prop where
  safe : LogSafe origin w'
  logged : ∀ position, Logged origin w position → Logged origin w' position
  wal : ∃ more, w'.wal = w.wal ++ more ∧ ∀ position, Reached origin w position → ∀ commit ∈ more, position < commit.lsn

theorem Progress.of_replace {name data : Text} {start lsn : Nat} (safe : LogSafe origin w)
    (covers : Covers origin w name data start lsn) (wal : w'.wal = w.wal) (slot : w'.slot = w.slot)
    (others : ∀ other content, other ≠ name → LogFile w other content → LogFile w' other content)
    (new : LogFile w' name (.text data))
    (only : ∀ other content, LogFile w' other content → LogFile w other content ∨ other = name ∧
      content = .text data) :
    Progress origin w w' := by
  have logged {position : Nat} (here : Logged origin w position) : Logged origin w' position :=
    here.replace covers wal others new
  refine ⟨⟨by rw [wal]; exact safe.order, by rw [wal]; exact safe.bounds, by rw [slot]; exact logged safe.slot, ?_⟩,
    fun _ => logged, [], by rw [wal, List.append_nil], by simp⟩
  intro other content file
  rcases only other content file with old | ⟨rfl, rfl⟩
  · obtain ⟨stored, from', own, same, covered⟩ := safe.files other content old
    exact ⟨stored, from', own, same, covered.keep wal logged⟩
  · exact ⟨data, start, lsn, rfl, covers.keep wal logged⟩

theorem Progress.of_same (safe : LogSafe origin w) (wal : w'.wal = w.wal) (position : Nat)
    (slot : w'.slot = max w.slot position) (known : Logged origin w position)
    (same : ∀ name content, LogFile w' name content ↔ LogFile w name content) : Progress origin w w' := by
  have logged {position : Nat} (here : Logged origin w position) : Logged origin w' position := by
    refine ⟨by rw [Reached, wal]; exact here.reached, fun commit member below obj inside => ?_⟩
    rw [wal] at member
    obtain ⟨name, lsn, ⟨data, entries, file, rest⟩, bounds⟩ := here.file commit member below obj inside
    exact ⟨name, lsn, ⟨data, entries, (same _ _).mpr file, rest⟩, bounds⟩
  refine ⟨⟨by rw [wal]; exact safe.order, by rw [wal]; exact safe.bounds, ?_, ?_⟩, fun _ => logged, [],
    by rw [wal, List.append_nil], by simp⟩
  · rcases max_choice w.slot position with old | new
    · rw [slot, old]
      exact logged safe.slot
    · rw [slot, new]
      exact logged known
  · intro name content file
    obtain ⟨data, start, lsn, text, covers⟩ := safe.files name content ((same _ _).mp file)
    exact ⟨data, start, lsn, text, covers.keep wal logged⟩

/-- A transaction commits behind all others. -/
theorem Progress.of_commit (safe : LogSafe origin w) {commit : Commit} (tables : Tables)
    (above : ∀ other ∈ w.wal, other.lsn < commit.lsn) (after : origin < commit.lsn) (small : commit.lsn < 2 ^ 64) :
    Progress origin w { w with wal := w.wal ++ [commit], tables } := by
  have beyond {position : Nat} (reached : Reached origin w position) : position < commit.lsn := by
    rcases reached with early | ⟨other, member, bound⟩
    · omega
    · have := above other member
      omega
  have reached {position : Nat} (here : Reached origin w position) :
      Reached origin { w with wal := w.wal ++ [commit], tables } position :=
    here.imp_right (fun ⟨other, member, bound⟩ => ⟨other, List.mem_append_left _ member, bound⟩)
  have logged {position : Nat} (here : Logged origin w position) :
      Logged origin { w with wal := w.wal ++ [commit], tables } position := by
    refine ⟨reached here.reached, fun other member below obj inside => ?_⟩
    rcases List.mem_append.mp member with old | new
    · exact here.file other old below obj inside
    · obtain rfl := List.mem_singleton.mp new
      have := beyond here.reached
      omega
  refine ⟨⟨?_, ?_, logged safe.slot, ?_⟩, fun _ => logged, [commit], rfl, ?_⟩
  · exact List.pairwise_append.mpr ⟨safe.order, List.pairwise_singleton _ _, by simpa using above⟩
  · intro other member
    rcases List.mem_append.mp member with old | new
    · exact safe.bounds other old
    · obtain rfl := List.mem_singleton.mp new
      exact ⟨after, small⟩
  · intro name content file
    obtain ⟨data, start, lsn, text, covers⟩ := safe.files name content file
    obtain ⟨entries, read, holds⟩ := covers.entries
    refine ⟨data, start, lsn, text, covers.name, covers.small, reached covers.reached, covers.before,
      logged covers.logged, entries, read, fun other member later below => ?_⟩
    rcases List.mem_append.mp member with old | new
    · exact holds other old later below
    · obtain rfl := List.mem_singleton.mp new
      have := beyond covers.reached
      omega
  · intro position here other member
    obtain rfl := List.mem_singleton.mp member
    exact beyond here

private theorem logFile_same (get : ∀ path, path.dir = .log → (∀ name, path ≠ newLog name) → w'.get path = w.get path)
    (name : Text) (content : Content) : LogFile w' name content ↔ LogFile w name content := by
  unfold LogFile
  by_cases log : isLog name = true
  · rw [get _ rfl (newLog_ne log), get _ rfl (fun other => (newLog_ne_doneFile other name).symm)]
  · simp [log]

theorem Progress.of_untouched (safe : LogSafe origin w) {touched : Path → Prop} (same : Untouched touched w w')
    (outside : ∀ path, touched path → path.dir = .log → ∃ name, path = newLog name) : Progress origin w w' := by
  refine Progress.of_same safe same.wal w.slot (by rw [same.slot, max_self]) safe.slot (logFile_same ?_)
  intro path log notNew
  refine same.get path (fun inside => ?_)
  obtain ⟨name, new⟩ := outside path inside log
  exact notNew name new

end Steps

section Processes

variable {ι : Type} (origin : Nat)

/-- A file under its first name belongs to the process that created it. -/
structure Shared (c : World × (Path → Option ι)) : Prop where
  safe : LogSafe origin c.1
  owned : ∀ path i, c.2 path = some i → (∃ name, path = newLog name) ∧ (c.1.get path).isSome

/-- What belongs to `i` is as before. -/
def Keeps.Own (i : ι) (c c' : World × (Path → Option ι)) : Prop :=
  ∀ path, c.2 path = some i → c'.2 path = some i ∧ c'.1.get path = c.1.get path

def processRules (i : ι) : Rules (Path → Option ι) where
  step := Step
  rely c c' := Shared origin c → Shared origin c' ∧ Progress origin c.1 c'.1 ∧ Keeps.Own i c c'
  move c c' := Shared origin c → Shared origin c' ∧ Progress origin c.1 c'.1 ∧ ∀ j, j ≠ i → Keeps.Own j c c'

variable {origin} {i : ι}

/-- Changes outside of `log_dir` are nobody's concern. -/
theorem shared_untouched {touched : Path → Prop} {w w' : World} {owner : Path → Option ι}
    (shared : Shared origin (w, owner))
    (same : Untouched touched w w') (outside : ∀ path, touched path → path.dir ≠ .log) :
    Shared origin (w', owner) ∧ Progress origin w w' ∧ ∀ j, Keeps.Own j (w, owner) (w', owner) := by
  have progress : Progress origin w w' := .of_untouched shared.safe same (fun path inside log =>
    absurd log (outside path inside))
  have kept (path : Path) (j : ι) (own : owner path = some j) : w'.get path = w.get path := by
    obtain ⟨⟨name, rfl⟩, _⟩ := shared.owned path j own
    exact same.get _ (fun inside => outside _ inside rfl)
  refine ⟨⟨progress.safe, fun path j own => ⟨(shared.owned path j own).1, ?_⟩⟩, progress, fun j path own =>
    ⟨own, kept path j own⟩⟩
  change (w'.get path).isSome
  rw [kept path j own]
  exact (shared.owned path j own).2

/-- An assertion that others respect. -/
theorem station_quiet {F : World × (Path → Option ι) → Prop}
    (lasts : ∀ c c', Shared origin c' → Progress origin c.1 c'.1 → Keeps.Own i c c' → F c → F c') :
    Quiet (processRules origin i) InRun (fun c => Shared origin c ∧ F c) where
  stable := by
    rintro c c' change ⟨shared, here⟩
    obtain ⟨shared', progress, own⟩ := change shared
    exact ⟨shared', lasts c c' shared' progress own here⟩
  kept := by
    rintro w w' owner ⟨shared, here⟩ same
    obtain ⟨shared', progress, own⟩ := shared_untouched shared same (fun path run log => by
      rw [InRun, log] at run
      cases run)
    exact ⟨shared', lasts _ _ shared' progress (own i) here⟩
  allowed := by
    rintro w w' owner _ same shared
    obtain ⟨shared', progress, own⟩ := shared_untouched shared same (fun path run log => by
      rw [InRun, log] at run
      cases run)
    exact ⟨shared', progress, fun j _ => own j⟩

theorem shared_quiet : Quiet (processRules origin i) InRun (Shared origin) := by
  have quiet := station_quiet (F := fun _ => True) (i := i) (fun c c' (_ : Shared origin c') _ _ _ => trivial)
  simpa using quiet

/-- The transactions that were peeked: all behind `start`, up to the last of them. -/
structure Batch (origin : Nat) (w : World) (sent : List Commit) (start : Nat) : Prop where
  logged : Logged origin w start
  inside : ∀ commit ∈ sent, commit ∈ w.wal ∧ start < commit.lsn
  complete : ∀ last, sent.getLast? = some last → ∀ commit ∈ w.wal, start < commit.lsn → commit.lsn ≤ last.lsn →
    commit ∈ sent

theorem Batch.later {w w' : World} {sent : List Commit} {start : Nat} (batch : Batch origin w sent start)
    (progress : Progress origin w w') : Batch origin w' sent start := by
  obtain ⟨more, wal, beyond⟩ := progress.wal
  refine ⟨progress.logged start batch.logged, fun commit member => ⟨?_, (batch.inside commit member).2⟩,
    fun last ends commit member after below => ?_⟩
  · rw [wal]
    exact List.mem_append_left _ (batch.inside commit member).1
  · rw [wal] at member
    rcases List.mem_append.mp member with old | new
    · exact batch.complete last ends commit old after below
    · have inside := (batch.inside last (List.mem_of_getLast? ends)).1
      have := beyond last.lsn (.inr ⟨last, inside, le_rfl⟩) commit new
      omega

theorem Taken.front {limit : Option Nat} {pending sent : List Commit} (taken : Taken limit pending sent) :
    sent <+: pending := by
  cases limit with
  | none => exact taken ▸ List.prefix_refl _
  | some n => exact taken.1

theorem Taken.some {limit : Option Nat} {pending sent : List Commit} (taken : Taken limit pending sent) :
    pending ≠ [] → sent ≠ [] := by
  cases limit with
  | none => exact taken ▸ id
  | some n => exact taken.2

theorem Batch.of_peek {w : World} (safe : LogSafe origin w) {limit : Option Nat} {sent : List Commit}
    (taken : Taken limit w.pending sent) : Batch origin w sent w.slot := by
  obtain ⟨rest, split⟩ := taken.front
  have pending {commit : Commit} : commit ∈ w.pending ↔ commit ∈ w.wal ∧ w.slot < commit.lsn := by
    simp [World.pending]
  refine ⟨safe.slot, fun commit member => pending.mp (split ▸ List.mem_append_left _ member),
    fun last ends commit member after below => ?_⟩
  have here : commit ∈ sent ++ rest := split ▸ pending.mpr ⟨member, after⟩
  rcases List.mem_append.mp here with inside | beyond
  · exact inside
  · have order : (sent ++ rest).Pairwise (fun a b => a.lsn < b.lsn) := split ▸ safe.order.filter _
    have := (List.pairwise_append.mp order).2.2 last (List.mem_of_getLast? ends) commit beyond
    omega

/-- The new file covers what was peeked. -/
theorem Batch.covers {w : World} (safe : LogSafe origin w) {sent : List Commit} {start : Nat} {last : Commit}
    {data : Text} (batch : Batch origin w sent start) (ends : sent.getLast? = some last) (time : Timestamp)
    (entries : logEntries data = .ok (Commit.objects sent)) :
    Covers origin w (replicationLogName (lsnStr last.lsn) time) data start last.lsn := by
  obtain ⟨member, after⟩ := batch.inside last (List.mem_of_getLast? ends)
  have small := (safe.bounds last member).2
  refine ⟨lsnOfName_replicationLogName small time, small, .inr ⟨last, member, le_rfl⟩, after, batch.logged,
    _, entries, ?_⟩
  intro commit here later below obj inside
  exact List.mem_flatMap.mpr ⟨commit, batch.complete last ends commit here later below, inside⟩

/-- Without inserts nothing needs a file. -/
theorem Batch.skip {w : World} {sent : List Commit} {start : Nat} {last : Commit}
    (batch : Batch origin w sent start) (ends : sent.getLast? = some last) (empty : Commit.objects sent = []) :
    Logged origin w last.lsn := by
  obtain ⟨member, after⟩ := batch.inside last (List.mem_of_getLast? ends)
  refine ⟨.inr ⟨last, member, le_rfl⟩, fun commit here below obj inside => ?_⟩
  by_cases later : start < commit.lsn
  · have sentToo := batch.complete last ends commit here later below
    have found : obj ∈ Commit.objects sent := List.mem_flatMap.mpr ⟨commit, sentToo, inside⟩
    rw [empty] at found
    cases found
  · obtain ⟨name, lsn, stored, above, bound⟩ := batch.logged.file commit here (by omega) obj inside
    exact ⟨name, lsn, stored, above, by omega⟩

/-- What get-log, run as process `i`, knows. -/
def processStations (origin : Nat) (i : ι) : LogStations (Path → Option ι) where
  ready c := Shared origin c
  peeked sent c := Shared origin c ∧ ∃ start, Batch origin c.1 sent start
  writing sent name written c := Shared origin c ∧ (∃ start, Batch origin c.1 sent start) ∧
    (∃ last time, sent.getLast? = some last ∧ name = replicationLogName (lsnStr last.lsn) time) ∧
    c.2 (newLog name) = some i ∧ c.1.get (newLog name) = some (.text written)
  filed sent c := Shared origin c ∧ ∀ last, sent.getLast? = some last → Logged origin c.1 last.lsn ∧ last.lsn < 2 ^ 64
  ended c := Shared origin c
  failed c := Shared origin c

/-- A change of one file that belongs to `i`, or to nobody yet. -/
theorem shared_put {w : World} {owner : Path → Option ι} (shared : Shared origin (w, owner)) {name : Text}
    (content : Content) (mine : ∀ j, owner (newLog name) = some j → j = i) :
    let owner' := Function.update owner (newLog name) (some i)
    Shared origin (w.put (newLog name) content, owner') ∧ Progress origin w (w.put (newLog name) content) ∧
      ∀ j, j ≠ i → Keeps.Own j (w, owner) (w.put (newLog name) content, owner') := by
  have progress : Progress origin w (w.put (newLog name) content) :=
    .of_untouched shared.safe (untouched_put w (newLog name) content) (fun path same _ => ⟨name, same⟩)
  refine ⟨⟨progress.safe, fun path j own => ?_⟩, progress, fun j other path own => ?_⟩
  · by_cases same : path = newLog name
    · subst same
      exact ⟨⟨name, rfl⟩, Option.isSome_iff_exists.mpr ⟨_, World.get_put_self _ _ _⟩⟩
    · have before : owner path = some j := by simpa [same] using own
      refine ⟨(shared.owned path j before).1, ?_⟩
      change ((w.put (newLog name) content).get path).isSome
      rw [World.get_put_ne _ _ _ same]
      exact (shared.owned path j before).2
  · have same : path ≠ newLog name := by
      rintro rfl
      exact other (mine j own)
    exact ⟨by simpa [same] using own, World.get_put_ne _ _ _ same⟩

/-- The file gets its name, and what had this name before is replaced. -/
private theorem shared_file {w : World} {owner : Path → Option ι} (shared : Shared origin (w, owner))
    {name data : Text}
    {start lsn : Nat} (log : isLog name = true) (mine : owner (newLog name) = some i)
    (covers : Covers origin w name data start lsn) :
    let w' := w.rename (newLog name) ⟨.log, name⟩ (.text data)
    let owner' := Function.update owner (newLog name) none
    Shared origin (w', owner') ∧ Progress origin w w' ∧ ∀ j, j ≠ i → Keeps.Own j (w, owner) (w', owner') := by
  have get {path : Path} (notNew : path ≠ newLog name) (notName : path ≠ ⟨.log, name⟩) :
      (w.rename (newLog name) ⟨.log, name⟩ (.text data)).get path = w.get path :=
    World.get_rename_ne _ _ _ notNew notName
  have getDone (other : Text) : (w.rename (newLog name) ⟨.log, name⟩ (.text data)).get (doneFile other) =
      w.get (doneFile other) :=
    get (newLog_ne_doneFile name other).symm (doneFile_ne log other).symm
  have getLog {other : Text} (otherLog : isLog other = true) (different : other ≠ name) :
      (w.rename (newLog name) ⟨.log, name⟩ (.text data)).get ⟨.log, other⟩ = w.get ⟨.log, other⟩ :=
    get (newLog_ne otherLog name) (fun same => different (congrArg Path.name same))
  have progress : Progress origin w (w.rename (newLog name) ⟨.log, name⟩ (.text data)) := by
    refine Progress.of_replace shared.safe covers rfl rfl ?_ ⟨log, .inl (World.get_rename_new _ _ _ _)⟩ ?_
    · rintro other content different ⟨otherLog, file⟩
      rw [LogFile, getLog otherLog different, getDone]
      exact ⟨otherLog, file⟩
    · rintro other content ⟨otherLog, file⟩
      by_cases same : other = name
      · subst same
        rw [World.get_rename_new, getDone] at file
        rcases file with new | old
        · exact .inr ⟨rfl, (Option.some.inj new).symm⟩
        · exact .inl ⟨otherLog, .inr old⟩
      · rw [getLog otherLog same, getDone] at file
        exact .inl ⟨otherLog, file⟩
  have own {path : Path} {j : ι} (here : owner path = some j) (other : path ≠ newLog name) :
      (w.rename (newLog name) ⟨.log, name⟩ (.text data)).get path = w.get path := by
    obtain ⟨⟨stem, rfl⟩, _⟩ := shared.owned path j here
    exact get other (newLog_ne log stem).symm
  refine ⟨⟨progress.safe, fun path j here => ?_⟩, progress, fun j other path here => ?_⟩
  · have different : path ≠ newLog name := by
      rintro rfl
      simp at here
    have before : owner path = some j := by simpa [different] using here
    refine ⟨(shared.owned path j before).1, ?_⟩
    change ((w.rename (newLog name) ⟨.log, name⟩ (.text data)).get path).isSome
    rw [own before different]
    exact (shared.owned path j before).2
  · have different : path ≠ newLog name := by
      rintro rfl
      exact other (Option.some.inj (here.symm.trans mine))
    exact ⟨by simpa [different] using here, own here different⟩

theorem shared_advance {w : World} {owner : Path → Option ι} (shared : Shared origin (w, owner)) {lsn : Nat}
    (logged : Logged origin w lsn) :
    Shared origin ({ w with slot := max w.slot lsn }, owner) ∧ Progress origin w { w with slot := max w.slot lsn } ∧
      ∀ j, j ≠ i → Keeps.Own j (w, owner) ({ w with slot := max w.slot lsn }, owner) := by
  have progress : Progress origin w { w with slot := max w.slot lsn } :=
    .of_same shared.safe rfl lsn rfl logged (fun _ _ => Iff.rfl)
  exact ⟨⟨progress.safe, shared.owned⟩, progress, fun _ _ _ own => ⟨own, rfl⟩⟩

private theorem processStations_sound (i : ι) (options : GetLogOptions) :
    (processStations origin i).Sound (processRules origin i) options where
  step := rfl
  ready := shared_quiet
  peeked sent := station_quiet (fun _ _ _ progress _ ⟨start, batch⟩ => ⟨start, batch.later progress⟩)
  writing sent name written := by
    refine station_quiet ?_
    rintro c c' _ progress own ⟨⟨start, batch⟩, named, mine, stored⟩
    obtain ⟨mine', same⟩ := own _ mine
    exact ⟨⟨start, batch.later progress⟩, named, mine', same.trans stored⟩
  filed sent := station_quiet (fun _ _ _ progress _ here last ends =>
    ⟨progress.logged _ (here last ends).1, (here last ends).2⟩)
  ended := shared_quiet
  failed := shared_quiet
  readyFails _ here := here
  peekedFails _ _ here := here.1
  writingFails _ _ _ _ here := here.1
  filedFails _ _ here := here.1
  endedFails _ here := here
  small _ _ last here ends := (here.2 last ends).2
  peek w owner sent shared taken := by
    have progress : Progress origin w { w with returned := Commit.objects sent } :=
      .of_same shared.safe rfl w.slot (max_self _).symm shared.safe.slot (fun _ _ => Iff.rfl)
    have shared' : Shared origin ({ w with returned := Commit.objects sent }, owner) := ⟨progress.safe, shared.owned⟩
    exact ⟨owner, fun _ => ⟨shared', progress, fun _ _ _ own => ⟨own, rfl⟩⟩, shared', w.slot,
      (Batch.of_peek shared.safe taken).later progress⟩
  nothing _ here := here.1
  create := by
    rintro w owner sent last time ends _ ⟨shared, start, batch⟩ free
    have mine (j : ι) (own : owner (newLog (replicationLogName (lsnStr last.lsn) time)) = some j) : j = i := by
      have there := (shared.owned _ j own).2
      change (w.get _).isSome at there
      rw [free] at there
      cases there
    have put := shared_put shared (.text []) mine
    exact ⟨_, fun _ => put, put.1, ⟨start, batch.later put.2.1⟩,
      ⟨last, time, ends, rfl⟩, by simp, World.get_put_self _ _ _⟩
  write := by
    rintro w owner sent name written c stored ⟨shared, ⟨start, batch⟩, named, mine, here⟩ found
    obtain rfl : written = stored := by simpa using here.symm.trans found
    have put := shared_put (i := i) shared (.text (written ++ [c]))
      (fun j own => Option.some.inj (own.symm.trans mine))
    exact ⟨_, fun _ => put, put.1, ⟨start, batch.later put.2.1⟩, named, by simp, World.get_put_self _ _ _⟩
  file := by
    rintro w owner sent name data content ⟨shared, ⟨start, batch⟩, ⟨last, time, ends, rfl⟩, mine, here⟩ entries found
    obtain rfl : content = .text data := Option.some.inj (found.symm.trans here)
    have covers := batch.covers shared.safe ends time entries
    have file := shared_file shared (isLog_replicationLogName _ _) mine covers
    refine ⟨_, fun _ => file, file.1, fun other ends' => ?_⟩
    obtain rfl : last = other := Option.some.inj (ends.symm.trans ends')
    obtain ⟨_, from', own, same, covers'⟩ := file.2.1.safe.files _ _
      ⟨isLog_replicationLogName _ _, .inl (World.get_rename_new _ _ _ _)⟩
    obtain rfl : own = last.lsn := Except.ok.inj (covers'.name.symm.trans covers.name)
    exact ⟨covers'.reach ⟨isLog_replicationLogName _ _, .inl (same ▸ World.get_rename_new _ _ _ _)⟩, covers.small⟩
  skip := by
    rintro sent c _ empty ⟨shared, start, batch⟩
    refine ⟨shared, fun last ends => ⟨batch.skip ends empty, ?_⟩⟩
    exact (shared.safe.bounds last (batch.inside last (List.mem_of_getLast? ends)).1).2
  advance := by
    rintro _ w owner sent last ends ⟨shared, logged⟩
    have advanced := shared_advance (i := i) shared (logged last ends).1
    exact ⟨owner, fun _ => advanced, advanced.1⟩
  finish _ _ _ here := here.1

private theorem catchup_shared (config : Config) (i : ι) :
    (processRules origin i).Triple (Shared origin) (catchup config 0) (fun _ => Shared origin)
      (fun _ => Shared origin) := by
  refine catchup_triple config (fun lsn c => Shared origin c ∧ (lsn ≠ 0 → Logged origin c.1 lsn ∧ lsn < 2 ^ 64)) rfl
    shared_quiet ?_ shared_quiet shared_quiet
    (fun _ here => here) (fun _ _ here => here.1) (fun _ here => here) ?_ ?_ (fun _ here => here.1) ?_
  · exact fun lsn => station_quiet (fun _ _ _ progress _ here other =>
      ⟨progress.logged lsn (here other).1, (here other).2⟩)
  · rintro w owner lsn shared source _
    refine ⟨shared, fun other => ?_⟩
    rcases source with rfl | ⟨name, log, there, named⟩
    · exact absurd rfl other
    · obtain ⟨content, found⟩ := Option.isSome_iff_exists.mp there
      obtain ⟨data, start, own, rfl, covers⟩ := shared.safe.files name content ⟨log, .inl found⟩
      obtain rfl : own = lsn := Except.ok.inj (covers.name.symm.trans named)
      exact ⟨covers.reach ⟨log, .inl found⟩, covers.small⟩
  · rintro lsn c ⟨_, known⟩
    by_cases zero : lsn = 0
    · subst zero
      exact Nat.two_pow_pos 64
    · exact (known zero).2
  · rintro w owner lsn other ⟨shared, known⟩
    have advanced := shared_advance (i := i) shared (known other).1
    exact ⟨owner, fun _ => advanced, advanced.1⟩

/-- Renaming a published log file loses nothing. -/
private theorem shared_done {w : World} {owner : Path → Option ι} (shared : Shared origin (w, owner)) {name : Text}
    {content : Content} (log : isLog name = true) (found : w.get ⟨.log, name⟩ = some content) :
    let w' := w.rename ⟨.log, name⟩ (doneFile name) content
    Shared origin (w', owner) ∧ Progress origin w w' ∧ ∀ j, Keeps.Own j (w, owner) (w', owner) := by
  obtain ⟨data, start, lsn, rfl, covers⟩ := shared.safe.files name content ⟨log, .inl found⟩
  have getLog {other : Text} (otherLog : isLog other = true) (different : other ≠ name) :
      (w.rename ⟨.log, name⟩ (doneFile name) (.text data)).get ⟨.log, other⟩ = w.get ⟨.log, other⟩ :=
    World.get_rename_ne _ _ _ (fun same => different (congrArg Path.name same)) (doneFile_ne otherLog name)
  have getDone {other : Text} (different : other ≠ name) :
      (w.rename ⟨.log, name⟩ (doneFile name) (.text data)).get (doneFile other) = w.get (doneFile other) :=
    World.get_rename_ne _ _ _ (doneFile_ne log other).symm (fun same => different (doneFile_inj same))
  have progress : Progress origin w (w.rename ⟨.log, name⟩ (doneFile name) (.text data)) := by
    refine Progress.of_replace shared.safe covers rfl rfl ?_ ⟨log, .inr (World.get_rename_new _ _ _ _)⟩ ?_
    · rintro other content different ⟨otherLog, file⟩
      rw [LogFile, getLog otherLog different, getDone different]
      exact ⟨otherLog, file⟩
    · rintro other content ⟨otherLog, file⟩
      by_cases same : other = name
      · subst same
        rw [World.get_rename_old _ _ _ (doneFile_ne log other), World.get_rename_new] at file
        rcases file with none | new
        · cases none
        · exact .inr ⟨rfl, (Option.some.inj new).symm⟩
      · rw [getLog otherLog same, getDone same] at file
        exact .inl ⟨otherLog, file⟩
  have own (path : Path) (j : ι) (here : owner path = some j) :
      (w.rename ⟨.log, name⟩ (doneFile name) (.text data)).get path = w.get path := by
    obtain ⟨⟨stem, rfl⟩, _⟩ := shared.owned path j here
    exact World.get_rename_ne _ _ _ (newLog_ne log stem).symm (newLog_ne_doneFile stem name)
  refine ⟨⟨progress.safe, fun path j here => ⟨(shared.owned path j here).1, ?_⟩⟩, progress,
    fun j path here => ⟨here, own path j here⟩⟩
  change ((w.rename ⟨.log, name⟩ (doneFile name) (.text data)).get path).isSome
  rw [own path j here]
  exact (shared.owned path j here).2

private theorem createDiff_shared (config : Config) {options : CreateDiffOptions}
    (given : options.logFileNames = []) (i : ι) :
    (processRules origin i).Triple (Shared origin) (createDiff config options) (fun _ => Shared origin)
      (fun _ => Shared origin) := by
  have uses := Discipline.Triple.uses (D := processRules origin i) (P := Shared origin)
    (createDiff_uses config given) shared_quiet.stable ?_
  · exact uses.weaken (fun _ here => here) (fun _ _ here => here.2) (fun _ _ here => here)
  rintro ⟨w, owner⟩ op reply w' shared asked done
  have moved : Shared origin (w', owner) ∧ Progress origin w w' ∧ ∀ j, Keeps.Own j (w, owner) (w', owner) := by
    have unchanged : Untouched (fun _ => False) w w := Untouched.refl w
    have nothing : Shared origin (w, owner) ∧ Progress origin w w ∧ ∀ j, Keeps.Own j (w, owner) (w, owner) :=
      shared_untouched shared unchanged (fun _ none => none.elim)
    rcases asked with inside | ⟨oldName, newName, rfl, notOld, notNew⟩ | ⟨name, rfl, log⟩
    · exact shared_untouched shared (Step.untouched done inside) (fun _ outside => outside)
    · cases reply with
      | error code =>
        obtain ⟨_, rfl, _⟩ := done
        exact nothing
      | ok value =>
        obtain ⟨content, _, rfl⟩ := done
        let recorded : World := { w with renames := w.renames ++ [⟨oldName, newName, content, w.returned⟩] }
        have same : Untouched (fun path => path.dir ≠ .log) recorded (w.rename oldName newName content) := by
          refine ⟨rfl, rfl, rfl, rfl, rfl, fun path inside => World.get_rename_ne _ _ _ ?_ ?_⟩
          · rintro rfl
            exact inside notOld
          · rintro rfl
            exact inside notNew
        have unchanged : Progress origin w recorded :=
          .of_same shared.safe rfl w.slot (max_self _).symm shared.safe.slot (fun _ _ => Iff.rfl)
        have shared' : Shared origin (recorded, owner) := ⟨unchanged.safe, shared.owned⟩
        obtain ⟨later, progress, own⟩ := shared_untouched shared' same (fun _ outside => outside)
        exact ⟨later, ⟨progress.safe, fun position here => progress.logged position (unchanged.logged position here),
          progress.wal⟩, own⟩
    · cases reply with
      | error code =>
        obtain ⟨_, rfl, _⟩ := done
        exact nothing
      | ok value =>
        obtain ⟨content, found, rfl⟩ := done
        exact shared_done shared log found
  exact ⟨owner, fun _ => ⟨moved.1, moved.2.1, fun j _ => moved.2.2 j⟩, moved.1⟩

/-- What happens besides the programs: a transaction commits behind all others, or
somebody removes left-over pid files. -/
inductive Around (origin : Nat) : World → World → Prop where
  | commit (w : World) (commit : Commit) (tables : Tables) (above : ∀ other ∈ w.wal, other.lsn < commit.lsn)
      (after : origin < commit.lsn) (small : commit.lsn < 2 ^ 64) :
      Around origin w { w with wal := w.wal ++ [commit], tables }
  | tidy {w w' : World} (same : Untouched InRun w w') : Around origin w w'

/-- The programs that work on log files. create-diff takes them from `log_dir`. -/
def LogProgram (config : Config) (program : Prog Unit) : Prop :=
  (∃ options, program = getLog config options) ∨ program = catchup config 0 ∨
    ∃ options : CreateDiffOptions, options.logFileNames = [] ∧ program = createDiff config options

/-- The slot was just created: nothing has been committed behind it or logged. -/
structure NothingLogged (w : World) : Prop where
  wal : w.wal = []
  files : ∀ name content, ¬ LogFile w name content

theorem Around.shared {w w' : World} {owner : Path → Option ι} (shared : Shared origin (w, owner))
    (around : Around origin w w') :
    Shared origin (w', owner) ∧ Progress origin w w' ∧ ∀ i, Keeps.Own i (w, owner) (w', owner) := by
  cases around with
  | commit commit tables above after small =>
    have progress := Progress.of_commit shared.safe tables above after small
    exact ⟨⟨progress.safe, shared.owned⟩, progress, fun _ _ own => ⟨own, rfl⟩⟩
  | tidy same =>
    exact shared_untouched shared same (fun path run log => by
      rw [InRun, log] at run
      cases run)

private theorem logProgram_safe {config : Config} {program : Prog Unit} (launched : LogProgram config program) (i : ι)
    {c : World × (Path → Option ι)} (shared : Shared origin c) :
    (processRules origin i).Safe (fun _ => Shared origin) (fun _ => Shared origin) program c := by
  rcases launched with ⟨options, rfl⟩ | rfl | ⟨options, given, rfl⟩
  · classical exact getLog_triple (processStations_sound i options) config c shared
  · exact catchup_shared config i c shared
  · exact createDiff_shared config given i c shared

end Processes

/-- In every state every insert that was committed up to the position of the slot
stands in a complete log file. -/
theorem no_change_lost (config : Config) {ι : Type} [DecidableEq ι] {start : World} (fresh : NothingLogged start)
    {current : World × (ι → Option (Prog Unit))}
    (reached : Relation.ReflTransGen (Concurrent Step (Around start.slot) (LogProgram config))
      (start, fun _ => none) current) :
    ∀ commit ∈ current.1.wal, commit.lsn ≤ current.1.slot → ∀ obj ∈ commit.inserts,
      ∃ name data entries, isLog name = true ∧
        (current.1.get ⟨.log, name⟩ = some (.text data) ∨ current.1.get (doneFile name) = some (.text data)) ∧
        logEntries data = .ok entries ∧ obj ∈ entries := by
  have begin : Shared start.slot (start, fun _ : Path => (none : Option ι)) := by
    refine ⟨⟨?_, ?_, ⟨.inl le_rfl, ?_⟩, fun name content file => absurd file (fresh.files name content)⟩, by simp⟩
    · simp [fresh.wal]
    · simp [fresh.wal]
    · simp [fresh.wal]
  obtain ⟨owner, shared, _⟩ := Concurrent.invariant (D := processRules start.slot) (fun _ => rfl)
    (fun w w' owner (shared : Shared start.slot (w, owner)) around => ⟨owner, (around.shared shared).1, fun i _ =>
      ⟨(around.shared shared).1, (around.shared shared).2.1, (around.shared shared).2.2 i⟩⟩)
    (fun i program c shared launched => logProgram_safe launched i shared)
    (fun i c c' shared move => ⟨(move shared).1, fun j other _ =>
      ⟨(move shared).1, (move shared).2.1, (move shared).2.2 j other⟩⟩)
    (fun _ => rfl) ⟨_, begin⟩ reached
  intro commit member below obj inside
  obtain ⟨name, lsn, ⟨data, entries, ⟨log, file⟩, _, read, found⟩, _⟩ :=
    shared.safe.slot.file commit member below obj inside
  exact ⟨name, data, entries, log, file, read, found⟩

section Example

def twoChanges : List (Nat × Osmobj) := [(64, ⟨.node, 1, 1, 10⟩), (128, ⟨.node, 2, 1, 10⟩)]

/-- A run during which the slot answers with the first changes. -/
def answering (count : Nat) (program : Prog Unit) (w : World) : Option (Except Fault Unit) × World :=
  program.run (World.serveSent (nodeCommits (twoChanges.take count))
    (peekRows (nodeInsertions (twoChanges.take count)))) w

theorem answering_ends {count : Nat} {program : Prog Unit} {w : World} {result : Except Fault Unit}
    (ran : (answering count program w).1 = some result) : Ends program w result (answering count program w).2 := by
  have each : ∀ node ∈ twoChanges, node.2.type = .node := by decide
  exact ends_sent (sent_nodes (fun node member => each node (List.mem_of_mem_take member))) ran

/-- The first node is committed. -/
def committedNode : World := { wal := nodeCommits (twoChanges.take 1) }

/-- get-log has logged it and moved the slot behind it. -/
def passedNode : World := (answering 1 (getLog {} { catchup := true }) committedNode).2

private theorem passedNode_runs : (answering 1 (getLog {} { catchup := true }) committedNode).1 = some (.ok ()) ∧
    passedNode.slot = 64 ∧ passedNode.wal = nodeCommits (twoChanges.take 1) := by
  decide +kernel

theorem no_change_lost_node : passedNode.slot = 64 ∧ ∃ name data entries, isLog name = true ∧
    (passedNode.get ⟨.log, name⟩ = some (.text data) ∨ passedNode.get (doneFile name) = some (.text data)) ∧
    logEntries data = .ok entries ∧ (⟨.node, 1, 1, 10⟩ : Osmobj) ∈ entries := by
  obtain ⟨ran, slot, wal⟩ := passedNode_runs
  have fresh : NothingLogged {} := ⟨rfl, fun name content file => by simp [LogFile, World.get] at file⟩
  have committed : Around 0 {} committedNode :=
    .commit {} ⟨64, [⟨.node, 1, 1, 10⟩]⟩ .empty (fun _ none => nomatch none) (by decide) (by decide)
  have reached : Relation.ReflTransGen (Concurrent Step (Around 0) (LogProgram {})) (({} : World), fun _ : Nat => none)
      (passedNode, fun _ => none) :=
    .head (.env committed) ((answering_ends ran).visits.process 0 rfl (.inl ⟨{ catchup := true }, rfl⟩))
  have member : (⟨64, [⟨.node, 1, 1, 10⟩]⟩ : Commit) ∈ passedNode.wal := by
    rw [wal]
    decide
  have kept := no_change_lost {} fresh reached
  dsimp only at kept
  exact ⟨slot, kept _ member slot.ge _ List.mem_cons_self⟩

end Example

end Osmdbt
