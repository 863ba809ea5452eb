import FrogAgent.Lib.FileSystem
import FrogAgent.Lib.Run
import FrogAgent.Runtime.StateFile

/-!
# Writing the state file

`write_atomic` of `runtime/state_file.rs` stages a report under another name, syncs it and
renames it.  The watcher and the thread that reloads both call it, and the name it stages
under is shared.  As long as no call begins while another is between its creation and its
renaming, a reader finds a whole report after every step, the one that was published last,
and a power failure leaves one of those that were published.
-/

namespace FrogAgent.StateWriters

open Function
open FrogAgent.FileSystem
open FrogAgent.Run
open FrogAgent.StateFile

/-- The two paths that the code uses. -/
inductive FileName where
  | state
  | stateTmp
  deriving DecidableEq

/-- How far a thread has come in `write_atomic`. -/
inductive Stage where
  | idle
  | writing (file offset : ℕ) (rest : List UInt8) (report : Report)
  | closed (report : Report)
  deriving DecidableEq

structure Writers where
  disk : Disk FileName UInt8
  stages : ℕ → Stage
  /-- The reports whose file was renamed, oldest first. -/
  published : List Report

inductive Label where
  | begin (thread : ℕ) (report : Report)
  /-- One round of `write_all`, which may write a part. -/
  | write (thread count : ℕ)
  | sync (thread : ℕ)
  | rename (thread : ℕ)
  /-- A call failed: the error is logged, and the staged file stays as it is. -/
  | fail (thread : ℕ)
  deriving DecidableEq

def Writers.started (disk : Disk FileName UInt8) : Writers := ⟨disk, fun _ => .idle, []⟩

def step (writers : Writers) : Label → Option Writers
  | .begin thread report =>
      match writers.stages thread with
      | .idle =>
          let created := writers.disk.create .stateTmp
          some { writers with
            disk := created.2
            stages := update writers.stages thread
              (.writing created.1 0 report.document report) }
      | _ => none
  | .write thread count =>
      match writers.stages thread with
      | .writing file offset rest report =>
          if 0 < count ∧ count ≤ rest.length then
            some { writers with
              disk := writers.disk.write 0 file offset (rest.take count)
              stages := update writers.stages thread
                (.writing file (offset + count) (rest.drop count) report) }
          else none
      | _ => none
  | .sync thread =>
      match writers.stages thread with
      | .writing file _ [] report =>
          some { writers with
            disk := writers.disk.sync file
            stages := update writers.stages thread (.closed report) }
      | _ => none
  | .rename thread =>
      match writers.stages thread with
      | .closed report =>
          (writers.disk.rename .stateTmp .state).map fun disk =>
            ⟨disk, update writers.stages thread .idle, writers.published ++ [report]⟩
      | _ => none
  | .fail thread =>
      match writers.stages thread with
      | .idle => none
      | _ => some { writers with stages := update writers.stages thread .idle }

/-- Nobody is between creation and renaming when a call begins. -/
def Exclusive (writers : Writers) : Label → Prop
  | .begin _ _ => ∀ thread, writers.stages thread = .idle
  | _ => True

/-- What a power failure may leave under the name of the state file is what is there. -/
def Settled (disk : Disk FileName UInt8) : Prop :=
  Replaces disk .stateTmp .state fun contents => disk.visible .state = some contents

/-- What a step can do. -/
theorem step_cases {writers next : Writers} {label : Label}
    (hstep : step writers label = some next) :
    (∃ thread report, label = .begin thread report ∧ writers.stages thread = .idle ∧
      next = { writers with
        disk := (writers.disk.create .stateTmp).2
        stages := update writers.stages thread
          (.writing (writers.disk.create .stateTmp).1 0 report.document report) }) ∨
    (∃ thread file offset rest report count, label = .write thread count ∧
      writers.stages thread = .writing file offset rest report ∧ count ≤ rest.length ∧
      next = { writers with
        disk := writers.disk.write 0 file offset (rest.take count)
        stages := update writers.stages thread
          (.writing file (offset + count) (rest.drop count) report) }) ∨
    (∃ thread file offset report, label = .sync thread ∧
      writers.stages thread = .writing file offset [] report ∧
      next = { writers with
        disk := writers.disk.sync file
        stages := update writers.stages thread (.closed report) }) ∨
    (∃ thread report disk, label = .rename thread ∧ writers.stages thread = .closed report ∧
      writers.disk.rename .stateTmp .state = some disk ∧
      next = ⟨disk, update writers.stages thread .idle, writers.published ++ [report]⟩) ∨
    ∃ thread, label = .fail thread ∧ writers.stages thread ≠ .idle ∧
      next = { writers with stages := update writers.stages thread .idle } := by
  cases label with
  | begin thread report =>
      cases hstage : writers.stages thread with
      | idle =>
          simp only [step, hstage, Option.some.injEq] at hstep
          exact .inl ⟨thread, report, rfl, hstage, hstep.symm⟩
      | writing | closed => simp only [step, hstage, reduceCtorEq] at hstep
  | write thread count =>
      cases hstage : writers.stages thread with
      | writing file offset rest report =>
          simp only [step, hstage, Option.ite_none_right_eq_some, Option.some.injEq] at hstep
          exact .inr (.inl ⟨thread, file, offset, rest, report, count, rfl, hstage,
            hstep.1.2, hstep.2.symm⟩)
      | idle | closed => simp only [step, hstage, reduceCtorEq] at hstep
  | sync thread =>
      cases hstage : writers.stages thread with
      | writing file offset rest report =>
          cases rest with
          | nil =>
              simp only [step, hstage, Option.some.injEq] at hstep
              exact .inr (.inr (.inl ⟨thread, file, offset, report, rfl, hstage, hstep.symm⟩))
          | cons => simp only [step, hstage, reduceCtorEq] at hstep
      | idle | closed => simp only [step, hstage, reduceCtorEq] at hstep
  | rename thread =>
      cases hstage : writers.stages thread with
      | closed report =>
          simp only [step, hstage, Option.map_eq_some_iff] at hstep
          obtain ⟨disk, hrename, hnext⟩ := hstep
          exact .inr (.inr (.inr (.inl
            ⟨thread, report, disk, rfl, hstage, hrename, hnext.symm⟩)))
      | idle | writing => simp only [step, hstage, reduceCtorEq] at hstep
  | fail thread =>
      refine .inr (.inr (.inr (.inr ⟨thread, rfl, ?_⟩)))
      cases hstage : writers.stages thread with
      | idle => simp only [step, hstage, reduceCtorEq] at hstep
      | writing | closed =>
          simp only [step, hstage, Option.some.injEq] at hstep
          exact ⟨Stage.noConfusion, hstep.symm⟩

/-! ## What a run keeps -/

/-- What the staged file of the thread holds. -/
def Staged (disk : Disk FileName UInt8) : Stage → Prop
  | .idle => True
  | .writing file offset rest report =>
      disk.entries .stateTmp = some file ∧ (disk.contents file).length = offset ∧
        disk.contents file ++ rest = report.document
  | .closed report =>
      ∃ file, disk.entries .stateTmp = some file ∧ disk.synced file = true ∧
        disk.contents file = report.document

/-- What was found first, or a report that was published. -/
def Complete (initial : Disk FileName UInt8) (published : List Report)
    (contents : List UInt8) : Prop :=
  initial.visible .state = some contents ∨
    ∃ report ∈ published, contents = report.document

/-- What a reader finds now. -/
def latest (initial : Disk FileName UInt8) (published : List Report) : Option (List UInt8) :=
  published.getLast?.elim (initial.visible .state) fun report => some report.document

structure Keeps (initial : Disk FileName UInt8) (writers : Writers) : Prop where
  replaces : Replaces writers.disk .stateTmp .state (Complete initial writers.published)
  alone : ∀ first second, writers.stages first ≠ .idle → writers.stages second ≠ .idle →
    first = second
  staged : ∀ thread, Staged writers.disk (writers.stages thread)
  visible : writers.disk.visible .state = latest initial writers.published

theorem keeps_started {disk : Disk FileName UInt8} (hsettled : Settled disk) :
    Keeps disk (.started disk) where
  replaces := hsettled.mono fun _ => .inl
  alone := fun _ _ hbusy => absurd rfl hbusy
  staged := fun _ => trivial
  visible := rfl

section Steps

variable {initial : Disk FileName UInt8} {writers : Writers} {thread : ℕ}

/-- While a thread is busy all others are idle. -/
theorem Keeps.others_idle (hkeeps : Keeps initial writers)
    (hbusy : writers.stages thread ≠ .idle) {other : ℕ} (hother : other ≠ thread) :
    writers.stages other = .idle := by
  by_contra hnot
  exact hother (hkeeps.alone other thread hnot hbusy)

/-- A step of the only busy thread that leaves what was published. -/
theorem Keeps.own_step (hkeeps : Keeps initial writers)
    (hidle : ∀ other, other ≠ thread → writers.stages other = .idle)
    {disk : Disk FileName UInt8} {stage : Stage}
    (hreplaces : Replaces disk .stateTmp .state (Complete initial writers.published))
    (hvisible : disk.visible .state = writers.disk.visible .state)
    (hstaged : Staged disk stage) :
    Keeps initial { writers with disk, stages := update writers.stages thread stage } where
  replaces := hreplaces
  alone := by
    have hself : ∀ busy, update writers.stages thread stage busy ≠ .idle → busy = thread := by
      intro busy hbusy
      by_contra hne
      rw [update_of_ne hne] at hbusy
      exact hbusy (hidle busy hne)
    intro first second hfirst hsecond
    rw [hself first hfirst, hself second hsecond]
  staged := by
    intro other
    by_cases hother : other = thread
    · simp only [hother, update_self]
      exact hstaged
    · simp only [update_of_ne hother, hidle other hother]
      trivial
  visible := hvisible.trans hkeeps.visible

/-- The file of a thread that is writing is apart from those that readers have found. -/
theorem Keeps.apart (hkeeps : Keeps initial writers) {file offset : ℕ} {rest : List UInt8}
    {report : Report} (hstage : writers.stages thread = .writing file offset rest report) :
    file ∉ writers.disk.bound .state := by
  have hstaged := hkeeps.staged thread
  rw [hstage] at hstaged
  exact hkeeps.replaces.apart file hstaged.1

theorem visible_update {disk : Disk FileName UInt8} {held : List UInt8 → Prop}
    (hreplaces : Replaces disk .stateTmp .state held) {file : ℕ}
    (hfile : file ∉ disk.bound .state) (contents : List UInt8) (synced : ℕ → Bool) :
    ({ disk with contents := update disk.contents file contents, synced } :
      Disk FileName UInt8).visible .state = disk.visible .state := by
  cases hentry : disk.entries .state with
  | none => simp only [Disk.visible, hentry, Option.map_none]
  | some other =>
      have hother : other ≠ file :=
        fun heq => hfile (heq ▸ hreplaces.visible_bound other hentry)
      simp only [Disk.visible, hentry, Option.map_some, update_of_ne hother]

theorem Keeps.begin (hkeeps : Keeps initial writers)
    (hidle : ∀ thread, writers.stages thread = .idle) (thread : ℕ) (report : Report) :
    Keeps initial { writers with
      disk := (writers.disk.create .stateTmp).2
      stages := update writers.stages thread
        (.writing (writers.disk.create .stateTmp).1 0 report.document report) } := by
  obtain ⟨hreplaces, hentry, -, hempty, hvisible⟩ := hkeeps.replaces.create
  refine hkeeps.own_step (fun other _ => hidle other) hreplaces hvisible ⟨hentry, ?_, ?_⟩
  · rw [hempty, List.length_nil]
  · rw [hempty, List.nil_append]

theorem Keeps.write (hkeeps : Keeps initial writers) {file offset count : ℕ}
    {rest : List UInt8} {report : Report}
    (hstage : writers.stages thread = .writing file offset rest report)
    (hcount : count ≤ rest.length) :
    Keeps initial { writers with
      disk := writers.disk.write 0 file offset (rest.take count)
      stages := update writers.stages thread
        (.writing file (offset + count) (rest.drop count) report) } := by
  have hapart := hkeeps.apart hstage
  have hstaged := hkeeps.staged thread
  rw [hstage] at hstaged
  obtain ⟨hentry, hlength, hdocument⟩ := hstaged
  have hbusy : writers.stages thread ≠ .idle := by
    rw [hstage]
    exact Stage.noConfusion
  refine hkeeps.own_step (fun other => hkeeps.others_idle hbusy)
    (hkeeps.replaces.write hapart 0 offset _) (visible_update hkeeps.replaces hapart _ _) ?_
  have hcontents : (writers.disk.write 0 file offset (rest.take count)).contents file =
      writers.disk.contents file ++ rest.take count := by
    simp only [Disk.write, update_self, ← hlength, writeAt_end]
  refine ⟨hentry, ?_, ?_⟩
  · rw [hcontents, List.length_append, hlength, List.length_take, Nat.min_eq_left hcount]
  · rw [hcontents, List.append_assoc, List.take_append_drop, hdocument]

theorem Keeps.sync (hkeeps : Keeps initial writers) {file offset : ℕ} {report : Report}
    (hstage : writers.stages thread = .writing file offset [] report) :
    Keeps initial { writers with
      disk := writers.disk.sync file
      stages := update writers.stages thread (.closed report) } := by
  have hstaged := hkeeps.staged thread
  rw [hstage] at hstaged
  obtain ⟨hentry, -, hdocument⟩ := hstaged
  have hbusy : writers.stages thread ≠ .idle := by
    rw [hstage]
    exact Stage.noConfusion
  refine hkeeps.own_step (fun other => hkeeps.others_idle hbusy)
    (hkeeps.replaces.sync (hkeeps.apart hstage)) rfl ⟨file, hentry, update_self .., ?_⟩
  rw [← hdocument, List.append_nil]
  rfl

theorem Keeps.rename (hkeeps : Keeps initial writers) {report : Report}
    (hstage : writers.stages thread = .closed report) {disk : Disk FileName UInt8}
    (hrename : writers.disk.rename .stateTmp .state = some disk) :
    Keeps initial
      ⟨disk, update writers.stages thread .idle, writers.published ++ [report]⟩ := by
  have hstaged := hkeeps.staged thread
  rw [hstage] at hstaged
  obtain ⟨file, hentry, hsynced, hdocument⟩ := hstaged
  have hbusy : writers.stages thread ≠ .idle := by
    rw [hstage]
    exact Stage.noConfusion
  have hmore : ∀ contents, Complete initial writers.published contents →
      Complete initial (writers.published ++ [report]) contents := by
    rintro contents (hfirst | ⟨earlier, hearlier, hcontents⟩)
    · exact .inl hfirst
    · exact .inr ⟨earlier, List.mem_append_left _ hearlier, hcontents⟩
  obtain ⟨hreplaces, hvisible⟩ := (hkeeps.replaces.mono hmore).rename hentry hsynced
    (.inr ⟨report, List.mem_append_right _ (List.mem_singleton_self report), hdocument⟩)
    hrename
  have hidle : ∀ other, update writers.stages thread .idle other = .idle := by
    intro other
    by_cases hother : other = thread
    · rw [hother, update_self]
    · rw [update_of_ne hother, hkeeps.others_idle hbusy hother]
  refine ⟨hreplaces, fun first _ hfirst => absurd (hidle first) hfirst, ?_, ?_⟩
  · intro other
    simp only [hidle other]
    trivial
  · rw [latest, List.getLast?_concat, Option.elim_some, ← hdocument]
    exact hvisible

theorem Keeps.fail (hkeeps : Keeps initial writers) (hbusy : writers.stages thread ≠ .idle) :
    Keeps initial { writers with stages := update writers.stages thread .idle } :=
  hkeeps.own_step (fun _ => hkeeps.others_idle hbusy) hkeeps.replaces rfl trivial

theorem Keeps.step {label : Label} {next : Writers} (hkeeps : Keeps initial writers)
    (hexclusive : Exclusive writers label)
    (hstep : StateWriters.step writers label = some next) : Keeps initial next := by
  obtain ⟨thread, report, rfl, -, rfl⟩ |
    ⟨thread, file, offset, rest, report, count, -, hstage, hcount, rfl⟩ |
    ⟨thread, file, offset, report, -, hstage, rfl⟩ |
    ⟨thread, report, disk, -, hstage, hrename, rfl⟩ | ⟨thread, -, hbusy, rfl⟩ :=
    step_cases hstep
  · exact hkeeps.begin hexclusive thread report
  · exact hkeeps.write hstage hcount
  · exact hkeeps.sync hstage
  · exact hkeeps.rename hstage hrename
  · exact hkeeps.fail hbusy

/-- No step changes a file that a reader has found. -/
theorem Keeps.extends_step {label : Label} {next : Writers} (hkeeps : Keeps initial writers)
    (hstep : StateWriters.step writers label = some next) :
    writers.disk.Extends next.disk .state := by
  have hsame : writers.disk.Extends writers.disk .state := fun file hfile => ⟨hfile, rfl⟩
  obtain ⟨thread, report, -, -, rfl⟩ |
    ⟨thread, file, offset, rest, report, count, -, hstage, -, rfl⟩ |
    ⟨thread, file, offset, report, -, hstage, rfl⟩ |
    ⟨thread, report, disk, -, -, hrename, rfl⟩ | ⟨thread, -, -, rfl⟩ := step_cases hstep
  · exact hkeeps.replaces.extends_create
  · exact Disk.extends_update (hkeeps.apart hstage) _ _
  · exact hsame
  · exact Disk.extends_rename hrename
  · exact hsame

end Steps

variable {disk : Disk FileName UInt8} {labels : List Label}

theorem keeps_run (hsettled : Settled disk) (hexclusive : Meets step Exclusive (.started disk) labels)
    {writers : Writers} (hvisits : Visits step (.started disk) labels writers) :
    Keeps disk writers :=
  hexclusive.invariant (keeps_started hsettled) (fun _ _ _ => Keeps.step) hvisits

theorem extends_run {opened later : Writers} {after : List Label} (hkeeps : Keeps disk opened)
    (hexclusive : Meets step Exclusive opened after) (hlater : run step opened after = some later) :
    opened.disk.Extends later.disk .state := by
  induction after generalizing opened with
  | nil =>
      cases hlater
      exact fun file hfile => ⟨hfile, rfl⟩
  | cons label after ih =>
      obtain ⟨next, hnext, hrest⟩ := Option.bind_eq_some_iff.mp hlater
      obtain ⟨hguard, hmeets⟩ := meets_cons_iff.mp hexclusive
      intro file hfile
      obtain ⟨hmem, hsame⟩ := hkeeps.extends_step hnext file hfile
      obtain ⟨hmemLater, hsameLater⟩ := ih (hkeeps.step hguard hnext) (hmeets next hnext) hrest
        file hmem
      exact ⟨hmemLater, hsameLater.trans hsame⟩

/-- The staged file with the whole report. -/
def stage (disk : Disk FileName UInt8) (report : Report) : Disk FileName UInt8 :=
  ((disk.create .stateTmp).2.write 0 (disk.create .stateTmp).1 0 report.document).sync
    (disk.create .stateTmp).1

theorem stage_entry (disk : Disk FileName UInt8) (report : Report) :
    (stage disk report).entries .stateTmp = some (disk.create .stateTmp).1 := by
  cases hentry : disk.entries .stateTmp with
  | some file => simp only [stage, Disk.create, Disk.write, Disk.sync, hentry]
  | none => simp only [stage, Disk.create, Disk.write, Disk.sync, hentry, update_self]

/-- The steps of a call up to its renaming. -/
def stageLabels (thread : ℕ) (report : Report) : List Label :=
  [.begin thread report, .write thread report.document.length, .sync thread]

theorem run_stageLabels {writers : Writers} {thread : ℕ}
    (hidle : writers.stages thread = .idle) (report : Report) :
    run step writers (stageLabels thread report) = some { writers with
      disk := stage writers.disk report
      stages := update writers.stages thread (.closed report) } := by
  have hcount : 0 < report.document.length ∧ report.document.length ≤ report.document.length :=
    ⟨List.length_pos_iff.mpr report.document_ne_nil, le_refl _⟩
  simp only [stageLabels, run_cons, run_nil, step, hidle, Option.bind_some, update_self,
    if_pos hcount, List.drop_length, List.take_length, update_idem]
  rfl

/-- In a run whose calls do not overlap, whoever opens the state file at some step reads, then
and at any later step, the whole report that was published last before it was opened; and what
is found after a power failure is a whole report too. -/
theorem readers_find_whole_report {before after : List Label} {opened later : Writers}
    (hsettled : Settled disk)
    (hexclusive : Meets step Exclusive (.started disk) (before ++ after))
    (hopened : run step (.started disk) before = some opened)
    (hlater : run step opened after = some later) :
    (opened.disk.entries .state).map later.disk.contents = latest disk opened.published ∧
      ∀ contents, later.disk.Survives .state contents →
        Complete disk later.published contents := by
  have hkeeps : Keeps disk opened :=
    keeps_run hsettled hexclusive ⟨before, after, rfl, hopened⟩
  have hend : Keeps disk later := by
    refine keeps_run hsettled hexclusive (visits_end ?_)
    rw [run_append, hopened, Option.bind_some, hlater]
  have hafter : Meets step Exclusive opened after := by
    intro taken label rest state hsplit htaken
    refine hexclusive (before ++ taken) label rest state ?_ ?_
    · rw [hsplit, List.append_assoc]
    · rw [run_append, hopened, Option.bind_some, htaken]
  refine ⟨?_, fun contents => hend.replaces.survives⟩
  rw [← hkeeps.visible, Disk.visible]
  cases hentry : opened.disk.entries .state with
  | none => rfl
  | some file =>
      have hbound := hkeeps.replaces.visible_bound file hentry
      rw [Option.map_some, Option.map_some, (extends_run hkeeps hafter hlater file hbound).2]

def emptyDisk : Disk FileName UInt8 := ⟨fun _ => none, fun _ => [], fun _ => false, 0, fun _ => []⟩

theorem settled_emptyDisk : Settled emptyDisk where
  ne := by decide
  known := fun _ _ hentry => absurd hentry (Option.some_ne_none _).symm
  known_bound := fun _ hfile => absurd hfile List.not_mem_nil
  visible_bound := fun _ hentry => absurd hentry (Option.some_ne_none _).symm
  apart := fun _ _ => List.not_mem_nil
  synced := fun _ hfile => absurd hfile List.not_mem_nil
  complete := fun _ hfile => absurd hfile List.not_mem_nil

/-- A call publishes, and a second one begins while a reader has the file open. -/
theorem readers_find_whole_report_two_calls :
    ∃ opened later : Writers, opened.published = [⟨some 0, []⟩] ∧
      (opened.disk.entries .state).map later.disk.contents =
        latest emptyDisk opened.published ∧
      ∀ contents, later.disk.Survives .state contents →
        Complete emptyDisk later.published contents := by
  have hstaged := @run_stageLabels (.started emptyDisk) 0 rfl ⟨some 0, []⟩
  have hrename := stage_entry emptyDisk ⟨some 0, []⟩
  obtain ⟨opened, hopened, hpublished, hidle⟩ : ∃ opened : Writers,
      run step (.started emptyDisk) (stageLabels 0 ⟨some 0, []⟩ ++ [.rename 0]) = some opened ∧
        opened.published = [⟨some 0, []⟩] ∧ ∀ thread, opened.stages thread = .idle := by
    rw [run_append, hstaged, Option.bind_some]
    simp only [run_cons, step, update_self, Writers.started, Disk.rename, hrename,
      Option.map_some, Option.bind_some, run_nil]
    refine ⟨_, rfl, rfl, fun thread => ?_⟩
    by_cases hthread : thread = 0
    · simp only [hthread, update_self]
    · simp only [update_of_ne hthread]
  obtain ⟨later, hlater⟩ : ∃ later, run step opened [.begin 1 ⟨some 1, []⟩] = some later := by
    simp only [run_cons, step, hidle, Option.bind_some, run_nil]
    exact ⟨_, rfl⟩
  have hexclusive : Meets step Exclusive (.started emptyDisk)
      ((stageLabels 0 ⟨some 0, []⟩ ++ [.rename 0]) ++ [.begin 1 ⟨some 1, []⟩]) := by
    refine meets_append ?_ hopened (meets_cons hidle fun _ _ => meets_nil _)
    refine meets_cons (fun _ => rfl) fun _ _ => meets_cons trivial fun _ _ => ?_
    exact meets_cons trivial fun _ _ => meets_cons trivial fun _ _ => meets_nil _
  exact ⟨opened, later, hpublished,
    readers_find_whole_report settled_emptyDisk hexclusive hopened hlater⟩

/-- Calls that overlap share the staged file: one that begins before another has renamed
empties what the other publishes. -/
theorem overlapping_calls_tear (disk : Disk FileName UInt8) (first second : Report) :
    ∃ labels later, run step (.started disk) labels = some later ∧
      later.published = [first] ∧ later.disk.visible .state = some [] := by
  refine ⟨stageLabels 0 first ++ [.begin 1 second, .rename 0], ?_⟩
  have hentry := stage_entry disk first
  rw [run_append, @run_stageLabels (.started disk) 0 rfl first, Option.bind_some]
  simp only [run_cons, run_nil, step, Writers.started, update_of_ne Nat.one_ne_zero,
    update_of_ne Nat.zero_ne_one, update_self, Disk.create, Disk.rename, hentry,
    Option.map_some, Option.bind_some]
  refine ⟨_, rfl, rfl, ?_⟩
  simp only [Disk.visible, update_self, Option.map_some]

end FrogAgent.StateWriters
