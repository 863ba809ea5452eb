import Mathlib.Data.List.Basic
import Mathlib.Logic.Function.Basic

/-!
# Files behind names

A directory maps names to files, and a file keeps its contents whichever name it has.  The
contents are on the disk only once they were synced, and nothing forces the directory there:
after a power failure a name may stand for any file it has stood for.
-/

namespace FrogAgent.FileSystem

open Function

variable {Name Byte : Type*}

structure Disk (Name Byte : Type*) where
  entries : Name → Option ℕ
  contents : ℕ → List Byte
  synced : ℕ → Bool
  fresh : ℕ
  /-- The files that a name has stood for since the directory was flushed. -/
  bound : Name → List ℕ

/-- Write at an offset; what lies between the end of the file and the offset is filled. -/
def writeAt (filler : Byte) (contents : List Byte) (offset : ℕ) (chunk : List Byte) :
    List Byte :=
  (contents ++ List.replicate (offset - contents.length) filler).take offset ++ chunk ++
    contents.drop (offset + chunk.length)

namespace Disk

variable (disk : Disk Name Byte)

/-- The contents of the file that a name stands for now. -/
def visible (name : Name) : Option (List Byte) := (disk.entries name).map disk.contents

/-- What may be found under the name after a power failure: the contents of a file that was
not synced may be anything. -/
def Survives (name : Name) (contents : List Byte) : Prop :=
  ∃ file ∈ disk.bound name, disk.synced file = true → contents = disk.contents file

def write (filler : Byte) (file offset : ℕ) (chunk : List Byte) : Disk Name Byte :=
  { disk with
    contents := update disk.contents file
      (writeAt filler (disk.contents file) offset chunk)
    synced := update disk.synced file false }

def sync (file : ℕ) : Disk Name Byte :=
  { disk with synced := update disk.synced file true }

variable [DecidableEq Name]

/-- Open a file for writing: an existing one is emptied. -/
def create (name : Name) : ℕ × Disk Name Byte :=
  match disk.entries name with
  | some file =>
      (file, { disk with
        contents := update disk.contents file []
        synced := update disk.synced file false })
  | none =>
      (disk.fresh, {
        entries := update disk.entries name (some disk.fresh)
        contents := update disk.contents disk.fresh []
        synced := update disk.synced disk.fresh false
        fresh := disk.fresh + 1
        bound := update disk.bound name (disk.fresh :: disk.bound name) })

/-- Give the file of one name another name, in one step. -/
def rename (source target : Name) : Option (Disk Name Byte) :=
  (disk.entries source).map fun file =>
    { disk with
      entries := update (update disk.entries source none) target (some file)
      bound := update disk.bound target (file :: disk.bound target) }

end Disk

/-- Who has found a file under `target` can go on reading it: its contents stay. -/
def Disk.Extends (disk next : Disk Name Byte) (target : Name) : Prop :=
  ∀ file ∈ disk.bound target,
    file ∈ next.bound target ∧ next.contents file = disk.contents file

/-! ## Writing a file from its start -/

theorem writeAt_end (filler : Byte) (contents chunk : List Byte) :
    writeAt filler contents contents.length chunk = contents ++ chunk := by
  rw [writeAt, Nat.sub_self, List.replicate_zero, List.append_nil, List.take_length,
    List.drop_eq_nil_of_le (Nat.le_add_right _ _), List.append_nil]

/-! ## Replacing a file -/

/-- Under the name `target` there is only ever a file that is complete: `held` are the
contents of the files it may stand for, all of them synced, and the file under the name
`source` is none of them. -/
structure Replaces (disk : Disk Name Byte) (source target : Name)
    (held : List Byte → Prop) : Prop where
  ne : source ≠ target
  known : ∀ name file, disk.entries name = some file → file < disk.fresh
  known_bound : ∀ file ∈ disk.bound target, file < disk.fresh
  visible_bound : ∀ file, disk.entries target = some file → file ∈ disk.bound target
  apart : ∀ file, disk.entries source = some file → file ∉ disk.bound target
  synced : ∀ file ∈ disk.bound target, disk.synced file = true
  complete : ∀ file ∈ disk.bound target, held (disk.contents file)

section Replaces

variable {disk : Disk Name Byte} {source target : Name} {held : List Byte → Prop}

theorem Replaces.survives (hreplaces : Replaces disk source target held)
    {contents : List Byte} (hsurvives : disk.Survives target contents) : held contents := by
  obtain ⟨file, hfile, hcontents⟩ := hsurvives
  rw [hcontents (hreplaces.synced file hfile)]
  exact hreplaces.complete file hfile

/-- A change of the file under `source`, or of one that `target` never stood for. -/
theorem Replaces.update_file (hreplaces : Replaces disk source target held) {file : ℕ}
    (hfile : file ∉ disk.bound target) (contents : List Byte) (flag : Bool) :
    Replaces { disk with
      contents := update disk.contents file contents
      synced := update disk.synced file flag } source target held where
  ne := hreplaces.ne
  known := hreplaces.known
  known_bound := hreplaces.known_bound
  visible_bound := hreplaces.visible_bound
  apart := hreplaces.apart
  synced := by
    intro other hother
    have hne : other ≠ file := fun heq => hfile (heq ▸ hother)
    simp only [update_of_ne hne]
    exact hreplaces.synced other hother
  complete := by
    intro other hother
    have hne : other ≠ file := fun heq => hfile (heq ▸ hother)
    simp only [update_of_ne hne]
    exact hreplaces.complete other hother

theorem Disk.extends_update {file : ℕ} (hfile : file ∉ disk.bound target)
    (contents : List Byte) (synced : ℕ → Bool) :
    disk.Extends { disk with contents := update disk.contents file contents, synced } target := by
  intro other hother
  have hne : other ≠ file := fun heq => hfile (heq ▸ hother)
  simp only [update_of_ne hne]
  exact ⟨hother, trivial⟩

theorem Replaces.write (hreplaces : Replaces disk source target held) {file : ℕ}
    (hfile : file ∉ disk.bound target) (filler : Byte) (offset : ℕ) (chunk : List Byte) :
    Replaces (disk.write filler file offset chunk) source target held :=
  hreplaces.update_file hfile _ _

theorem Replaces.sync (hreplaces : Replaces disk source target held) {file : ℕ}
    (hfile : file ∉ disk.bound target) : Replaces (disk.sync file) source target held := by
  have hsame := hreplaces.update_file hfile (disk.contents file) true
  rwa [update_eq_self] at hsame

theorem Replaces.mono {more : List Byte → Prop} (hreplaces : Replaces disk source target held)
    (hmore : ∀ contents, held contents → more contents) :
    Replaces disk source target more where
  ne := hreplaces.ne
  known := hreplaces.known
  known_bound := hreplaces.known_bound
  visible_bound := hreplaces.visible_bound
  apart := hreplaces.apart
  synced := hreplaces.synced
  complete := fun file hfile => hmore _ (hreplaces.complete file hfile)

variable [DecidableEq Name]

/-- Opening `source` gives an empty file apart from those of `target`, whose own file and
contents stay. -/
theorem Replaces.create (hreplaces : Replaces disk source target held) :
    Replaces (disk.create source).2 source target held ∧
      (disk.create source).2.entries source = some (disk.create source).1 ∧
      (disk.create source).1 ∉ (disk.create source).2.bound target ∧
      (disk.create source).2.contents (disk.create source).1 = [] ∧
      (disk.create source).2.visible target = disk.visible target := by
  have hne := hreplaces.ne
  cases hentry : disk.entries source with
  | some file =>
      have hapart := hreplaces.apart file hentry
      simp only [Disk.create, hentry]
      refine ⟨hreplaces.update_file hapart [] false, trivial, hapart, update_self .., ?_⟩
      cases htarget : disk.entries target with
      | none => simp only [Disk.visible, htarget, Option.map_none]
      | some other =>
          have hother : other ≠ file :=
            fun heq => hapart (heq ▸ hreplaces.visible_bound other htarget)
          simp only [Disk.visible, htarget, Option.map_some, update_of_ne hother]
  | none =>
      have hapart : disk.fresh ∉ disk.bound target :=
        fun hmem => Nat.lt_irrefl _ (hreplaces.known_bound _ hmem)
      have hfiles := hreplaces.update_file hapart [] false
      simp only [Disk.create, hentry]
      refine ⟨⟨hne, ?_, ?_, ?_, ?_, ?_, ?_⟩, update_self .., ?_, update_self .., ?_⟩
      · intro name file hname
        by_cases hsame : name = source
        · simp only [hsame, update_self, Option.some.injEq] at hname
          simp only [← hname, Nat.lt_succ_self]
        · simp only [update_of_ne hsame] at hname
          exact Nat.lt_succ_of_lt (hreplaces.known name file hname)
      · simp only [update_of_ne hne.symm]
        exact fun file hfile => Nat.lt_succ_of_lt (hreplaces.known_bound file hfile)
      · simp only [update_of_ne hne.symm]
        exact hreplaces.visible_bound
      · simp only [update_of_ne hne.symm, update_self, Option.some.injEq]
        rintro file rfl
        exact hapart
      · simp only [update_of_ne hne.symm]
        exact hfiles.synced
      · simp only [update_of_ne hne.symm]
        exact hfiles.complete
      · simp only [update_of_ne hne.symm]
        exact hapart
      · simp only [Disk.visible, update_of_ne hne.symm]
        cases htarget : disk.entries target with
        | none => rfl
        | some other =>
            have hother : other ≠ disk.fresh :=
              Nat.ne_of_lt (hreplaces.known target other htarget)
            simp only [Option.map_some, update_of_ne hother]

theorem Replaces.extends_create (hreplaces : Replaces disk source target held) :
    disk.Extends (disk.create source).2 target := by
  intro file hfile
  cases hentry : disk.entries source with
  | some other =>
      have hne : file ≠ other := fun heq => hreplaces.apart other hentry (heq ▸ hfile)
      simp only [Disk.create, hentry, update_of_ne hne]
      exact ⟨hfile, trivial⟩
  | none =>
      have hne : file ≠ disk.fresh := Nat.ne_of_lt (hreplaces.known_bound file hfile)
      simp only [Disk.create, hentry, update_of_ne hne, update_of_ne hreplaces.ne.symm]
      exact ⟨hfile, trivial⟩

theorem Disk.extends_rename {next : Disk Name Byte}
    (hrename : disk.rename source target = some next) : disk.Extends next target := by
  obtain ⟨moved, -, rfl⟩ := Option.map_eq_some_iff.mp hrename
  intro file hfile
  simp only [update_self]
  exact ⟨List.mem_cons_of_mem _ hfile, trivial⟩

/-- Renaming a synced file over `target` replaces what is found there in one step. -/
theorem Replaces.rename (hreplaces : Replaces disk source target held) {file : ℕ}
    (hfile : disk.entries source = some file) (hsynced : disk.synced file = true)
    (hheld : held (disk.contents file)) {next : Disk Name Byte}
    (hrename : disk.rename source target = some next) :
    Replaces next source target held ∧
      next.visible target = some (disk.contents file) := by
  have hne := hreplaces.ne
  simp only [Disk.rename, hfile, Option.map_some, Option.some.injEq] at hrename
  subst hrename
  refine ⟨⟨hne, ?_, ?_, ?_, ?_, ?_, ?_⟩, ?_⟩
  · intro name other hname
    by_cases htarget : name = target
    · simp only [htarget, update_self, Option.some.injEq] at hname
      rw [← hname]
      exact hreplaces.known source file hfile
    · by_cases hsource : name = source
      · simp only [hsource, update_of_ne hne, update_self] at hname
        contradiction
      · simp only [update_of_ne htarget, update_of_ne hsource] at hname
        exact hreplaces.known name other hname
  · simp only [update_self, List.mem_cons]
    rintro other (rfl | hother)
    · exact hreplaces.known source other hfile
    · exact hreplaces.known_bound other hother
  · simp only [update_self, Option.some.injEq, List.mem_cons]
    rintro other rfl
    exact .inl rfl
  · simp only [update_of_ne hne, update_self]
    rintro other ⟨⟩
  · simp only [update_self, List.mem_cons]
    rintro other (rfl | hother)
    · exact hsynced
    · exact hreplaces.synced other hother
  · simp only [update_self, List.mem_cons]
    rintro other (rfl | hother)
    · exact hheld
    · exact hreplaces.complete other hother
  · simp only [Disk.visible, update_self, Option.map_some]

end Replaces

end FrogAgent.FileSystem
