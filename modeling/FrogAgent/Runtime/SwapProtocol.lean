import FrogAgent.Lib.Run
import Mathlib.Data.List.Basic
import Mathlib.Logic.Function.Basic

/-!
# Two swaps over one cell

The part of two interleaved reloads that concerns the registry alone.  A swap
reads the cell; if it found an id it tears that id down and pops the cell; then
it may allocate a fresh id and insert it into the cell, which must be empty.
-/

namespace FrogAgent.SwapProtocol

inductive ThreadId where
  | watcher
  | game
  deriving DecidableEq

def ThreadId.other : ThreadId → ThreadId
  | .watcher => .game
  | .game => .watcher

@[simp]
theorem ThreadId.other_ne (thread : ThreadId) : thread.other ≠ thread := by
  cases thread <;> simp [ThreadId.other]

theorem ThreadId.eq_or_eq_other (thread fixed : ThreadId) :
    thread = fixed ∨ thread = fixed.other := by
  cases thread <;> cases fixed <;> simp [ThreadId.other]

/-- What a swap has committed to: nothing yet, the teardown of an id, a spawn
with the id it has allocated, nothing any more, or a failed assertion. -/
inductive Phase where
  | ready
  | tearing (id : ℕ)
  | spawning (id : Option ℕ)
  | over
  | panicked
  deriving DecidableEq

/-- `disturbed` is a history variable: the other swap has inserted since this
one read the cell. -/
structure Swap where
  ids : List ℕ
  nextId : ℕ
  poisoned : Bool
  phase : ThreadId → Phase
  disturbed : ThreadId → Bool

def Swap.goto (swap : Swap) (thread : ThreadId) (phase : Phase) : Swap :=
  { swap with phase := Function.update swap.phase thread phase }

/-- One step of `thread`.  `closing` says that the step is the pop or the insert
of its swap. -/
inductive Move (thread : ThreadId) (closing : Prop) (swap : Swap) :
    Swap → Prop where
  | stay (hopen : ¬ closing) : Move thread closing swap swap
  | leave (hopen : closing → swap.poisoned = true) :
      Move thread closing swap (swap.goto thread .over)
  | readEmpty (phase : Phase) (hopen : ¬ closing)
      (hready : swap.phase thread = .ready) (hids : swap.ids = [])
      (hphase : phase = .spawning none ∨ phase = .over) :
      Move thread closing swap
        ({ swap with disturbed := Function.update swap.disturbed thread false }.goto
          thread phase)
  | read (id : ℕ) (rest : List ℕ) (hopen : ¬ closing)
      (hready : swap.phase thread = .ready) (hids : swap.ids = id :: rest) :
      Move thread closing swap
        ({ swap with disturbed := Function.update swap.disturbed thread false }.goto
          thread (.tearing id))
  | allocate (hopen : ¬ closing) (hspawning : swap.phase thread = .spawning none) :
      Move thread closing swap
        ({ swap with nextId := swap.nextId + 1 }.goto thread
          (.spawning (some swap.nextId)))
  | pop (id : ℕ) (phase : Phase) (hclosing : closing)
      (htearing : swap.phase thread = .tearing id)
      (hphase : phase = .spawning none ∨ phase = .over) :
      Move thread closing swap
        ({ swap with ids := swap.ids.dropLast }.goto thread phase)
  | insert (id : ℕ) (hclosing : closing)
      (hspawning : swap.phase thread = .spawning (some id))
      (hids : swap.ids = []) :
      Move thread closing swap
        ({ swap with
            ids := [id]
            disturbed := Function.update swap.disturbed thread.other true }.goto
          thread .over)
  | panic (id : ℕ) (hclosing : closing)
      (hspawning : swap.phase thread = .spawning (some id))
      (hfull : swap.poisoned = true ∨ swap.ids ≠ []) :
      Move thread closing swap
        ({ swap with poisoned := true }.goto thread .panicked)

/-! ## Ids -/

/-- Ids are fresh, and the cell holds at most one. -/
structure Consistent (swap : Swap) : Prop where
  length : swap.ids.length ≤ 1
  idsLt : ∀ id ∈ swap.ids, id < swap.nextId
  tearingLt : ∀ thread id, swap.phase thread = .tearing id → id < swap.nextId
  spawningLt : ∀ thread id, swap.phase thread = .spawning (some id) →
    id < swap.nextId
  idsNe : ∀ thread id, swap.phase thread = .spawning (some id) → id ∉ swap.ids
  tearingNe : ∀ left right id, swap.phase left = .tearing id →
    swap.phase right ≠ .spawning (some id)
  spawningNe : ∀ left right id, swap.phase left = .spawning (some id) →
    swap.phase right = .spawning (some id) → left = right

/-- A swap that gives up its phase, or only reads, keeps the ids apart. -/
theorem Consistent.of_le {swap next : Swap} (hconsistent : Consistent swap)
    (hlength : next.ids.length ≤ 1) (hids : ∀ id ∈ next.ids, id ∈ swap.ids)
    (hnextId : next.nextId = swap.nextId)
    (hspawning : ∀ thread id, next.phase thread = .spawning (some id) →
      swap.phase thread = .spawning (some id))
    (htearing : ∀ thread id, next.phase thread = .tearing id →
      swap.phase thread = .tearing id ∨ id ∈ swap.ids) : Consistent next where
  length := hlength
  idsLt := by
    intro id hid
    rw [hnextId]
    exact hconsistent.idsLt id (hids id hid)
  tearingLt := by
    intro thread id hphase
    rw [hnextId]
    cases htearing thread id hphase with
    | inl hold => exact hconsistent.tearingLt thread id hold
    | inr hread => exact hconsistent.idsLt id hread
  spawningLt := by
    intro thread id hphase
    rw [hnextId]
    exact hconsistent.spawningLt thread id (hspawning thread id hphase)
  idsNe := by
    intro thread id hphase hid
    exact hconsistent.idsNe thread id (hspawning thread id hphase) (hids id hid)
  tearingNe := by
    intro left right id hleft hright
    cases htearing left id hleft with
    | inl hold =>
        exact hconsistent.tearingNe left right id hold (hspawning right id hright)
    | inr hread =>
        exact hconsistent.idsNe right id (hspawning right id hright) hread
  spawningNe := by
    intro left right id hleft hright
    exact hconsistent.spawningNe left right id (hspawning left id hleft)
      (hspawning right id hright)

@[simp]
theorem goto_phase {swap : Swap} {thread : ThreadId} {phase : Phase}
    {other : ThreadId} :
    (swap.goto thread phase).phase other =
      if other = thread then phase else swap.phase other :=
  Function.update_apply swap.phase thread phase other

@[simp]
theorem goto_ids (swap : Swap) (thread : ThreadId) (phase : Phase) :
    (swap.goto thread phase).ids = swap.ids := rfl

/-- A phase that refers to no id. -/
def Idle (phase : Phase) : Prop :=
  ∀ id, phase ≠ .spawning (some id) ∧ phase ≠ .tearing id

theorem idle_over : Idle .over := by simp [Idle]

theorem idle_panicked : Idle .panicked := by simp [Idle]

theorem idle_afterTeardown {phase : Phase}
    (hphase : phase = .spawning none ∨ phase = .over) : Idle phase := by
  cases hphase with
  | inl hspawning => simp [hspawning, Idle]
  | inr hover => simp [hover, Idle]

/-- Entering an idle phase keeps the ids apart. -/
theorem Consistent.idle {swap base : Swap} (hconsistent : Consistent swap)
    (hphase : base.phase = swap.phase) (hnextId : base.nextId = swap.nextId)
    (hlength : base.ids.length ≤ 1) (hids : ∀ id ∈ base.ids, id ∈ swap.ids)
    (thread : ThreadId) {phase : Phase} (hidle : Idle phase) :
    Consistent (base.goto thread phase) := by
  refine hconsistent.of_le hlength hids hnextId ?_ ?_
  · intro other id hother
    rw [goto_phase, hphase] at hother
    split at hother
    · exact absurd hother (hidle id).1
    · exact hother
  · intro other id hother
    rw [goto_phase, hphase] at hother
    split at hother
    · exact absurd hother (hidle id).2
    · exact Or.inl hother

/-- A fresh id is not in use. -/
theorem Consistent.allocate {swap : Swap} (hconsistent : Consistent swap)
    (thread : ThreadId) :
    Consistent ({ swap with nextId := swap.nextId + 1 }.goto thread
      (.spawning (some swap.nextId))) := by
  refine ⟨hconsistent.length, ?_, ?_, ?_, ?_, ?_, ?_⟩
  · intro id hid
    exact Nat.lt_succ_of_lt (hconsistent.idsLt id hid)
  · intro other id hother
    rw [goto_phase] at hother
    split at hother
    · contradiction
    · exact Nat.lt_succ_of_lt (hconsistent.tearingLt other id hother)
  · intro other id hother
    rw [goto_phase] at hother
    split at hother
    · cases hother
      exact Nat.lt_succ_self _
    · exact Nat.lt_succ_of_lt (hconsistent.spawningLt other id hother)
  · intro other id hother hid
    rw [goto_phase] at hother
    split at hother
    · cases hother
      exact Nat.lt_irrefl _ (hconsistent.idsLt _ hid)
    · exact hconsistent.idsNe other id hother hid
  · intro left right id hleft hright
    rw [goto_phase] at hleft hright
    split at hleft
    · contradiction
    · split at hright
      · cases hright
        exact Nat.lt_irrefl _ (hconsistent.tearingLt left _ hleft)
      · exact hconsistent.tearingNe left right id hleft hright
  · intro left right id hleft hright
    rw [goto_phase] at hleft hright
    split at hleft
    · rename_i hleftThread
      split at hright
      · rename_i hrightThread
        rw [hleftThread, hrightThread]
      · cases hleft
        exact absurd (hconsistent.spawningLt right _ hright)
          (Nat.lt_irrefl _)
    · split at hright
      · cases hright
        exact absurd (hconsistent.spawningLt left _ hleft)
          (Nat.lt_irrefl _)
      · exact hconsistent.spawningNe left right id hleft hright

/-- An id goes from the phase that allocated it into the cell. -/
theorem Consistent.insert {swap : Swap} (hconsistent : Consistent swap)
    {thread : ThreadId} {new : ℕ}
    (hspawning : swap.phase thread = .spawning (some new)) :
    Consistent ({ swap with
      ids := [new]
      disturbed := Function.update swap.disturbed thread.other true }.goto
        thread .over) := by
  refine ⟨Nat.le_refl 1, ?_, ?_, ?_, ?_, ?_, ?_⟩
  · intro id hid
    rw [goto_ids, List.mem_singleton] at hid
    subst hid
    exact hconsistent.spawningLt thread id hspawning
  · intro other id hother
    rw [goto_phase] at hother
    split at hother
    · contradiction
    · exact hconsistent.tearingLt other id hother
  · intro other id hother
    rw [goto_phase] at hother
    split at hother
    · contradiction
    · exact hconsistent.spawningLt other id hother
  · intro other id hother hid
    rw [goto_phase] at hother
    split at hother
    · contradiction
    · rename_i hne
      rw [goto_ids, List.mem_singleton] at hid
      subst hid
      exact hne (hconsistent.spawningNe other thread id hother hspawning)
  · intro left right id hleft hright
    rw [goto_phase] at hleft hright
    split at hleft
    · contradiction
    · split at hright
      · contradiction
      · exact hconsistent.tearingNe left right id hleft hright
  · intro left right id hleft hright
    rw [goto_phase] at hleft hright
    split at hleft
    · contradiction
    · split at hright
      · contradiction
      · exact hconsistent.spawningNe left right id hleft hright

theorem Consistent.move {thread : ThreadId} {closing : Prop} {swap next : Swap}
    (hconsistent : Consistent swap) (hmove : Move thread closing swap next) :
    Consistent next := by
  cases hmove with
  | stay hopen => exact hconsistent
  | leave hopen =>
      refine hconsistent.idle (by rfl) (by rfl) ?_ ?_ thread idle_over
      · exact hconsistent.length
      · exact fun _ hid => hid
  | readEmpty phase hopen hready hids hphase =>
      refine hconsistent.idle (by rfl) (by rfl) ?_ ?_ thread
        (idle_afterTeardown hphase)
      · exact hconsistent.length
      · exact fun _ hid => hid
  | panic id hclosing hspawning hfull =>
      refine hconsistent.idle (by rfl) (by rfl) ?_ ?_ thread idle_panicked
      · exact hconsistent.length
      · exact fun _ hid => hid
  | pop found phase hclosing htearing hphase =>
      refine hconsistent.idle (by rfl) (by rfl) ?_ ?_ thread
        (idle_afterTeardown hphase)
      · have hlength := hconsistent.length
        rw [List.length_dropLast]
        omega
      · exact fun _ hid => List.dropLast_subset _ hid
  | read found rest hopen hready hids =>
      refine hconsistent.of_le hconsistent.length (fun _ hid => hid) rfl ?_ ?_
      · intro other id hother
        rw [goto_phase] at hother
        split at hother
        · contradiction
        · exact hother
      · intro other id hother
        rw [goto_phase] at hother
        split at hother
        · cases hother
          exact Or.inr (by simp [hids])
        · exact Or.inl hother
  | allocate hopen hspawning => exact hconsistent.allocate thread
  | insert new hclosing hspawning hids => exact hconsistent.insert hspawning

/-! ## The cell between the two swaps -/

/-- While no assertion has failed: an undisturbed swap finds the cell as it left
it, and a disturbed one finds the other's id. -/
structure Orderly (swap : Swap) : Prop where
  sound : swap.poisoned = false
  tearing : ∀ thread id, swap.phase thread = .tearing id →
    swap.disturbed thread = false → ∀ other ∈ swap.ids, other = id
  spawning : ∀ thread id, swap.phase thread = .spawning id →
    swap.disturbed thread = false → swap.ids = []
  disturbed : ∀ thread, swap.disturbed thread = true →
    swap.phase thread ≠ .ready → swap.phase thread ≠ .over →
      swap.phase thread.other = .over ∧ ∃ id, swap.ids = [id] ∧
        swap.phase thread ≠ .tearing id

def Quiet (swap : Swap) : Prop := ∀ thread, swap.phase thread ≠ .panicked

/-- A step that leaves the cell alone and takes its thread out of the protocol,
or into it with a cell that fits. -/
theorem Orderly.goto {swap base : Swap} (horderly : Orderly swap)
    (hids : base.ids = swap.ids) (hpoisoned : base.poisoned = swap.poisoned)
    (hphases : base.phase = swap.phase) {thread : ThreadId}
    (hdisturbed : ∀ other, other ≠ thread →
      base.disturbed other = swap.disturbed other) {phase : Phase}
    (htearing : ∀ id, phase = .tearing id → base.disturbed thread = false →
      ∀ other ∈ swap.ids, other = id)
    (hspawning : ∀ id, phase = .spawning id → base.disturbed thread = false →
      swap.ids = [])
    (hown : base.disturbed thread = true → phase ≠ .ready → phase ≠ .over →
      swap.phase thread.other = .over ∧ ∃ id, swap.ids = [id] ∧
        phase ≠ .tearing id)
    (hover : swap.phase thread = .over → phase = .over) :
    Orderly (base.goto thread phase) where
  sound := hpoisoned.trans horderly.sound
  tearing := by
    intro other id hother hcalm
    rw [goto_phase, hphases] at hother
    change ∀ cell ∈ base.ids, cell = id
    rw [hids]
    split at hother
    · rename_i hsame
      subst hsame
      exact htearing id hother hcalm
    · rename_i hne
      exact horderly.tearing other id hother ((hdisturbed other hne).symm.trans hcalm)
  spawning := by
    intro other id hother hcalm
    rw [goto_phase, hphases] at hother
    change base.ids = []
    rw [hids]
    split at hother
    · rename_i hsame
      subst hsame
      exact hspawning id hother hcalm
    · rename_i hne
      exact horderly.spawning other id hother
        ((hdisturbed other hne).symm.trans hcalm)
  disturbed := by
    intro other hstirred hready hdone
    rw [goto_phase, hphases] at hready hdone
    rw [goto_phase, goto_phase, hphases]
    change _ ∧ ∃ id, base.ids = [id] ∧ _
    rw [hids]
    by_cases hsame : other = thread
    · subst hsame
      rw [if_pos rfl] at hready hdone
      simp only [ThreadId.other_ne, if_false, if_true]
      exact hown hstirred hready hdone
    · rw [if_neg hsame] at hready hdone ⊢
      have hold := horderly.disturbed other
        ((hdisturbed other hsame).symm.trans hstirred) hready hdone
      have hthread : other.other = thread := by
        cases other <;> cases thread <;> simp_all [ThreadId.other]
      rw [if_pos hthread]
      rw [hthread] at hold
      exact ⟨hover hold.1, hold.2⟩

theorem dropLast_eq_nil {ids : List ℕ} (hlength : ids.length ≤ 1) :
    ids.dropLast = [] := by
  apply List.eq_nil_of_length_eq_zero
  rw [List.length_dropLast]
  omega

/-- An undisturbed pop empties the cell. -/
theorem Orderly.pop {swap : Swap} (horderly : Orderly swap)
    (hconsistent : Consistent swap) {thread : ThreadId} {id : ℕ}
    (htearing : swap.phase thread = .tearing id)
    (hcalm : swap.disturbed thread = false) (phase : Phase) :
    Orderly ({ swap with ids := swap.ids.dropLast }.goto thread phase) := by
  have hempty := dropLast_eq_nil hconsistent.length
  refine ⟨horderly.sound, ?_, fun _ _ _ _ => hempty, ?_⟩
  · intro other found hother hquiet cell hcell
    rw [goto_ids, hempty] at hcell
    contradiction
  · intro other hstirred hready hdone
    change swap.disturbed other = true at hstirred
    have hne : other ≠ thread := by
      rintro rfl
      rw [hcalm] at hstirred
      contradiction
    rw [goto_phase, if_neg hne] at hready hdone
    have hold := (horderly.disturbed other hstirred hready hdone).1
    have hthread : other.other = thread := by
      cases other <;> cases thread <;> simp_all [ThreadId.other]
    rw [hthread, htearing] at hold
    contradiction

/-- An insert disturbs the other swap. -/
theorem Orderly.insert {swap : Swap} (horderly : Orderly swap)
    (hconsistent : Consistent swap) {thread : ThreadId} {id : ℕ}
    (hspawning : swap.phase thread = .spawning (some id)) :
    Orderly ({ swap with
      ids := [id]
      disturbed := Function.update swap.disturbed thread.other true }.goto
        thread .over) := by
  refine ⟨horderly.sound, ?_, ?_, ?_⟩
  · intro other found hother hquiet
    rw [goto_phase] at hother
    split at hother
    · contradiction
    · rename_i hne
      have hsame := (other.eq_or_eq_other thread).resolve_left hne
      subst hsame
      simp [Swap.goto] at hquiet
  · intro other found hother hquiet
    rw [goto_phase] at hother
    split at hother
    · contradiction
    · rename_i hne
      have hsame := (other.eq_or_eq_other thread).resolve_left hne
      subst hsame
      simp [Swap.goto] at hquiet
  · intro other hstirred hready hdone
    have hne : other ≠ thread := by
      rintro rfl
      simp at hdone
    have hsame := (other.eq_or_eq_other thread).resolve_left hne
    subst hsame
    have hback : thread.other.other = thread := by
      cases thread <;> rfl
    refine ⟨by simp [hback], id, rfl, ?_⟩
    rw [goto_phase, if_neg hne]
    intro htearing
    exact hconsistent.tearingNe _ thread id htearing hspawning

/-- A step that is not a disturbed pop or insert keeps the cell in order. -/
theorem Orderly.move {thread : ThreadId} {closing : Prop} {swap next : Swap}
    (hconsistent : Consistent swap) (horderly : Orderly swap)
    (hmove : Move thread closing swap next)
    (hcalm : closing → swap.disturbed thread = false) : Orderly next := by
  cases hmove with
  | stay hopen => exact horderly
  | leave hopen =>
      refine horderly.goto (by rfl) (by rfl) (by rfl) ?_ ?_ ?_ ?_ ?_
      · exact fun _ _ => rfl
      · simp
      · simp
      · simp
      · simp
  | readEmpty phase hopen hready hids hphase =>
      refine horderly.goto (by rfl) (by rfl) (by rfl) ?_ ?_ ?_ ?_ ?_
      · exact fun other hne => Function.update_of_ne hne _ _
      · intro id htearing
        exact absurd htearing (idle_afterTeardown hphase id).2
      · exact fun _ _ _ => hids
      · simp
      · simp [hready]
  | read id rest hopen hready hids =>
      refine horderly.goto (by rfl) (by rfl) (by rfl) ?_ ?_ ?_ ?_ ?_
      · exact fun other hne => Function.update_of_ne hne _ _
      · intro found hfound _ other hother
        cases hfound
        have hlength := hconsistent.length
        rw [hids] at hlength hother
        have hrest : rest = [] := by
          simpa using hlength
        simpa [hrest] using hother
      · simp
      · simp
      · simp [hready]
  | allocate hopen hspawning =>
      refine horderly.goto (by rfl) (by rfl) (by rfl) ?_ ?_ ?_ ?_ ?_
      · exact fun _ _ => rfl
      · simp
      · intro id _ hquiet
        exact horderly.spawning thread none hspawning hquiet
      · intro hstirred _ _
        obtain ⟨hother, id, hids, -⟩ := horderly.disturbed thread hstirred
          (by simp [hspawning]) (by simp [hspawning])
        exact ⟨hother, id, hids, by simp⟩
      · simp [hspawning]
  | pop id phase hclosing htearing hphase =>
      exact horderly.pop hconsistent htearing (hcalm hclosing) phase
  | insert id hclosing hspawning hids =>
      exact horderly.insert hconsistent hspawning
  | panic id hclosing hspawning hfull =>
      have hids := horderly.spawning thread (some id) hspawning (hcalm hclosing)
      cases hfull with
      | inl hpoisoned =>
          rw [horderly.sound] at hpoisoned
          contradiction
      | inr hfull => exact absurd hids hfull

/-- An undisturbed pop or insert does not panic. -/
theorem Orderly.quiet_move {thread : ThreadId} {closing : Prop}
    {swap next : Swap} (horderly : Orderly swap)
    (hmove : Move thread closing swap next)
    (hcalm : closing → swap.disturbed thread = false) (hquiet : Quiet swap) :
    Quiet next := by
  have hgoto : ∀ (base : Swap) (phase : Phase), base.phase = swap.phase →
      phase ≠ .panicked → Quiet (base.goto thread phase) := by
    intro base phase hbase hphase other
    rw [goto_phase, hbase]
    split
    · exact hphase
    · exact hquiet other
  cases hmove with
  | stay hopen => exact hquiet
  | leave hopen => exact hgoto _ _ rfl (by simp)
  | readEmpty phase hopen hready hids hphase =>
      exact hgoto _ _ rfl (by cases hphase <;> simp_all)
  | read id rest hopen hready hids => exact hgoto _ _ rfl (by simp)
  | allocate hopen hspawning => exact hgoto _ _ rfl (by simp)
  | pop id phase hclosing htearing hphase =>
      exact hgoto _ _ rfl (by cases hphase <;> simp_all)
  | insert id hclosing hspawning hids => exact hgoto _ _ rfl (by simp)
  | panic id hclosing hspawning hfull =>
      have hids := horderly.spawning thread (some id) hspawning (hcalm hclosing)
      cases hfull with
      | inl hpoisoned =>
          rw [horderly.sound] at hpoisoned
          contradiction
      | inr hfull => exact absurd hids hfull

/-- A pop of the swap's own id, or an insert that does not panic, was
undisturbed. -/
theorem Orderly.calm_of_quiet {thread : ThreadId} {closing : Prop}
    {swap next : Swap} (horderly : Orderly swap)
    (hmove : Move thread closing swap next) (hquiet : Quiet next)
    (hpops : ∀ id, swap.phase thread = .tearing id → closing →
      ∀ other ∈ swap.ids.getLast?, other = id) (hclosing : closing) :
    swap.disturbed thread = false := by
  by_contra hstirred
  rw [Bool.not_eq_false] at hstirred
  cases hmove with
  | stay hopen => exact hopen hclosing
  | readEmpty phase hopen => exact hopen hclosing
  | read id rest hopen => exact hopen hclosing
  | allocate hopen => exact hopen hclosing
  | leave hopen =>
      have hpoisoned := hopen hclosing
      rw [horderly.sound] at hpoisoned
      contradiction
  | panic id _ hspawning hfull =>
      have hpanicked := hquiet thread
      simp at hpanicked
  | insert id _ hspawning hids =>
      obtain ⟨-, other, hother, -⟩ := horderly.disturbed thread hstirred
        (by simp [hspawning]) (by simp [hspawning])
      rw [hids] at hother
      contradiction
  | pop id phase _ htearing hphase =>
      obtain ⟨-, other, hother, hne⟩ := horderly.disturbed thread hstirred
        (by simp [htearing]) (by simp [htearing])
      have hsame := hpops id htearing hclosing other (by simp [hother])
      subst hsame
      exact hne htearing

end FrogAgent.SwapProtocol
