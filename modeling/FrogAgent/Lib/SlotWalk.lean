import Mathlib.Data.List.Basic

/-!
# Walks over a table of slots

A table answers each index with its end, with a slot to pass over or with an item.  One
pass over it gives a list of items.  A resumable walk asks for one item at a time,
remembers only the index behind the last one, and gives the same list.
-/

namespace FrogAgent.SlotWalk

variable {Item Other : Type*}

inductive Slot (Item : Type*) where
  | stop
  | skip
  | item (value : Item)
  deriving DecidableEq

def Slot.map (f : Item → Other) : Slot Item → Slot Other
  | .stop => .stop
  | .skip => .skip
  | .item value => .item (f value)

/-- One pass of at most so many rounds, from an index on. -/
def walk (table : ℕ → Slot Item) : ℕ → ℕ → List Item
  | 0, _ => []
  | rounds + 1, index =>
      match table index with
      | .stop => []
      | .skip => walk table rounds (index + 1)
      | .item item => item :: walk table rounds (index + 1)

/-- The next item and the index behind it. -/
def seek (table : ℕ → Slot Item) : ℕ → ℕ → Option (ℕ × Item)
  | 0, _ => none
  | rounds + 1, index =>
      match table index with
      | .stop => none
      | .skip => seek table rounds (index + 1)
      | .item item => some (index + 1, item)

theorem walk_map (f : Item → Other) (table : ℕ → Slot Item) (rounds index : ℕ) :
    walk (fun place => (table place).map f) rounds index =
      (walk table rounds index).map f := by
  induction rounds generalizing index with
  | zero => rfl
  | succ rounds ih =>
      rw [walk, walk]
      cases table index with
      | stop => rfl
      | skip => exact ih (index + 1)
      | item item => exact congrArg (f item :: ·) (ih (index + 1))

theorem walk_length_le (table : ℕ → Slot Item) (rounds index : ℕ) :
    (walk table rounds index).length ≤ rounds := by
  induction rounds generalizing index with
  | zero => exact Nat.le_refl 0
  | succ rounds ih =>
      rw [walk]
      have hrest := ih (index + 1)
      cases table index with
      | stop => exact Nat.zero_le _
      | skip => exact Nat.le_succ_of_le hrest
      | item item => exact Nat.succ_le_succ hrest

section Seek

variable {table : ℕ → Slot Item} {rounds index next limit : ℕ} {item : Item}

theorem seek_bounds (hseek : seek table rounds index = some (next, item)) :
    index < next ∧ next ≤ index + rounds := by
  induction rounds generalizing index with
  | zero => cases hseek
  | succ rounds ih =>
      rw [seek] at hseek
      split at hseek
      · cases hseek
      · have hrest := ih hseek
        omega
      · cases hseek
        omega

/-- The walk is what the search finds, and the walk from there on. -/
theorem walk_eq_seek (table : ℕ → Slot Item) (rounds index : ℕ) :
    walk table rounds index =
      match seek table rounds index with
      | none => []
      | some (next, item) => item :: walk table (index + rounds - next) next := by
  induction rounds generalizing index with
  | zero => rfl
  | succ rounds ih =>
      rw [walk, seek]
      cases table index with
      | stop => rfl
      | skip =>
          have hcount : index + (rounds + 1) = index + 1 + rounds := by omega
          rw [hcount]
          exact ih (index + 1)
      | item value =>
          have hcount : index + (rounds + 1) - (index + 1) = rounds := by omega
          simp only [hcount]

theorem walk_of_seek_none (hseek : seek table rounds index = none) :
    walk table rounds index = [] := by
  rw [walk_eq_seek, hseek]

theorem walk_of_seek_some (hseek : seek table (limit - index) index = some (next, item)) :
    walk table (limit - index) index = item :: walk table (limit - next) next := by
  have hbounds := seek_bounds hseek
  have hcount : index + (limit - index) - next = limit - next := by omega
  rw [walk_eq_seek, hseek]
  simp only [hcount]

end Seek

/-! ## Two tables -/

/-- The narrow table ends where the wide one does, and has items only where the wide one
has. -/
structure Within (narrow wide : ℕ → Slot Item) : Prop where
  stops : ∀ index, narrow index = .stop ↔ wide index = .stop
  items : ∀ index value, narrow index = .item value → ∃ other, wide index = .item other

/-- A walk from `start` gets to the place. -/
def Reaches (table : ℕ → Slot Item) (start place : ℕ) : Prop :=
  start ≤ place ∧ ∀ earlier, start ≤ earlier → earlier ≤ place → table earlier ≠ .stop

section Tables

variable {narrow wide : ℕ → Slot Item} {rounds index : ℕ}

theorem Within.length_le (hwithin : Within narrow wide) (rounds index : ℕ) :
    (walk narrow rounds index).length ≤ (walk wide rounds index).length := by
  induction rounds generalizing index with
  | zero => exact Nat.le_refl 0
  | succ rounds ih =>
      have hrest := ih (index + 1)
      rw [walk, walk]
      cases hnarrow : narrow index with
      | stop => exact Nat.zero_le _
      | skip =>
          cases hwide : wide index with
          | stop =>
              rw [(hwithin.stops index).mpr hwide] at hnarrow
              cases hnarrow
          | skip => exact hrest
          | item value => exact Nat.le_succ_of_le hrest
      | item value =>
          obtain ⟨other, hwide⟩ := hwithin.items index value hnarrow
          rw [hwide]
          exact Nat.succ_le_succ hrest

/-- The table does not stop at the index, so the walk gets to a place from there exactly
if it is that index or if the walk from the next one gets to it. -/
theorem reaches_iff_succ {table : ℕ → Slot Item} {index place : ℕ}
    (hgoes : table index ≠ .stop) :
    Reaches table index place ↔ place = index ∨ Reaches table (index + 1) place := by
  constructor
  · rintro ⟨hle, hearlier⟩
    rcases Nat.eq_or_lt_of_le hle with heq | hlt
    · exact Or.inl heq.symm
    · refine Or.inr ⟨hlt, fun earlier hfrom hto => ?_⟩
      exact hearlier earlier (Nat.le_of_succ_le hfrom) hto
  · rintro (rfl | ⟨hle, hearlier⟩)
    · refine ⟨Nat.le_refl _, fun earlier hfrom hto => ?_⟩
      rwa [Nat.le_antisymm hto hfrom]
    · refine ⟨Nat.le_of_succ_le hle, fun earlier hfrom hto => ?_⟩
      rcases Nat.eq_or_lt_of_le hfrom with heq | hlt
      · rwa [← heq]
      · exact hearlier earlier hlt hto

/-- A list is in order within one that is no longer only if the two are equal. -/
theorem cons_sublist_cons_iff {first second : Item} {left right : List Item}
    (hlength : right.length ≤ left.length) :
    (first :: left).Sublist (second :: right) ↔ first = second ∧ left.Sublist right := by
  constructor
  · intro hsublist
    have hsame := hsublist.eq_of_length_le (Nat.succ_le_succ hlength)
    rw [List.cons.injEq] at hsame
    exact ⟨hsame.1, hsame.2 ▸ List.Sublist.refl _⟩
  · rintro ⟨rfl, hrest⟩
    exact hrest.cons_cons first

theorem Within.eq_skip (hwithin : Within narrow wide) {index : ℕ}
    (hwide : wide index = .skip) : narrow index = .skip := by
  cases hnarrow : narrow index with
  | stop =>
      rw [(hwithin.stops index).mp hnarrow] at hwide
      cases hwide
  | skip => rfl
  | item value =>
      obtain ⟨other, hother⟩ := hwithin.items index value hnarrow
      rw [hother] at hwide
      cases hwide

/-- The wide walk is in order within the narrow one exactly if the narrow table has every
item of the wide one. -/
theorem Within.sublist_iff (hwithin : Within narrow wide) (rounds index : ℕ) :
    (walk wide rounds index).Sublist (walk narrow rounds index) ↔
      ∀ place < index + rounds, Reaches wide index place →
        ∀ value, wide place = .item value → narrow place = .item value := by
  induction rounds generalizing index with
  | zero =>
      constructor
      · intro _ place hplace hreaches
        exact absurd hreaches.1 (Nat.not_le.mpr hplace)
      · intro _
        exact List.Sublist.refl _
  | succ rounds ih =>
      have hlength := hwithin.length_le rounds (index + 1)
      have hcount : index + (rounds + 1) = index + 1 + rounds := by omega
      rw [walk, walk]
      cases hwide : wide index with
      | stop =>
          constructor
          · intro _ place _ hreaches
            exact absurd hwide (hreaches.2 index (Nat.le_refl _) hreaches.1)
          · intro _
            exact List.nil_sublist _
      | skip =>
          have hgoes : wide index ≠ .stop := by simp [hwide]
          simp only [hwithin.eq_skip hwide, hcount, ih (index + 1), reaches_iff_succ hgoes]
          constructor
          · rintro hrest place hplace (rfl | hreaches) value hvalue
            · rw [hwide] at hvalue
              cases hvalue
            · exact hrest place hplace hreaches value hvalue
          · intro hall place hplace hreaches
            exact hall place hplace (Or.inr hreaches)
      | item value =>
          have hgoes : wide index ≠ .stop := by simp [hwide]
          simp only [hcount, reaches_iff_succ hgoes]
          cases hnarrow : narrow index with
          | stop =>
              rw [(hwithin.stops index).mp hnarrow] at hwide
              cases hwide
          | skip =>
              constructor
              · intro hsublist
                have hle : (walk wide rounds (index + 1)).length + 1 ≤
                    (walk narrow rounds (index + 1)).length := hsublist.length_le
                omega
              · intro hall
                have hitem := hall index (by omega) (Or.inl rfl) value hwide
                rw [hnarrow] at hitem
                cases hitem
          | item other =>
              rw [cons_sublist_cons_iff hlength, ih (index + 1)]
              constructor
              · rintro ⟨rfl, hrest⟩ place hplace (rfl | hreaches) found hfound
                · rw [hwide] at hfound
                  cases hfound
                  exact hnarrow
                · exact hrest place hplace hreaches found hfound
              · intro hall
                have hitem := hall index (by omega) (Or.inl rfl) value hwide
                rw [hnarrow, Slot.item.injEq] at hitem
                exact ⟨hitem.symm, fun place hplace hreaches =>
                  hall place hplace (Or.inr hreaches)⟩

end Tables

/-! ## Iterators -/

section Iterator

variable {State : Type*} {next : State → Option Item × State} {fuel : ℕ} {state : State}

/-- Take items until the iterator has none; no answer when the fuel runs out first. -/
def collect (next : State → Option Item × State) : ℕ → State → Option (List Item)
  | 0, _ => none
  | fuel + 1, state =>
      match next state with
      | (none, _) => some []
      | (some item, after) => (collect next fuel after).map (item :: ·)

/-- An iterator that uses something up with every item ends, and yields no more items
than there was to use up. -/
theorem collect_ends (left : State → ℕ)
    (huses : ∀ state item after, next state = (some item, after) →
      left after < left state)
    (hfuel : left state < fuel) :
    ∃ items, collect next fuel state = some items ∧ items.length ≤ left state := by
  induction fuel generalizing state with
  | zero => exact absurd hfuel (Nat.not_lt_zero _)
  | succ fuel ih =>
      rw [collect]
      split
      case h_1 => exact ⟨[], rfl, Nat.zero_le _⟩
      case h_2 item after hnext =>
          have hless := huses state item after hnext
          obtain ⟨items, hitems, hlength⟩ := @ih after (by omega)
          refine ⟨item :: items, ?_, ?_⟩
          · rw [hitems, Option.map_some]
          · rw [List.length_cons]
            omega

/-- The iterator stands at `index` of the table: it yields the next item of the table
and stands behind it then, or it yields nothing because there is none. -/
def Resumes (next : State → Option Item × State) (table : ℕ → Slot Item) (limit : ℕ)
    (stands : State → ℕ → Prop) : Prop :=
  ∀ state index, stands state index →
    match seek table (limit - index) index with
    | none => (next state).1 = none
    | some (behind, item) => ∃ after, next state = (some item, after) ∧ stands after behind

/-- Resuming at the index behind the last item loses and repeats nothing. -/
theorem collect_eq_walk {table : ℕ → Slot Item} {limit index : ℕ}
    {stands : State → ℕ → Prop} (hresumes : Resumes next table limit stands)
    (hstands : stands state index) (hfuel : limit - index < fuel) :
    collect next fuel state = some (walk table (limit - index) index) := by
  induction fuel generalizing state index with
  | zero => exact absurd hfuel (Nat.not_lt_zero _)
  | succ fuel ih =>
      have hstep := hresumes state index hstands
      cases hseek : seek table (limit - index) index with
      | none =>
          rw [hseek] at hstep
          rw [collect, walk_of_seek_none hseek]
          split
          case h_1 => rfl
          case h_2 item after hnext =>
              rw [hnext] at hstep
              cases hstep
      | some found =>
          obtain ⟨behind, item⟩ := found
          rw [hseek] at hstep
          obtain ⟨after, hnext, hafter⟩ := hstep
          have hbounds := seek_bounds hseek
          have hrest := ih hafter (by omega)
          rw [collect, hnext, walk_of_seek_some hseek]
          simp only [hrest, Option.map_some]

end Iterator

end FrogAgent.SlotWalk
