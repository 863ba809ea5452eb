import Mathlib.Data.List.MinMax
import Mathlib.Data.List.Nodup
import Mathlib.Data.List.SplitBy

/-!
# Maximal runs

The maximal blocks of consecutive good items of a list, in the order in which a scan from
the left closes them; the first block with the greatest measure; and the hulls of chains of
adjacent intervals.
-/

namespace FrogAgent.MaximalRuns

section Runs

variable {Item : Type*} (good : Item → Bool)

/-- A maximal block of consecutive good items. -/
def IsRun (items block : List Item) : Prop :=
  ∃ before after, items = before ++ block ++ after ∧ block ≠ [] ∧
    (∀ item ∈ block, good item = true) ∧
    (∀ item ∈ before.getLast?, good item = false) ∧
    ∀ item ∈ after.head?, good item = false

/-- The block a scan has open; an empty one is no block. -/
def closed : List Item → List (List Item)
  | [] => []
  | current => [current]

/-- The blocks a scan closes, with `current` open at the start. -/
def runsFrom (current : List Item) : List Item → List (List Item)
  | [] => closed current
  | item :: items =>
      if good item then runsFrom (current ++ [item]) items
      else closed current ++ runsFrom [] items

def runs (items : List Item) : List (List Item) := runsFrom good [] items

variable {good} {items block current : List Item}

theorem mem_closed : block ∈ closed current ↔ block = current ∧ current ≠ [] := by
  cases current with
  | nil => simp [closed]
  | cons item items => simp [closed]

theorem closed_of_ne_nil (hopen : current ≠ []) : closed current = [current] := by
  cases current with
  | nil => exact absurd rfl hopen
  | cons item items => rfl

theorem flatten_closed (current : List Item) : (closed current).flatten = current := by
  cases current with
  | nil => rfl
  | cons item items => simp [closed]

/-- A list of good items is its only run. -/
theorem isRun_of_all_good (hgood : ∀ item ∈ current, good item = true) :
    IsRun good current block ↔ block = current ∧ current ≠ [] := by
  constructor
  · rintro ⟨before, after, rfl, hblock, -, hbefore, hafter⟩
    have hnothing : before = [] := by
      by_contra hsome
      have hlast := hbefore _ (List.getLast?_eq_some_getLast hsome)
      rw [hgood _ (by simp)] at hlast
      cases hlast
    have hend : after = [] := by
      cases after with
      | nil => rfl
      | cons next after =>
          have hnext := hafter next rfl
          rw [hgood next (by simp)] at hnext
          cases hnext
    rw [hnothing, hend]
    simpa using hblock
  · rintro ⟨rfl, hblock⟩
    exact ⟨[], [], by simp, hblock, hgood, by simp, by simp⟩

/-- A bad item parts the runs on its left from those on its right. -/
theorem isRun_append_cons {left right : List Item} {item : Item}
    (hbad : good item = false) :
    IsRun good (left ++ item :: right) block ↔
      IsRun good left block ∨ IsRun good right block := by
  constructor
  · rintro ⟨before, after, hitems, hblock, hgood, hbefore, hafter⟩
    have houtside : item ∉ block := fun hmem => by
      rw [hgood item hmem] at hbad
      cases hbad
    rcases List.append_eq_append_iff.mp hitems with ⟨gap, hleft, hright⟩ | ⟨gap, hleft, hright⟩
    · rcases List.append_eq_append_iff.mp hleft with ⟨part, hpart, hsplit⟩ | ⟨part, rfl, rfl⟩
      · -- The block ends before the bad item, or else it would hold it.
        cases gap with
        | nil =>
            left
            rw [List.append_nil] at hleft
            exact ⟨before, [], by rw [List.append_nil, hleft], hblock, hgood, hbefore, by simp⟩
        | cons next gap =>
            cases hright
            exact absurd (hsplit ▸ by simp) houtside
      · cases part with
        | nil =>
            cases block with
            | nil => exact absurd rfl hblock
            | cons next block =>
                cases hright
                exact absurd List.mem_cons_self houtside
        | cons next part =>
            right
            cases hright
            refine ⟨part, after, rfl, hblock, hgood, ?_, hafter⟩
            intro last hlast
            apply hbefore last
            rw [List.getLast?_append_cons]
            cases part with
            | nil => cases hlast
            | cons first part => rwa [List.getLast?_cons_cons]
    · left
      refine ⟨before, gap, hleft, hblock, hgood, hbefore, ?_⟩
      intro next hnext
      cases gap with
      | nil => cases hnext
      | cons first gap =>
          apply hafter next
          rw [hright]
          exact hnext
  · rintro (⟨before, after, rfl, hblock, hgood, hbefore, hafter⟩ |
      ⟨before, after, rfl, hblock, hgood, hbefore, hafter⟩)
    · refine ⟨before, after ++ item :: right, by simp, hblock, hgood, hbefore, ?_⟩
      intro next hnext
      cases after with
      | nil =>
          cases hnext
          exact hbad
      | cons first after => exact hafter next hnext
    · refine ⟨left ++ item :: before, after, by simp, hblock, hgood, ?_, hafter⟩
      intro last hlast
      cases before with
      | nil =>
          rw [List.getLast?_append_cons] at hlast
          cases hlast
          exact hbad
      | cons first before =>
          rw [List.getLast?_append_cons, List.getLast?_cons_cons] at hlast
          exact hbefore last hlast

theorem all_good_concat (hcurrent : ∀ item ∈ current, good item = true) {item : Item}
    (hitem : good item = true) : ∀ other ∈ current ++ [item], good other = true := by
  intro other hother
  rcases List.mem_append.mp hother with hold | hnew
  · exact hcurrent other hold
  · rwa [List.mem_singleton.mp hnew]

/-- The scan closes the runs of what it has open and what is left. -/
theorem mem_runsFrom (hcurrent : ∀ item ∈ current, good item = true) :
    block ∈ runsFrom good current items ↔ IsRun good (current ++ items) block := by
  induction items generalizing current with
  | nil =>
      rw [runsFrom, mem_closed, List.append_nil]
      exact (isRun_of_all_good hcurrent).symm
  | cons item items ih =>
      rw [runsFrom]
      by_cases hitem : good item = true
      · rw [if_pos hitem, ih (all_good_concat hcurrent hitem), List.append_assoc]
        rfl
      · rw [if_neg hitem, List.mem_append, isRun_append_cons (Bool.eq_false_of_not_eq_true hitem),
          mem_closed, isRun_of_all_good hcurrent, ih (by simp), List.nil_append]

theorem mem_runs : block ∈ runs good items ↔ IsRun good items block :=
  mem_runsFrom (by simp)

theorem flatten_runsFrom (hcurrent : ∀ item ∈ current, good item = true) :
    (runsFrom good current items).flatten = current ++ items.filter good := by
  induction items generalizing current with
  | nil => rw [runsFrom, flatten_closed, List.filter_nil, List.append_nil]
  | cons item items ih =>
      rw [runsFrom]
      by_cases hitem : good item = true
      · rw [if_pos hitem, ih (all_good_concat hcurrent hitem), List.filter_cons_of_pos hitem, List.append_assoc]
        rfl
      · rw [if_neg hitem, List.flatten_append, flatten_closed, ih (by simp),
          List.filter_cons_of_neg hitem, List.nil_append]

/-- The runs are the good items, parted. -/
theorem flatten_runs (items : List Item) : (runs good items).flatten = items.filter good :=
  flatten_runsFrom (by simp)

end Runs

/-! ## The first of the greatest -/

section Greatest

variable {Block : Type*} (measure : Block → ℕ) (least : ℕ)

/-- Only a block that is large enough and larger than the best one so far replaces it. -/
def improve (best : Option Block) (block : Block) : Option Block :=
  if least ≤ measure block ∧ best.all (fun found => measure found < measure block) = true then
    some block
  else best

variable {measure least} {blocks : List Block}

theorem foldl_improve_eq_argmax :
    blocks.foldl (improve measure least) none =
      (blocks.filter fun block => least ≤ measure block).argmax measure := by
  rw [List.argmax, List.foldl_filter]
  congr 1
  funext best block
  rw [improve]
  by_cases hlarge : least ≤ measure block
  · cases best <;> simp [hlarge, List.argAux]
  · simp [hlarge]

/-- A block that is large enough, and no other is larger, or as large and before it in the
order of the keys. -/
structure Leads (measure key : Block → ℕ) (least : ℕ) (blocks : List Block)
    (block : Block) : Prop where
  mem : block ∈ blocks
  large : least ≤ measure block
  first : ∀ other ∈ blocks, measure other < measure block ∨
    measure other = measure block ∧ key block ≤ key other

variable {key : Block → ℕ} {block : Block}

theorem foldl_improve_eq_none_iff :
    blocks.foldl (improve measure least) none = none ↔
      ∀ block ∈ blocks, measure block < least := by
  rw [foldl_improve_eq_argmax, List.argmax_eq_none, List.filter_eq_nil_iff]
  simp

/-- Along ascending keys, what stands earlier in the list has the smaller key. -/
theorem key_le_of_idxOf_le [DecidableEq Block]
    (hkeys : blocks.Pairwise fun left right => key left < key right) {left right : Block}
    (hleft : left ∈ blocks) (hright : right ∈ blocks)
    (hplace : blocks.idxOf left ≤ blocks.idxOf right) : key left ≤ key right := by
  rcases Nat.lt_or_eq_of_le hplace with hlt | heq
  · have hfirst := List.idxOf_lt_length_of_mem hleft
    have hsecond := List.idxOf_lt_length_of_mem hright
    have horder := List.pairwise_iff_getElem.mp hkeys _ _ hfirst hsecond hlt
    rw [List.getElem_idxOf, List.getElem_idxOf] at horder
    exact Nat.le_of_lt horder
  · rw [(List.idxOf_inj hleft).mp heq]

theorem Leads.unique (hkeys : blocks.Pairwise fun left right => key left < key right)
    {other : Block} (hblock : Leads measure key least blocks block)
    (hother : Leads measure key least blocks other) : block = other := by
  have hdistinct : (blocks.map key).Nodup :=
    List.pairwise_map.mpr (hkeys.imp fun hlt => Nat.ne_of_lt hlt)
  have hleft := hblock.first other hother.mem
  have hright := hother.first block hblock.mem
  exact List.inj_on_of_nodup_map hdistinct hblock.mem hother.mem (by omega)

/-- With ascending keys the fold finds the block that leads. -/
theorem foldl_improve_eq_some_iff
    (hkeys : blocks.Pairwise fun left right => key left < key right) :
    blocks.foldl (improve measure least) none = some block ↔
      Leads measure key least blocks block := by
  classical
  have hsound : ∀ block, blocks.foldl (improve measure least) none = some block →
      Leads measure key least blocks block := by
    intro block hfold
    rw [foldl_improve_eq_argmax] at hfold
    obtain ⟨hmem, hgreatest, hfirst⟩ := List.argmax_eq_some_iff.mp hfold
    obtain ⟨hblock, hlarge⟩ := List.mem_filter.mp hmem
    have hlarge : least ≤ measure block := of_decide_eq_true hlarge
    refine ⟨hblock, hlarge, fun other hother => ?_⟩
    by_cases hless : measure other < measure block
    · exact Or.inl hless
    · right
      have hkept : other ∈ blocks.filter fun block => least ≤ measure block :=
        List.mem_filter.mpr ⟨hother, decide_eq_true (by omega)⟩
      refine ⟨Nat.le_antisymm (hgreatest other hkept) (by omega), ?_⟩
      exact key_le_of_idxOf_le (hkeys.filter _) hmem hkept (hfirst other hkept (by omega))
  constructor
  · exact hsound block
  · intro hleads
    cases hfold : blocks.foldl (improve measure least) none with
    | none =>
        have hsmall := foldl_improve_eq_none_iff.mp hfold block hleads.mem
        have hlarge := hleads.large
        omega
    | some found => rw [(hsound found hfold).unique hkeys hleads]

end Greatest

/-! ## Chains of adjacent intervals -/

section Chains

/-- An interval that ends where another one starts. -/
def adjacent (left right : ℕ × ℕ) : Bool := left.2 == right.1

/-- From the start of the first interval to the end of the last one. -/
def hull (chain : List (ℕ × ℕ)) : Option (ℕ × ℕ) :=
  match chain.head?, chain.getLast? with
  | some first, some last => some (first.1, last.2)
  | _, _ => none

/-- The intervals with each maximal chain of adjacent ones made one. -/
def coalesced (intervals : List (ℕ × ℕ)) : List (ℕ × ℕ) :=
  (intervals.splitBy adjacent).filterMap hull

/-- One more interval lengthens the last one, or stands on its own. -/
def extend (merged : List (ℕ × ℕ)) (interval : ℕ × ℕ) : List (ℕ × ℕ) :=
  match merged.getLast? with
  | some last =>
      if last.2 = interval.1 then merged.dropLast ++ [(last.1, interval.2)]
      else merged ++ [interval]
  | none => merged ++ [interval]

/-- Along a chain the last interval is lengthened again and again. -/
theorem foldl_extend_chain (merged : List (ℕ × ℕ)) (start : ℕ) {first : ℕ × ℕ}
    {rest : List (ℕ × ℕ)}
    (hchain : (first :: rest).IsChain fun left right => adjacent left right = true) :
    rest.foldl extend (merged ++ [(start, first.2)]) =
      merged ++ [(start, ((first :: rest).getLast (List.cons_ne_nil _ _)).2)] := by
  induction rest generalizing first with
  | nil => rfl
  | cons next rest ih =>
      obtain ⟨hnext, hrest⟩ := List.isChain_cons_cons.mp hchain
      have hstep : extend (merged ++ [(start, first.2)]) next = merged ++ [(start, next.2)] := by
        rw [extend, List.getLast?_concat]
        simp only [if_pos (beq_iff_eq.mp hnext), List.dropLast_concat]
      rw [List.foldl_cons, hstep, ih hrest, List.getLast_cons_cons]

/-- A chain that is not adjacent to what is merged already adds its hull. -/
theorem foldl_extend_group {merged group : List (ℕ × ℕ)} (hgroup : group ≠ [])
    (hchain : group.IsChain fun left right => adjacent left right = true)
    (hgap : ∀ last ∈ merged.getLast?, ∀ first ∈ group.head?, last.2 ≠ first.1) :
    group.foldl extend merged = merged ++ (hull group).toList := by
  cases group with
  | nil => exact absurd rfl hgroup
  | cons first rest =>
      have hstart : extend merged first = merged ++ [(first.1, first.2)] := by
        rw [extend]
        cases hlast : merged.getLast? with
        | none => rfl
        | some last => exact if_neg (hgap last hlast first rfl)
      rw [List.foldl_cons, hstart, foldl_extend_chain merged first.1 hchain, hull,
        List.head?_cons, List.getLast?_eq_some_getLast (List.cons_ne_nil _ _)]
      rfl

theorem foldl_extend_groups {merged : List (ℕ × ℕ)} {groups : List (List (ℕ × ℕ))}
    (hgroups : [] ∉ groups)
    (hchains : ∀ group ∈ groups,
      group.IsChain fun left right => adjacent left right = true)
    (hparted : groups.IsChain fun left right =>
      ∃ hleft hright, adjacent (left.getLast hleft) (right.head hright) = false)
    (hgap : ∀ last ∈ merged.getLast?, ∀ group ∈ groups.head?, ∀ first ∈ group.head?,
      last.2 ≠ first.1) :
    groups.flatten.foldl extend merged = merged ++ groups.filterMap hull := by
  induction groups generalizing merged with
  | nil => simp
  | cons group groups ih =>
      rw [List.mem_cons, not_or] at hgroups
      have hgroup : group ≠ [] := fun hnil => hgroups.1 hnil.symm
      have hhull : hull group = some ((group.head hgroup).1, (group.getLast hgroup).2) := by
        rw [hull, List.head?_eq_some_head hgroup, List.getLast?_eq_some_getLast hgroup]
      rw [List.flatten_cons, List.foldl_append,
        foldl_extend_group hgroup (hchains group List.mem_cons_self)
          (fun last hlast => hgap last hlast group rfl), hhull, ih hgroups.2
          (fun other hother => hchains other (List.mem_cons_of_mem _ hother)) hparted.tail]
      · rw [List.filterMap_cons, hhull, Option.toList_some, List.append_assoc]
        rfl
      · intro last hlast next hnext first hfirst
        rw [Option.toList_some, List.getLast?_concat] at hlast
        cases hlast
        obtain ⟨_, hright, hapart⟩ := (List.isChain_cons.mp hparted).1 next hnext
        rw [List.head?_eq_some_head hright] at hfirst
        cases hfirst
        exact fun hsame => (beq_eq_false_iff_ne.mp hapart) hsame

theorem foldl_extend (intervals : List (ℕ × ℕ)) :
    intervals.foldl extend [] = coalesced intervals := by
  have hfold := @foldl_extend_groups [] _ (List.nil_notMem_splitBy adjacent intervals)
    (fun _ hgroup => List.isChain_of_mem_splitBy hgroup)
    (List.isChain_getLast_head_splitBy adjacent intervals) (by simp)
  rwa [List.flatten_splitBy, List.nil_append] at hfold

theorem hull_eq_some {group : List (ℕ × ℕ)} {interval : ℕ × ℕ}
    (hhull : hull group = some interval) :
    ∃ first ∈ group, ∃ last ∈ group, interval = (first.1, last.2) := by
  rw [hull] at hhull
  split at hhull
  · next first last hfirst hlast =>
      cases hhull
      exact ⟨first, List.mem_of_mem_head? hfirst, last, List.mem_of_mem_getLast? hlast, rfl⟩
  · cases hhull

/-- A coalesced interval starts with one of the intervals and ends with one. -/
theorem mem_coalesced {intervals : List (ℕ × ℕ)} {interval : ℕ × ℕ}
    (hmem : interval ∈ coalesced intervals) :
    ∃ first ∈ intervals, ∃ last ∈ intervals, interval = (first.1, last.2) := by
  obtain ⟨group, hgroup, hhull⟩ := List.mem_filterMap.mp hmem
  obtain ⟨first, hfirst, last, hlast, rfl⟩ := hull_eq_some hhull
  have hinside : ∀ item ∈ group, item ∈ intervals := by
    intro item hitem
    rw [← List.flatten_splitBy adjacent intervals]
    exact List.mem_flatten_of_mem hgroup hitem
  exact ⟨first, hinside first hfirst, last, hinside last hlast, rfl⟩

theorem coalesced_ascending {intervals : List (ℕ × ℕ)}
    (hascending : intervals.Pairwise fun left right => left.2 ≤ right.1) :
    (coalesced intervals).Pairwise fun left right => left.2 ≤ right.1 := by
  rw [← List.flatten_splitBy adjacent intervals] at hascending
  rw [coalesced, List.pairwise_filterMap]
  refine (List.pairwise_flatten.mp hascending).2.imp ?_
  intro left right hbefore first hfirst second hsecond
  obtain ⟨-, -, last, hlast, rfl⟩ := hull_eq_some hfirst
  obtain ⟨start, hstart, -, -, rfl⟩ := hull_eq_some hsecond
  exact hbefore last hlast start hstart

end Chains

end FrogAgent.MaximalRuns
