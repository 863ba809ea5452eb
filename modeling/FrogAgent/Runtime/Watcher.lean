import Mathlib.Data.List.Basic

/-!
# The script watcher

The cold-start step of `entry.rs` and the polling loop of `watcher.rs`.  The header of the
watcher asks for changes that were stable for one tick, and the comments in `entry.rs`
count on it: the first sighting should only be remembered.  The loop loads at the first
sighting instead, so a script that is there at startup is loaded again by the first poll.
-/

namespace FrogAgent.Watcher

/-- Time of the last change and size. -/
abbrev FileMeta := ℕ × ℕ

/-- What the file holds, which bytes `wasmi::Module::new` accepts, and for which bytes the
spawn parks a runtime. -/
structure World where
  contents : FileMeta → List UInt8
  parses : List UInt8 → Bool
  parks : List UInt8 → Bool

/-- One call of `registry_reload`; `tearsDown` if there was a runtime to tear down. -/
structure Reload where
  bytes : List UInt8
  tearsDown : Bool
  deriving DecidableEq

structure State where
  lastSeen : Option FileMeta
  running : Bool
  deriving DecidableEq

def registryReload (world : World) (state : State) (bytes : List UInt8) : State × Reload :=
  ({ state with running := bytes != [] && world.parks bytes }, ⟨bytes, state.running⟩)

/-- How a published buffer is passed on: a dispatch drains it in time, the watcher takes it
after the deadline, or a dispatch drains it between the deadline and the take, after which
the watcher falls back to its own copy. -/
inductive Handoff where
  | consumed
  | fallback
  | drainedLate
  deriving DecidableEq

/-- `publish_reload` and `wait_for_consume_or_fallback`. -/
def publishAndWait (world : World) (state : State) (bytes : List UInt8) :
    Handoff → State × List Reload
  | .consumed | .fallback =>
      let (state, reload) := registryReload world state bytes
      (state, [reload])
  | .drainedLate =>
      let (state, first) := registryReload world state bytes
      let (state, second) := registryReload world state bytes
      (state, [first, second])

/-- Read, parse-check and publish. -/
def tryLoad (world : World) (state : State) (file : FileMeta) (handoff : Handoff) :
    State × List Reload :=
  if world.parses (world.contents file) then
    publishAndWait world state (world.contents file) handoff
  else (state, [])

/-- What one poll sees, and how a buffer it publishes is passed on. -/
structure Poll where
  seen : Option FileMeta
  handoff : Handoff
  deriving DecidableEq

structure Tick where
  state : State
  attempted : Bool
  reloads : List Reload
  deriving DecidableEq

/-- One round of `watcher_loop`. -/
def watcherTick (world : World) (state : State) (poll : Poll) : Tick :=
  match state.lastSeen, poll.seen with
  | none, none => ⟨state, false, []⟩
  | some _, none =>
      let (after, reloads) := publishAndWait world state [] poll.handoff
      ⟨{ after with lastSeen := none }, false, reloads⟩
  | none, some file =>
      let (after, reloads) :=
        tryLoad world { state with lastSeen := some file } file poll.handoff
      ⟨after, true, reloads⟩
  | some previous, some file =>
      if previous = file then ⟨state, false, []⟩
      else
        let (after, reloads) :=
          tryLoad world { state with lastSeen := some file } file poll.handoff
        ⟨after, true, reloads⟩

def watcherLoop (world : World) : State → List Poll → State × List Reload
  | state, [] => (state, [])
  | state, poll :: polls =>
      let tick := watcherTick world state poll
      let (after, reloads) := watcherLoop world tick.state polls
      (after, tick.reloads ++ reloads)

/-- The initial load of a script that is there at startup, without a parse-check. -/
def coldStart (world : World) (present : Option FileMeta) : State × List Reload :=
  match present with
  | none => (⟨none, false⟩, [])
  | some file =>
      let (state, reload) := registryReload world ⟨none, false⟩ (world.contents file)
      (state, [reload])

/-- The state in which the poll after these finds the watcher. -/
def stateAfter (world : World) (present : Option FileMeta) (polls : List Poll) : State :=
  (watcherLoop world (coldStart world present).1 polls).1

/-- What was seen last, at startup or by a poll. -/
def previousSeen (present : Option FileMeta) (polls : List Poll) : Option FileMeta :=
  match polls.getLast? with
  | none => present
  | some poll => poll.seen

/-- The polls all see this file. -/
def See (file : FileMeta) (polls : List Poll) : Prop := ∀ poll ∈ polls, poll.seen = some file

/-- How many of the reloads have the bytes of this version. -/
def loads (world : World) (file : FileMeta) (reloads : List Reload) : ℕ :=
  reloads.countP fun reload => reload.bytes = world.contents file

/-- `startup`: a valid version that is there at startup and stays is loaded once, the cold
start included.  `stays`: so is every valid version that stays for two polls.  `settled`:
a poll that sees something else than the poll before it attempts no load.  `kept`: an
unparsable version tears nothing down. -/
structure LoadedOnce (world : World) (present : Option FileMeta) (polls : List Poll) :
    Prop where
  startup : ∀ stay rest file, polls = stay ++ rest → present = some file → stay ≠ [] →
    See file stay → rest.head?.bind Poll.seen ≠ some file →
    world.parses (world.contents file) = true →
    loads world file ((coldStart world present).2 ++
      (watcherLoop world (coldStart world present).1 stay).2) = 1
  stays : ∀ before stay rest file, polls = before ++ stay ++ rest →
    previousSeen present before ≠ some file → 2 ≤ stay.length → See file stay →
    rest.head?.bind Poll.seen ≠ some file → world.parses (world.contents file) = true →
    loads world file (watcherLoop world (stateAfter world present before) stay).2 = 1
  settled : ∀ before earlier poll rest, polls = before ++ earlier :: poll :: rest →
    earlier.seen ≠ poll.seen →
    (watcherTick world (stateAfter world present (before ++ [earlier])) poll).attempted = false
  kept : (∀ file, present = some file → world.parses (world.contents file) = false →
      ∀ reload ∈ (coldStart world present).2, reload.tearsDown = false) ∧
    ∀ before poll rest file, polls = before ++ poll :: rest → poll.seen = some file →
      world.parses (world.contents file) = false →
      ∀ reload ∈ (watcherTick world (stateAfter world present before) poll).reloads,
        reload.tearsDown = false

/-- `unchanged`: a poll after the first sees no file or what the poll before it saw.
`replaced`: a valid script that was there at startup is gone or replaced at the first poll.
`drained`: a new valid script at the first poll that is still there at the second is not
drained late. -/
structure Calm (world : World) (present : Option FileMeta) (polls : List Poll) : Prop where
  unchanged : ∀ before earlier poll rest file, polls = before ++ earlier :: poll :: rest →
    poll.seen = some file → earlier.seen = some file
  replaced : ∀ poll rest file, polls = poll :: rest → poll.seen = some file →
    present = some file → world.parses (world.contents file) = false
  drained : ∀ first second rest file, polls = first :: second :: rest →
    first.seen = some file → second.seen = some file → present ≠ some file →
    world.parses (world.contents file) = true → first.handoff ≠ .drainedLate

/-! ## One poll -/

section Tick

variable {world : World} {state : State} {poll : Poll} {file : FileMeta}

theorem lastSeen_publishAndWait (bytes : List UInt8) (handoff : Handoff) :
    (publishAndWait world state bytes handoff).1.lastSeen = state.lastSeen := by
  cases handoff <;> rfl

theorem lastSeen_tryLoad (handoff : Handoff) :
    (tryLoad world state file handoff).1.lastSeen = state.lastSeen := by
  unfold tryLoad
  split
  · exact lastSeen_publishAndWait _ _
  · rfl

/-- A poll that sees what was seen last does nothing. -/
theorem watcherTick_unchanged (hsame : state.lastSeen = poll.seen) :
    watcherTick world state poll = ⟨state, false, []⟩ := by
  unfold watcherTick
  rw [hsame]
  cases poll.seen with
  | none => rfl
  | some file => simp

/-- A poll that sees another file loads it at once. -/
theorem watcherTick_changed (hseen : poll.seen = some file)
    (hchanged : state.lastSeen ≠ some file) :
    watcherTick world state poll =
      ⟨(tryLoad world { state with lastSeen := some file } file poll.handoff).1, true,
        (tryLoad world { state with lastSeen := some file } file poll.handoff).2⟩ := by
  unfold watcherTick
  rw [hseen]
  cases hlast : state.lastSeen with
  | none => rfl
  | some previous =>
      have hne : previous ≠ file := by
        intro hsame
        rw [hlast, hsame] at hchanged
        exact hchanged rfl
      simp only [if_neg hne]

theorem lastSeen_watcherTick : (watcherTick world state poll).state.lastSeen = poll.seen := by
  by_cases hsame : state.lastSeen = poll.seen
  · rw [watcherTick_unchanged hsame, hsame]
  · cases hseen : poll.seen with
    | some file =>
        rw [hseen] at hsame
        rw [watcherTick_changed hseen hsame]
        exact lastSeen_tryLoad _
    | none =>
        unfold watcherTick
        rw [hseen]
        cases hlast : state.lastSeen with
        | none => exact hlast
        | some previous => rfl

theorem reloads_of_unparsable (hseen : poll.seen = some file)
    (hunparsable : world.parses (world.contents file) = false) :
    (watcherTick world state poll).reloads = [] := by
  by_cases hsame : state.lastSeen = some file
  · rw [watcherTick_unchanged (hsame.trans hseen.symm)]
  · rw [watcherTick_changed hseen hsame, tryLoad, hunparsable]
    rfl

end Tick

/-! ## Runs -/

section Loop

variable {world : World} {present : Option FileMeta} {state : State} {file : FileMeta}

theorem watcherLoop_append (first second : List Poll) :
    watcherLoop world state (first ++ second) =
      ((watcherLoop world (watcherLoop world state first).1 second).1,
        (watcherLoop world state first).2 ++
          (watcherLoop world (watcherLoop world state first).1 second).2) := by
  induction first generalizing state with
  | nil => rfl
  | cons poll polls ih => simp [watcherLoop, ih, List.append_assoc]

theorem lastSeen_coldStart : (coldStart world present).1.lastSeen = none := by
  cases present <;> rfl

/-- The watcher starts without knowing of the cold start. -/
theorem lastSeen_coldStart_ne : (coldStart world present).1.lastSeen ≠ some file := by
  rw [lastSeen_coldStart]
  exact nofun

theorem running_coldStart :
    ∀ reload ∈ (coldStart world present).2, reload.tearsDown = false := by
  intro reload hreload
  cases present with
  | none => cases hreload
  | some file =>
      rw [List.mem_singleton.mp hreload]

theorem lastSeen_stateAfter (before : List Poll) (poll : Poll) :
    (stateAfter world present (before ++ [poll])).lastSeen = poll.seen := by
  rw [stateAfter, watcherLoop_append]
  exact lastSeen_watcherTick

theorem previousSeen_append (before : List Poll) (poll : Poll) :
    previousSeen present (before ++ [poll]) = poll.seen := by
  simp [previousSeen]

/-- While the file that was seen last is seen, nothing happens. -/
theorem watcherLoop_see (hlast : state.lastSeen = some file) :
    ∀ {polls : List Poll}, See file polls → watcherLoop world state polls = (state, [])
  | [], _ => rfl
  | poll :: polls, hsee => by
      have htick : watcherTick world state poll = ⟨state, false, []⟩ :=
        watcherTick_unchanged (hlast.trans (hsee poll List.mem_cons_self).symm)
      have hrest : watcherLoop world state polls = (state, []) :=
        watcherLoop_see hlast fun later hlater => hsee later (List.mem_cons_of_mem _ hlater)
      rw [watcherLoop, htick]
      simp only [hrest, List.append_nil]

/-- How often one handoff loads the buffer. -/
def Handoff.count : Handoff → ℕ
  | .consumed | .fallback => 1
  | .drainedLate => 2

theorem Handoff.count_eq_one {handoff : Handoff} :
    handoff.count = 1 ↔ handoff ≠ .drainedLate := by
  cases handoff <;> simp [Handoff.count]

theorem loads_tryLoad (hparses : world.parses (world.contents file) = true)
    (handoff : Handoff) :
    loads world file (tryLoad world state file handoff).2 = handoff.count := by
  rw [tryLoad, if_pos hparses]
  cases handoff <;> simp [publishAndWait, registryReload, loads, Handoff.count]

/-- A stay that begins now is loaded by its first poll and by no other. -/
theorem loads_stay {poll : Poll} {polls : List Poll} (hnew : state.lastSeen ≠ some file)
    (hsee : See file (poll :: polls)) (hparses : world.parses (world.contents file) = true) :
    loads world file (watcherLoop world state (poll :: polls)).2 = poll.handoff.count := by
  have hseen : poll.seen = some file := hsee poll List.mem_cons_self
  have hlast : (watcherTick world state poll).state.lastSeen = some file :=
    lastSeen_watcherTick.trans hseen
  have hrest : watcherLoop world (watcherTick world state poll).state polls
      = ((watcherTick world state poll).state, []) :=
    watcherLoop_see hlast fun later hlater => hsee later (List.mem_cons_of_mem _ hlater)
  rw [watcherLoop]
  simp only [hrest, List.append_nil]
  rw [watcherTick_changed hseen hnew]
  exact loads_tryLoad hparses poll.handoff

/-- The polls begin with a stay, possibly empty, of this file. -/
theorem exists_stay (file : FileMeta) (polls : List Poll) :
    ∃ stay rest, polls = stay ++ rest ∧ See file stay ∧
      rest.head?.bind Poll.seen ≠ some file := by
  induction polls with
  | nil => exact ⟨[], [], rfl, by simp [See], by simp⟩
  | cons poll polls ih =>
      by_cases hseen : poll.seen = some file
      · obtain ⟨stay, rest, rfl, hsee, hend⟩ := ih
        exact ⟨poll :: stay, rest, rfl, List.forall_mem_cons.mpr ⟨hseen, hsee⟩, hend⟩
      · exact ⟨[], poll :: polls, rfl, by simp [See], by simpa using hseen⟩

end Loop

/-! ## The exact condition -/

section Calm

variable {world : World} {present : Option FileMeta} {polls : List Poll}

/-- The second of two polls that see different files loads at once. -/
theorem LoadedOnce.unchanged (honce : LoadedOnce world present polls) {before : List Poll}
    {earlier poll : Poll} {rest : List Poll} {file : FileMeta}
    (hpolls : polls = before ++ earlier :: poll :: rest) (hseen : poll.seen = some file) :
    earlier.seen = some file := by
  by_cases hsame : earlier.seen = some file
  · exact hsame
  · have hidle := honce.settled before earlier poll rest hpolls (by rwa [hseen])
    rw [watcherTick_changed hseen (by rwa [lastSeen_stateAfter])] at hidle
    cases hidle

theorem loads_coldStart (world : World) (file : FileMeta) :
    loads world file (coldStart world (some file)).2 = 1 := by
  simp [coldStart, registryReload, loads]

/-- The first poll does not know of the cold start, so it loads the same version again. -/
theorem LoadedOnce.replaced (honce : LoadedOnce world present polls) {poll : Poll}
    {rest : List Poll} {file : FileMeta} (hpolls : polls = poll :: rest)
    (hseen : poll.seen = some file) (hpresent : present = some file) :
    world.parses (world.contents file) = false := by
  subst hpresent
  obtain ⟨stay, rest, rfl, hsee, hend⟩ := exists_stay file rest
  have hstay : See file (poll :: stay) := List.forall_mem_cons.mpr ⟨hseen, hsee⟩
  cases hparses : world.parses (world.contents file) with
  | false => rfl
  | true =>
      have hcount := honce.startup (poll :: stay) rest file hpolls rfl (by simp) hstay hend hparses
      have hnew : (coldStart world (some file)).1.lastSeen ≠ some file := lastSeen_coldStart_ne
      have htwice := loads_stay hnew hstay hparses
      rw [loads, List.countP_append] at hcount
      change loads world file _ + loads world file _ = 1 at hcount
      rw [loads_coldStart, htwice] at hcount
      cases hhandoff : poll.handoff <;> simp [hhandoff, Handoff.count] at hcount

theorem LoadedOnce.drained (honce : LoadedOnce world present polls) {first second : Poll}
    {rest : List Poll} {file : FileMeta} (hpolls : polls = first :: second :: rest)
    (hfirst : first.seen = some file) (hsecond : second.seen = some file)
    (hnew : present ≠ some file) (hparses : world.parses (world.contents file) = true) :
    first.handoff ≠ .drainedLate := by
  obtain ⟨stay, rest, rfl, hsee, hend⟩ := exists_stay file rest
  have hstay : See file (first :: second :: stay) :=
    List.forall_mem_cons.mpr ⟨hfirst, List.forall_mem_cons.mpr ⟨hsecond, hsee⟩⟩
  have hcount := honce.stays [] (first :: second :: stay) rest file hpolls hnew (by simp)
    hstay hend hparses
  have hcold : (stateAfter world present []).lastSeen ≠ some file := lastSeen_coldStart_ne
  rw [loads_stay hcold hstay hparses] at hcount
  exact Handoff.count_eq_one.mp hcount

/-- In a calm run a file is first seen at startup or by the first poll. -/
theorem Calm.before_eq_nil (hcalm : Calm world present polls) {before : List Poll}
    {poll : Poll} {rest : List Poll} {file : FileMeta} (hpolls : polls = before ++ poll :: rest)
    (hseen : poll.seen = some file) (hnew : previousSeen present before ≠ some file) :
    before = [] := by
  rcases List.eq_nil_or_concat before with hnil | ⟨before, earlier, rfl⟩
  · exact hnil
  · rw [List.concat_eq_append, previousSeen_append] at hnew
    exact absurd (hcalm.unchanged before earlier poll rest file (by simpa using hpolls) hseen)
      hnew

theorem Calm.startup (hcalm : Calm world present polls) {stay rest : List Poll}
    {file : FileMeta} (hpolls : polls = stay ++ rest) (hpresent : present = some file)
    (hstay : stay ≠ []) (hsee : See file stay) :
    world.parses (world.contents file) = false := by
  obtain ⟨poll, stay, rfl⟩ := List.exists_cons_of_ne_nil hstay
  exact hcalm.replaced poll (stay ++ rest) file hpolls (hsee poll List.mem_cons_self) hpresent

theorem Calm.stays (hcalm : Calm world present polls) {before stay rest : List Poll}
    {file : FileMeta} (hpolls : polls = before ++ stay ++ rest)
    (hnew : previousSeen present before ≠ some file) (hlong : 2 ≤ stay.length)
    (hsee : See file stay) (hparses : world.parses (world.contents file) = true) :
    loads world file (watcherLoop world (stateAfter world present before) stay).2 = 1 := by
  match stay, hlong with
  | first :: second :: stay, _ =>
      have hfirst : first.seen = some file := hsee first List.mem_cons_self
      have hsecond : second.seen = some file :=
        hsee second (List.mem_cons_of_mem _ List.mem_cons_self)
      obtain rfl : before = [] :=
        hcalm.before_eq_nil (by simpa using hpolls) hfirst hnew
      have hcold : (stateAfter world present []).lastSeen ≠ some file := lastSeen_coldStart_ne
      rw [loads_stay hcold hsee hparses, Handoff.count_eq_one]
      exact hcalm.drained first second (stay ++ rest) file (by simpa using hpolls) hfirst
        hsecond hnew hparses

/-- What a calm run sees never changes from one poll to the next, except to no file. -/
theorem Calm.settled (hcalm : Calm world present polls) {before : List Poll}
    {earlier poll : Poll} {rest : List Poll}
    (hpolls : polls = before ++ earlier :: poll :: rest) (hchanged : earlier.seen ≠ poll.seen) :
    (watcherTick world (stateAfter world present (before ++ [earlier])) poll).attempted
      = false := by
  cases hseen : poll.seen with
  | some file =>
      rw [hseen] at hchanged
      exact absurd (hcalm.unchanged before earlier poll rest file hpolls hseen) hchanged
  | none =>
      unfold watcherTick
      rw [hseen]
      split <;> simp_all

/-- Every run of the watcher loads each version once, and only settled ones, exactly if it
is calm. -/
theorem loadedOnce_iff_calm (world : World) (present : Option FileMeta) (polls : List Poll) :
    LoadedOnce world present polls ↔ Calm world present polls := by
  constructor
  · intro honce
    exact ⟨fun _ _ _ _ _ hpolls hseen => honce.unchanged hpolls hseen,
      fun _ _ _ hpolls hseen hpresent => honce.replaced hpolls hseen hpresent,
      fun _ _ _ _ hpolls hfirst hsecond hnew hparses =>
        honce.drained hpolls hfirst hsecond hnew hparses⟩
  · intro hcalm
    refine ⟨?_, ?_, ?_, ?_, ?_⟩
    · intro stay rest file hpolls hpresent hstay hsee _ hparses
      have hunparsable := hcalm.startup hpolls hpresent hstay hsee
      rw [hparses] at hunparsable
      cases hunparsable
    · intro before stay rest file hpolls hnew hlong hsee _ hparses
      exact hcalm.stays hpolls hnew hlong hsee hparses
    · intro before earlier poll rest hpolls hchanged
      exact hcalm.settled hpolls hchanged
    · intro file _ _ reload hreload
      exact running_coldStart reload hreload
    · intro before poll rest file _ hseen hunparsable reload hreload
      rw [reloads_of_unparsable hseen hunparsable] at hreload
      cases hreload

end Calm

/-- Every file holds the eight bytes of an empty module, and only these are valid. -/
def sampleWorld : World where
  contents _ := [0x00, 0x61, 0x73, 0x6d, 0x01, 0x00, 0x00, 0x00]
  parses bytes := bytes == [0x00, 0x61, 0x73, 0x6d, 0x01, 0x00, 0x00, 0x00]
  parks bytes := bytes == [0x00, 0x61, 0x73, 0x6d, 0x01, 0x00, 0x00, 0x00]

/-- The file is there at startup and stays for two polls: it is loaded twice. -/
theorem not_loadedOnce_of_present :
    ¬ LoadedOnce sampleWorld (some (1, 8))
      [⟨some (1, 8), .consumed⟩, ⟨some (1, 8), .consumed⟩] := by
  intro honce
  have hcount := honce.startup _ [] (1, 8) (List.append_nil _).symm rfl (by simp)
    (by simp [See]) (by simp) rfl
  exact absurd hcount (by decide)

end FrogAgent.Watcher
