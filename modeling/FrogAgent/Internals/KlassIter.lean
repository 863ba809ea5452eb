import FrogAgent.Internals.FieldAccess
import FrogAgent.Lib.SlotWalk

/-!
# Iterating the fields and methods of a class

`spine/access.rs` iterates over a class with a cursor and asks a backend for each item;
`spine/metadata_backend.rs` holds the backend as two function pointers, and
`internals/api.rs` implements it over the memory of the process.
-/

namespace FrogAgent.KlassIter

open FrogAgent.Calibration
open FrogAgent.FieldAccess
open FrogAgent.PackedArg
open FrogAgent.Signature
open FrogAgent.SlotWalk
open FrogAgent.TypedValue

structure FieldInfo where
  namePtr : ℕ
  offset : UInt32
  valType : ValType
  token : ℕ
  isStatic : Bool
  typePtr : ℕ
  deriving DecidableEq

/-- What the backend answers: a field, and the slot to go on at. -/
structure FieldInfoRaw extends FieldInfo where
  nextCursor : ℕ
  deriving DecidableEq

/-! ## The vtable -/

section Vtable

variable (State : Type)

/-- A backend may read or change anything in `State`. -/
abbrev FieldsFn := State → ℕ → ℕ → Option FieldInfoRaw × State

abbrev MethodsFn := State → ℕ → ℕ → Option ℕ × State

/-- The two statics of `metadata_backend`; `none` is the null they start with. -/
structure MetadataBackend where
  fieldsFn : Option (FieldsFn State)
  methodsFn : Option (MethodsFn State)

def MetadataBackend.unregistered : MetadataBackend State := ⟨none, none⟩

variable {State}

/-- `metadata_backend::register` -/
def register (fields : FieldsFn State) (methods : MethodsFn State) :
    MetadataBackend State :=
  ⟨some fields, some methods⟩

def MetadataBackend.fieldsAt (backend : MetadataBackend State) : FieldsFn State :=
  match backend.fieldsFn with
  | none => fun state _ _ => (none, state)
  | some fields => fields

def MetadataBackend.methodsAt (backend : MetadataBackend State) : MethodsFn State :=
  match backend.methodsFn with
  | none => fun state _ _ => (none, state)
  | some methods => methods

end Vtable

/-! ## The iterators -/

def maxFieldsPerClass : ℕ := 256

def maxMethodsPerClass : ℕ := 4096

structure FieldInfoIter where
  klass : ℕ
  cursor : ℕ
  limit : ℕ

structure MethodPtrIter where
  klass : ℕ
  cursor : ℕ
  limit : ℕ

section Iterators

variable {State : Type} (backend : MetadataBackend State)

def FieldInfoIter.next : FieldInfoIter × State → Option FieldInfo × FieldInfoIter × State
  | (iter, state) =>
      if iter.limit ≤ iter.cursor then (none, iter, state)
      else
        match backend.fieldsAt state iter.klass iter.cursor with
        | (none, state) => (none, iter, state)
        | (some raw, state) =>
            -- The guard against backends that fail to advance.
            if raw.nextCursor ≤ iter.cursor then (none, iter, state)
            else (some raw.toFieldInfo, { iter with cursor := raw.nextCursor }, state)

def MethodPtrIter.next : MethodPtrIter × State → Option ℕ × MethodPtrIter × State
  | (iter, state) =>
      if iter.limit ≤ iter.cursor then (none, iter, state)
      else
        match backend.methodsAt state iter.klass iter.cursor with
        | (none, state) => (none, iter, state)
        | (some raw, state) => (some raw, { iter with cursor := iter.cursor + 1 }, state)

/-- `<KlassPtr as Iter<FieldInfo>>::iter(&klass).collect()`, in at most `fuel` calls of
`next`. -/
def collectFieldInfos (fuel klass : ℕ) (state : State) : Option (List FieldInfo) :=
  collect (FieldInfoIter.next backend) fuel (⟨klass, 0, maxFieldsPerClass⟩, state)

/-- `<KlassPtr as Iter<MethodPtr>>::iter(&klass).collect()`, in at most `fuel` calls of
`next`. -/
def collectMethodPtrs (fuel klass : ℕ) (state : State) : Option (List ℕ) :=
  collect (MethodPtrIter.next backend) fuel (⟨klass, 0, maxMethodsPerClass⟩, state)

/-- `methods_of`; each item takes one of the 4096 places, so one more call ends it. -/
def methodsOf (klass : ℕ) (state : State) : Option (List ℕ) :=
  collectMethodPtrs backend (maxMethodsPerClass + 1) klass state

/-- What is left of the range of an iterator. -/
def FieldInfoIter.left : FieldInfoIter × State → ℕ
  | (iter, _) => iter.limit - iter.cursor

def MethodPtrIter.left : MethodPtrIter × State → ℕ
  | (iter, _) => iter.limit - iter.cursor

variable {backend}

theorem FieldInfoIter.next_uses {state after : FieldInfoIter × State} {info : FieldInfo}
    (hnext : next backend state = (some info, after)) : left after < left state := by
  obtain ⟨iter, state⟩ := state
  rw [next] at hnext
  by_cases hend : iter.limit ≤ iter.cursor
  · rw [if_pos hend] at hnext
    cases hnext
  · rw [if_neg hend] at hnext
    split at hnext
    · cases hnext
    · next raw later _ =>
        by_cases hstuck : raw.nextCursor ≤ iter.cursor
        · rw [if_pos hstuck] at hnext
          cases hnext
        · rw [if_neg hstuck] at hnext
          cases hnext
          simp only [left]
          omega

theorem MethodPtrIter.next_uses {state after : MethodPtrIter × State} {method : ℕ}
    (hnext : next backend state = (some method, after)) : left after < left state := by
  obtain ⟨iter, state⟩ := state
  rw [next] at hnext
  by_cases hend : iter.limit ≤ iter.cursor
  · rw [if_pos hend] at hnext
    cases hnext
  · rw [if_neg hend] at hnext
    split at hnext
    · cases hnext
    · cases hnext
      simp only [left]
      omega

/-- The iterators end, whatever the backend does. -/
theorem collectFieldInfos_ends (backend : MetadataBackend State) {fuel : ℕ}
    (hfuel : maxFieldsPerClass < fuel) (klass : ℕ) (state : State) :
    ∃ infos, collectFieldInfos backend fuel klass state = some infos ∧
      infos.length ≤ maxFieldsPerClass :=
  collect_ends FieldInfoIter.left (fun _ _ _ hnext => FieldInfoIter.next_uses hnext) hfuel

theorem collectMethodPtrs_ends (backend : MetadataBackend State) {fuel : ℕ}
    (hfuel : maxMethodsPerClass < fuel) (klass : ℕ) (state : State) :
    ∃ methods, collectMethodPtrs backend fuel klass state = some methods ∧
      methods.length ≤ maxMethodsPerClass :=
  collect_ends MethodPtrIter.left (fun _ _ _ hnext => MethodPtrIter.next_uses hnext) hfuel

end Iterators

/-! ## The backend over the memory of the process -/

/-- The loop of `fields_at`; `rounds` are what is left up to slot 256. -/
def fieldsAtLoop (context : Context) (fieldsPtr : ℕ) (isVt : Bool) :
    ℕ → ℕ → Option FieldInfoRaw
  | 0, _ => none
  | rounds + 1, fi =>
      let slot := fieldsPtr + fi * 32
      match context.image.cacheRead 8 slot with
      | none | some 0 => none
      | some namePtr =>
          if (context.image.readCstr namePtr).all (· = "") then
            fieldsAtLoop context fieldsPtr isVt rounds (fi + 1)
          else
            let token := context.readOr0 4 (slot + 28)
            if token = 0 then fieldsAtLoop context fieldsPtr isVt rounds (fi + 1)
            else
              let typePtr := context.readOr0 8 (slot + 8)
              if typePtr = 0 then fieldsAtLoop context fieldsPtr isVt rounds (fi + 1)
              else
                let chunk := context.chunk typePtr
                let tc := UInt8.ofNat (chunk >>> context.cfg.discrimShift)
                if tc = 0 ∨ 0x45 < tc then
                  fieldsAtLoop context fieldsPtr isVt rounds (fi + 1)
                else
                  let rawOffset := UInt32.ofNat (context.readOr0 4 (slot + 24))
                  some {
                    namePtr
                    offset := if isVt then saturatingSub rawOffset 0x10 else rawOffset
                    valType := (valtypeFromTc tc).getD .u64
                    token
                    isStatic := chunk &&& methodAttributeStaticBit != 0
                    typePtr
                    nextCursor := fi + 1 }

def fieldsAt (ctx : Option Context) (klass cursor : ℕ) : Option FieldInfoRaw := do
  let context ← ctx
  match context.image.cacheRead 8 (klass + context.cfg.klassFields) with
  | none | some 0 => none
  | some fieldsPtr =>
      fieldsAtLoop context fieldsPtr (klassIsValuetype context klass)
        (maxFields - cursor) cursor

def methodsAt (ctx : Option Context) (klass cursor : ℕ) : Option ℕ := do
  let context ← ctx
  let methods := context.readOr0 8 (klass + context.cfg.klassMethods)
  if methods = 0 then none
  else
    match context.image.cacheRead 8 (methods + cursor * 8) with
    | none | some 0 => none
    | some mi =>
        if context.readOr0 8 (mi + context.cfg.methodKlassOff) ≠ klass then none
        else some mi

/-- `register_metadata_backend`; the backend reads `ctx::get()` and changes nothing. -/
def registerMetadataBackend : MetadataBackend (Option Context) :=
  register (fun ctx klass cursor => (fieldsAt ctx klass cursor, ctx))
    (fun ctx klass cursor => (methodsAt ctx klass cursor, ctx))

/-- The loop of `find_method`. -/
def findMethodLoop (context : Context) (klass : ℕ) (name : String) (argc methods : ℕ) :
    ℕ → ℕ → Option ℕ
  | 0, _ => none
  | rounds + 1, i =>
      match context.image.cacheRead 8 (methods + i * 8) with
      | none | some 0 => none
      | some mi =>
          if context.readOr0 8 (mi + context.cfg.methodKlassOff) ≠ klass then none
          else
            let namePtr := context.readOr0 8 (mi + context.cfg.methodNameOff)
            match context.image.readCstr namePtr with
            | none => findMethodLoop context klass name argc methods rounds (i + 1)
            | some mname =>
                if mname = "" then
                  findMethodLoop context klass name argc methods rounds (i + 1)
                else
                  let pcount := context.readOr0 1 (mi + context.cfg.methodParamCountOff)
                  if mname = name ∧ pcount = argc then some mi
                  else findMethodLoop context klass name argc methods rounds (i + 1)

def findMethod (ctx : Option Context) (klass : ℕ) (name : String) (argc : ℕ) :
    Option ℕ := do
  let context ← ctx
  let methods := context.readOr0 8 (klass + context.cfg.klassMethods)
  if methods = 0 then none
  else findMethodLoop context klass name argc methods 4096 0

/-! ## Fields -/

/-- What one slot of the field array holds for `fields_at`. -/
def fieldSlot (context : Context) (fieldsPtr : ℕ) (isVt : Bool) (fi : ℕ) :
    Slot FieldInfo :=
  let slot := fieldsPtr + fi * 32
  match context.image.cacheRead 8 slot with
  | none | some 0 => .stop
  | some namePtr =>
      let token := context.readOr0 4 (slot + 28)
      let typePtr := context.readOr0 8 (slot + 8)
      let tc := typeTc context typePtr
      if (context.image.readCstr namePtr).all (· = "") then .skip
      else if token = 0 then .skip
      else if typePtr = 0 then .skip
      else if tc = 0 ∨ 0x45 < tc then .skip
      else
        let raw := rawOffset context slot
        .item {
          namePtr
          offset := if isVt then saturatingSub raw 0x10 else raw
          valType := (valtypeFromTc tc).getD .u64
          token
          isStatic := FieldAccess.isStatic context typePtr
          typePtr }

/-- The fields of a class, slot by slot. -/
def klassSlot (context : Context) (klass fi : ℕ) : Slot FieldInfo :=
  match context.image.cacheRead 8 (klass + context.cfg.klassFields) with
  | none | some 0 => .stop
  | some fieldsPtr => fieldSlot context fieldsPtr (klassIsValuetype context klass) fi

/-- A slot that holds a field has a name. -/
theorem fieldSlot_named {context : Context} {fieldsPtr fi : ℕ} {isVt : Bool}
    {info : FieldInfo} (hslot : fieldSlot context fieldsPtr isVt fi = .item info) :
    ∃ name, context.image.readCstr info.namePtr = some name := by
  rw [fieldSlot] at hslot
  split at hslot
  · cases hslot
  · cases hslot
  · next namePtr _ _ =>
      by_cases hname : (context.image.readCstr namePtr).all (· = "") = true
      · rw [if_pos hname] at hslot
        cases hslot
      · have hptr : info.namePtr = namePtr := by
          rw [if_neg hname] at hslot
          split at hslot
          · cases hslot
          · split at hslot
            · cases hslot
            · split at hslot
              · cases hslot
              · rw [Slot.item.injEq] at hslot
                rw [← hslot]
        rw [hptr]
        cases hcstr : context.image.readCstr namePtr with
        | none =>
            rw [hcstr] at hname
            exact absurd rfl hname
        | some name => exact ⟨name, rfl⟩

section Fields

variable (context : Context) (klass : ℕ)

theorem fieldsAtLoop_eq_seek (fieldsPtr : ℕ) (isVt : Bool) (rounds fi : ℕ) :
    fieldsAtLoop context fieldsPtr isVt rounds fi =
      (seek (fieldSlot context fieldsPtr isVt) rounds fi).map fun (next, info) =>
        ⟨info, next⟩ := by
  induction rounds generalizing fi with
  | zero => rfl
  | succ rounds ih =>
      rw [seek, fieldSlot, fieldsAtLoop, ih]
      dsimp only [typeTc]
      split
      case h_1 => rfl
      case h_2 => rfl
      case h_3 namePtr _ _ =>
        by_cases hname : (context.image.readCstr namePtr).all (· = "") = true
        · rw [if_pos hname, if_pos hname]
        · rw [if_neg hname, if_neg hname]
          by_cases htoken : context.readOr0 4 (fieldsPtr + fi * 32 + 28) = 0
          · rw [if_pos htoken, if_pos htoken]
          · rw [if_neg htoken, if_neg htoken]
            by_cases htype : context.readOr0 8 (fieldsPtr + fi * 32 + 8) = 0
            · rw [if_pos htype, if_pos htype]
            · rw [if_neg htype, if_neg htype]
              split <;> rfl

theorem fieldsAt_eq_seek (cursor : ℕ) :
    fieldsAt (some context) klass cursor =
      (seek (klassSlot context klass) (maxFields - cursor) cursor).map fun (next, info) =>
        ⟨info, next⟩ := by
  have hslots : klassSlot context klass = fun fi =>
      match context.image.cacheRead 8 (klass + context.cfg.klassFields) with
      | none | some 0 => .stop
      | some fieldsPtr => fieldSlot context fieldsPtr (klassIsValuetype context klass) fi :=
    rfl
  rw [fieldsAt, hslots]
  dsimp only [Option.bind_eq_bind, Option.bind_some]
  split
  case h_1 => cases maxFields - cursor <;> rfl
  case h_2 => cases maxFields - cursor <;> rfl
  case h_3 fieldsPtr _ _ => exact fieldsAtLoop_eq_seek context fieldsPtr _ _ cursor

/-- The iterator over the fields of the class stands at its cursor. -/
def FieldInfoIter.StandsAt (state : FieldInfoIter × Option Context) (index : ℕ) : Prop :=
  state = (⟨klass, index, maxFieldsPerClass⟩, some context)

theorem fieldInfoIter_resumes :
    Resumes (FieldInfoIter.next registerMetadataBackend) (klassSlot context klass)
      maxFields (FieldInfoIter.StandsAt context klass) := by
  rintro state index rfl
  have hanswer : registerMetadataBackend.fieldsAt (some context) klass index =
      (fieldsAt (some context) klass index, some context) := rfl
  cases hseek : seek (klassSlot context klass) (maxFields - index) index with
  | none =>
      rw [fieldsAt_eq_seek, hseek, Option.map_none] at hanswer
      simp only [FieldInfoIter.next, hanswer]
      split <;> rfl
  | some found =>
      obtain ⟨behind, info⟩ := found
      have hbounds := seek_bounds hseek
      rw [fieldsAt_eq_seek, hseek, Option.map_some] at hanswer
      have hinside : ¬ maxFieldsPerClass ≤ index := by
        change ¬ maxFields ≤ index
        omega
      have hgrows : ¬ behind ≤ index := by omega
      refine ⟨(⟨klass, behind, maxFieldsPerClass⟩, some context), ?_, rfl⟩
      simp only [FieldInfoIter.next, hanswer, if_neg hinside, if_neg hgrows]

theorem collectFieldInfos_eq_walk {fuel : ℕ} (hfuel : maxFieldsPerClass < fuel) :
    collectFieldInfos registerMetadataBackend fuel klass (some context) =
      some (walk (klassSlot context klass) maxFields 0) := by
  have hstands : FieldInfoIter.StandsAt context klass
    (⟨klass, 0, maxFieldsPerClass⟩, some context) 0 := rfl
  exact collect_eq_walk (fieldInfoIter_resumes context klass) hstands hfuel

/-- What `for_each_field` calls its callback with in one round. -/
def entryCall : Entry → Slot (String × UInt32 × ℕ)
  | .stop => .stop
  | .skip => .skip
  | .field field =>
      .item (field.name, reportedOffset context klass field.rawOffset, field.typePtr)

/-- The calls of `for_each_field` with a callback that never stops it. -/
def forEachFieldCalls : List (String × UInt32 × ℕ) :=
  forEachField context klass
    (fun calls name offset typePtr => (calls ++ [(name, offset, typePtr)], false)) []

theorem visitFields_collect (rounds index : ℕ) (calls : List (String × UInt32 × ℕ)) :
    visitFields context klass
        (fun calls name offset typePtr => (calls ++ [(name, offset, typePtr)], false))
        rounds index calls =
      calls ++ walk (fun place => entryCall context klass (entryAt context klass place))
        rounds index := by
  induction rounds generalizing index calls with
  | zero => exact (List.append_nil calls).symm
  | succ rounds ih =>
      rw [visitFields, walk]
      cases entryAt context klass index with
      | stop => exact (List.append_nil calls).symm
      | skip => exact ih (index + 1) calls
      | field field =>
          simp only [entryCall, Bool.false_eq_true, if_false]
          rw [ih, List.append_assoc]
          rfl

/-- The context of a runtime without `class_get_fields`: every walk reads memory. -/
def withoutClassGetFields (context : Context) : Context :=
  { context with classGetFields := none }

/-- The name, offset and type of a yielded field. -/
def yielded (info : FieldInfo) : Option String × UInt32 × ℕ :=
  (context.image.readCstr info.namePtr, info.offset, info.typePtr)

def called (call : String × UInt32 × ℕ) : Option String × UInt32 × ℕ :=
  (some call.1, call.2)

/-- The two walks agree on each slot. -/
theorem fieldSlot_eq_memoryEntry (fieldsPtr fi : ℕ) :
    (fieldSlot context fieldsPtr (klassIsValuetype context klass) fi).map (yielded context) =
      (entryCall (withoutClassGetFields context) klass
        (memoryEntry (withoutClassGetFields context) (fieldsPtr + fi * 32))).map called := by
  have hread : ∀ width address,
      (withoutClassGetFields context).readOr0 width address = context.readOr0 width address :=
    fun _ _ => rfl
  have htc : ∀ typePtr,
      typeTc (withoutClassGetFields context) typePtr = typeTc context typePtr := fun _ => rfl
  have himage : (withoutClassGetFields context).image = context.image := rfl
  rw [fieldSlot, memoryEntry, himage]
  dsimp only
  simp only [hread, htc]
  cases context.image.cacheRead 8 (fieldsPtr + fi * 32) with
  | none => rfl
  | some namePtr =>
      cases namePtr with
      | zero => rfl
      | succ before =>
          cases hcstr : context.image.readCstr (before + 1) with
          | none => simp only [Option.all_none, if_true, hcstr, Slot.map, entryCall]
          | some name =>
              simp only [hcstr, Option.all_some, decide_eq_true_eq]
              split
              · rfl
              · split
                · rfl
                · split
                  · rfl
                  · split
                    · rfl
                    · simp only [Slot.map, yielded, entryCall, called, hcstr]
                      rfl

theorem klassSlot_eq_entryAt (fi : ℕ) :
    (klassSlot context klass fi).map (yielded context) =
      (entryCall (withoutClassGetFields context) klass
        (entryAt (withoutClassGetFields context) klass fi)).map called := by
  have hentry : entryAt (withoutClassGetFields context) klass fi =
      match context.image.cacheRead 8 (klass + context.cfg.klassFields) with
      | none | some 0 => .stop
      | some fieldsPtr =>
          memoryEntry (withoutClassGetFields context) (fieldsPtr + fi * 32) := rfl
  rw [klassSlot, hentry]
  split
  case h_1 => rfl
  case h_2 => rfl
  case h_3 fieldsPtr _ _ => exact fieldSlot_eq_memoryEntry context klass fieldsPtr fi

end Fields

/-- The iterator yields what the memory walk of `for_each_field` calls back with, and it
ends whatever the backend does. -/
theorem fieldInfoIter_eq_forEachField (context : Context) (klass : ℕ) :
    (∃ infos,
      (∀ fuel, maxFieldsPerClass < fuel →
        collectFieldInfos registerMetadataBackend fuel klass (some context) = some infos) ∧
      infos.length ≤ 256 ∧
      infos.map (yielded context) =
        (forEachFieldCalls (withoutClassGetFields context) klass).map called) ∧
    ∀ (State : Type) (backend : MetadataBackend State) (state : State) (fuel : ℕ),
      maxFieldsPerClass < fuel →
      ∃ infos, collectFieldInfos backend fuel klass state = some infos ∧
        infos.length ≤ 256 := by
  refine ⟨⟨walk (klassSlot context klass) maxFields 0, ?_, ?_, ?_⟩, ?_⟩
  · intro fuel hfuel
    exact collectFieldInfos_eq_walk context klass hfuel
  · exact walk_length_le (klassSlot context klass) maxFields 0
  · have hcalls := visitFields_collect (withoutClassGetFields context) klass maxFields 0 []
    have hslots := funext (klassSlot_eq_entryAt context klass)
    rw [forEachFieldCalls, forEachField, hcalls, List.nil_append, ← walk_map, ← walk_map,
      hslots]
  · intro State backend state fuel hfuel
    exact collectFieldInfos_ends backend hfuel klass state

/-! ## Methods -/

/-- The methods of a class, place by place of its array. -/
def methodSlot (context : Context) (klass i : ℕ) : Slot ℕ :=
  match methodsAt (some context) klass i with
  | none => .stop
  | some mi => .item mi

/-- The name of a method. -/
def methodName (context : Context) (mi : ℕ) : Option String :=
  context.image.readCstr (context.readOr0 8 (mi + context.cfg.methodNameOff))

/-- The parameter-count byte of a method; all walks take an unreadable one for zero. -/
def methodParamCount (context : Context) (mi : ℕ) : ℕ :=
  context.readOr0 1 (mi + context.cfg.methodParamCountOff)

section Methods

variable (context : Context) (klass : ℕ)

/-- The iterator over the methods of the class stands at its cursor. -/
def MethodPtrIter.StandsAt (state : MethodPtrIter × Option Context) (index : ℕ) : Prop :=
  state = (⟨klass, index, maxMethodsPerClass⟩, some context)

/-- The array of methods is dense: the next item is the one at the cursor. -/
theorem seek_methodSlot (rounds index : ℕ) :
    seek (methodSlot context klass) (rounds + 1) index =
      (methodsAt (some context) klass index).map fun mi => (index + 1, mi) := by
  rw [seek, methodSlot]
  cases methodsAt (some context) klass index <;> rfl

theorem methodPtrIter_resumes :
    Resumes (MethodPtrIter.next registerMetadataBackend) (methodSlot context klass)
      maxMethodsPerClass (MethodPtrIter.StandsAt context klass) := by
  rintro state index rfl
  have hanswer : registerMetadataBackend.methodsAt (some context) klass index =
      (methodsAt (some context) klass index, some context) := rfl
  by_cases hend : maxMethodsPerClass ≤ index
  · have hempty : maxMethodsPerClass - index = 0 := Nat.sub_eq_zero_of_le hend
    rw [hempty]
    simp only [seek, MethodPtrIter.next, if_pos hend]
  · have hrounds : maxMethodsPerClass - index = (maxMethodsPerClass - index - 1) + 1 := by
      omega
    rw [hrounds, seek_methodSlot]
    cases hmethod : methodsAt (some context) klass index with
    | none =>
        rw [hmethod] at hanswer
        simp only [Option.map_none, MethodPtrIter.next, hanswer, if_neg hend]
    | some mi =>
        rw [hmethod] at hanswer
        refine ⟨(⟨klass, index + 1, maxMethodsPerClass⟩, some context), ?_, rfl⟩
        simp only [MethodPtrIter.next, hanswer, if_neg hend]

theorem methodsOf_eq_walk :
    methodsOf registerMetadataBackend klass (some context) =
      some (walk (methodSlot context klass) maxMethodsPerClass 0) := by
  have hstands : MethodPtrIter.StandsAt context klass
    (⟨klass, 0, maxMethodsPerClass⟩, some context) 0 := rfl
  exact collect_eq_walk (methodPtrIter_resumes context klass) hstands
    (Nat.lt_succ_self maxMethodsPerClass)

theorem methodSlot_of_null (hnull : context.readOr0 8 (klass + context.cfg.klassMethods) = 0)
    (i : ℕ) : methodSlot context klass i = .stop := by
  have hmethods : methodsAt (some context) klass i = none := by
    simp only [methodsAt, Option.bind_eq_bind, Option.bind_some, hnull, if_true]
  rw [methodSlot, hmethods]

/-- One place of the array as the three loops read it. -/
theorem methodSlot_of_array {methods : ℕ}
    (hmethods : context.readOr0 8 (klass + context.cfg.klassMethods) = methods)
    (hnull : methods ≠ 0) (i : ℕ) :
    methodSlot context klass i =
      match context.image.cacheRead 8 (methods + i * 8) with
      | none | some 0 => .stop
      | some mi =>
          if context.readOr0 8 (mi + context.cfg.methodKlassOff) ≠ klass then .stop
          else .item mi := by
  simp only [methodSlot, methodsAt, Option.bind_eq_bind, Option.bind_some, hmethods,
    if_neg hnull]
  cases context.image.cacheRead 8 (methods + i * 8) with
  | none => rfl
  | some mi =>
      cases mi with
      | zero => rfl
      | succ before =>
          by_cases hother :
              context.readOr0 8 (before + 1 + context.cfg.methodKlassOff) ≠ klass
          · simp only [if_pos hother]
          · simp only [if_neg hother]

variable {name : String} (argc : ℕ)

/-- The method a search is for. -/
def isWanted (name : String) (argc mi : ℕ) : Bool :=
  methodName context mi = some name ∧ methodParamCount context mi = argc

/-- A method without a name is not the wanted one. -/
theorem findMethodLoop_round (hname : name ≠ "") (mi : ℕ) (rest : Option ℕ) :
    (match context.image.readCstr (context.readOr0 8 (mi + context.cfg.methodNameOff)) with
      | none => rest
      | some mname =>
          if mname = "" then rest
          else if mname = name ∧
              context.readOr0 1 (mi + context.cfg.methodParamCountOff) = argc then some mi
          else rest) =
      match isWanted context name argc mi with
      | true => some mi
      | false => rest := by
  cases hcstr : methodName context mi with
  | none =>
      have hwanted : isWanted context name argc mi = false := by
        simp only [isWanted, hcstr, reduceCtorEq, false_and, decide_false]
      rw [methodName] at hcstr
      simp only [hcstr, hwanted]
  | some mname =>
      have hwanted : isWanted context name argc mi =
          decide (mname = name ∧
            context.readOr0 1 (mi + context.cfg.methodParamCountOff) = argc) := by
        simp only [isWanted, hcstr, Option.some.injEq, methodParamCount]
      rw [methodName] at hcstr
      simp only [hcstr, hwanted]
      by_cases hempty : mname = ""
      · have hother : ¬ mname = name := fun hsame => hname (hsame.symm.trans hempty)
        simp only [if_pos hempty, hother, false_and, decide_false]
      · rw [if_neg hempty]
        split
        · next hmatch => rw [decide_eq_true hmatch]
        · next hmatch => rw [decide_eq_false hmatch]

theorem findMethodLoop_eq_find {methods : ℕ}
    (hmethods : context.readOr0 8 (klass + context.cfg.klassMethods) = methods)
    (hnull : methods ≠ 0) (hname : name ≠ "") (rounds i : ℕ) :
    findMethodLoop context klass name argc methods rounds i =
      (walk (methodSlot context klass) rounds i).find? (isWanted context name argc) := by
  induction rounds generalizing i with
  | zero => rfl
  | succ rounds ih =>
      rw [walk, methodSlot_of_array context klass hmethods hnull, findMethodLoop]
      cases context.image.cacheRead 8 (methods + i * 8) with
      | none => rfl
      | some mi =>
          cases mi with
          | zero => rfl
          | succ before =>
              by_cases hother :
                  context.readOr0 8 (before + 1 + context.cfg.methodKlassOff) ≠ klass
              · simp only [if_pos hother, List.find?_nil]
              · simp only [if_neg hother, ih]
                rw [List.find?_cons]
                exact findMethodLoop_round context argc hname (before + 1) _

theorem findMethodLoop_getD (name : String) (methods rounds i : ℕ) :
    (findMethodLoop context klass name argc methods rounds i).getD 0 =
      methodWalk context.image context.cfg klass name argc methods rounds i := by
  induction rounds generalizing i with
  | zero => rfl
  | succ rounds ih =>
      rw [findMethodLoop, methodWalk]
      cases context.image.cacheRead 8 (methods + i * 8) with
      | none => rfl
      | some mi =>
          cases mi with
          | zero => rfl
          | succ before =>
              by_cases hother :
                  context.readOr0 8 (before + 1 + context.cfg.methodKlassOff) ≠ klass
              · simp only [if_pos hother, Option.getD_none]
                exact (if_pos hother).symm
              · simp only [if_neg hother]
                refine Eq.trans ?_ (if_neg hother).symm
                have hread : (context.image.cacheRead 8
                    (before + 1 + context.cfg.methodNameOff)).getD 0 =
                    context.readOr0 8 (before + 1 + context.cfg.methodNameOff) := rfl
                rw [hread]
                cases context.image.readCstr
                    (context.readOr0 8 (before + 1 + context.cfg.methodNameOff)) with
                | none =>
                    simp only [Option.getD_none, ne_eq, not_true_eq_false, false_and, if_false]
                    exact ih (i + 1)
                | some mname =>
                    simp only [Option.getD_some, ne_eq]
                    by_cases hempty : mname = ""
                    · simp only [hempty, not_true_eq_false, false_and, if_true, if_false]
                      exact ih (i + 1)
                    · simp only [hempty, not_false_eq_true, true_and, if_false]
                      by_cases hmatch : mname = name ∧
                          context.readOr0 1 (before + 1 + context.cfg.methodParamCountOff) =
                            argc
                      · rw [if_pos hmatch]
                        exact (if_pos hmatch).symm
                      · rw [if_neg hmatch]
                        exact (ih (i + 1)).trans (if_neg hmatch).symm

end Methods

/-- `find_method` is the search in what `methods_of` lists, and `local_find_method` gives
the same address. -/
theorem findMethod_eq_find_methodsOf (context : Context) (klass : ℕ) (name : String)
    (argc : ℕ) (hname : name ≠ "") :
    ∃ methods, methodsOf registerMetadataBackend klass (some context) = some methods ∧
      findMethod (some context) klass name argc =
        methods.find? (fun mi =>
          methodName context mi = some name ∧ methodParamCount context mi = argc) ∧
      localFindMethod context.image context.cfg klass name argc =
        (findMethod (some context) klass name argc).getD 0 := by
  refine ⟨_, methodsOf_eq_walk context klass, ?_, ?_⟩
  · by_cases hnull : context.readOr0 8 (klass + context.cfg.klassMethods) = 0
    · have hstop := methodSlot_of_null context klass hnull 0
      have hempty : walk (methodSlot context klass) maxMethodsPerClass 0 = [] := by
        rw [maxMethodsPerClass, walk, hstop]
      simp only [findMethod, Option.bind_eq_bind, Option.bind_some, hnull, if_true, hempty,
        List.find?_nil]
    · simp only [findMethod, Option.bind_eq_bind, Option.bind_some, if_neg hnull]
      exact findMethodLoop_eq_find context klass argc rfl hnull hname 4096 0
  · simp only [findMethod, Option.bind_eq_bind, Option.bind_some, localFindMethod]
    by_cases hnull : context.readOr0 8 (klass + context.cfg.klassMethods) = 0
    · rw [if_pos hnull]
      exact if_pos hnull
    · rw [if_neg hnull, findMethodLoop_getD]
      exact if_neg hnull

theorem findMethod_eq_find_methodsOf_sample :
    ∃ methods,
      methodsOf registerMetadataBackend 0x1000 (some sampleContext) = some methods ∧
      findMethod (some sampleContext) 0x1000 "Run" 2 =
        methods.find? (fun mi => methodName sampleContext mi = some "Run" ∧
          methodParamCount sampleContext mi = 2) ∧
      localFindMethod sampleContext.image sampleContext.cfg 0x1000 "Run" 2 =
        (findMethod (some sampleContext) 0x1000 "Run" 2).getD 0 :=
  findMethod_eq_find_methodsOf sampleContext 0x1000 "Run" 2 (by decide)

end FrogAgent.KlassIter
