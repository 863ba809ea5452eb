import FrogAgent.Internals.Calibration
import FrogAgent.Internals.Dump

/-!
# Names of runtime types

`internals/resolve.rs`: the name of an `Il2CppType`, read out of the memory of the
process.  The walk goes from a type to the types it is made of, which in a damaged
process may lead anywhere; a depth limit ends it.
-/

namespace FrogAgent.TypeNames

open FrogAgent.Calibration
open FrogAgent.Dump

/-- What `il2cpp_type_name` is given beside the type: the region map with the process
behind it, the config, the string heap of `TypeMaps` and the arguments of the
`GenericCtx`. -/
structure Resolver where
  image : Image
  cfg : Il2CppConfig
  stringHeapBase : Option ℕ
  ctx : Option (List ℕ)

/-- `usize::checked_add` -/
def checkedAdd (left right : ℕ) : Option ℕ :=
  if left + right < 2 ^ 64 then some (left + right) else none

/-- The name at an index of the string heap. -/
def heapName (image : Image) (base idx : ℕ) : Option String :=
  (checkedAdd base idx).bind image.readName

def typedefName (image : Image) (base typedefPtr : ℕ) : Option String := do
  let nameIdx ← image.mapRead 4 typedefPtr
  let name ← heapName image base nameIdx
  if name = "" then none
  else
    let ns := (image.mapRead 4 (typedefPtr + 4)).bind (heapName image base)
    some (fullName (ns.getD "", name))

/-- The mark before the generic arity. -/
def arityMark : Char := Char.ofNat 0x60

/-- `rfind`: what is before and after the last occurrence. -/
def splitLast (mark : Char) : List Char → Option (List Char × List Char)
  | [] => none
  | char :: chars =>
      match splitLast mark chars with
      | some (before, after) => some (char :: before, after)
      | none => if char = mark then some ([], chars) else none

def stripArity (name : String) : String :=
  match splitLast arityMark name.toList with
  | some (before, after) =>
      if after.all Char.isDigit ∧ after ≠ [] then String.ofList before else name
  | none => name

def primitiveName : ℕ → Option String
  | 0x01 => some "System.Void"
  | 0x02 => some "System.Boolean"
  | 0x03 => some "System.Char"
  | 0x04 => some "System.SByte"
  | 0x05 => some "System.Byte"
  | 0x06 => some "System.Int16"
  | 0x07 => some "System.UInt16"
  | 0x08 => some "System.Int32"
  | 0x09 => some "System.UInt32"
  | 0x0A => some "System.Int64"
  | 0x0B => some "System.UInt64"
  | 0x0C => some "System.Single"
  | 0x0D => some "System.Double"
  | 0x0E => some "System.String"
  | 0x0F | 0x18 => some "System.IntPtr"
  | 0x10 | 0x19 => some "System.UIntPtr"
  | 0x1C => some "System.Object"
  | 0x1F => some "System.TypedReference"
  | _ => none

/-- The format `{:02x}` of a byte. -/
def hex02 (byte : ℕ) : String :=
  (if byte < 16 then "0" else "") ++ String.ofList (Nat.toDigits 16 byte)

section Arms

variable (r : Resolver)

/-- The index of a generic parameter, in either of two layouts. -/
def paramIndex (paramPtr : ℕ) : Option ℕ :=
  let direct := (r.image.mapRead 4 paramPtr).getD 0xFFFFFFFF
  if direct ≤ 65535 then some direct else r.image.mapRead 2 (paramPtr + 10)

-- In the arms below `resolve` is the resolution of another type one level deeper; it has
-- no answer when the model runs out of fuel.
variable (resolve : ℕ → Option String)

def resolveVarParam (paramPtr : ℕ) : Option String :=
  match paramIndex r paramPtr with
  | none => some "!?"
  | some idx =>
      match r.ctx.bind fun args => args[idx]? with
      | none => some ("!" ++ toString idx)
      | some argTp => do
          let concrete ← resolve argTp
          if concrete ≠ "" ∧ concrete ≠ "?" then return concrete
          else return "!" ++ toString idx

/-- ARRAY -/
def arrayName (arrStruct : ℕ) : Option String :=
  if arrStruct = 0 then some "System.Array"
  else
    match r.image.mapRead 8 arrStruct with
    | none | some 0 => some "System.Array"
    | some elemTypeAddr => (resolve elemTypeAddr).map (· ++ "[]")

/-- SZARRAY -/
def szArrayName (elemTp : ℕ) : Option String :=
  if elemTp = 0 then some "System.Array" else (resolve elemTp).map (· ++ "[]")

/-- The loop over the arguments of a generic instance. -/
def genericArgs (argv : ℕ) : ℕ → ℕ → Option (List String)
  | 0, _ => some []
  | rounds + 1, i =>
      match r.image.mapRead 8 (argv + i * 8) with
      | none => genericArgs argv rounds (i + 1)
      | some argTp => do
          let name ← resolve argTp
          let rest ← genericArgs argv rounds (i + 1)
          return name :: rest

/-- GENERICINST -/
def genericInstName (gc : ℕ) : Option String := do
  let definition ← (r.image.mapRead 8 gc).elim (some "") resolve
  if definition = "" ∨ definition = "?" then return "System.Generic"
  else
    let baseName := stripArity definition
    let classInst := (r.image.mapRead 8 (gc + 0x8)).getD 0
    let argc := (r.image.mapRead 4 classInst).getD 0
    let argv := (r.image.mapRead 8 (classInst + 0x8)).getD 0
    let args ← genericArgs r resolve argv (min argc 16) 0
    if args = [] then return baseName
    else return baseName ++ "<" ++ String.intercalate ", " args ++ ">"

/-- CLASS and VALUETYPE: the string heap first, then the accessors of the runtime. -/
def klassName (tc p : ℕ) : String :=
  let unresolved := if tc = 0x11 then "<unresolved-struct>" else "<unresolved-class>"
  if p = 0 then unresolved
  else
    match r.stringHeapBase.bind fun base => typedefName r.image base p with
    | some name => name
    | none =>
        let cn := r.image.classGetName p
        if cn ≠ "" then fullName (r.image.classGetNamespace p, cn) else unresolved

/-- The modifiers, each of which wraps an inner type. -/
def wrappedName (inner : ℕ) (unresolved : String) : Option String :=
  if inner = 0 then some unresolved else resolve inner

/-- The `match` on the type code. -/
def typeNameArm (typePtr tc data64 : ℕ) : Option String :=
  match primitiveName tc with
  | some name => some name
  | none =>
      if tc = 0x13 ∨ tc = 0x1E then resolveVarParam r resolve data64
      else if tc = 0x14 then arrayName r resolve data64
      else if tc = 0x1D then szArrayName resolve data64
      else if tc = 0x15 then genericInstName r resolve data64
      else if tc = 0x11 ∨ tc = 0x12 then some (klassName r tc data64)
      else if tc = 0x20 ∨ tc = 0x21 then wrappedName resolve data64 "<cmod-unresolved>"
      else if tc = 0x40 then wrappedName resolve data64 "<modifier-unresolved>"
      else if tc = 0x41 then wrappedName resolve data64 "<sentinel-unresolved>"
      else if tc = 0x45 then wrappedName resolve data64 "<pinned-unresolved>"
      else if tc ≤ 0x45 then some ("<unhandled-tc:0x" ++ hex02 tc ++ ">")
      else some ("<garbage-tc:0x" ++ hex02 tc ++ " @ " ++ hex typePtr ++ ">")

def typeNameBody (typePtr depth : ℕ) : Option String :=
  if 8 < depth then some "?"
  else
    match r.image.mapRead 8 typePtr with
    | none => some "?"
    | some data64 =>
        let discrim :=
          (r.image.mapRead 8 (typePtr + r.cfg.il2cppTypeDiscrimReadAt)).getD 0
        typeNameArm r resolve typePtr ((discrim >>> r.cfg.discrimShift) % 256) data64

end Arms

/-- `fuel` bounds the nesting of calls; without it there is no answer. -/
def il2cppTypeNameDepth (r : Resolver) : ℕ → ℕ → ℕ → Option String
  | 0, _, _ => none
  | fuel + 1, typePtr, depth =>
      typeNameBody r (fun inner => il2cppTypeNameDepth r fuel inner (depth + 1))
        typePtr depth

def il2cppTypeName (r : Resolver) (fuel typePtr : ℕ) : Option String :=
  il2cppTypeNameDepth r fuel typePtr 0

/-! ## Termination -/

section Termination

variable (r : Resolver) {resolve : ℕ → Option String}

theorem genericArgs_total (hresolve : ∀ inner, ∃ name, resolve inner = some name)
    (argv rounds i : ℕ) : ∃ names, genericArgs r resolve argv rounds i = some names := by
  induction rounds generalizing i with
  | zero => exact ⟨[], rfl⟩
  | succ rounds ih =>
      obtain ⟨rest, hrest⟩ := ih (i + 1)
      rw [genericArgs]
      cases r.image.mapRead 8 (argv + i * 8) with
      | none => exact ⟨rest, hrest⟩
      | some argTp =>
          obtain ⟨name, hname⟩ := hresolve argTp
          exact ⟨name :: rest, by simp only [hname, hrest, Option.bind_eq_bind,
            Option.bind_some, Option.pure_def]⟩

theorem resolveVarParam_total (hresolve : ∀ inner, ∃ name, resolve inner = some name)
    (paramPtr : ℕ) : ∃ name, resolveVarParam r resolve paramPtr = some name := by
  rw [resolveVarParam]
  cases paramIndex r paramPtr with
  | none => exact ⟨_, rfl⟩
  | some idx =>
      dsimp only
      cases r.ctx.bind fun args => args[idx]? with
      | none => exact ⟨_, rfl⟩
      | some argTp =>
          obtain ⟨concrete, hconcrete⟩ := hresolve argTp
          simp only [hconcrete, Option.bind_eq_bind, Option.bind_some]
          split <;> exact ⟨_, rfl⟩

theorem arrayName_total (hresolve : ∀ inner, ∃ name, resolve inner = some name)
    (arrStruct : ℕ) : ∃ name, arrayName r resolve arrStruct = some name := by
  rw [arrayName]
  split
  · exact ⟨_, rfl⟩
  · split
    · exact ⟨_, rfl⟩
    · exact ⟨_, rfl⟩
    · next elemTypeAddr _ _ =>
        obtain ⟨elem, helem⟩ := hresolve elemTypeAddr
        exact ⟨elem ++ "[]", by rw [helem, Option.map_some]⟩

theorem szArrayName_total (hresolve : ∀ inner, ∃ name, resolve inner = some name)
    (elemTp : ℕ) : ∃ name, szArrayName resolve elemTp = some name := by
  rw [szArrayName]
  split
  · exact ⟨_, rfl⟩
  · obtain ⟨elem, helem⟩ := hresolve elemTp
    exact ⟨elem ++ "[]", by rw [helem, Option.map_some]⟩

theorem genericInstName_total (hresolve : ∀ inner, ∃ name, resolve inner = some name)
    (gc : ℕ) : ∃ name, genericInstName r resolve gc = some name := by
  have hdefinition : ∃ definition,
      (r.image.mapRead 8 gc).elim (some "") resolve = some definition := by
    cases r.image.mapRead 8 gc with
    | none => exact ⟨"", rfl⟩
    | some tp => exact hresolve tp
  obtain ⟨definition, hdefinition⟩ := hdefinition
  rw [genericInstName, hdefinition, Option.bind_eq_bind, Option.bind_some]
  split
  · exact ⟨_, rfl⟩
  · obtain ⟨args, hargs⟩ := genericArgs_total r hresolve
      ((r.image.mapRead 8 ((r.image.mapRead 8 (gc + 0x8)).getD 0 + 0x8)).getD 0)
      (min ((r.image.mapRead 4 ((r.image.mapRead 8 (gc + 0x8)).getD 0)).getD 0) 16) 0
    simp only [hargs, Option.bind_eq_bind, Option.bind_some]
    split <;> exact ⟨_, rfl⟩

theorem wrappedName_total (hresolve : ∀ inner, ∃ name, resolve inner = some name)
    (inner : ℕ) (unresolved : String) :
    ∃ name, wrappedName resolve inner unresolved = some name := by
  rw [wrappedName]
  split
  · exact ⟨_, rfl⟩
  · exact hresolve inner

theorem ite_total {condition : Prop} [Decidable condition] {left right : Option String}
    (hleft : ∃ name, left = some name) (hright : ∃ name, right = some name) :
    ∃ name, (if condition then left else right) = some name := by
  split
  · exact hleft
  · exact hright

theorem typeNameArm_total (hresolve : ∀ inner, ∃ name, resolve inner = some name)
    (typePtr tc data64 : ℕ) :
    ∃ name, typeNameArm r resolve typePtr tc data64 = some name := by
  rw [typeNameArm]
  cases primitiveName tc with
  | some name => exact ⟨name, rfl⟩
  | none =>
      apply ite_total (resolveVarParam_total r hresolve data64)
      apply ite_total (arrayName_total r hresolve data64)
      apply ite_total (szArrayName_total hresolve data64)
      apply ite_total (genericInstName_total r hresolve data64)
      apply ite_total ⟨_, rfl⟩
      -- The four kinds of modifiers, and the two fallbacks.
      iterate 4
        apply ite_total (wrappedName_total hresolve data64 _)
      exact ite_total ⟨_, rfl⟩ ⟨_, rfl⟩

theorem typeNameBody_total (hresolve : ∀ inner, ∃ name, resolve inner = some name)
    (typePtr depth : ℕ) : ∃ name, typeNameBody r resolve typePtr depth = some name := by
  rw [typeNameBody]
  split
  · exact ⟨_, rfl⟩
  · split
    · exact ⟨_, rfl⟩
    · exact typeNameArm_total r hresolve typePtr _ _

/-- The depth limit ends the walk in every memory: what is below it in the nesting has
one answer for all the fuel there may be. -/
theorem il2cppTypeNameDepth_total (left : ℕ) : ∀ typePtr depth, 9 - depth = left →
    ∃ name, ∀ fuel, left < fuel → il2cppTypeNameDepth r fuel typePtr depth = some name := by
  induction left with
  | zero =>
      intro typePtr depth hleft
      refine ⟨"?", fun fuel hfuel => ?_⟩
      obtain ⟨fuel, rfl⟩ := Nat.exists_eq_succ_of_ne_zero (Nat.ne_of_gt hfuel)
      have hdeep : 8 < depth := by omega
      rw [il2cppTypeNameDepth, typeNameBody, if_pos hdeep]
  | succ left ih =>
      intro typePtr depth hleft
      choose answer hanswer using fun inner => ih inner (depth + 1) (by omega)
      obtain ⟨name, hname⟩ := typeNameBody_total r (fun inner => ⟨answer inner, rfl⟩)
        typePtr depth
      refine ⟨name, fun fuel hfuel => ?_⟩
      obtain ⟨fuel, rfl⟩ := Nat.exists_eq_succ_of_ne_zero (Nat.ne_zero_of_lt hfuel)
      have hinner : (fun inner => il2cppTypeNameDepth r fuel inner (depth + 1)) =
          fun inner => some (answer inner) := by
        funext inner
        exact hanswer inner fuel (Nat.lt_of_succ_lt_succ hfuel)
      rw [il2cppTypeNameDepth, hinner]
      exact hname

/-- Every memory has a name for every pointer, and a nesting of ten calls finds it. -/
theorem il2cppTypeName_terminates (typePtr : ℕ) :
    ∃ name, ∀ fuel, 9 < fuel → il2cppTypeName r fuel typePtr = some name :=
  il2cppTypeNameDepth_total r 9 typePtr 0 rfl

end Termination

end FrogAgent.TypeNames
