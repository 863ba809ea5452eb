import FrogAgent.Core.LossyText
import FrogAgent.Internals.TypeNames

/-!
# Type expressions and their names

What `il2cpp_type_name` is for: a type is an expression, its name is a rendering of the
expression, and a process that stores the expression the way the config dictates has
exactly that name for it.
-/

namespace FrogAgent.TypeNames

open FrogAgent.Calibration
open FrogAgent.Dump
open FrogAgent.PackedArg
open FrogAgent.Signature

/-! ## Expressions -/

/-- A text of the string heap. -/
structure HeapText where
  bytes : List UInt8
  short : bytes.length < 1024
  clean : ∀ byte ∈ bytes, 0x20 ≤ byte

def HeapText.text (heapText : HeapText) : String := fromUtf8Lossy heapText.bytes

/-- A class or value type; its name has to differ from the mark of an unknown type. -/
structure NamedType where
  isValuetype : Bool
  ns : HeapText
  name : HeapText
  nonempty : name.bytes ≠ []
  known : name.text ≠ "?"

inductive Primitive where
  | void | boolean | char | sbyte | byte | int16 | uint16 | int32 | uint32 | int64 | uint64
  | single | double | string | intPtr | uintPtr | object | typedReference

inductive Modifier where
  | cmodReqd | cmodOpt | modifier | sentinel | pinned

inductive TypeExpr where
  | primitive (type : Primitive)
  | named (type : NamedType)
  | array (elem : TypeExpr)
  | szArray (elem : TypeExpr)
  | generic (definition : NamedType) (args : List TypeExpr)
  /-- A generic parameter of a class or of a method, with the type its index is bound
  to. -/
  | param (ofMethod : Bool) (index : ℕ) (bound : TypeExpr)
  | modified (kind : Modifier) (inner : TypeExpr)

def NamedType.render (type : NamedType) : String := fullName (type.ns.text, type.name.text)

/-- The name without the generic arity. -/
def NamedType.renderBase (type : NamedType) : String :=
  fullName (type.ns.text, stripArity type.name.text)

def Primitive.name : Primitive → String
  | .void => "System.Void"
  | .boolean => "System.Boolean"
  | .char => "System.Char"
  | .sbyte => "System.SByte"
  | .byte => "System.Byte"
  | .int16 => "System.Int16"
  | .uint16 => "System.UInt16"
  | .int32 => "System.Int32"
  | .uint32 => "System.UInt32"
  | .int64 => "System.Int64"
  | .uint64 => "System.UInt64"
  | .single => "System.Single"
  | .double => "System.Double"
  | .string => "System.String"
  | .intPtr => "System.IntPtr"
  | .uintPtr => "System.UIntPtr"
  | .object => "System.Object"
  | .typedReference => "System.TypedReference"

mutual

def TypeExpr.render : TypeExpr → String
  | .primitive type => type.name
  | .named type => type.render
  | .array elem => elem.render ++ "[]"
  | .szArray elem => elem.render ++ "[]"
  | .generic definition args =>
      definition.renderBase ++ "<" ++ String.intercalate ", " (renderAll args) ++ ">"
  | .param _ _ bound => bound.render
  | .modified _ inner => inner.render

def renderAll : List TypeExpr → List String
  | [] => []
  | arg :: args => arg.render :: renderAll args

end

mutual

/-- How many types deep the resolution goes below the expression. -/
def TypeExpr.depth : TypeExpr → ℕ
  | .primitive _ => 0
  | .named _ => 0
  | .array elem => elem.depth + 1
  | .szArray elem => elem.depth + 1
  | .generic _ args => depthAll args + 1
  | .param _ _ bound => bound.depth + 1
  | .modified _ inner => inner.depth + 1

def depthAll : List TypeExpr → ℕ
  | [] => 0
  | arg :: args => max arg.depth (depthAll args)

end

/-! ## Expressions in memory -/

/-- The type codes of a primitive type. -/
def Primitive.codes : Primitive → List ℕ
  | .void => [0x01]
  | .boolean => [0x02]
  | .char => [0x03]
  | .sbyte => [0x04]
  | .byte => [0x05]
  | .int16 => [0x06]
  | .uint16 => [0x07]
  | .int32 => [0x08]
  | .uint32 => [0x09]
  | .int64 => [0x0A]
  | .uint64 => [0x0B]
  | .single => [0x0C]
  | .double => [0x0D]
  | .string => [0x0E]
  | .intPtr => [0x0F, 0x18]
  | .uintPtr => [0x10, 0x19]
  | .object => [0x1C]
  | .typedReference => [0x1F]

def Modifier.code : Modifier → ℕ
  | .cmodReqd => 0x20
  | .cmodOpt => 0x21
  | .modifier => 0x40
  | .sentinel => 0x41
  | .pinned => 0x45

section Stored

variable (r : Resolver)

/-- The `Il2CppType` at an address: its type code and its data. -/
def TypeRecord (typePtr tc data64 : ℕ) : Prop :=
  r.image.mapRead 8 typePtr = some data64 ∧
    ∃ discrim,
      r.image.mapRead 8 (typePtr + r.cfg.il2cppTypeDiscrimReadAt) = some discrim ∧
      (discrim >>> r.cfg.discrimShift) % 256 = tc

/-- The text stands at an index of the string heap, with a readable window behind it. -/
structure HeapTextAt (base idx : ℕ) (heapText : HeapText) : Prop where
  inside : base + idx < 2 ^ 64
  readable : r.image.inRegion (wrap (base + idx)) 1024 = true
  stored : ∀ place (hplace : place < heapText.bytes.length),
    r.image.memory (wrap (base + idx + place)) = heapText.bytes[place]
  ended : r.image.memory (wrap (base + idx + heapText.bytes.length)) = 0

def TypedefAt (typedefPtr : ℕ) (type : NamedType) : Prop :=
  ∃ base nameIdx nsIdx, r.stringHeapBase = some base ∧
    r.image.mapRead 4 typedefPtr = some nameIdx ∧ HeapTextAt r base nameIdx type.name ∧
    r.image.mapRead 4 (typedefPtr + 4) = some nsIdx ∧ HeapTextAt r base nsIdx type.ns

/-- CLASS or VALUETYPE -/
def NamedTypeAt (typePtr : ℕ) (type : NamedType) : Prop :=
  ∃ typedefPtr, TypeRecord r typePtr (if type.isValuetype then 0x11 else 0x12) typedefPtr ∧
    typedefPtr ≠ 0 ∧ TypedefAt r typedefPtr type

mutual

/-- The expression is stored at an address. -/
def Stored : TypeExpr → ℕ → Prop
  | .primitive type, typePtr => ∃ tc data64, TypeRecord r typePtr tc data64 ∧ tc ∈ type.codes
  | .named type, typePtr => NamedTypeAt r typePtr type
  | .array elem, typePtr =>
      ∃ arrStruct elemPtr, TypeRecord r typePtr 0x14 arrStruct ∧ arrStruct ≠ 0 ∧
        r.image.mapRead 8 arrStruct = some elemPtr ∧ elemPtr ≠ 0 ∧ Stored elem elemPtr
  | .szArray elem, typePtr =>
      ∃ elemPtr, TypeRecord r typePtr 0x1D elemPtr ∧ elemPtr ≠ 0 ∧ Stored elem elemPtr
  | .generic definition args, typePtr =>
      ∃ gc defPtr inst argv, TypeRecord r typePtr 0x15 gc ∧
        r.image.mapRead 8 gc = some defPtr ∧ NamedTypeAt r defPtr definition ∧
        r.image.mapRead 8 (gc + 0x8) = some inst ∧
        r.image.mapRead 4 inst = some args.length ∧
        r.image.mapRead 8 (inst + 0x8) = some argv ∧
        1 ≤ args.length ∧ args.length ≤ 16 ∧ StoredAll args argv 0
  | .param ofMethod index bound, typePtr =>
      ∃ paramPtr args boundPtr,
        TypeRecord r typePtr (if ofMethod then 0x1E else 0x13) paramPtr ∧
        paramIndex r paramPtr = some index ∧ r.ctx = some args ∧
        args[index]? = some boundPtr ∧ Stored bound boundPtr
  | .modified kind inner, typePtr =>
      ∃ innerPtr, TypeRecord r typePtr kind.code innerPtr ∧ innerPtr ≠ 0 ∧
        Stored inner innerPtr

/-- The arguments of a generic instance, from a place of its array on. -/
def StoredAll : List TypeExpr → ℕ → ℕ → Prop
  | [], _, _ => True
  | arg :: args, argv, i =>
      (∃ argTp, r.image.mapRead 8 (argv + i * 8) = some argTp ∧ Stored arg argTp) ∧
        StoredAll args argv (i + 1)

end

end Stored

/-! ## Texts -/

section Texts

theorem splitLast_append (mark : Char) (front back : List Char) :
    splitLast mark (front ++ back) =
      match splitLast mark back with
      | some (before, after) => some (front ++ before, after)
      | none => (splitLast mark front).map fun (before, after) => (before, after ++ back) := by
  induction front with
  | nil =>
      rw [List.nil_append]
      cases splitLast mark back <;> rfl
  | cons char front ih =>
      rw [List.cons_append, splitLast, ih, splitLast]
      cases splitLast mark back with
      | some parts => rfl
      | none =>
          cases splitLast mark front with
          | some parts => rfl
          | none =>
              simp only [Option.map_none]
              split <;> rfl

theorem splitLast_eq_none {mark : Char} {chars : List Char} (hmark : mark ∉ chars) :
    splitLast mark chars = none := by
  induction chars with
  | nil => rfl
  | cons char chars ih =>
      rw [List.mem_cons, not_or] at hmark
      rw [splitLast, ih hmark.2]
      exact if_neg (Ne.symm hmark.1)

/-- The last occurrence cuts the text in two. -/
theorem eq_of_splitLast {mark : Char} {chars before after : List Char}
    (hsplit : splitLast mark chars = some (before, after)) :
    chars = before ++ mark :: after := by
  induction chars generalizing before with
  | nil => cases hsplit
  | cons char chars ih =>
      rw [splitLast] at hsplit
      cases hrest : splitLast mark chars with
      | some parts =>
          rw [hrest] at hsplit
          cases hsplit
          rw [ih hrest, List.cons_append]
      | none =>
          rw [hrest] at hsplit
          by_cases hmark : char = mark
          · simp only [if_pos hmark, Option.some.injEq, Prod.mk.injEq] at hsplit
            rw [← hsplit.1, ← hsplit.2, hmark, List.nil_append]
          · simp only [if_neg hmark, reduceCtorEq] at hsplit

/-- An arity is the mark and digits behind it. -/
theorem stripArity_arity (base : String) {digits : List Char}
    (hdigits : ∀ digit ∈ digits, digit.isDigit = true) (hne : digits ≠ []) :
    stripArity (base ++ String.ofList (arityMark :: digits)) = base := by
  have hmark : arityMark ∉ digits := by
    intro hmem
    exact absurd (hdigits arityMark hmem) (by decide)
  have hback : splitLast arityMark (arityMark :: digits) = some ([], digits) := by
    rw [splitLast, splitLast_eq_none hmark]
    exact if_pos rfl
  have hall : digits.all Char.isDigit = true := List.all_eq_true.mpr hdigits
  rw [stripArity, String.toList_append, String.toList_ofList, splitLast_append, hback]
  simp only [List.append_nil, hall, ne_eq, hne, not_false_eq_true, and_self, if_true,
    String.ofList_toList]

theorem stripArity_no_arity {name : String}
    (hnone : ∀ (base : String) (digits : List Char), digits ≠ [] →
      (∀ digit ∈ digits, digit.isDigit = true) →
      name ≠ base ++ String.ofList (arityMark :: digits)) :
    stripArity name = name := by
  rw [stripArity]
  split
  · next before after hsplit =>
      by_cases hdigits : after.all Char.isDigit = true ∧ after ≠ []
      · have hname : name = String.ofList before ++ String.ofList (arityMark :: after) := by
          rw [← String.ofList_append, ← eq_of_splitLast hsplit, String.ofList_toList]
        exact absurd hname (hnone _ after hdigits.2 (List.all_eq_true.mp hdigits.1))
      · rw [if_neg hdigits]
  · rfl

/-- The arity is stripped from the name of the type, never from its namespace. -/
theorem stripArity_fullName (ns name : String) :
    stripArity (fullName (ns, name)) = fullName (ns, stripArity name) := by
  by_cases hempty : ns = ""
  · simp only [fullName, hempty, if_true]
  · simp only [fullName, hempty, if_false]
    rw [stripArity, stripArity, String.toList_append, splitLast_append]
    cases splitLast arityMark name.toList with
    | some parts =>
        dsimp only
        split
        · rw [String.ofList_append, String.ofList_toList]
        · rfl
    | none =>
        have hcolons : splitLast arityMark "::".toList = none := by decide
        rw [String.toList_append, splitLast_append, hcolons]
        cases splitLast arityMark ns.toList with
        | none => rfl
        | some parts =>
            have hcolon : ¬ ((parts.2 ++ "::".toList ++ name.toList).all Char.isDigit = true ∧
                parts.2 ++ "::".toList ++ name.toList ≠ []) := by
              simp
            simp only [Option.map_some]
            exact if_neg hcolon

end Texts

/-! ## Reading the names -/

theorem nameBytes_stored {image : Image} {bytes : List UInt8} {address window : ℕ}
    (hshort : bytes.length < window) (hclean : ∀ byte ∈ bytes, 0x20 ≤ byte)
    (hstored : ∀ place (hplace : place < bytes.length),
      image.memory (wrap (address + place)) = bytes[place])
    (hended : image.memory (wrap (address + bytes.length)) = 0) :
    image.nameBytes window address = some bytes := by
  induction bytes generalizing address window with
  | nil =>
      obtain ⟨window, rfl⟩ := Nat.exists_eq_succ_of_ne_zero (Nat.ne_of_gt hshort)
      have hnul : image.memory (wrap address) = 0 := hended
      rw [Image.nameBytes, hnul]
      rfl
  | cons byte bytes ih =>
      obtain ⟨window, rfl⟩ := Nat.exists_eq_succ_of_ne_zero (Nat.ne_zero_of_lt hshort)
      have hfirst : image.memory (wrap address) = byte := hstored 0 (Nat.succ_pos _)
      have hbyte : 0x20 ≤ byte := hclean byte List.mem_cons_self
      have hnonzero : byte ≠ 0 := by
        rintro rfl
        exact absurd hbyte (by decide)
      have hrest : image.nameBytes window (address + 1) = some bytes := by
        apply ih (Nat.lt_of_succ_lt_succ hshort)
        · intro other hother
          exact hclean other (List.mem_cons_of_mem _ hother)
        · intro place hplace
          have hnext : address + 1 + place = address + (place + 1) := by omega
          rw [hnext]
          exact hstored (place + 1) (Nat.succ_lt_succ hplace)
        · rwa [List.length_cons, Nat.add_comm bytes.length 1, ← Nat.add_assoc] at hended
      simp only [Image.nameBytes, hfirst, if_neg hnonzero, if_neg (UInt8.not_lt.mpr hbyte), hrest,
        Option.map_some]

section Reading

variable {r : Resolver}

theorem HeapTextAt.heapName_eq {base idx : ℕ} {heapText : HeapText}
    (hat : HeapTextAt r base idx heapText) :
    heapName r.image base idx =
      if heapText.bytes = [] then none else some heapText.text := by
  have hbytes := nameBytes_stored heapText.short heapText.clean hat.stored hat.ended
  rw [heapName, checkedAdd, if_pos hat.inside, Option.bind_some, Image.readName,
    if_pos hat.readable, hbytes, Option.bind_some]
  simp only [List.isEmpty_iff]
  rfl

theorem TypedefAt.typedefName_eq {typedefPtr : ℕ} {type : NamedType}
    (hat : TypedefAt r typedefPtr type) :
    r.stringHeapBase.bind (fun base => typedefName r.image base typedefPtr) =
      some type.render := by
  obtain ⟨base, nameIdx, nsIdx, hbase, hname, hnameAt, hns, hnsAt⟩ := hat
  have hnonempty : type.name.text ≠ "" := fromUtf8Lossy_ne_empty type.nonempty
  have hnsText : (heapName r.image base nsIdx).getD "" = type.ns.text := by
    rw [hnsAt.heapName_eq]
    split
    · next hempty =>
        rw [HeapText.text, hempty]
        rfl
    · rfl
  simp only [hbase, Option.bind_some, typedefName, hname, hnameAt.heapName_eq,
    if_neg type.nonempty, Option.bind_eq_bind, if_neg hnonempty, hns, hnsText]
  rfl

/-- What the resolution takes for a type it could not name. -/
def Unknown (name : String) : Prop := name = "" ∨ name = "?"

theorem not_unknown_of_length {name : String} (hlength : 2 ≤ name.length) :
    ¬ Unknown name := by
  rintro (rfl | rfl)
  · exact absurd hlength (by decide)
  · exact absurd hlength (by decide)

theorem not_unknown_array (elem : String) : ¬ Unknown (elem ++ "[]") := by
  apply not_unknown_of_length
  rw [String.length_append]
  exact Nat.le_add_left 2 elem.length

theorem NamedType.not_unknown (type : NamedType) : ¬ Unknown type.render := by
  rw [NamedType.render, fullName]
  split
  · rintro (hempty | hunknown)
    · exact fromUtf8Lossy_ne_empty type.nonempty hempty
    · exact type.known hunknown
  · apply not_unknown_of_length
    have hcolons : "::".length = 2 := by decide
    rw [String.length_append, String.length_append, hcolons]
    omega

theorem TypeExpr.not_unknown : ∀ expr : TypeExpr, ¬ Unknown expr.render
  | .primitive type => by
      rw [render]
      apply not_unknown_of_length
      cases type <;> decide
  | .named type => by
      rw [render]
      exact type.not_unknown
  | .array elem => by
      rw [render]
      exact not_unknown_array elem.render
  | .szArray elem => by
      rw [render]
      exact not_unknown_array elem.render
  | .generic definition args => by
      have hopen : "<".length = 1 := by decide
      have hclose : ">".length = 1 := by decide
      apply not_unknown_of_length
      rw [render, String.length_append, String.length_append, String.length_append, hopen,
        hclose]
      omega
  | .param _ _ bound => by
      rw [render]
      exact bound.not_unknown
  | .modified _ inner => by
      rw [render]
      exact inner.not_unknown

/-- A readable record of a type within the depth limit leads to its arm. -/
theorem typeNameBody_of_record {resolve : ℕ → Option String} {typePtr tc data64 depth : ℕ}
    (hrecord : TypeRecord r typePtr tc data64) (hdepth : depth ≤ 8) :
    typeNameBody r resolve typePtr depth = typeNameArm r resolve typePtr tc data64 := by
  obtain ⟨hdata, discrim, hdiscrim, hcode⟩ := hrecord
  rw [typeNameBody, if_neg (Nat.not_lt.mpr hdepth), hdata]
  simp only [hdiscrim, Option.getD_some, hcode]

theorem primitiveName_code {type : Primitive} {tc : ℕ} (hcode : tc ∈ type.codes) :
    primitiveName tc = some type.name := by
  cases type <;> simp only [Primitive.codes, List.mem_cons, List.not_mem_nil, or_false] at hcode
  all_goals
    first
      | (subst hcode; rfl)
      | (rcases hcode with rfl | rfl <;> rfl)

theorem NamedTypeAt.typeNameBody_eq {resolve : ℕ → Option String} {typePtr depth : ℕ}
    {type : NamedType} (hat : NamedTypeAt r typePtr type) (hdepth : depth ≤ 8) :
    typeNameBody r resolve typePtr depth = some type.render := by
  obtain ⟨typedefPtr, hrecord, hnonnull, htypedef⟩ := hat
  have hname : ∀ tc, klassName r tc typedefPtr = type.render := by
    intro tc
    rw [klassName, if_neg hnonnull, htypedef.typedefName_eq]
  rw [typeNameBody_of_record hrecord hdepth]
  cases type.isValuetype
  · exact congrArg some (hname 0x12)
  · exact congrArg some (hname 0x11)

theorem genericArgs_stored {resolve : ℕ → Option String} {argv : ℕ} (args : List TypeExpr) :
    ∀ i, StoredAll r args argv i →
      (∀ arg ∈ args, ∀ argTp, Stored r arg argTp → resolve argTp = some arg.render) →
      genericArgs r resolve argv args.length i = some (renderAll args) := by
  induction args with
  | nil =>
      intro i _ _
      rfl
  | cons arg args ih =>
      intro i hstored hresolve
      obtain ⟨⟨argTp, hread, harg⟩, hrest⟩ := hstored
      have hname := hresolve arg List.mem_cons_self argTp harg
      have hnames := ih (i + 1) hrest fun other hother =>
        hresolve other (List.mem_cons_of_mem _ hother)
      simp only [List.length_cons, genericArgs, hread, hname, hnames, Option.bind_eq_bind,
        Option.bind_some, renderAll]
      rfl

/-- A generic instance, when its definition and its arguments are resolved. -/
theorem genericInstName_stored {resolve : ℕ → Option String} {definition : NamedType}
    {args : List TypeExpr} {gc defPtr inst argv : ℕ}
    (hdef : r.image.mapRead 8 gc = some defPtr)
    (hbase : resolve defPtr = some definition.render)
    (hinst : r.image.mapRead 8 (gc + 0x8) = some inst)
    (hargc : r.image.mapRead 4 inst = some args.length)
    (hargv : r.image.mapRead 8 (inst + 0x8) = some argv)
    (hone : 1 ≤ args.length) (hmax : args.length ≤ 16)
    (hnames : genericArgs r resolve argv args.length 0 = some (renderAll args)) :
    genericInstName r resolve gc = some (TypeExpr.generic definition args).render := by
  have hknown : ¬ (definition.render = "" ∨ definition.render = "?") :=
    definition.not_unknown
  have hsome : renderAll args ≠ [] := by
    cases args with
    | nil => exact absurd hone (by decide)
    | cons arg args =>
        rw [renderAll]
        exact List.cons_ne_nil _ _
  rw [genericInstName, hdef, Option.elim_some, hbase]
  simp only [Option.bind_eq_bind, Option.bind_some, if_neg hknown, hinst, Option.getD_some,
    hargc, hargv, Nat.min_eq_left hmax, hnames, if_neg hsome]
  rw [TypeExpr.render, NamedType.render, stripArity_fullName]
  rfl

theorem depth_le_depthAll {arg : TypeExpr} {args : List TypeExpr} (harg : arg ∈ args) :
    arg.depth ≤ depthAll args := by
  induction args with
  | nil => cases harg
  | cons first rest ih =>
      rw [depthAll]
      rcases List.mem_cons.mp harg with rfl | hrest
      · exact Nat.le_max_left _ _
      · exact Nat.le_trans (ih hrest) (Nat.le_max_right _ _)

/-- One type, when the types it is made of are resolved. -/
theorem typeNameBody_stored {resolve : ℕ → Option String} {expr : TypeExpr}
    {typePtr depth : ℕ} (hstored : Stored r expr typePtr) (hdepth : depth ≤ 8)
    (hresolve : ∀ inner innerPtr, inner.depth < expr.depth → Stored r inner innerPtr →
      resolve innerPtr = some inner.render) :
    typeNameBody r resolve typePtr depth = some expr.render := by
  cases expr with
  | primitive type =>
      obtain ⟨tc, data64, hrecord, hcode⟩ := hstored
      rw [typeNameBody_of_record hrecord hdepth, typeNameArm, primitiveName_code hcode]
      rfl
  | named type =>
      exact hstored.typeNameBody_eq hdepth
  | array elem =>
      obtain ⟨arrStruct, elemPtr, hrecord, hnonnull, hread, helemNonnull, helem⟩ := hstored
      have hname := hresolve elem elemPtr (Nat.lt_succ_self _) helem
      rw [typeNameBody_of_record hrecord hdepth]
      have harm : typeNameArm r resolve typePtr 0x14 arrStruct = arrayName r resolve arrStruct :=
        rfl
      obtain ⟨before, rfl⟩ := Nat.exists_eq_succ_of_ne_zero helemNonnull
      simp only [harm, arrayName, if_neg hnonnull, hread, hname, Option.map_some]
      rfl
  | szArray elem =>
      obtain ⟨elemPtr, hrecord, hnonnull, helem⟩ := hstored
      have hname := hresolve elem elemPtr (Nat.lt_succ_self _) helem
      rw [typeNameBody_of_record hrecord hdepth]
      have harm : typeNameArm r resolve typePtr 0x1D elemPtr = szArrayName resolve elemPtr := rfl
      rw [harm, szArrayName, if_neg hnonnull, hname]
      rfl
  | generic definition args =>
      obtain ⟨gc, defPtr, inst, argv, hrecord, hdef, hdefAt, hinst, hargc, hargv, hone, hmax,
        hargs⟩ := hstored
      have hbase := hresolve (.named definition) defPtr (Nat.succ_pos _) hdefAt
      have hnames := genericArgs_stored args 0 hargs fun arg harg argTp hargAt =>
        hresolve arg argTp (Nat.lt_succ_of_le (depth_le_depthAll harg)) hargAt
      rw [TypeExpr.render] at hbase
      rw [typeNameBody_of_record hrecord hdepth]
      exact genericInstName_stored hdef hbase hinst hargc hargv hone hmax hnames
  | param ofMethod index bound =>
      obtain ⟨paramPtr, args, boundPtr, hrecord, hindex, hctx, harg, hbound⟩ := hstored
      have hname := hresolve bound boundPtr (Nat.lt_succ_self _) hbound
      rw [typeNameBody_of_record hrecord hdepth]
      have harm : ∀ tc, tc = 0x13 ∨ tc = 0x1E →
          typeNameArm r resolve typePtr tc paramPtr = resolveVarParam r resolve paramPtr := by
        rintro tc (rfl | rfl) <;> rfl
      rw [harm _ (by cases ofMethod <;> simp), resolveVarParam, hindex, hctx]
      have hknown : bound.render ≠ "" ∧ bound.render ≠ "?" := not_or.mp bound.not_unknown
      simp only [Option.bind_some, harg, hname, Option.bind_eq_bind, if_pos hknown]
      rfl
  | modified kind inner =>
      obtain ⟨innerPtr, hrecord, hnonnull, hinner⟩ := hstored
      have hname := hresolve inner innerPtr (Nat.lt_succ_self _) hinner
      rw [typeNameBody_of_record hrecord hdepth]
      have harm : ∃ unresolved, typeNameArm r resolve typePtr kind.code innerPtr =
          wrappedName resolve innerPtr unresolved := by
        cases kind <;> exact ⟨_, rfl⟩
      obtain ⟨unresolved, harm⟩ := harm
      rw [harm, wrappedName, if_neg hnonnull, hname]
      rfl

/-- A whole expression within the depth limit: every call finds its types resolved, the
ones that are nested deeper by the induction on the fuel. -/
theorem il2cppTypeNameDepth_stored {expr : TypeExpr} {typePtr depth fuel : ℕ}
    (hstored : Stored r expr typePtr) (hdepth : expr.depth + depth ≤ 8)
    (hfuel : expr.depth < fuel) :
    il2cppTypeNameDepth r fuel typePtr depth = some expr.render := by
  induction fuel generalizing expr typePtr depth with
  | zero => exact absurd hfuel (Nat.not_lt_zero _)
  | succ fuel ih =>
      rw [il2cppTypeNameDepth]
      apply typeNameBody_stored hstored (by omega)
      intro inner innerPtr hinner hinnerStored
      exact ih hinnerStored (by omega) (by omega)

end Reading

/-- Resolution ends in every memory, and where the memory stores an expression it ends
with the name of the expression. -/
theorem il2cppTypeName_total_faithful (r : Resolver) (typePtr : ℕ) :
    (∃ name, ∀ fuel, 9 < fuel → il2cppTypeName r fuel typePtr = some name) ∧
      ∀ expr, Stored r expr typePtr → expr.depth ≤ 8 →
        ∀ fuel, 9 < fuel → il2cppTypeName r fuel typePtr = some expr.render := by
  refine ⟨il2cppTypeName_terminates r typePtr, ?_⟩
  intro expr hstored hdepth fuel hfuel
  exact il2cppTypeNameDepth_stored hstored hdepth (by omega)

/-- The bytes of an array type over a generic instance of a class of the string heap at
`0x9000`. -/
def sampleBytes : List (ℕ × UInt8) :=
  [(0x1001, 0x20), (0x100A, 0x1D), (0x2001, 0x30), (0x200A, 0x15), (0x3001, 0x40),
    (0x3009, 0x50), (0x4001, 0x60), (0x400A, 0x12), (0x5000, 0x01), (0x5009, 0x70),
    (0x6004, 0x04), (0x7001, 0x80), (0x800A, 0x08), (0x9000, 0x4C), (0x9001, 0x60),
    (0x9002, 0x31), (0x9004, 0x47)]

def sampleResolver : Resolver where
  image := {
    memory := fun address => (sampleBytes.lookup address).getD 0
    validateRead := fun _ _ => true
    inRegion := fun _ _ => true
    isExecutable := fun _ => false
    classGetName := fun _ => ""
    classGetNamespace := fun _ => ""
    tableBase := 0
    tableCount := 0 }
  cfg := fallbackConstants
  stringHeapBase := some 0x9000
  ctx := none

def sampleType : NamedType where
  isValuetype := false
  ns := ⟨[0x47], by decide, by decide +kernel⟩
  name := ⟨[0x4C, 0x60, 0x31], by decide, by decide +kernel⟩
  nonempty := by decide
  known := by decide

def sampleExpr : TypeExpr := .szArray (.generic sampleType [.primitive .int32])

theorem sampleType_stored : NamedTypeAt sampleResolver 0x4000 sampleType := by
  refine ⟨0x6000, ⟨by decide, 0x120000, by decide, by decide⟩, by decide, 0x9000, 0, 4, rfl,
    by decide, ⟨by decide, rfl, ?_, by decide⟩, by decide, ⟨by decide, rfl, ?_, by decide⟩⟩
  · intro place hplace
    match place, hplace with
    | 0, _ => rfl
    | 1, _ => rfl
    | 2, _ => rfl
  · intro place hplace
    match place, hplace with
    | 0, _ => rfl

theorem sampleExpr_stored : Stored sampleResolver sampleExpr 0x1000 := by
  refine ⟨0x2000, ⟨by decide, 0x1D0000, by decide, by decide⟩, by decide, 0x3000, 0x4000,
    0x5000, 0x7000, ⟨by decide, 0x150000, by decide, by decide⟩, by decide,
    sampleType_stored, by decide, by decide, by decide, by decide, by decide, ?_⟩
  exact ⟨⟨0x8000, by decide, 0x08, 0, ⟨by decide, 0x080000, by decide, by decide⟩,
    by decide⟩, trivial⟩

theorem il2cppTypeName_total_faithful_sample :
    il2cppTypeName sampleResolver 10 0x1000 = some "G::L<System.Int32>[]" := by
  have hname := (il2cppTypeName_total_faithful sampleResolver 0x1000).2 sampleExpr
    sampleExpr_stored (by decide) 10 (by decide)
  rw [hname]
  decide

end FrogAgent.TypeNames
