import FrogAgent.Core.Metadata
import FrogAgent.Hook.Signature
import FrogAgent.Lib.LastWins

/-!
# The class dump

`build_internals_lines` of `internals/dump.rs`: the walk over the live class table,
merged class by class with the parsed metadata, followed by the metadata classes
that are not loaded.  Reading the process is a parameter: what the table, the type
array and the accessors of the runtime return.
-/

namespace FrogAgent.Dump

open FrogAgent.Metadata
open FrogAgent.Signature

/-- One live field collected from a class. -/
structure RtField where
  name : String
  typeName : String
  offset : UInt32
  token : UInt32
  isStatic : Bool
  deriving DecidableEq

/-- What the dump reads of the process. -/
structure Process where
  readU64 : ℕ → Option UInt64
  classGetName : UInt64 → String
  classGetNamespace : UInt64 → String
  collectRuntimeFields : UInt64 → List RtField × Bool
  collectRuntimeMethods : UInt64 → List String
  collectRuntimeInstances : UInt64 → List String
  il2cppTypeName : UInt64 → String
  tableBase : ℕ
  tableCount : ℕ
  tableMaxSlots : ℕ
  classTableStep : ℕ
  typesArray : Option ℕ

abbrev Key := String × String

instance : LawfulBEq Key := inferInstanceAs (LawfulBEq (String × String))

def fullName (key : Key) : String :=
  if key.1 = "" then key.2 else key.1 ++ "::" ++ key.2

def DumpedClass.key (dumped : DumpedClass) : Key := (dumped.namespace, dumped.name)

/-- The format `{:#x}`. -/
def hex (number : ℕ) : String := "0x" ++ String.ofList (Nat.toDigits 16 number)

def header (full : String) (fields : List String) : String :=
  full ++ " (" ++ toString fields.length ++ " fields):"

def formatClass (dumped : DumpedClass) (fields : List String) : List String :=
  header (fullName (DumpedClass.key dumped)) fields :: fields

def maxFieldsPerClass : ℕ := 256

def fieldLine (name typeName : String) (offset token : UInt32) (isStatic : Bool) :
    String :=
  -- All ones marks a field whose runtime offset was never computed.
  let offsetStr := if offset = 0xFFFFFFFF then "META" else hex offset.toNat
  let stat := bif isStatic then "static " else ""
  let shown := if typeName = "" then "<?>" else typeName
  "    " ++ stat ++ name ++ ": " ++ shown ++ " // Offset: " ++ offsetStr ++
    ", Token: " ++ hex token.toNat

/-- `(namespace, name)` to the position of the metadata class. -/
def buildMetadataIndex (dump : Dump) : Key → Option ℕ :=
  LastWins.positions DumpedClass.key dump.classes

/-- The first class of each type index, index zero being no type. -/
def buildTypeIndexReverse (dump : Dump) (typeIndex : UInt32) : Option Key :=
  if typeIndex = 0 then none
  else (dump.classes.find? fun dumped => dumped.typeIndex = typeIndex).map DumpedClass.key

/-- The type at an index of the runtime's type array, if its name resolves. -/
def arrayTypeName (process : Process) (typeIndex : UInt32) : Option String := do
  let array ← process.typesArray
  let typePtr ← process.readU64 (wrap (array + typeIndex.toNat * 8))
  let name := process.il2cppTypeName typePtr
  if name ≠ "" ∧ name ≠ "?" then some name else none

/-- `type_from_idx`: the runtime's own name, else the class of that index. -/
def typeFromIdx (process : Process) (dump : Dump) (typeIndex : UInt32) : String :=
  match arrayTypeName process typeIndex with
  | some name => name
  | none => ((buildTypeIndexReverse dump typeIndex).map fullName).getD ""

/-- One printed field: the arguments of `field_line`. -/
structure Entry where
  name : String
  typeName : String
  offset : UInt32
  token : UInt32
  isStatic : Bool
  deriving DecidableEq

def Entry.line (entry : Entry) : String :=
  fieldLine entry.name entry.typeName entry.offset entry.token entry.isStatic

/-- `rt_lookup`: the live fields of a class by name. -/
def rtLookup (fields : List RtField) : String → Option RtField :=
  LastWins.collect (fields.map fun field => (field.name, field))

/-- A metadata field of a loaded class, completed from the live field of its name. -/
def mergeField (process : Process) (dump : Dump) (fields : List RtField)
    (metaField : DumpedField) : Entry :=
  match rtLookup fields metaField.name with
  | some live =>
      let resolved := (metaField.typeIndex.bind fun typeIndex =>
        let name := typeFromIdx process dump typeIndex
        if name = "" then none else some name).getD live.typeName
      ⟨metaField.name, resolved, live.offset, live.token, live.isStatic⟩
  | none => ⟨metaField.name, "<?>", 0, 0, false⟩

def liveField (field : RtField) : Entry :=
  ⟨field.name, field.typeName, field.offset, field.token, field.isStatic⟩

/-- A field of a class that is not loaded. -/
def metadataField (process : Process) (dump : Dump) (metaField : DumpedField) : Entry :=
  let name := metaField.typeIndex.bind fun typeIndex =>
    match arrayTypeName process typeIndex with
    | some name => some name
    | none => (buildTypeIndexReverse dump typeIndex).map fullName
  ⟨metaField.name, name.getD "<?>", 0, 0, false⟩

/-- The name of a live class; a nameless one is shown by its address. -/
def classKey (process : Process) (cls : UInt64) : Key :=
  let cname := process.classGetName cls
  let cns := process.classGetNamespace cls
  if cname = "" ∧ cns = "" then (cns, "<generic @ " ++ hex cls.toNat ++ ">")
  else (cns, cname)

def capNote (capHit : Bool) : List String :=
  bif capHit then
    ["    // ⚠ field walk hit MAX cap (" ++ toString maxFieldsPerClass ++
      "); some fields may be missing"]
  else []

/-- The metadata class a live class is merged with. -/
def metadataMatch (process : Process) (dump : Option Dump) (cls : UInt64) :
    Option (Dump × DumpedClass) := do
  let dump ← dump
  let position ← buildMetadataIndex dump (classKey process cls)
  let dumped ← dump.classes[position]?
  return (dump, dumped)

/-- The body of the walk for one live class. -/
def classLines (process : Process) (dump : Option Dump) (cls : UInt64) : List String :=
  let (rtFields, capHit) := process.collectRuntimeFields cls
  let methodLines := process.collectRuntimeMethods cls
  let instanceLines := process.collectRuntimeInstances cls
  match metadataMatch process dump cls with
  | some (dump, dumped) =>
      let fields := dumped.fields.map fun metaField =>
        (mergeField process dump rtFields metaField).line
      formatClass dumped (fields ++ capNote capHit) ++ methodLines ++ instanceLines
  | none =>
      if rtFields ≠ [] ∨ methodLines ≠ [] ∨ instanceLines ≠ [] then
        let fields := rtFields.map (fun field => (liveField field).line) ++ capNote capHit
        header (fullName (classKey process cls)) fields :: fields ++ methodLines ++
          instanceLines
      else []

/-- The accumulators of the walk. -/
structure Walk where
  allLines : List String
  seenInRuntime : List Key
  runtimeFieldCount : ℕ

/-- The class in a slot of the table; unreadable and null slots hold none. -/
def slotClass (process : Process) (slot : ℕ) : Option UInt64 :=
  (process.readU64 (wrap (process.tableBase + slot * process.classTableStep))).bind
    fun cls => if cls = 0 then none else some cls

def walkSlot (process : Process) (dump : Option Dump) (walk : Walk) (slot : ℕ) : Walk :=
  match slotClass process slot with
  | none => walk
  | some cls =>
      { allLines := walk.allLines ++ classLines process dump cls
        seenInRuntime := classKey process cls :: walk.seenInRuntime
        runtimeFieldCount := walk.runtimeFieldCount +
          (process.collectRuntimeFields cls).1.length }

def slots (process : Process) : List ℕ :=
  List.range (min process.tableCount process.tableMaxSlots)

def metadataLines (process : Process) (dump : Dump) (dumped : DumpedClass) : List String :=
  formatClass dumped (dumped.fields.map fun metaField =>
    (metadataField process dump metaField).line)

def buildInternalsLines (process : Process) (dump : Option Dump) : List String × ℕ :=
  let walk := (slots process).foldl (walkSlot process dump) ⟨[], [], 0⟩
  let appended := match dump with
    | none => []
    | some dump => dump.classes.flatMap fun dumped =>
        if DumpedClass.key dumped ∉ walk.seenInRuntime ∧ dumped.fields ≠ [] then
          metadataLines process dump dumped
        else []
  (walk.allLines ++ appended, walk.runtimeFieldCount)

end FrogAgent.Dump
