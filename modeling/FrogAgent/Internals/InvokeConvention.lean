import FrogAgent.Internals.Invoke

/-!
# The argument convention of the runtime

`il2cpp_runtime_invoke` takes one `void*` per parameter: the address of the value for a
value type, the object itself for a reference, null for a null reference.
`InvokeContext::pack` puts every argument but null into a slab and passes the address of
the slab.  The slabs outlive the growth of the two vectors, so values arrive as they
should; an object handle or a string arrives one level of indirection too deep.
-/

namespace FrogAgent.Invoke

open FrogAgent.BlockHeap
open FrogAgent.ByteMemory
open FrogAgent.Error
open FrogAgent.LittleEndian
open FrogAgent.Marshal
open FrogAgent.PackedArg
open FrogAgent.Signature
open FrogAgent.TypedValue

/-! ## What the runtime expects -/

/-- The pointer leads to storage that holds exactly these bytes. -/
def Slab (heap : Heap Cell) (pointer : ℕ) (bytes : List UInt8) : Prop :=
  Stored heap pointer (bytes.map .byte)

/-- The convention for one argument, at a moment when the heap is `now`; packing it
started in the heap `start`. -/
def Follows (process : Process) (start now : Heap Cell) : InvokeArg → ℕ → Prop
  | .prim value, pointer => Slab now pointer value.encode
  | .struct bytes, pointer => Slab now pointer bytes
  | .instance handle, pointer => pointer = handle.toNat
  | .string text, pointer => ∃ stringNew, process.stringNew = some stringNew ∧
      pointer = (stringNew.call start (utf8ToCstring text)).1
  | .null, pointer => pointer = 0
  | .array _, _ => False

/-- Whenever the runtime is called, it gets one pointer per argument, and each follows
the convention from the moment its argument is packed until the call. -/
def Convention (internals : Internals) (memory : Memory UInt8) (process : Process)
    (method : ℕ) (receiver : Option UInt64) (args : List InvokeArg) : Prop :=
  ∀ call, (invokeMethod internals memory process method receiver args).1 = some call →
    ∃ pointers : List ℕ, pointers.length = args.length ∧
      (args ≠ [] → call.heap.lookup call.argsPtr = some (pointers.map .pointer)) ∧
      ∀ idx stop start now arg pointer, idx < stop → stop ≤ args.length →
        packed internals process (args.take idx) = .ok start →
        packed internals process (args.take stop) = .ok now →
        args[idx]? = some arg → pointers[idx]? = some pointer →
          Follows process start.heap now.heap arg pointer

/-- Some process calls the runtime with these arguments. -/
def Accepted (internals : Internals) (memory : Memory UInt8) (method : ℕ)
    (receiver : Option UInt64) (args : List InvokeArg) : Prop :=
  ∃ process call,
    (invokeMethod internals memory process method receiver args).1 = some call

/-- The arguments that are no objects of their own. -/
def ByValue : InvokeArg → Prop
  | .prim _ | .struct _ | .null => True
  | .instance _ | .string _ | .array _ => False

/-! ## What the code passes -/

/-- A slab with the bytes, at an address chosen by the allocator. -/
def Slabbed (allocator : Allocator Cell) (heap : Heap Cell) (pointer : ℕ)
    (bytes : List UInt8) : Prop :=
  Slab heap pointer bytes ∧
    (bytes ≠ [] → ∃ before size, pointer = allocator.place before size)

/-- The entry of `args_ptrs` for one argument. -/
def Entry (allocator : Allocator Cell) (heap : Heap Cell) : InvokeArg → ℕ → Prop
  | .prim value, pointer => Slabbed allocator heap pointer value.encode
  | .struct bytes, pointer => Slabbed allocator heap pointer bytes
  | .instance handle, pointer =>
      Slabbed allocator heap pointer (leBytes 8 handle.toNat)
  | .string _, pointer =>
      ∃ address, address ≠ 0 ∧ Slabbed allocator heap pointer (leBytes 8 address)
  | .null, pointer => pointer = 0
  | .array _, _ => False

inductive Kind where
  | byte
  | pointer
  | slab
  deriving DecidableEq

def Cell.kind : Cell → Kind
  | .byte _ => .byte
  | .pointer _ => .pointer
  | .slab _ _ => .slab

/-- All cells of a block are of one kind. -/
def OfKind (kind : Kind) (block : List Cell) : Prop := ∀ cell ∈ block, cell.kind = kind

theorem ne_of_kind {left right : Kind} (hkind : left ≠ right) {block cells : List Cell}
    (hblock : OfKind left block) (hcells : OfKind right cells) (hne : block ≠ []) :
    block ≠ cells := by
  intro hsame
  obtain ⟨cell, hcell⟩ := List.exists_mem_of_ne_nil block hne
  apply hkind
  rw [← hblock cell hcell, hcells cell (hsame ▸ hcell)]

theorem ofKind_bytes (bytes : List UInt8) : OfKind .byte (bytes.map .byte) := by
  intro cell hcell
  obtain ⟨_, -, rfl⟩ := List.mem_map.mp hcell
  rfl

theorem ofKind_pointers (pointers : List ℕ) :
    OfKind .pointer (pointers.map .pointer) := by
  intro cell hcell
  obtain ⟨_, -, rfl⟩ := List.mem_map.mp hcell
  rfl

/-- Every slab of the first heap is in the second one. -/
def KeepsSlabs (before after : Heap Cell) : Prop :=
  ∀ pointer bytes, Slab before pointer bytes → Slab after pointer bytes

theorem keepsSlabs_of_keeps {before after : Heap Cell} (hkeeps : Keeps before after) :
    KeepsSlabs before after :=
  fun _ _ hslab => hslab.mono hkeeps

theorem KeepsSlabs.trans {first second third : Heap Cell}
    (hleft : KeepsSlabs first second) (hright : KeepsSlabs second third) :
    KeepsSlabs first third :=
  fun pointer bytes hslab => hright pointer bytes (hleft pointer bytes hslab)

/-- A vector of another kind grows without touching the slabs. -/
theorem push_keepsSlabs (allocator : Allocator Cell) {heap : Heap Cell} {vec : RawVec}
    {cells : List Cell} (howns : vec.Owns heap cells) {kind : Kind}
    (hcells : OfKind kind cells) (hkind : Kind.byte ≠ kind) (cell : Cell) :
    KeepsSlabs heap (vec.push allocator heap cell).1 := by
  intro pointer bytes hslab hne
  apply howns.push_lookup allocator _ cell (hslab hne)
  exact ne_of_kind hkind (ofKind_bytes bytes) hcells hne

/-- The two vectors of the context, with the pointers in the first one. -/
structure Separate (context : InvokeContext) (pointers : List ℕ) : Prop where
  ptrs : context.argsPtrs.Owns context.heap (pointers.map .pointer)
  slabs : ∃ headers, context.argSlabs.Owns context.heap headers ∧ OfKind .slab headers

theorem new_separate (heap : Heap Cell) : Separate (.new heap) [] :=
  ⟨RawVec.new_owns heap, [], RawVec.new_owns heap, nofun⟩

theorem Separate.mono {context : InvokeContext} {pointers : List ℕ} {after : Heap Cell}
    (hseparate : Separate context pointers) (hkeeps : Keeps context.heap after) :
    Separate { context with heap := after } pointers := by
  obtain ⟨headers, howns, hkind⟩ := hseparate.slabs
  exact ⟨hseparate.ptrs.mono hkeeps, headers, howns.mono hkeeps, hkind⟩

theorem pushPtr_separate (allocator : Allocator Cell) {context : InvokeContext}
    {pointers : List ℕ} (hseparate : Separate context pointers) (pointer : ℕ) :
    Separate (context.pushPtr allocator pointer) (pointers ++ [pointer]) := by
  obtain ⟨headers, howns, hkind⟩ := hseparate.slabs
  constructor
  · rw [List.map_append]
    exact RawVec.push_owns allocator hseparate.ptrs (.pointer pointer)
  · refine ⟨headers, howns.keep fun hcapacity hblock => ?_, hkind⟩
    have hne : Kind.slab ≠ Kind.pointer := nofun
    apply hseparate.ptrs.push_lookup allocator _ (.pointer pointer) hblock
    exact ne_of_kind hne hkind (ofKind_pointers pointers) (howns.used hcapacity)

theorem pushPtr_keepsSlabs (allocator : Allocator Cell) {context : InvokeContext}
    {pointers : List ℕ} (hseparate : Separate context pointers) (pointer : ℕ) :
    KeepsSlabs context.heap (context.pushPtr allocator pointer).heap :=
  push_keepsSlabs allocator hseparate.ptrs (ofKind_pointers pointers) nofun
    (.pointer pointer)

/-- The header of a new slab joins the other headers. -/
theorem pushHeader_separate (allocator : Allocator Cell) {context : InvokeContext}
    {pointers : List ℕ} (hseparate : Separate context pointers) (address length : ℕ) :
    let pushed := context.argSlabs.push allocator context.heap (.slab address length)
    Separate { context with argSlabs := pushed.2, heap := pushed.1 } pointers ∧
      KeepsSlabs context.heap pushed.1 := by
  obtain ⟨headers, howns, hkind⟩ := hseparate.slabs
  refine ⟨⟨hseparate.ptrs.keep fun hcapacity hblock => ?_, headers ++ [.slab address length],
    RawVec.push_owns allocator howns _, ?_⟩, push_keepsSlabs allocator howns hkind nofun _⟩
  · have hne : Kind.pointer ≠ Kind.slab := nofun
    apply howns.push_lookup allocator _ _ hblock
    exact ne_of_kind hne (ofKind_pointers pointers) hkind (hseparate.ptrs.used hcapacity)
  · intro cell hcell
    rcases List.mem_append.mp hcell with hold | hnew
    · exact hkind cell hold
    · rw [List.mem_singleton.mp hnew]
      rfl

/-- A slab is stored, and stays where it is when the vectors grow. -/
theorem pushSlab_spec (allocator : Allocator Cell) {context : InvokeContext}
    {pointers : List ℕ} (hseparate : Separate context pointers) (bytes : List UInt8) :
    ∃ pointer,
      Separate (context.pushSlab allocator bytes) (pointers ++ [pointer]) ∧
        KeepsSlabs context.heap (context.pushSlab allocator bytes).heap ∧
        Slabbed allocator (context.pushSlab allocator bytes).heap pointer bytes := by
  have hboxed := box_keeps allocator context.heap (bytes.map .byte)
  obtain ⟨hheaders, hkept⟩ := pushHeader_separate allocator (hseparate.mono hboxed)
    (allocator.box context.heap (bytes.map .byte)).2 bytes.length
  have hpushed := hkept.trans (pushPtr_keepsSlabs allocator hheaders
    (allocator.box context.heap (bytes.map .byte)).2)
  refine ⟨_, pushPtr_separate allocator hheaders _, (keepsSlabs_of_keeps hboxed).trans hpushed,
    hpushed _ _ (box_stored allocator context.heap _), fun hne => ?_⟩
  exact ⟨_, _, box_placed allocator context.heap (mt List.map_eq_nil_iff.mp hne)⟩

/-! ## The loop -/

/-- After some arguments: their entries, in order. -/
structure Laid (allocator : Allocator Cell) (args : List InvokeArg)
    (context : InvokeContext) (pointers : List ℕ) : Prop where
  separate : Separate context pointers
  entries : List.Forall₂ (Entry allocator context.heap) args pointers

theorem new_laid (allocator : Allocator Cell) (heap : Heap Cell) :
    Laid allocator [] (.new heap) [] :=
  ⟨new_separate heap, .nil⟩

theorem Slabbed.mono {allocator : Allocator Cell} {before after : Heap Cell}
    (hkeeps : KeepsSlabs before after) {pointer : ℕ} {bytes : List UInt8}
    (hslabbed : Slabbed allocator before pointer bytes) :
    Slabbed allocator after pointer bytes :=
  ⟨hkeeps pointer bytes hslabbed.1, hslabbed.2⟩

theorem Entry.mono {allocator : Allocator Cell} {before after : Heap Cell}
    (hkeeps : KeepsSlabs before after) {arg : InvokeArg} {pointer : ℕ}
    (hentry : Entry allocator before arg pointer) :
    Entry allocator after arg pointer := by
  cases arg with
  | prim | struct | «instance» => exact Slabbed.mono hkeeps hentry
  | string =>
      obtain ⟨address, hnonnull, hslabbed⟩ := hentry
      exact ⟨address, hnonnull, hslabbed.mono hkeeps⟩
  | null | array => exact hentry

theorem Laid.concat {allocator : Allocator Cell} {args : List InvokeArg}
    {context next : InvokeContext} {pointers : List ℕ}
    (hlaid : Laid allocator args context pointers) {arg : InvokeArg} {pointer : ℕ}
    (hseparate : Separate next (pointers ++ [pointer]))
    (hkeeps : KeepsSlabs context.heap next.heap)
    (hentry : Entry allocator next.heap arg pointer) :
    Laid allocator (args ++ [arg]) next (pointers ++ [pointer]) where
  separate := hseparate
  entries := List.rel_append
    (hlaid.entries.imp fun _ _ hold => hold.mono hkeeps) (.cons hentry .nil)

theorem Laid.pushSlab {allocator : Allocator Cell} {args : List InvokeArg}
    {context : InvokeContext} {pointers : List ℕ}
    (hlaid : Laid allocator args context pointers) {arg : InvokeArg}
    {bytes : List UInt8}
    (hentry : ∀ heap pointer, Slabbed allocator heap pointer bytes →
      Entry allocator heap arg pointer) :
    ∃ pointer, Laid allocator (args ++ [arg]) (context.pushSlab allocator bytes)
      (pointers ++ [pointer]) := by
  obtain ⟨pointer, hseparate, hkeeps, hslabbed⟩ :=
    pushSlab_spec allocator hlaid.separate bytes
  exact ⟨pointer, hlaid.concat hseparate hkeeps (hentry _ pointer hslabbed)⟩

theorem Laid.mono {allocator : Allocator Cell} {args : List InvokeArg}
    {context : InvokeContext} {pointers : List ℕ} {after : Heap Cell}
    (hlaid : Laid allocator args context pointers) (hkeeps : Keeps context.heap after) :
    Laid allocator args { context with heap := after } pointers where
  separate := hlaid.separate.mono hkeeps
  entries := hlaid.entries.imp fun _ _ hold => hold.mono (keepsSlabs_of_keeps hkeeps)

/-- One round of the loop adds the entry of its argument and keeps the others. -/
theorem pack_laid {internals : Internals} {process : Process} {args : List InvokeArg}
    {context next : InvokeContext} {pointers : List ℕ} {idx : UInt8} {arg : InvokeArg}
    (hlaid : Laid process.allocator args context pointers)
    (hpack : context.pack internals process idx arg = .ok next) :
    ∃ pointer, Laid process.allocator (args ++ [arg]) next (pointers ++ [pointer]) := by
  cases arg with
  | prim | «instance» | struct =>
      cases hpack
      exact hlaid.pushSlab fun _ _ hslabbed => hslabbed
  | null =>
      cases hpack
      exact ⟨0, hlaid.concat (pushPtr_separate process.allocator hlaid.separate 0)
        (pushPtr_keepsSlabs process.allocator hlaid.separate 0) rfl⟩
  | string text =>
      rcases pack_string internals process context idx text with
        ⟨stringNew, -, hnonnull, hok⟩ | ⟨reason, herror⟩ | ⟨reason, herror⟩
      · rw [hok] at hpack
        cases hpack
        have hcreated := hlaid.mono (stringNew.call_keeps context.heap (utf8ToCstring text))
        exact hcreated.pushSlab fun _ _ hslabbed => ⟨_, hnonnull, hslabbed⟩
      · rw [herror] at hpack
        cases hpack
      · rw [herror] at hpack
        cases hpack
  | array elems => cases hpack

theorem packArgs_laid {internals : Internals} {process : Process}
    {before args : List InvokeArg} {context final : InvokeContext} {pointers : List ℕ}
    {idx : ℕ} (hlaid : Laid process.allocator before context pointers)
    (hpacked : packArgs internals process idx context args = .ok final) :
    ∃ more, Laid process.allocator (before ++ args) final (pointers ++ more) := by
  induction args generalizing before context pointers idx with
  | nil =>
      cases hpacked
      refine ⟨[], ?_⟩
      rw [List.append_nil, List.append_nil]
      exact hlaid
  | cons arg args ih =>
      cases hpack : context.pack internals process (UInt8.ofNat idx) arg with
      | error error =>
          rw [packArgs, hpack] at hpacked
          cases hpacked
      | ok next =>
          rw [packArgs, hpack] at hpacked
          obtain ⟨pointer, hnext⟩ := pack_laid hlaid hpack
          obtain ⟨more, hfinal⟩ := ih hnext hpacked
          rw [List.append_assoc, List.append_assoc] at hfinal
          exact ⟨pointer :: more, hfinal⟩

theorem packArgs_append (internals : Internals) (process : Process) (idx : ℕ)
    (context : InvokeContext) (first second : List InvokeArg) :
    packArgs internals process idx context (first ++ second) =
      (packArgs internals process idx context first).bind fun next =>
        packArgs internals process (idx + first.length) next second := by
  induction first generalizing idx context with
  | nil => rfl
  | cons arg first ih =>
      rw [List.cons_append, packArgs, packArgs]
      cases context.pack internals process (UInt8.ofNat idx) arg with
      | error error => rfl
      | ok next =>
          dsimp only
          rw [ih, List.length_cons, Nat.add_right_comm, Nat.add_assoc]

/-- The context of an argument list extends that of each of its first parts. -/
theorem packed_take_laid {internals : Internals} {process : Process}
    {args : List InvokeArg} {now final : InvokeContext} {stop : ℕ}
    (hfinal : packed internals process args = .ok final)
    (hnow : packed internals process (args.take stop) = .ok now) :
    ∃ pointers more, Laid process.allocator (args.take stop) now pointers ∧
      Laid process.allocator args final (pointers ++ more) := by
  obtain ⟨pointers, hlaid⟩ := packArgs_laid (new_laid process.allocator process.heap) hnow
  rw [List.nil_append, List.nil_append] at hlaid
  rw [packed] at hfinal hnow
  rw [← List.take_append_drop stop args, packArgs_append, hnow] at hfinal
  obtain ⟨more, hall⟩ := packArgs_laid hlaid hfinal
  rw [List.take_append_drop] at hall
  exact ⟨pointers, more, hlaid, hall⟩

theorem packed_take {internals : Internals} {process : Process} {args : List InvokeArg}
    {final : InvokeContext} (hfinal : packed internals process args = .ok final)
    (stop : ℕ) : ∃ now, packed internals process (args.take stop) = .ok now := by
  rw [packed] at hfinal
  rw [← List.take_append_drop stop args, packArgs_append] at hfinal
  cases hnow : packed internals process (args.take stop) with
  | error error =>
      rw [packed] at hnow
      rw [hnow] at hfinal
      cases hfinal
  | ok now => exact ⟨now, rfl⟩

theorem packed_laid {internals : Internals} {process : Process} {args : List InvokeArg}
    {final : InvokeContext} (hfinal : packed internals process args = .ok final) :
    ∃ pointers, Laid process.allocator args final pointers := by
  obtain ⟨pointers, hlaid⟩ := packArgs_laid (new_laid process.allocator process.heap) hfinal
  exact ⟨pointers, hlaid⟩

/-! ## The call -/

theorem Separate.pointers_eq {context : InvokeContext} {left right : List ℕ}
    (hleft : Separate context left) (hright : Separate context right) : left = right := by
  have hcells : left.map Cell.pointer = right.map Cell.pointer :=
    hleft.ptrs.contents_eq.symm.trans hright.ptrs.contents_eq
  exact List.map_injective_iff.mpr (fun _ _ hsame => Cell.pointer.inj hsame) hcells

theorem entry_at {allocator : Allocator Cell} {heap : Heap Cell} {args : List InvokeArg}
    {pointers : List ℕ} (hentries : List.Forall₂ (Entry allocator heap) args pointers)
    {idx : ℕ} {arg : InvokeArg} {pointer : ℕ} (harg : args[idx]? = some arg)
    (hpointer : pointers[idx]? = some pointer) : Entry allocator heap arg pointer := by
  obtain ⟨hidx, rfl⟩ := List.getElem?_eq_some_iff.mp harg
  obtain ⟨hidx', rfl⟩ := List.getElem?_eq_some_iff.mp hpointer
  exact (List.forall₂_iff_get.mp hentries).2 idx hidx hidx'

/-- The runtime is handed the packed pointers. -/
theorem call_laid {internals : Internals} {memory : Memory UInt8} {process : Process}
    {method : ℕ} {receiver : Option UInt64} {args : List InvokeArg} {call : RuntimeCall}
    (hcall : (invokeMethod internals memory process method receiver args).1 = some call) :
    ∃ final pointers, packed internals process args = .ok final ∧
      Laid process.allocator args final pointers ∧
      (args ≠ [] → call.heap.lookup call.argsPtr = some (pointers.map .pointer)) := by
  obtain ⟨_, _, hprepared⟩ := invokeMethod_call_iff.mp hcall
  obtain ⟨-, -, -, -, this, final, -, hfinal, rfl⟩ := prepareCall_ok_iff.mp hprepared
  obtain ⟨pointers, hlaid⟩ := packed_laid hfinal
  refine ⟨final, pointers, hfinal, hlaid, fun hargs => ?_⟩
  have howns := hlaid.separate.ptrs
  have hlength : final.argsPtrs.length = args.length := by
    rw [← howns.length_eq, List.length_map, hlaid.entries.length_eq]
  have hpos : 0 < final.argsPtrs.length := by
    rw [hlength]
    exact List.length_pos_iff.mpr hargs
  dsimp only
  rw [if_neg (Nat.ne_of_gt hpos)]
  exact howns.stored (Nat.lt_of_lt_of_le hpos howns.length_le)

theorem Entry.follows {process : Process} {start now : Heap Cell} {arg : InvokeArg}
    {pointer : ℕ} (hvalue : ByValue arg)
    (hentry : Entry process.allocator now arg pointer) :
    Follows process start now arg pointer := by
  cases arg with
  | prim | struct => exact hentry.1
  | null => exact hentry
  | «instance» | string | array => exact hvalue.elim

theorem convention_of_byValue (internals : Internals) (memory : Memory UInt8)
    (process : Process) (method : ℕ) (receiver : Option UInt64) {args : List InvokeArg}
    (hvalues : ∀ arg ∈ args, ByValue arg) :
    Convention internals memory process method receiver args := by
  intro call hcall
  obtain ⟨final, pointers, hfinal, hlaid, hpassed⟩ := call_laid hcall
  refine ⟨pointers, hlaid.entries.length_eq.symm, hpassed, ?_⟩
  intro idx stop start now arg pointer hidx hstop _ hnow harg hpointer
  obtain ⟨front, more, hfront, hall⟩ := packed_take_laid hfinal hnow
  have hpointers : pointers = front ++ more := hlaid.separate.pointers_eq hall.separate
  have hlength : idx < front.length := by
    rw [← hfront.entries.length_eq, List.length_take]
    exact Nat.lt_min.mpr ⟨hidx, Nat.lt_of_lt_of_le hidx hstop⟩
  rw [hpointers, List.getElem?_append_left hlength] at hpointer
  have htaken : (args.take stop)[idx]? = some arg := by
    rw [List.getElem?_take_of_lt hidx]
    exact harg
  have hentry := entry_at hfront.entries htaken hpointer
  exact hentry.follows (hvalues arg (List.mem_of_getElem? harg))

/-- An entry that follows the convention is also the one the code makes. -/
theorem Convention.entry {internals : Internals} {memory : Memory UInt8}
    {process : Process} {method : ℕ} {receiver : Option UInt64} {args : List InvokeArg}
    {call : RuntimeCall}
    (hconvention : Convention internals memory process method receiver args)
    (hcall : (invokeMethod internals memory process method receiver args).1 = some call)
    {arg : InvokeArg} (harg : arg ∈ args) :
    ∃ start now pointer, Follows process start now arg pointer ∧
      Entry process.allocator now arg pointer := by
  obtain ⟨final, pointers, hfinal, hlaid, hpassed⟩ := call_laid hcall
  obtain ⟨found, hlength, hfound, hfollows⟩ := hconvention call hcall
  have hargs : args ≠ [] := List.ne_nil_of_mem harg
  have hsame : found.map Cell.pointer = pointers.map Cell.pointer := by
    have hblock := (hfound hargs).symm.trans (hpassed hargs)
    exact Option.some.inj hblock
  have hpointers : found = pointers :=
    List.map_injective_iff.mpr (fun _ _ hcell => Cell.pointer.inj hcell) hsame
  obtain ⟨idx, hidx⟩ := List.getElem?_of_mem harg
  have hrange : idx < args.length := (List.getElem?_eq_some_iff.mp hidx).1
  obtain ⟨pointer, hpointer⟩ : ∃ pointer, pointers[idx]? = some pointer := by
    rw [← hpointers]
    exact ⟨_, List.getElem?_eq_getElem (hlength ▸ hrange)⟩
  obtain ⟨start, hstart⟩ := packed_take hfinal idx
  have hwhole : packed internals process (args.take args.length) = .ok final := by
    rw [List.take_length]
    exact hfinal
  refine ⟨start.heap, final.heap, pointer, ?_, entry_at hlaid.entries hidx hpointer⟩
  rw [← hpointers] at hpointer
  exact hfollows idx args.length start final arg pointer hrange (Nat.le_refl _) hstart
    hwhole hidx hpointer

/-! ## A process that accepts everything it can -/

/-- A bound on the object handles among the arguments, and on `0x1000`. -/
def handleBound : List InvokeArg → ℕ
  | [] => 0x1000
  | .instance handle :: args => max handle.toNat (handleBound args)
  | _ :: args => handleBound args

/-- Every string is created at `0x1000`, and the Rust heap lies above that and above
all objects. -/
def permissive (args : List InvokeArg) : Process where
  allocator := .above Cell (handleBound args)
  heap := ∅
  stringNew := some ⟨fun heap _ => (0x1000, heap), fun heap _ => Keeps.refl heap⟩
  runtimeInvoke := some fun _ => ⟨0, 0, fun _ => 0⟩
  exceptionGetMessage := none

theorem le_handleBound_cons (arg : InvokeArg) (args : List InvokeArg) :
    handleBound args ≤ handleBound (arg :: args) := by
  cases arg with
  | «instance» handle => exact Nat.le_max_right _ _
  | prim | string | struct | array | null => exact Nat.le_refl _

theorem base_le_handleBound (args : List InvokeArg) : 0x1000 ≤ handleBound args := by
  induction args with
  | nil => exact Nat.le_refl _
  | cons arg args ih => exact Nat.le_trans ih (le_handleBound_cons arg args)

theorem handle_le_handleBound {args : List InvokeArg} {handle : UInt64}
    (hmem : .instance handle ∈ args) : handle.toNat ≤ handleBound args := by
  induction args with
  | nil => cases hmem
  | cons arg args ih =>
      rcases List.mem_cons.mp hmem with rfl | hrest
      · exact Nat.le_max_left _ _
      · exact Nat.le_trans (ih hrest) (le_handleBound_cons arg args)

/-- Without arrays, the process packs everything. -/
theorem permissive_packArgs {internals : Internals} (hctx : internals.ctx.isSome)
    (all : List InvokeArg) {args : List InvokeArg}
    (harrays : ∀ elems, .array elems ∉ args) (idx : ℕ) (context : InvokeContext) :
    ∃ final, packArgs internals (permissive all) idx context args = .ok final := by
  induction args generalizing idx context with
  | nil => exact ⟨context, rfl⟩
  | cons arg args ih =>
      have hpack : ∃ next,
          context.pack internals (permissive all) (UInt8.ofNat idx) arg = .ok next := by
        cases arg with
        | prim | «instance» | struct | null => exact ⟨_, rfl⟩
        | string text =>
            rw [InvokeContext.pack]
            rw [Option.isNone_eq_false_iff.mpr hctx]
            exact ⟨_, rfl⟩
        | array elems => exact absurd List.mem_cons_self (harrays elems)
      obtain ⟨next, hnext⟩ := hpack
      rw [packArgs, hnext]
      exact ih (fun elems helems => harrays elems (List.mem_cons_of_mem _ helems)) _ next

theorem array_not_mem_of_laid {allocator : Allocator Cell} {args : List InvokeArg}
    {context : InvokeContext} {pointers : List ℕ}
    (hlaid : Laid allocator args context pointers) (elems : List InvokeArg) :
    .array elems ∉ args := by
  intro hmem
  obtain ⟨idx, hidx⟩ := List.getElem?_of_mem hmem
  have hrange : idx < pointers.length := by
    rw [← hlaid.entries.length_eq]
    exact (List.getElem?_eq_some_iff.mp hidx).1
  exact entry_at hlaid.entries hidx (List.getElem?_eq_getElem hrange)

theorem Accepted.permissive_call {internals : Internals} {memory : Memory UInt8}
    {method : ℕ} {receiver : Option UInt64} {args : List InvokeArg}
    (haccepted : Accepted internals memory method receiver args) :
    (∀ elems, .array elems ∉ args) ∧ ∃ call,
      (invokeMethod internals memory (permissive args) method receiver args).1 =
        some call := by
  obtain ⟨process, call, hcall⟩ := haccepted
  obtain ⟨_, sig, hprepared⟩ := invokeMethod_call_iff.mp hcall
  obtain ⟨hctx, -, hsig, hlength, this, context, hthis, hpacked, -⟩ :=
    prepareCall_ok_iff.mp hprepared
  obtain ⟨pointers, hlaid⟩ := packed_laid hpacked
  have harrays := array_not_mem_of_laid hlaid
  obtain ⟨final, hfinal⟩ :=
    permissive_packArgs hctx args harrays 0 (.new (permissive args).heap)
  exact ⟨harrays, _, invokeMethod_call_iff.mpr ⟨_, sig, prepareCall_ok_iff.mpr
    ⟨hctx, rfl, hsig, hlength, this, final, hthis, hfinal, rfl⟩⟩⟩

/-- A slab of that process lies above every object and string. -/
theorem handleBound_lt_of_slabbed {args : List InvokeArg} {heap : Heap Cell}
    {pointer word : ℕ}
    (hslabbed : Slabbed (permissive args).allocator heap pointer (leBytes 8 word)) :
    handleBound args < pointer := by
  obtain ⟨before, size, rfl⟩ := hslabbed.2 nofun
  exact bound_lt_place (handleBound args) before size

/-- The arguments of an accepted call follow the convention of the runtime, in every
process, exactly if there is no object and no string among them. -/
theorem convention_iff_byValue {internals : Internals} {memory : Memory UInt8}
    {method : ℕ} {receiver : Option UInt64} {args : List InvokeArg}
    (haccepted : Accepted internals memory method receiver args) :
    (∀ process, Convention internals memory process method receiver args) ↔
      ∀ arg ∈ args, ByValue arg := by
  constructor
  · intro hconvention arg harg
    obtain ⟨harrays, call, hcall⟩ := haccepted.permissive_call
    obtain ⟨start, now, pointer, hfollows, hentry⟩ :=
      (hconvention (permissive args)).entry hcall harg
    cases arg with
    | prim | struct | null => exact trivial
    | «instance» handle =>
        have hlt := handleBound_lt_of_slabbed hentry
        rw [hfollows] at hlt
        exact Nat.not_le_of_lt hlt (handle_le_handleBound harg)
    | string text =>
        obtain ⟨address, -, hslabbed⟩ := hentry
        obtain ⟨stringNew, hstring, rfl⟩ := hfollows
        cases hstring
        have hlt := handleBound_lt_of_slabbed hslabbed
        exact Nat.not_le_of_lt hlt (base_le_handleBound args)
    | array elems => exact harrays elems harg
  · intro hvalues process
    exact convention_of_byValue internals memory process method receiver hvalues

theorem convention_sampleNumber :
    Accepted sampleInternals (sampleMethod 0x08 0x08) 0x100 none [.prim (.i32 7)] ∧
      ∀ process, Convention sampleInternals (sampleMethod 0x08 0x08) process 0x100 none
        [.prim (.i32 7)] := by
  have haccepted : Accepted sampleInternals (sampleMethod 0x08 0x08) 0x100 none
      [.prim (.i32 7)] := ⟨permissive [], _, rfl⟩
  refine ⟨haccepted, (convention_iff_byValue haccepted).mpr ?_⟩
  intro arg harg
  rw [List.mem_singleton.mp harg]
  exact trivial

/-- A static method that takes an object, called with the object at `0x5000`: the
runtime gets the address of a slab instead. -/
theorem not_convention_sampleObject :
    Accepted sampleInternals (sampleMethod 0x12 0x08) 0x100 none [.instance 0x5000] ∧
      ¬ ∀ process, Convention sampleInternals (sampleMethod 0x12 0x08) process 0x100 none
        [.instance 0x5000] := by
  refine ⟨⟨permissive [], _, rfl⟩, fun hconvention => ?_⟩
  obtain ⟨pointers, -, hpassed, hfollows⟩ := hconvention (permissive []) _ rfl
  have hpointers : [Cell.pointer 0x100001000] = pointers.map .pointer :=
    Option.some.inj (hpassed nofun)
  cases pointers with
  | nil => cases hpointers
  | cons pointer rest =>
      have hslab : 0x100001000 = pointer := Cell.pointer.inj (List.cons.inj hpointers).1
      have hobject : pointer = 0x5000 :=
        hfollows 0 1 _ _ (.instance 0x5000) pointer Nat.one_pos (Nat.le_refl 1) rfl rfl rfl rfl
      rw [hobject] at hslab
      cases hslab

end FrogAgent.Invoke
