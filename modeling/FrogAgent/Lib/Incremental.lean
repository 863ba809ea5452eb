import Mathlib.Data.List.Basic

/-!
# Incremental decoding of a byte stream

A decoder takes one event off the front of a buffer, or asks for more input.  If
further input cannot change an event that is already there, the events of a
stream do not depend on the pieces in which it arrives.
-/

namespace FrogAgent.Incremental

variable {Byte Event : Type*}

/-- One event off the front of the buffer, with the rest of it. -/
structure Decoder (Byte Event : Type*) where
  next : List Byte → Option (Event × List Byte)
  shorter : ∀ {buffer event rest}, next buffer = some (event, rest) →
    rest.length < buffer.length
  extends_right : ∀ {buffer event rest} (more : List Byte),
    next buffer = some (event, rest) →
      next (buffer ++ more) = some (event, rest ++ more)

namespace Decoder

variable (decoder : Decoder Byte Event)

/-- Take events off the buffer, at most `rounds` of them. -/
def drainWithin : ℕ → List Byte → List Event × List Byte
  | 0, buffer => ([], buffer)
  | rounds + 1, buffer =>
      match decoder.next buffer with
      | none => ([], buffer)
      | some (event, rest) =>
          let (events, last) := drainWithin rounds rest
          (event :: events, last)

/-- Take events off the buffer until the decoder asks for more.  Every event uses
up input, so a buffer holds no more events than elements. -/
def drain (buffer : List Byte) : List Event × List Byte :=
  decoder.drainWithin buffer.length buffer

variable {decoder}

theorem drainWithin_of_le {rounds more : ℕ} {buffer : List Byte}
    (hrounds : buffer.length ≤ rounds) (hmore : rounds ≤ more) :
    decoder.drainWithin more buffer = decoder.drainWithin rounds buffer := by
  induction rounds generalizing more buffer with
  | zero =>
      have hnone : decoder.next buffer = none := by
        by_contra hsome
        obtain ⟨⟨event, rest⟩, hnext⟩ := Option.ne_none_iff_exists'.mp hsome
        have := decoder.shorter hnext
        omega
      cases more with
      | zero => rfl
      | succ more => simp only [drainWithin, hnone]
  | succ rounds ih =>
      obtain ⟨more, rfl⟩ : ∃ more', more = more' + 1 := ⟨more - 1, by omega⟩
      simp only [drainWithin]
      cases hnext : decoder.next buffer with
      | none => rfl
      | some found =>
          obtain ⟨event, rest⟩ := found
          have hshorter := decoder.shorter hnext
          dsimp only
          rw [ih (by omega) (by omega)]

theorem drain_of_none {buffer : List Byte} (hnone : decoder.next buffer = none) :
    decoder.drain buffer = ([], buffer) := by
  unfold drain
  cases buffer with
  | nil => rfl
  | cons byte buffer => simp only [List.length_cons, drainWithin, hnone]

theorem drain_of_some {buffer rest : List Byte} {event : Event}
    (hnext : decoder.next buffer = some (event, rest)) :
    decoder.drain buffer =
      (event :: (decoder.drain rest).1, (decoder.drain rest).2) := by
  have hshorter := decoder.shorter hnext
  obtain ⟨rounds, hrounds⟩ : ∃ rounds, buffer.length = rounds + 1 :=
    ⟨buffer.length - 1, by omega⟩
  unfold drain
  rw [hrounds, drainWithin, hnext]
  dsimp only
  rw [drainWithin_of_le (Nat.le_refl _) (by omega)]

/-- Induction along the events of a buffer. -/
theorem events_induction (decoder : Decoder Byte Event)
    {motive : List Byte → Prop}
    (hnone : ∀ buffer, decoder.next buffer = none → motive buffer)
    (hsome : ∀ buffer event rest, decoder.next buffer = some (event, rest) →
      motive rest → motive buffer)
    (buffer : List Byte) : motive buffer := by
  cases hnext : decoder.next buffer with
  | none => exact hnone buffer hnext
  | some found =>
      have hshorter := decoder.shorter hnext
      exact hsome buffer found.1 found.2 hnext
        (events_induction decoder hnone hsome found.2)
termination_by buffer.length

/-- Draining in two goes: what the first leaves is drained with the rest. -/
theorem drain_append (decoder : Decoder Byte Event)
    (first second : List Byte) :
    decoder.drain (first ++ second) =
      ((decoder.drain first).1 ++
          (decoder.drain ((decoder.drain first).2 ++ second)).1,
        (decoder.drain ((decoder.drain first).2 ++ second)).2) := by
  induction first using events_induction decoder with
  | hnone first hnext =>
      rw [drain_of_none hnext]
      rfl
  | hsome first event rest hnext ih =>
      rw [drain_of_some (decoder.extends_right second hnext),
        drain_of_some hnext, ih]
      rfl

/-- A drained buffer holds no further event. -/
theorem drain_drain (buffer : List Byte) :
    decoder.drain (decoder.drain buffer).2 = ([], (decoder.drain buffer).2) := by
  have htwice := decoder.drain_append buffer []
  rw [List.append_nil, List.append_nil] at htwice
  have hevents := congrArg Prod.fst htwice
  have hrest := congrArg Prod.snd htwice
  exact Prod.ext (List.self_eq_append_right.mp hevents) hrest.symm

end Decoder

end FrogAgent.Incremental
