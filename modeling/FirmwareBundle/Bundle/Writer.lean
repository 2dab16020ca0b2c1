import FirmwareBundle.Bundle.Builder
/-!
# Bundles written to a stream

A stream takes the bytes that it is handed in pieces of its own choosing. So a part of a bundle is
handed over again and again, without what has been taken of it, until nothing of it is left.

## Main definitions

* `FirmwareBundle.Writer` — what takes bytes.
* `FirmwareBundle.Writer.writeAll` — bytes that are handed over until all are taken.
* `FirmwareBundle.Bundle.streamTo` — a bundle that is handed over part by part.
* `FirmwareBundle.Writer.limited` — what takes so many bytes and no more.
-/

namespace FirmwareBundle

/-- What takes bytes, with states `σ`. Of the bytes that it is handed, `take` takes some from the
front and tells how many, or it fails. A request that is interrupted is made again, so only its last
answer counts. -/
structure Writer (σ : Type) where
  take : σ → ByteArray → Except IoFault (Nat × σ)
  take_le : ∀ {state data count next}, take state data = .ok (count, next) → count ≤ data.size

/-- The `state` of a writer, and the bytes that it has `received` so far. -/
structure Stream (σ : Type) where
  state : σ
  received : ByteArray := .empty

namespace Writer

variable {σ : Type}

/-- The fault of a writer that takes none of the bytes that it is handed. -/
def nothingTaken : IoFault :=
  .described "failed to write whole buffer"

/-- Hands `data` to the writer `w` until all of it is taken. -/
def writeAll (w : Writer σ) (s : Stream σ) (data : ByteArray) : Stream σ × Except IoFault Unit :=
  if data.size = 0 then (s, .ok ())
  else
    match w.take s.state data with
    | .error cause => (s, .error cause)
    | .ok (0, state) => ({ s with state }, .error nothingTaken)
    | .ok (n + 1, state) =>
      w.writeAll ⟨state, s.received ++ data.extract 0 (n + 1)⟩ (data.extract (n + 1) data.size)
termination_by data.size
decreasing_by
  rw [ByteArray.size_extract]
  omega

/-- Hands parts to the writer `w`, one after the other, until one of them is not taken. -/
def writeParts (w : Writer σ) (s : Stream σ) :
    List ByteArray → Stream σ × Except BundleError Unit
  | [] => (s, .ok ())
  | part :: parts =>
    match w.writeAll s part with
    | (s, .error cause) => (s, .error (.io cause))
    | (s, .ok ()) => w.writeParts s parts

/-- The writer that takes at most `piece` bytes at once while it has room, and then fails with the
fault `full`. Its state is the room that is left. -/
def limited (piece : Nat) (full : IoFault) : Writer Nat where
  take room data :=
    if room = 0 then .error full
    else
      let count := min piece (min room data.size)
      .ok (count, room - count)
  take_le := by
    intro room data count next h
    split at h
    · cases h
    · obtain ⟨rfl, -⟩ := Prod.mk.inj (Except.ok.inj h)
      omega

end Writer

/-- Hands the bundle `b`, part by part, to the writer `w` in `state`. -/
def Bundle.streamTo {σ : Type} (b : Bundle) (w : Writer σ) (state : σ) :
    Stream σ × Except BundleError Unit :=
  w.writeParts ⟨state, .empty⟩ b.parts

end FirmwareBundle
