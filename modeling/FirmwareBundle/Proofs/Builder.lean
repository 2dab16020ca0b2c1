import FirmwareBundle.Bundle.Builder
import Mathlib.Data.List.Basic
import Mathlib.Tactic.Common
/-!
# What a builder makes of its payloads

A bundle is built if every payload fits. Its table then has one entry for each payload, in the
order of flash memory, and the entries say of the payloads what is true of them.

## Main definitions

* `FirmwareBundle.Packing.entry` — the entry of a payload that fits.

## Main results

* `FirmwareBundle.Builder.build_eq_ok_iff` — the builders that give a bundle, and which one.
* `FirmwareBundle.Slots.mem_toList`, `FirmwareBundle.Slots.nodup_kinds` — what is in the slots, and
  that no kind of partition is given twice.
-/

namespace FirmwareBundle

/-! ## Slots -/

/-- The list of what is in `slots` has `(kind, x)` if and only if the slot of `kind` holds `x`. -/
theorem Slots.mem_toList {α : Type} {slots : Slots α} {kind : PartitionKind} {x : α} :
    (kind, x) ∈ slots.toList ↔ slots.get? kind = some x := by
  have hkind : kind ∈ PartitionKind.all := by cases kind <;> decide
  rw [toList, List.mem_filterMap]
  constructor
  · rintro ⟨other, -, hother⟩
    obtain ⟨y, hget, heq⟩ := Option.map_eq_some_iff.1 hother
    obtain ⟨rfl, rfl⟩ := Prod.mk.inj heq
    exact hget
  · intro hget
    exact ⟨kind, hkind, by rw [hget]; rfl⟩

/-- The kinds that are given stand in the order of flash memory: they are a sublist of
`PartitionKind.all`. Each kind adds one entry to `slots.toList` or none, so this is an induction on
the list of kinds. -/
lemma Slots.kinds_sublist {α : Type} (slots : Slots α) :
    (slots.toList.map (·.1)).Sublist PartitionKind.all := by
  have hkinds : ∀ kinds : List PartitionKind,
      ((kinds.filterMap fun kind => (slots.get? kind).map (kind, ·)).map (·.1)).Sublist kinds := by
    intro kinds
    induction kinds with
    | nil => exact List.Sublist.refl []
    | cons kind kinds ih =>
      cases hget : slots.get? kind with
      | none => simpa [hget] using ih.cons kind
      | some x => simpa [hget] using ih
  exact hkinds PartitionKind.all

/-- No kind of partition is given twice in `slots.toList`, since none is in `PartitionKind.all`
(`Slots.kinds_sublist`). -/
theorem Slots.nodup_kinds {α : Type} (slots : Slots α) : (slots.toList.map (·.1)).Nodup :=
  slots.kinds_sublist.nodup (by decide)

/-- Two kinds with the same `PartitionKind.name` are the same. -/
lemma PartitionKind.name_injective : Function.Injective PartitionKind.name := by
  intro a b h
  cases a <;> cases b <;> first | rfl | exact absurd h (by decide)

/-! ## Entries -/

section Pack

variable {packing : Packing} {kind : PartitionKind} {payload : ByteArray}

/-- The entry of the payload `image.2` of the kind `image.1`, if it fits. -/
def Packing.entry (packing : Packing) (image : PartitionKind × ByteArray) : PartitionSpec :=
  ⟨image.1.name, image.2.size.toUInt64, some (shortDigest image.2), packing.slotSize image.1⟩

/-- No payload that fits is too long for its length word: `packing.capacity kind` is at most
`Bytes.maxLength`, with slots and without. -/
lemma Packing.capacity_le (packing : Packing) (kind : PartitionKind) :
    packing.capacity kind ≤ Bytes.maxLength := by
  cases packing with
  | fixedSlot => exact Nat.min_le_left _ _
  | tight => exact Nat.le_refl _

/-- The payload of `kind` is packed if and only if it has at most `packing.capacity kind` bytes, and
then into `packing.entry (kind, payload)`. -/
lemma packOne_eq_ok_iff {spec : PartitionSpec} :
    packOne packing kind payload = .ok spec ↔
      payload.size ≤ packing.capacity kind ∧ spec = packing.entry (kind, payload) := by
  rw [packOne]
  split
  · rename_i hlt
    simp only [reduceCtorEq, false_iff]
    omega
  · rename_i hle
    rw [Except.ok.injEq]
    exact ⟨fun h => ⟨by omega, h.symm⟩, fun h => h.2.symm⟩

/-- All `images` are packed without an error if and only if each keeps within the capacity of its
kind, and then into the list of their entries.

**Proof sketch.** Induction on `images`. The first image is packed if and only if it fits
(`packOne_eq_ok_iff`), and only then the others are tried; if it does not fit, there is an error,
and the condition fails for it. -/
lemma packAll_eq_none_iff {images : List (PartitionKind × ByteArray)}
    {specs : List PartitionSpec} :
    packAll packing images = (specs, none) ↔
      (∀ image ∈ images, image.2.size ≤ packing.capacity image.1) ∧
        specs = images.map packing.entry := by
  induction images generalizing specs with
  | nil => simp [packAll, eq_comm]
  | cons image images ih =>
    rw [packAll, List.forall_mem_cons, List.map_cons]
    cases hone : packOne packing image.1 image.2 with
    | error e =>
      simp only [Prod.mk.injEq, reduceCtorEq, and_false, false_iff]
      rintro ⟨⟨hfits, -⟩, -⟩
      rw [packOne_eq_ok_iff.2 ⟨hfits, rfl⟩] at hone
      cases hone
    | ok spec =>
      obtain ⟨hfits, rfl⟩ := packOne_eq_ok_iff.1 hone
      constructor
      · intro h
        obtain ⟨rfl, hnone⟩ := Prod.mk.inj h
        obtain ⟨hall, hrest⟩ := ih.1 (Prod.ext rfl hnone)
        exact ⟨⟨hfits, hall⟩, congrArg (packing.entry image :: ·) hrest⟩
      · rintro ⟨⟨-, hall⟩, rfl⟩
        simp only [ih.2 ⟨hall, rfl⟩]

end Pack

namespace Builder

/-- **A bundle is built if every payload fits**, and it is the manifest of their entries with the
payloads in the order of flash memory: both lists come from `b.payloads.toList`.

**Proof sketch.** The builder packs all payloads first, so `packAll_eq_none_iff` says when there is
no error and what the entries are then. -/
theorem build_eq_ok_iff {b : Builder} {bundle : Bundle} :
    b.build = .ok bundle ↔
      (∀ image ∈ b.payloads.toList, image.2.size ≤ b.packing.capacity image.1) ∧
        bundle = ⟨b.manifest (b.payloads.toList.map b.packing.entry),
          b.payloads.toList.map (·.2)⟩ := by
  cases hrun : packAll b.packing b.payloads.toList with
  | mk specs e =>
    cases e with
    | none =>
      obtain ⟨hall, rfl⟩ := packAll_eq_none_iff.1 hrun
      simp only [build, run, hrun, Except.ok.injEq]
      exact ⟨fun h => ⟨hall, h.symm⟩, fun h => h.2.symm⟩
    | some e =>
      simp only [build, run, hrun, reduceCtorEq, false_iff]
      rintro ⟨hall, -⟩
      rw [packAll_eq_none_iff.2 ⟨hall, rfl⟩] at hrun
      cases hrun

end Builder

end FirmwareBundle
