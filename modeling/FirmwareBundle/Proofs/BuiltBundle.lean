import FirmwareBundle.Proofs.Bytes
import FirmwareBundle.Proofs.Saving
import Mathlib.Data.List.Nodup
/-!
# Which bundles are built, and what they say of themselves

A builder gives a bundle if every payload keeps its bound. In fixed slots the bound is the slot of
its kind, and without slots it is the longest length that a word can tell. Otherwise the payload
that is told is the first one, in the order of flash memory, that does not keep it.

A bundle that is built agrees with itself. Its table has an entry for each payload, in the same
order, and what an entry says of a payload is true of it. The writer and the reader both rely on
this.

## Main definitions

* `FirmwareBundle.Packing.limit` — the bound that a payload must keep.
* `FirmwareBundle.Builder.FirstOversize` — the first payload that does not keep it.
* `FirmwareBundle.Builder.requested` — the parts of what is added to the kernel's command line.
* `FirmwareBundle.PartitionSpec.Describes` — an entry is true of a payload.
* `FirmwareBundle.Bundle.Describes` — a bundle agrees with itself and with its builder.

## Main results

* `FirmwareBundle.Slots.pairwise_rank` — the order of what is in the slots.
* `FirmwareBundle.Builder.find?_eq_some_iff` — the search for a payload that is too large ends at
  the first one.
* `FirmwareBundle.Builder.describes_of_build_eq_ok` — a bundle that is built agrees with itself.
* `FirmwareBundle.Builder.build_outcome` — which builders give a bundle, what it is, and which
  payload is told otherwise.
-/

namespace FirmwareBundle

/-! ## Order -/

/-- Two kinds with the same place in flash memory, `PartitionKind.rank`, are the same. -/
private lemma PartitionKind.rank_injective : Function.Injective PartitionKind.rank := by
  intro a b h
  cases a <;> cases b <;> first | rfl | exact absurd h (by decide)

/-- The kinds that are given stand in the order of flash memory, each with a smaller `rank` than the
later ones, since they are a sublist of all kinds (`Slots.kinds_sublist`). -/
theorem Slots.pairwise_rank {α : Type} (slots : Slots α) :
    (slots.toList.map (·.1)).Pairwise fun kind later => kind.rank < later.rank :=
  List.Pairwise.sublist slots.kinds_sublist (by decide)

/-! ## Bounds -/

/-- The bound that a payload must keep: the slot of its kind, or the longest length that a word can
tell. -/
def Packing.limit : Packing → PartitionKind → Nat
  | .fixedSlot, kind => kind.capacity
  | .tight, _ => Bytes.maxLength

/-- A slot is never too large for a length word, so the two bounds on a payload,
`packing.capacity kind` and `packing.limit kind`, are one. -/
private lemma Packing.capacity_eq_limit (packing : Packing) (kind : PartitionKind) :
    packing.capacity kind = packing.limit kind := by
  cases packing with
  | tight => rfl
  | fixedSlot => cases kind <;> decide

/-- The bound that is told of a payload of `size` bytes that does not keep its own:
`Bytes.maxLength` where `size` is larger than that, else the slot `kind.capacity`. Without slots
only the first case occurs. -/
lemma Packing.exceeded_eq {packing : Packing} {kind : PartitionKind} {size : Nat}
    (h : packing.limit kind < size) :
    packing.exceeded kind size =
      if Bytes.maxLength < size then Bytes.maxLength else kind.capacity := by
  rw [exceeded, capacity_eq_limit]
  split
  · rfl
  · rename_i hle
    cases packing with
    | fixedSlot => rfl
    | tight => exact absurd h hle

namespace Builder

variable {b : Builder}

/-- The `payload` of `kind` does not keep its bound, and every payload of an `earlier` kind does. -/
def FirstOversize (b : Builder) (kind : PartitionKind) (payload : ByteArray) : Prop :=
  b.payloads.get? kind = some payload ∧ b.packing.limit kind < payload.size ∧
    ∀ earlier other, earlier.rank < kind.rank → b.payloads.get? earlier = some other →
      other.size ≤ b.packing.limit earlier

/-- At most one payload is the first that does not keep its bound.

**Proof sketch.** Of two kinds with such a payload neither has a smaller rank, or its payload would
have to keep the bound on account of the other. So the ranks are equal, and hence the kinds
(`PartitionKind.rank_injective`). -/
lemma FirstOversize.unique {kind other : PartitionKind} {payload data : ByteArray}
    (h : b.FirstOversize kind payload) (h' : b.FirstOversize other data) :
    kind = other ∧ payload = data := by
  obtain ⟨hget, hlt, hbefore⟩ := h
  obtain ⟨hget', hlt', hbefore'⟩ := h'
  have hkind : kind = other := by
    apply PartitionKind.rank_injective
    rcases Nat.lt_trichotomy kind.rank other.rank with hrank | hrank | hrank
    · have := hbefore' kind payload hrank hget
      omega
    · exact hrank
    · have := hbefore other data hrank hget'
      omega
  subst hkind
  exact ⟨rfl, Option.some.inj (hget.symm.trans hget')⟩

/-- The search for a payload that is too large ends at the first one in the order of flash memory:
it finds `(kind, payload)` if and only if `b.FirstOversize kind payload`.

**Proof sketch.** What the search passes over stands before the payload where it ends, and the kinds
are listed in the order of their ranks (`Slots.pairwise_rank`). So the kinds of a smaller rank are
those passed over, and each of them fits. Conversely a payload that is the first one is found, since
there is only one such payload (`FirstOversize.unique`). -/
theorem find?_eq_some_iff {kind : PartitionKind} {payload : ByteArray} :
    b.payloads.toList.find? (fun image => b.packing.capacity image.1 < image.2.size) =
      some (kind, payload) ↔ b.FirstOversize kind payload := by
  have hfound : ∀ kind payload,
      b.payloads.toList.find? (fun image => b.packing.capacity image.1 < image.2.size) =
        some (kind, payload) → b.FirstOversize kind payload := by
    intro kind payload hfind
    obtain ⟨hlt, front, back, hsplit, hfront⟩ := List.find?_eq_some_iff_append.1 hfind
    replace hlt : b.packing.limit kind < payload.size := by
      simpa [Packing.capacity_eq_limit] using hlt
    have hmem : (kind, payload) ∈ b.payloads.toList := by simp [hsplit]
    refine ⟨Slots.mem_toList.1 hmem, hlt, fun earlier other hrank hget => ?_⟩
    have hother : (earlier, other) ∈ front := by
      have hordered := b.payloads.pairwise_rank
      have hmem := Slots.mem_toList.2 hget
      rw [hsplit] at hordered hmem
      rw [List.map_append, List.map_cons, List.pairwise_append, List.pairwise_cons] at hordered
      rcases List.mem_append.1 hmem with hin | hin
      · exact hin
      · rcases List.mem_cons.1 hin with heq | hin
        · obtain ⟨rfl, -⟩ := Prod.mk.inj heq
          exact absurd hrank (Nat.lt_irrefl _)
        · have hlater : kind.rank < earlier.rank :=
            hordered.2.1.1 earlier (List.mem_map_of_mem hin)
          omega
    have := hfront _ hother
    simpa [Packing.capacity_eq_limit] using this
  refine ⟨hfound kind payload, fun hfirst => ?_⟩
  cases hfind : b.payloads.toList.find?
      fun image => b.packing.capacity image.1 < image.2.size with
  | none =>
    have hfits := fits_of_find?_eq_none hfind _ (Slots.mem_toList.2 hfirst.1)
    rw [Packing.capacity_eq_limit] at hfits
    exact absurd hfirst.2.1 (Nat.not_lt.2 hfits)
  | some image =>
    obtain ⟨rfl, rfl⟩ := hfirst.unique (hfound image.1 image.2 hfind)
    rfl

/-- A bundle is built if and only if every payload of `b` has at most `b.packing.limit kind` bytes.
This is `build_eq_ok_iff` with the bound of `Packing.capacity_eq_limit`. -/
lemma exists_build_eq_ok_iff :
    (∃ bundle, b.build = .ok bundle) ↔
      ∀ kind payload, b.payloads.get? kind = some payload →
        payload.size ≤ b.packing.limit kind := by
  constructor
  · rintro ⟨bundle, hbuild⟩ kind payload hget
    rw [← Packing.capacity_eq_limit]
    exact (build_eq_ok_iff.1 hbuild).1 (kind, payload) (Slots.mem_toList.2 hget)
  · intro hfits
    refine ⟨_, build_eq_ok_iff.2 ⟨fun image himage => ?_, rfl⟩⟩
    rw [Packing.capacity_eq_limit]
    exact hfits image.1 image.2 (Slots.mem_toList.1 himage)

/-- Otherwise the first payload that does not keep its bound is told, with its size and the bound
that it exceeds.

**Proof sketch.** If the search for a payload that is too large finds none, there is a bundle. If it
finds one, that one is told (`build_of_find?_eq_some`), it is the first (`find?_eq_some_iff`), and
the bound is that of `Packing.exceeded_eq`. -/
lemma build_eq_error_iff {e : BundleError} :
    b.build = .error e ↔
      ∃ kind payload, b.FirstOversize kind payload ∧
        e = .oversize kind.name payload.size
          (if Bytes.maxLength < payload.size then Bytes.maxLength else kind.capacity) := by
  constructor
  · intro hbuild
    cases hfind : b.payloads.toList.find?
        fun image => b.packing.capacity image.1 < image.2.size with
    | none =>
      obtain ⟨bundle, hok⟩ := exists_build_of_find?_eq_none hfind
      cases hbuild.symm.trans hok
    | some image =>
      have hfirst := find?_eq_some_iff.1 hfind
      have htold := Except.error.inj (hbuild.symm.trans (build_of_find?_eq_some hfind))
      rw [Packing.exceeded_eq hfirst.2.1] at htold
      exact ⟨image.1, image.2, hfirst, htold⟩
  · rintro ⟨kind, payload, hfirst, rfl⟩
    rw [build_of_find?_eq_some (find?_eq_some_iff.2 hfirst), Packing.exceeded_eq hfirst.2.1]

end Builder

/-! ## Agreement -/

/-- The entry `spec` is true of a `payload` of `kind`: it has the name of `kind`, the length of
`payload`, which a length word can tell, its digest, and the slot that it was packed for. -/
structure PartitionSpec.Describes (spec : PartitionSpec) (packing : Packing)
    (kind : PartitionKind) (payload : ByteArray) : Prop where
  name_eq : spec.name = kind.name
  payloadSize_eq : spec.payloadSize.toNat = payload.size
  size_le : payload.size ≤ Bytes.maxLength
  lengthAt_eq : Bytes.lengthAt (Bytes.ofLength payload.size) 0 = payload.size
  sha1_eq : spec.sha1 = some (shortDigest payload)
  partitionSize_eq : spec.partitionSize.map (·.toNat) =
    match packing with
    | .fixedSlot => some kind.capacity
    | .tight => none

/-- The entry of a `payload` that keeps its bound is true of it.

**Proof sketch.** Name and digest are those of the entry by definition. The bound keeps the size
within a length word (`Packing.capacity_le`), so neither the word nor the 64 bits of the entry cut
it off (`Bytes.lengthAt_ofLength`). -/
private lemma Packing.describes_entry {packing : Packing} {kind : PartitionKind}
    {payload : ByteArray} (h : payload.size ≤ packing.limit kind) :
    (packing.entry (kind, payload)).Describes packing kind payload := by
  have hle : payload.size ≤ Bytes.maxLength := by
    have := packing.capacity_le kind
    rw [capacity_eq_limit] at this
    omega
  have hlt : payload.size < 2 ^ 32 := Nat.lt_succ_of_le hle
  refine ⟨rfl, ?_, hle, ?_, rfl, ?_⟩
  · exact UInt64.toNat_ofNat_of_lt' (Nat.lt_trans hlt (by decide))
  · rw [Bytes.lengthAt_ofLength, Nat.mod_eq_of_lt hlt]
  · cases packing with
    | tight => rfl
    | fixedSlot => cases kind <;> rfl

/-- What was asked to be added to the kernel's command line, part by part. -/
def Builder.requested (b : Builder) : List String :=
  (if b.init then ["init=/init"] else []) ++ (if b.cma = "" then [] else [b.cma])

/-- What is added to the kernel's command line are the parts `b.requested` with blanks between them,
and nothing if there are none. -/
lemma Builder.additionalCmdline_eq (b : Builder) :
    additionalCmdline b.init b.cma =
      if b.requested = [] then none else some (" ".intercalate b.requested) := by
  rw [additionalCmdline, requested]
  by_cases hcma : b.cma = ""
  · cases b.init <;> simp only [hcma, if_true] <;> rfl
  · cases b.init <;> simp only [hcma, if_false] <;> rfl

/-- The `bundle` agrees with itself and with its builder `b`: its payloads are those of `b` for the
`kinds` that are given, in the order of flash memory, its table has one true entry for each of them
and no name twice, and its other fields are those that `b` asks for. -/
structure Bundle.Describes (bundle : Bundle) (b : Builder) (kinds : List PartitionKind) :
    Prop where
  increasing : kinds.Pairwise fun kind later => kind.rank < later.rank
  given : ∀ kind, kind ∈ kinds ↔ (b.payloads.get? kind).isSome
  payloads_eq : bundle.payloads.map some = kinds.map b.payloads.get?
  length_eq : bundle.manifest.partitions.length = bundle.payloads.length
  nodup : (bundle.manifest.partitions.map (·.name)).Nodup
  entry : ∀ (i : Nat) kind payload spec, kinds[i]? = some kind →
    bundle.payloads[i]? = some payload → bundle.manifest.partitions[i]? = some spec →
      spec.Describes b.packing kind payload
  parameters_eq : bundle.manifest.toBootParameters = b.parameters
  skip_eq : bundle.manifest.skip = if b.payloads.boot = none then some ["boot", "env"] else none
  additionalCmdline_eq_none : bundle.manifest.additionalCmdline = none ↔ b.init = false ∧ b.cma = ""
  additionalCmdline_eq_some : ¬(b.init = false ∧ b.cma = "") →
    bundle.manifest.additionalCmdline = some (" ".intercalate b.requested)

namespace Builder

variable {b : Builder}

/-- No entry has the name of the boot loader if and only if `b` has no such payload, since kinds are
told apart by their names (`PartitionKind.name_injective`). -/
lemma all_entry_ne_boot_iff :
    (b.payloads.toList.map b.packing.entry).all (·.name ≠ PartitionKind.boot.name) = true ↔
      b.payloads.boot = none := by
  rw [List.all_eq_true, Option.eq_none_iff_forall_ne_some]
  constructor
  · intro hall payload hpayload
    have hmem : (PartitionKind.boot, payload) ∈ b.payloads.toList := Slots.mem_toList.2 hpayload
    simpa [Packing.entry] using hall _ (List.mem_map_of_mem hmem)
  · rintro hnone _ hspec
    obtain ⟨⟨kind, payload⟩, hmem, rfl⟩ := List.mem_map.1 hspec
    rw [decide_eq_true_iff]
    intro hname
    obtain rfl := PartitionKind.name_injective hname
    exact hnone payload (Slots.mem_toList.1 hmem)

/-- A bundle that is built by `b` agrees with itself and with `b`, for the kinds of
`b.payloads.toList`.

**Proof sketch.** The bundle is the list of payloads with the entry of each (`build_eq_ok_iff`), so
an entry and a payload at one place are those of one image, and `Packing.describes_entry` tells what
the entry says of it. The order of the kinds is that of the slots. There is no entry with the name
of the boot loader if there is no such payload (`all_entry_ne_boot_iff`). -/
theorem describes_of_build_eq_ok {bundle : Bundle} (h : b.build = .ok bundle) :
    bundle.Describes b (b.payloads.toList.map (·.1)) := by
  obtain ⟨hfits, rfl⟩ := build_eq_ok_iff.1 h
  have hnames : (b.payloads.toList.map b.packing.entry).map (·.name) =
      (b.payloads.toList.map (·.1)).map PartitionKind.name := by
    rw [List.map_map, List.map_map]
    rfl
  refine ⟨b.payloads.pairwise_rank, ?_, ?_, ?_, ?_, ?_, rfl, ?_, ?_, ?_⟩
  · intro kind
    simp only [List.mem_map, Prod.exists, Slots.mem_toList, Option.isSome_iff_exists]
    constructor
    · rintro ⟨_, payload, hget, rfl⟩
      exact ⟨payload, hget⟩
    · rintro ⟨payload, hget⟩
      exact ⟨kind, payload, hget, rfl⟩
  · rw [List.map_map, List.map_map]
    apply List.map_congr_left
    intro image himage
    exact (Slots.mem_toList.1 himage).symm
  · simp only [manifest, List.length_map]
  · change ((b.payloads.toList.map b.packing.entry).map (·.name)).Nodup
    rw [hnames]
    exact List.Nodup.map PartitionKind.name_injective b.payloads.nodup_kinds
  · intro i kind payload spec hkind hpayload hspec
    simp only [manifest, List.getElem?_map, Option.map_eq_some_iff] at hkind hpayload hspec
    obtain ⟨image, hget, rfl⟩ := hkind
    obtain ⟨_, hget', rfl⟩ := hpayload
    obtain ⟨_, hget'', rfl⟩ := hspec
    obtain rfl := Option.some.inj (hget.symm.trans hget')
    obtain rfl := Option.some.inj (hget.symm.trans hget'')
    apply Packing.describes_entry
    rw [← Packing.capacity_eq_limit]
    exact hfits image (List.mem_of_getElem? hget)
  · simp only [manifest, all_entry_ne_boot_iff]
    rfl
  · rw [manifest, additionalCmdline_eq, requested]
    cases b.init <;> by_cases hcma : b.cma = "" <;> simp [hcma]
  · intro hasked
    rw [manifest, additionalCmdline_eq, if_neg]
    rw [requested]
    revert hasked
    cases b.init <;> by_cases hcma : b.cma = "" <;> simp [hcma]

/-- **Which bundles are built, and what they say of themselves.** There is a bundle if and only if
every payload has at most `b.packing.limit kind` bytes. Otherwise the first payload that has more is
told, with its size and with the bound that it exceeds: `Bytes.maxLength` if it is longer than that,
else `kind.capacity`. A bundle agrees with itself and with `b`.

**Proof sketch.** The three parts are `exists_build_eq_ok_iff`, `build_eq_error_iff` and
`describes_of_build_eq_ok`. -/
theorem build_outcome (b : Builder) :
    ((∃ bundle, b.build = .ok bundle) ↔
      ∀ kind payload, b.payloads.get? kind = some payload →
        payload.size ≤ b.packing.limit kind) ∧
    (∀ e, b.build = .error e ↔
      ∃ kind payload, b.FirstOversize kind payload ∧
        e = .oversize kind.name payload.size
          (if Bytes.maxLength < payload.size then Bytes.maxLength else kind.capacity)) ∧
    ∀ bundle, b.build = .ok bundle → ∃ kinds, bundle.Describes b kinds :=
  ⟨exists_build_eq_ok_iff, fun _ => build_eq_error_iff,
    fun _ hbuild => ⟨_, describes_of_build_eq_ok hbuild⟩⟩

/-- A builder with a kernel that fits in its slot and `size` zero bytes for a root file system. -/
def kernelWithRootfs (size : Nat) : Builder where
  payloads :=
    { kernel := some (String.toUTF8 "kernel")
      rootfs := some ⟨Array.replicate size 0⟩ }

/-- A root file system of `0x500000` bytes fills its slot and is packed, and with one byte more it
is told. -/
theorem build_outcome_kernel_rootfs :
    (∃ bundle kinds, (kernelWithRootfs 0x500000).build = .ok bundle ∧
      bundle.Describes (kernelWithRootfs 0x500000) kinds) ∧
    (kernelWithRootfs 0x500001).build = .error (.oversize "rootfs" 0x500001 0x500000) := by
  have hkernel : (String.toUTF8 "kernel").size ≤ PartitionKind.kernel.capacity := by decide
  constructor
  · obtain ⟨bundle, hbuild⟩ := (build_outcome (kernelWithRootfs 0x500000)).1.2 (by
      intro kind payload hget
      cases kind with
      | boot => cases hget
      | kernel => exact Option.some.inj hget ▸ hkernel
      | rootfs =>
        rw [← Option.some.inj hget]
        exact Nat.le_of_eq Array.size_replicate)
    obtain ⟨kinds, hdescribes⟩ := (build_outcome (kernelWithRootfs 0x500000)).2.2 bundle hbuild
    exact ⟨bundle, kinds, hbuild, hdescribes⟩
  · have hsize : (⟨Array.replicate 0x500001 0⟩ : ByteArray).size = 0x500001 :=
      Array.size_replicate
    refine ((build_outcome (kernelWithRootfs 0x500001)).2.1 _).2
      ⟨.rootfs, ⟨Array.replicate 0x500001 0⟩, ⟨rfl, ?_, ?_⟩, ?_⟩
    · rw [hsize]
      decide
    · intro earlier other hrank hget
      cases earlier with
      | boot => cases hget
      | kernel => exact Option.some.inj hget ▸ hkernel
      | rootfs => exact absurd hrank (Nat.lt_irrefl _)
    · rw [hsize]
      rfl

end Builder

end FirmwareBundle
