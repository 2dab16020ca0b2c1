/-!
# Kinds of partitions

A device boots from three partitions, which stand in its flash memory one after the other, each in
a slot of a fixed size.

## Main definitions

* `FirmwareBundle.PartitionKind` — boot loader, kernel and root file system.
* `FirmwareBundle.PartitionKind.name`, `FirmwareBundle.PartitionKind.ofName?` — their names.
* `FirmwareBundle.PartitionKind.capacity` — the sizes of their slots.
* `FirmwareBundle.Slots` — at most one thing for each kind.
-/

namespace FirmwareBundle

/-- The partitions that can be packed. -/
inductive PartitionKind where
  | boot
  | kernel
  | rootfs
  deriving DecidableEq

namespace PartitionKind

/-- All kinds, in the order of flash memory. -/
def all : List PartitionKind :=
  [.boot, .kernel, .rootfs]

/-- The name of a partition. -/
def name : PartitionKind → String
  | .boot => "boot"
  | .kernel => "kernel"
  | .rootfs => "rootfs"

/-- The kind that is called `name`, if there is one. -/
def ofName? (name : String) : Option PartitionKind :=
  all.find? (·.name == name)

/-- The number of bytes in the slot of a partition. -/
def capacity : PartitionKind → Nat
  | .boot => 0x50000
  | .kernel => 0x200000
  | .rootfs => 0x500000

/-- The place of a kind in the order of flash memory, as in `all`. -/
def rank : PartitionKind → Nat
  | .boot => 0
  | .kernel => 1
  | .rootfs => 2

/-- The kinds that stand before `kind` in flash memory. -/
def before (kind : PartitionKind) : List PartitionKind :=
  all.filter (·.rank < kind.rank)

end PartitionKind

/-- At most one thing for each kind of partition. -/
structure Slots (α : Type) where
  boot : Option α := none
  kernel : Option α := none
  rootfs : Option α := none
  deriving DecidableEq

namespace Slots

variable {α : Type}

/-- What `slots` has for a kind. -/
def get? (slots : Slots α) : PartitionKind → Option α
  | .boot => slots.boot
  | .kernel => slots.kernel
  | .rootfs => slots.rootfs

/-- Puts `x` into the slot of a `kind`, in place of what was there. -/
def put (slots : Slots α) (kind : PartitionKind) (x : α) : Slots α :=
  match kind with
  | .boot => { slots with boot := some x }
  | .kernel => { slots with kernel := some x }
  | .rootfs => { slots with rootfs := some x }

/-- What `slots` has, each with its kind, in the order of flash memory. -/
def toList (slots : Slots α) : List (PartitionKind × α) :=
  PartitionKind.all.filterMap fun kind => (slots.get? kind).map (kind, ·)

end Slots

end FirmwareBundle
