import FirmwareBundle.Bundle.Saving
import FirmwareBundle.Proofs.Builder
import FirmwareBundle.Proofs.Files
import FirmwareBundle.Proofs.Streaming
/-!
# Bundles written all at once or not at all

A bundle is made of files only after all of them have been read and found to fit. It is written
aside and moved into its place, so whatever fails on the way, the files are as they were, and if
nothing fails, the bundle is the only thing that is new.

## Main definitions

* `FirmwareBundle.Builder.withSources` — a builder with the contents of files as its payloads.
* `FirmwareBundle.Bundle.Disk` — how a disk can fail.
* `FirmwareBundle.Bundle.saveOn` — the writing of a bundle step by step on a disk.

## Main results

* `FirmwareBundle.FileSystem.exists_of_replace_eq_ok` — a file that is replaced is written at its
  place.
* `FirmwareBundle.Bundle.saveOn_of_size_le`, `FirmwareBundle.Bundle.exists_saveOn_eq_error` — the
  writing step by step has the effect of the whole, or none.
* `FirmwareBundle.exists_of_writeBundle_eq_ok`, `FirmwareBundle.files_of_writeBundle_eq_error` — the
  files after a success and after a failure.
* `FirmwareBundle.writeBundle_all_or_nothing` — what becomes of the files, and which fault is told.
-/

namespace FirmwareBundle

/-! ## Sources -/

namespace Slots

variable {α : Type}

/-- What the slot of `other` holds after `x` was put into the slot of `kind`. -/
lemma get?_put (slots : Slots α) (kind other : PartitionKind) (x : α) :
    (slots.put kind x).get? other = if other = kind then some x else slots.get? other := by
  cases kind <;> cases other <;> rfl

/-- Slots that hold the same for every `kind` are the same. -/
lemma ext_get? {slots others : Slots α} (h : ∀ kind, slots.get? kind = others.get? kind) :
    slots = others := by
  cases slots
  cases others
  congr 1
  · exact h .boot
  · exact h .kernel
  · exact h .rootfs

end Slots

/-- The payload of a `kind`: the contents of its source if there is one, else that of `b`. -/
def Builder.payload? (b : Builder) (files : FileSystem) (sources : Slots String)
    (kind : PartitionKind) : Option ByteArray :=
  match sources.get? kind with
  | some path => (files.read path).toOption
  | none => b.payloads.get? kind

/-- The builder `b` with the contents of its `sources` as payloads. -/
def Builder.withSources (b : Builder) (files : FileSystem) (sources : Slots String) : Builder :=
  let payload? := b.payload? files sources
  { b with payloads := ⟨payload? .boot, payload? .kernel, payload? .rootfs⟩ }

section Sources

variable {files : FileSystem} {sources : Slots String} {b : Builder}

/-- The first source that cannot be read, that of `kind` at `path`, is the one that is told.

**Proof sketch.** Induction on `images`. The sources in front of it are files, so they are read. -/
private lemma loadImages_of_find?_eq_some {images : List (PartitionKind × String)}
    {kind : PartitionKind} {path : String}
    (h : images.find? (fun image => !files.isFile image.2) = some (kind, path)) :
    ∃ cause, files.read path = .error cause ∧
      (loadImages files images).2 = some (.missingInput path cause) := by
  induction images with
  | nil => cases h
  | cons image images ih =>
    obtain ⟨here, source⟩ := image
    rw [List.find?_cons] at h
    rw [loadImages]
    cases hread : files.read source with
    | error cause =>
      simp only [FileSystem.isFile, hread, Except.toBool, Bool.not_false, Option.some.injEq,
        Prod.mk.injEq] at h
      obtain ⟨rfl, rfl⟩ := h
      exact ⟨cause, hread, rfl⟩
    | ok data =>
      simp only [FileSystem.isFile, hread, Except.toBool, Bool.not_true] at h
      exact ih h

/-- If the search for a source that is no file finds none, all `images` are read. -/
private lemma loadImages_of_find?_eq_none {images : List (PartitionKind × String)}
    (h : images.find? (fun image => !files.isFile image.2) = none) :
    (loadImages files images).2 = none := by
  induction images with
  | nil => rfl
  | cons image images ih =>
    rw [List.find?_cons] at h
    rw [loadImages]
    cases hread : files.read image.2 with
    | error cause =>
      simp [FileSystem.isFile, hread, Except.toBool] at h
    | ok data =>
      simp only [FileSystem.isFile, hread, Except.toBool, Bool.not_true] at h
      exact ih h

/-- What the slots of `b` hold after the sources of `kinds` were read into them: what `b.payload?`
gives for these kinds, and for the others what they held before.

**Proof sketch.** Induction on `kinds`, generalized over the builder. The first kind either has no
source, and then its slot stays as it is, or its contents are put there (`Slots.get?_put`). None of
the other kinds is the first, so its slot is not changed again. -/
private lemma get?_load {kinds : List PartitionKind} (hkinds : kinds.Nodup)
    {loaded : List LoadedImage}
    (h : loadImages files (kinds.filterMap fun kind => (sources.get? kind).map (kind, ·)) =
      (loaded, none)) (kind : PartitionKind) :
    (b.load loaded).payloads.get? kind =
      if kind ∈ kinds then b.payload? files sources kind else b.payloads.get? kind := by
  induction kinds generalizing b loaded with
  | nil =>
    obtain rfl := (Prod.mk.inj h).1
    rfl
  | cons first kinds ih =>
    obtain ⟨hfirst, hkinds⟩ := List.nodup_cons.1 hkinds
    cases hsource : sources.get? first with
    | none =>
      rw [List.filterMap_cons_none (by rw [hsource]; rfl)] at h
      rw [ih hkinds h]
      by_cases hkind : kind = first
      · subst hkind
        rw [if_neg hfirst, if_pos List.mem_cons_self, Builder.payload?, hsource]
      · simp only [List.mem_cons, hkind, false_or]
    | some path =>
      rw [List.filterMap_cons_some (by rw [hsource]; rfl), loadImages] at h
      cases hread : files.read path with
      | error cause =>
        rw [hread] at h
        cases h
      | ok data =>
        rw [hread] at h
        obtain ⟨rfl, hnone⟩ := Prod.mk.inj h
        rw [Builder.load, List.foldl_cons, ← Builder.load, ih hkinds (Prod.ext rfl hnone)]
        by_cases hkind : kind = first
        · subst hkind
          rw [if_neg hfirst, if_pos List.mem_cons_self, Slots.get?_put, if_pos rfl,
            Builder.payload?, hsource]
          simp only [hread]
          rfl
        · simp only [List.mem_cons, hkind, false_or, Builder.payload?, Slots.get?_put, ↓reduceIte]

/-- Nothing but the payloads of `b` depends on what is read. -/
lemma Builder.load_eq (b : Builder) (loaded : List LoadedImage) :
    b.load loaded = { b with payloads := (b.load loaded).payloads } := by
  induction loaded generalizing b with
  | nil => rfl
  | cons image loaded ih => exact ih _

/-- **The builder with the contents of its sources** is what reading them gives. By `get?_load` for
all kinds the payloads agree, and by `Builder.load_eq` nothing else has changed. -/
theorem load_eq_withSources {loaded : List LoadedImage}
    (h : loadImages files sources.toList = (loaded, none)) :
    b.load loaded = b.withSources files sources := by
  have hget := get?_load (b := b) (by decide : PartitionKind.all.Nodup) h
  have hpayloads : (b.load loaded).payloads = (b.withSources files sources).payloads := by
    apply Slots.ext_get?
    intro kind
    rw [hget kind]
    cases kind <;> rfl
  rw [Builder.load_eq, hpayloads]
  rfl

end Sources

/-! ## Payloads -/

section Pack

variable {packing : Packing}

/-- The first payload that does not fit is the one that is told, with its size and the bound that it
exceeds. Induction on `images`: those in front of it fit, so they are packed. -/
private lemma packAll_of_find?_eq_some {images : List (PartitionKind × ByteArray)}
    {kind : PartitionKind} {payload : ByteArray}
    (h : images.find? (fun image => packing.capacity image.1 < image.2.size) =
      some (kind, payload)) :
    (packAll packing images).2 =
      some (.oversize kind.name payload.size (packing.exceeded kind payload.size)) := by
  induction images with
  | nil => cases h
  | cons image images ih =>
    obtain ⟨here, data⟩ := image
    rw [List.find?_cons] at h
    rw [packAll, packOne]
    by_cases hlt : packing.capacity here < data.size
    · simp only [hlt, decide_true, Option.some.injEq, Prod.mk.injEq] at h
      obtain ⟨rfl, rfl⟩ := h
      rw [if_pos hlt]
    · simp only [hlt, decide_false] at h
      rw [if_neg hlt]
      exact ih h

/-- If the search for a payload that is too large finds none, each of `images` fits. -/
lemma fits_of_find?_eq_none {images : List (PartitionKind × ByteArray)}
    (h : images.find? (fun image => packing.capacity image.1 < image.2.size) = none) :
    ∀ image ∈ images, image.2.size ≤ packing.capacity image.1 := by
  intro image himage
  have := List.find?_eq_none.1 h image himage
  simpa using this

end Pack

/-! ## Saving -/

namespace FileSystem

variable {files files' : FileSystem} {path : String} {data : ByteArray}

/-- The `files` without the one at `place`. -/
def discard (files : FileSystem) (place : Location) : FileSystem :=
  { files with tree := files.tree.erase place }

/-- A file that was written at the empty place `aside` leaves no trace once it is discarded. -/
private lemma discard_put {aside : Location} (h : files.tree.get? aside = none) (data : ByteArray) :
    (files.put aside data).discard aside = files := by
  rw [discard, put, FileTree.erase_put, FileTree.erase_of_get?_eq_none h]

/-- **A file that was written aside is moved** to the place that `path` leads to, and then it is the
only thing that is new: nothing is left at `aside`, where nothing was before.

**Proof sketch.** The file put `aside` changes no directory, so `path` leads where it led, and what
is moved is that file (`move_eq_ok_iff`). Taking it away at `aside` restores the tree
(`FileTree.erase_put`). -/
theorem move_put_eq_ok_iff {aside : Location} (hne : aside ≠ [])
    (hnone : files.tree.get? aside = none) :
    (files.put aside data).move aside path = .ok files' ↔
      ∃ place, files.Names path place ∧ files' = files.put place data := by
  have hsame : files.SameDirectories (files.put aside data) :=
    sameDirectories_put hne (by rw [hnone]; nofun) data
  have hentry : (files.put aside data).tree.get? aside = some (.file data) := by
    rw [get?_tree_put hne, if_pos rfl]
  have herase : (files.put aside data).tree.erase aside = files.tree := by
    rw [put, FileTree.erase_put, FileTree.erase_of_get?_eq_none hnone]
  rw [move_eq_ok_iff]
  constructor
  · rintro ⟨place, entry, hnames, hfound, rfl⟩
    obtain rfl := Option.some.inj (hentry.symm.trans hfound)
    rw [herase]
    exact ⟨place, hsame.names_iff.1 hnames, rfl⟩
  · rintro ⟨place, hnames, rfl⟩
    refine ⟨place, .file data, hsame.names_iff.2 hnames, hentry, ?_⟩
    rw [herase]
    rfl

/-- **A file that is replaced** is written at the place that `path` leads to: the file written aside
(`exists_stage`) is moved there. -/
theorem exists_of_replace_eq_ok (h : files.replace path data = .ok files') :
    ∃ place, files.Names path place ∧ files' = files.put place data := by
  obtain ⟨⟨aside, staged⟩, hstage, hmove⟩ := bind_eq_ok_iff.1 h
  rcases files.exists_stage (stagingDirectory path) with ⟨found, hne, hnone, hfound⟩ | ⟨cause, herr⟩
  · obtain ⟨rfl, rfl⟩ := Prod.mk.inj (Except.ok.inj ((hfound data).symm.trans hstage))
    exact (move_put_eq_ok_iff hne hnone).1 hmove
  · cases (herr data).symm.trans hstage

end FileSystem

namespace Bundle

/-! ### Step by step -/

/-- How a disk can fail: it takes pieces of at most `piece` bytes while it has `room` and tells the
fault `full` where its room does not suffice, and what was written may not reach it, as `sync`
says. -/
structure Disk where
  piece : Nat
  piece_pos : 0 < piece
  room : Nat
  full : IoFault
  sync : Except IoFault Unit

/-- An error of the writing to a file, told with the `path` of the file. -/
def writingError (path : String) : BundleError → BundleError
  | .io cause => .write path cause
  | e => e

/-- Writes a bundle to a file on a disk step by step: makes a file aside, streams the bundle to it,
and moves it into its place. Whatever fails, the file that was made is discarded. -/
def saveOn (disk : Disk) (files : FileSystem) (path : String) (b : Bundle) :
    FileSystem × Except BundleError Unit :=
  match files.stage (FileSystem.stagingDirectory path) .empty with
  | .error cause => (files, .error (.write path cause))
  | .ok (aside, staged) =>
    let streamed := b.streamTo (.limited disk.piece disk.full) disk.room
    let staged := staged.append aside streamed.1.received
    let saved : Except BundleError FileSystem := do
      streamed.2.mapError (writingError path)
      disk.sync.mapError (.write path)
      (staged.move aside path).mapError (.write path)
    match saved with
    | .error e => (staged.discard aside, .error e)
    | .ok saved => (saved, .ok ())

section SaveOn

variable {disk : Disk} {files : FileSystem} {path : String} {b : Bundle}

/-- **On a disk that holds the bundle** `b`, the steps have the effect of the whole: `b` is saved,
or the files are as they were.

**Proof sketch.** A file is made aside at a place that does not depend on the contents
(`FileSystem.exists_stage`). All of `b.toBytes` reaches it (`streamTo_limited_cases`), so the move
is that of `FileSystem.replace`, and if it fails, the file is discarded without a trace
(`FileSystem.discard_put`). -/
theorem saveOn_of_size_le (h : b.toBytes.size ≤ disk.room) (hsync : disk.sync = .ok ()) :
    b.saveOn disk files path =
      match files.replace path b.toBytes with
      | .error cause => (files, .error (.write path cause))
      | .ok saved => (saved, .ok ()) := by
  obtain ⟨-, hok, hreceived⟩ :=
    (b.streamTo_limited_cases disk.piece_pos disk.full disk.room).resolve_right (by omega)
  unfold saveOn FileSystem.replace
  rcases files.exists_stage (FileSystem.stagingDirectory path) with
    ⟨aside, hne, hnone, hstage⟩ | ⟨cause, hstage⟩
  · simp only [hstage, hok, hreceived, hsync, FileSystem.append_put hne, ByteArray.empty_append,
      bind, Except.bind, Except.mapError]
    cases (files.put aside b.toBytes).move aside path with
    | error cause => simp only [FileSystem.discard_put hnone]
    | ok saved => rfl
  · simp only [hstage]
    rfl

/-- **On a disk that does not hold the bundle** `b`, or that what was written does not reach, the
files are as they were.

**Proof sketch.** If the room does not suffice, the streaming fails (`streamTo_limited_cases`), and
if it does, `disk.sync` fails. In both cases the file made aside is discarded
(`FileSystem.discard_put`). -/
theorem exists_saveOn_eq_error (h : disk.room < b.toBytes.size ∨ disk.sync ≠ .ok ()) :
    ∃ cause, b.saveOn disk files path = (files, .error (.write path cause)) := by
  unfold saveOn
  rcases files.exists_stage (FileSystem.stagingDirectory path) with
    ⟨aside, hne, hnone, hstage⟩ | ⟨cause, hstage⟩
  · simp only [hstage, FileSystem.append_put hne]
    rcases b.streamTo_limited_cases disk.piece_pos disk.full disk.room with
      ⟨hle, hok, -⟩ | ⟨-, herror, -⟩
    · cases hsync : disk.sync with
      | ok _ => exact absurd hsync (h.resolve_left (Nat.not_lt.2 hle))
      | error cause =>
        refine ⟨cause, ?_⟩
        simp only [hok, bind, Except.bind, Except.mapError, FileSystem.discard_put hnone]
    · refine ⟨disk.full, ?_⟩
      simp only [herror, bind, Except.bind, Except.mapError, writingError,
        FileSystem.discard_put hnone]
  · exact ⟨cause, by simp only [hstage]⟩

end SaveOn

end Bundle

/-! ## Bundles from files -/

section WriteBundle

variable {files : FileSystem} {sources : Slots String} {b : Builder} {output : String}

/-- A bundle is written of `b` with the contents of its `sources`, if all can be read. Then either
there is no bundle, or the output cannot be replaced and the files are as they were, or it is
replaced and the manifest is returned. -/
lemma writeBundle_of_find?_eq_none
    (h : sources.toList.find? (fun source => !files.isFile source.2) = none) (b : Builder)
    (output : String) :
    (writeBundle files sources b output).files = files ∧
        (∃ e, (b.withSources files sources).build = .error e ∧
          (writeBundle files sources b output).result = .error e) ∨
      ∃ bundle, (b.withSources files sources).build = .ok bundle ∧
        ((∃ cause, files.replace output bundle.toBytes = .error cause ∧
            (writeBundle files sources b output).files = files ∧
            (writeBundle files sources b output).result = .error (.write output cause)) ∨
          files.replace output bundle.toBytes =
              .ok (writeBundle files sources b output).files ∧
            (writeBundle files sources b output).result = .ok bundle.manifest) := by
  have hload : loadImages files sources.toList = ((loadImages files sources.toList).1, none) :=
    Prod.ext rfl (loadImages_of_find?_eq_none h)
  rw [writeBundle, hload]
  simp only [load_eq_withSources hload, Builder.build]
  cases hrun : (b.withSources files sources).run with
  | mk packed result =>
    cases result with
    | error e => exact .inl ⟨rfl, e, rfl, rfl⟩
    | ok bundle =>
      refine .inr ⟨bundle, rfl, ?_⟩
      simp only [Bundle.save]
      cases files.replace output bundle.toBytes with
      | error cause => exact .inl ⟨cause, rfl, rfl, rfl⟩
      | ok saved => exact .inr ⟨rfl, rfl⟩

/-- If a source cannot be read, the first such, that of `kind` at `path`, is told and nothing is
written. -/
lemma writeBundle_of_find?_eq_some {kind : PartitionKind} {path : String}
    (h : sources.toList.find? (fun source => !files.isFile source.2) = some (kind, path)) :
    (writeBundle files sources b output).files = files ∧
      ∃ cause, files.read path = .error cause ∧
        (writeBundle files sources b output).result = .error (.missingInput path cause) := by
  obtain ⟨cause, hread, hfault⟩ := loadImages_of_find?_eq_some h
  have hload : loadImages files sources.toList =
      ((loadImages files sources.toList).1, some (.missingInput path cause)) :=
    Prod.ext rfl hfault
  rw [writeBundle, hload]
  exact ⟨rfl, cause, hread, rfl⟩

/-- If a payload is too large, the first such, that of `kind`, is told
(`packAll_of_find?_eq_some`). -/
lemma Builder.build_of_find?_eq_some {kind : PartitionKind} {payload : ByteArray}
    (h : b.payloads.toList.find? (fun image => b.packing.capacity image.1 < image.2.size) =
      some (kind, payload)) :
    b.build = .error (.oversize kind.name payload.size
      (b.packing.exceeded kind payload.size)) := by
  rw [Builder.build, Builder.run]
  have hpack := packAll_of_find?_eq_some h
  cases hall : packAll b.packing b.payloads.toList with
  | mk specs e =>
    rw [hall] at hpack
    obtain rfl : e = _ := hpack
    rfl

/-- If no payload of `b` is too large, there is a bundle. -/
lemma Builder.exists_build_of_find?_eq_none
    (h : b.payloads.toList.find? (fun image => b.packing.capacity image.1 < image.2.size) = none) :
    ∃ bundle, b.build = .ok bundle :=
  ⟨_, Builder.build_eq_ok_iff.2 ⟨fits_of_find?_eq_none h, rfl⟩⟩

/-- **If the manifest is returned**, the bytes of the bundle are the only thing that is new, and
they are at the place that `output` leads to.

**Proof sketch.** Of the cases of `writeBundle_of_find?_eq_some` and `writeBundle_of_find?_eq_none`
only one returns a manifest, and in it the output has been replaced
(`FileSystem.exists_of_replace_eq_ok`). -/
theorem exists_of_writeBundle_eq_ok {manifest : Manifest}
    (h : (writeBundle files sources b output).result = .ok manifest) :
    ∃ bundle place, (b.withSources files sources).build = .ok bundle ∧ manifest = bundle.manifest ∧
      files.Names output place ∧
      (writeBundle files sources b output).files = files.put place bundle.toBytes := by
  cases hfind : sources.toList.find? fun source => !files.isFile source.2 with
  | some source =>
    obtain ⟨-, cause, -, hresult⟩ := writeBundle_of_find?_eq_some hfind
    cases hresult.symm.trans h
  | none =>
    rcases writeBundle_of_find?_eq_none hfind b output with
      ⟨-, e, -, hresult⟩ | ⟨bundle, hbuild, ⟨cause, -, -, hresult⟩ | ⟨hreplace, hresult⟩⟩
    · cases hresult.symm.trans h
    · cases hresult.symm.trans h
    · obtain ⟨place, hnames, hput⟩ := FileSystem.exists_of_replace_eq_ok hreplace
      exact ⟨bundle, place, hbuild, (Except.ok.inj (hresult.symm.trans h)).symm, hnames, hput⟩

/-- **If an error `e` is returned**, the files are as they were, in each of the cases of
`writeBundle_of_find?_eq_some` and `writeBundle_of_find?_eq_none`. -/
theorem files_of_writeBundle_eq_error {e : BundleError}
    (h : (writeBundle files sources b output).result = .error e) :
    (writeBundle files sources b output).files = files := by
  cases hfind : sources.toList.find? fun source => !files.isFile source.2 with
  | some source => exact (writeBundle_of_find?_eq_some hfind).1
  | none =>
    rcases writeBundle_of_find?_eq_none hfind b output with
      ⟨hfiles, -⟩ | ⟨bundle, -, ⟨cause, -, hfiles, -⟩ | ⟨-, hresult⟩⟩
    · exact hfiles
    · exact hfiles
    · cases hresult.symm.trans h

/-- **If all sources can be read and there is a bundle**, the only error is that the output cannot
be written. It makes no difference whether the `bundle` is written at once or step by step on a
`disk` that holds it.

**Proof sketch.** By `writeBundle_of_find?_eq_none` the output is replaced by the bytes of the
bundle or fails to be, and `Bundle.saveOn_of_size_le` says the same of the disk. -/
theorem writeBundle_of_build_eq_ok {bundle : Bundle}
    (hfind : sources.toList.find? (fun source => !files.isFile source.2) = none)
    (hbuild : (b.withSources files sources).build = .ok bundle) :
    let run := writeBundle files sources b output
    (run.result = .ok bundle.manifest ∨
      ∃ cause, files.replace output bundle.toBytes = .error cause ∧
        run.result = .error (.write output cause)) ∧
    ∀ disk : Bundle.Disk, bundle.toBytes.size ≤ disk.room → disk.sync = .ok () →
      bundle.saveOn disk files output = (run.files, run.result.map fun _ => ()) := by
  intro run
  rcases writeBundle_of_find?_eq_none hfind b output with
    ⟨-, e, herror, -⟩ | ⟨other, hother, ⟨cause, hreplace, hfiles, hresult⟩ | ⟨hreplace, hresult⟩⟩
  · cases herror.symm.trans hbuild
  · obtain rfl := Except.ok.inj (hother.symm.trans hbuild)
    refine ⟨.inr ⟨cause, hreplace, hresult⟩, fun disk hroom hsync => ?_⟩
    rw [Bundle.saveOn_of_size_le hroom hsync, hreplace, hfiles, hresult]
    rfl
  · obtain rfl := Except.ok.inj (hother.symm.trans hbuild)
    refine ⟨.inl hresult, fun disk hroom hsync => ?_⟩
    rw [Bundle.saveOn_of_size_le hroom hsync, hreplace, hresult]
    rfl

end WriteBundle

/-- **A bundle is written all at once or not at all.**

If the manifest is returned, it is that of the bundle that the builder gives with the contents of
its sources; the bytes of that bundle are read at the path `output`, and there is no other place at
which anything has changed. If an error is returned, the files are as they were.

A source that cannot be read is told first, the first one in the order of flash memory; then a
payload that is too large, again the first one; and only then that the output cannot be written. The
same holds where the bundle is written step by step, and a `disk` that fails is one more way in
which the output cannot be written.

**Proof sketch.** The files after a success and after an error are known from
`exists_of_writeBundle_eq_ok` and `files_of_writeBundle_eq_error`. Which error it is follows from
the two searches: `writeBundle_of_find?_eq_some` for the sources and
`Builder.build_of_find?_eq_some` for the payloads, and `writeBundle_of_build_eq_ok` if neither finds
one. A disk that fails is the case of `Bundle.exists_saveOn_eq_error`. -/
theorem writeBundle_all_or_nothing (files : FileSystem) (sources : Slots String) (b : Builder)
    (output : String) :
    let run := writeBundle files sources b output
    let loaded := b.withSources files sources
    let unreadable := sources.toList.find? fun source => !files.isFile source.2
    let oversize := loaded.payloads.toList.find? fun image =>
      loaded.packing.capacity image.1 < image.2.size
    (∀ manifest, run.result = .ok manifest → ∃ bundle place,
      loaded.build = .ok bundle ∧ manifest = bundle.manifest ∧ files.Names output place ∧
        run.files.read output = .ok bundle.toBytes ∧ files.SameExcept run.files [place]) ∧
    (∀ e, run.result = .error e → run.files = files) ∧
    (∀ kind path, unreadable = some (kind, path) →
      ∃ cause, files.read path = .error cause ∧
        run.result = .error (.missingInput path cause)) ∧
    (unreadable = none →
      (∀ kind payload, oversize = some (kind, payload) →
        run.result = .error (.oversize kind.name payload.size
          (loaded.packing.exceeded kind payload.size))) ∧
      (oversize = none → ∃ bundle, loaded.build = .ok bundle ∧
        (run.result = .ok bundle.manifest ∨
          ∃ cause, files.replace output bundle.toBytes = .error cause ∧
            run.result = .error (.write output cause)) ∧
        ∀ disk : Bundle.Disk,
          (bundle.toBytes.size ≤ disk.room → disk.sync = .ok () →
            bundle.saveOn disk files output = (run.files, run.result.map fun _ => ())) ∧
          (disk.room < bundle.toBytes.size ∨ disk.sync ≠ .ok () →
            ∃ cause, bundle.saveOn disk files output =
              (files, .error (.write output cause))))) := by
  intro run loaded unreadable oversize
  refine ⟨fun manifest hok => ?_, fun e herror => files_of_writeBundle_eq_error herror,
    fun kind path hfind => (writeBundle_of_find?_eq_some hfind).2, fun hfind =>
      ⟨fun kind payload hlarge => ?_, fun hfits => ?_⟩⟩
  · obtain ⟨bundle, place, hbuild, hmanifest, hnames, hput⟩ := exists_of_writeBundle_eq_ok hok
    refine ⟨bundle, place, hbuild, hmanifest, hnames, ?_, ?_⟩
    · rw [hput]
      exact hnames.read_put bundle.toBytes
    · rw [hput]
      exact FileSystem.sameExcept_put hnames.ne_nil bundle.toBytes
  · have hlarge : loaded.build = _ := Builder.build_of_find?_eq_some hlarge
    rcases writeBundle_of_find?_eq_none hfind b output with
      ⟨-, e, hbuild, hresult⟩ | ⟨bundle, hbuild, -⟩
    · obtain rfl := Except.error.inj (hbuild.symm.trans hlarge)
      exact hresult
    · cases hbuild.symm.trans hlarge
  · obtain ⟨bundle, hbuild⟩ := Builder.exists_build_of_find?_eq_none hfits
    obtain ⟨hresult, hdisk⟩ := writeBundle_of_build_eq_ok hfind hbuild
    exact ⟨bundle, hbuild, hresult, fun disk => ⟨hdisk disk, Bundle.exists_saveOn_eq_error⟩⟩

end FirmwareBundle
