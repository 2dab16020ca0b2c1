import FirmwareBundle.Proofs.FailedScans
import FirmwareBundle.Proofs.Saving
/-!
# Bundles written to a disk and read back

A bundle that was written from files is scanned without a fault, and the contents of these files
come out of it again, whatever stood in the places of the outputs before. The sources have been read
before the bundle is written, and the bundle before anything is taken out of it, so any of the paths
may be the same.

The only limit is that of the system on the length of a path: an entry of a directory may have a
path that is too long even if the path of the directory itself is not.

## Main results

* `FirmwareBundle.FileSystem.IsDirectory.check_join` — the paths of entries that are too long.
* `FirmwareBundle.FileSystem.IsDirectory.append_dot` — a directory by a longer path.
* `FirmwareBundle.Builder.Safe.exists_recordsResult` — what a scan of a bundle that was built comes
  to.
* `FirmwareBundle.Builder.Safe.extractable_iff` — the directories into which it can be extracted.
* `FirmwareBundle.writeBundle_scanFile` — what comes out of a bundle that was written.
-/

namespace FirmwareBundle

/-! ## Lengths of paths -/

namespace FileSystem

variable {files : FileSystem} {path dir name : String} {place : Location}

/-- A path is taken if it has no zero character, is not empty, and has at most `maxPathLength`
bytes. -/
lemma check_eq_ok_iff : check path = .ok () ↔
    '\x00' ∉ path.toList ∧ path ≠ "" ∧ path.utf8ByteSize ≤ maxPathLength := by
  rw [check]
  split
  · rename_i hzero
    simp_all
  · rename_i hzero
    split
    · rename_i hempty
      simp [hempty]
    · rename_i hempty
      split
      · rename_i hlong
        simp only [reduceCtorEq, false_iff]
        omega
      · rename_i hlong
        simp only [true_iff]
        exact ⟨by simpa using hzero, hempty, by omega⟩

namespace IsDirectory

variable (hdir : files.IsDirectory dir place)

include hdir

/-- **The path of an entry** `name` of the directory `dir` is refused only for its length.

**Proof sketch.** `dir` was taken, so it has no zero character, and neither has `name`, which is
plain. So `Path.join dir name` has none, and it is not empty, since `name` is not. -/
theorem check_join (hplain : Path.isPlainName name) :
    FileSystem.check (Path.join dir name) =
      if maxPathLength < (Path.join dir name).utf8ByteSize then .error .nameTooLong
      else .ok () := by
  obtain ⟨hzero, hne, -⟩ := check_eq_ok_iff.1 hdir.check
  obtain ⟨-, -, -, -, -, hname⟩ := Path.isPlainName_iff.1 hplain
  have hjoined : '\x00' ∉ (Path.join dir name).toList := by
    rw [Path.toList_join hplain, List.mem_append, List.mem_append, not_or, not_or]
    refine ⟨⟨hzero, ?_⟩, hname⟩
    split <;> decide
  have hnonempty : Path.join dir name ≠ "" := by
    intro hempty
    have hlist := congrArg String.toList hempty
    rw [Path.toList_join hplain, List.append_assoc, show "".toList = [] from rfl,
      List.append_eq_nil_iff] at hlist
    exact hne (String.toList_eq_nil_iff.1 hlist.1)
  rw [FileSystem.check, if_neg (by simpa using hjoined), if_neg hnonempty]

/-- **A slash and a dot** behind the path `dir` of a directory lead to it again, if `dir ++ "/."` is
not too long.

**Proof sketch.** The slash starts a new piece (`Path.pieces_append_slash`), so the names of the new
path are those of `dir` and a dot, which leads from a directory to itself. The path starts where
`dir` starts, since `dir` is not empty. -/
theorem append_dot (hlen : (dir ++ "/.").utf8ByteSize ≤ maxPathLength) :
    files.IsDirectory (dir ++ "/.") place := by
  obtain ⟨hzero, hne, -⟩ := check_eq_ok_iff.1 hdir.check
  have hdot : "/.".toList = ['/', '.'] := rfl
  have hparts : Path.parts (dir ++ "/.") = Path.parts dir ++ ["."] := by
    rw [Path.parts, String.toList_append, hdot, Path.pieces_append_slash, List.filter_append,
      List.map_append]
    rfl
  have horigin : files.origin (dir ++ "/.") = files.origin dir := by
    obtain ⟨c, rest, hlist⟩ :=
      List.exists_cons_of_ne_nil (fun h => hne (String.toList_eq_nil_iff.1 h))
    rw [origin, origin, Path.isAbsolute, Path.isAbsolute, String.toList_append, hlist]
    rfl
  refine ⟨check_eq_ok_iff.2 ⟨?_, ?_, hlen⟩, ?_⟩
  · rw [String.toList_append, hdot, List.mem_append, not_or]
    exact ⟨hzero, by decide⟩
  · intro hempty
    have hlist := congrArg String.toList hempty
    rw [String.toList_append, hdot] at hlist
    exact List.append_ne_nil_of_right_ne_nil _ (List.cons_ne_nil _ _) hlist
  · rw [horigin, hparts, FileSystem.walk, List.foldlM_append]
    refine bind_eq_ok_iff.2 ⟨place, hdir.walk, ?_⟩
    rfl

end IsDirectory

/-! ### Paths that are nearly too long -/

/-- The path `dir` with `/.` behind it `n` times. -/
def dotted (dir : String) : Nat → String
  | 0 => dir
  | n + 1 => dotted dir n ++ "/."

/-- Each `/.` makes the path `dir` longer by two bytes. -/
private lemma utf8ByteSize_dotted (dir : String) (n : Nat) :
    (dotted dir n).utf8ByteSize = dir.utf8ByteSize + 2 * n := by
  induction n with
  | zero => rfl
  | succ n ih =>
    rw [dotted, String.utf8ByteSize_append, ih, show "/.".utf8ByteSize = 2 from rfl]
    omega

/-- A path of a directory leads to it again with `/.` behind it `n` times, if that is not too
long. -/
lemma IsDirectory.dotted {n : Nat} (hdir : files.IsDirectory dir place)
    (hlen : dir.utf8ByteSize + 2 * n ≤ maxPathLength) :
    files.IsDirectory (dotted dir n) place := by
  induction n with
  | zero => exact hdir
  | succ n ih =>
    refine (ih (by omega)).append_dot ?_
    rw [← FileSystem.dotted, utf8ByteSize_dotted]
    exact hlen

/-- The length of the path of the entry `name` behind dots: a slash is added, since the path ends
with a dot. -/
private lemma utf8ByteSize_join_dotted {n : Nat} (hplain : Path.isPlainName name) :
    (Path.join (dotted dir (n + 1)) name).utf8ByteSize =
      dir.utf8ByteSize + 2 * (n + 1) + 1 + name.utf8ByteSize := by
  have hslash : Path.hasTrailingSlash (dotted dir (n + 1)) = false := by
    rw [Path.hasTrailingSlash, dotted, String.toList_append,
      show "/.".toList = ['/'] ++ ['.'] from rfl, ← List.append_assoc, List.getLast?_concat]
    rfl
  have hne : dotted dir (n + 1) ≠ "" := by
    intro hempty
    have hsize := utf8ByteSize_dotted dir (n + 1)
    rw [hempty, show "".utf8ByteSize = 0 from rfl] at hsize
    omega
  rw [Path.join, Path.isAbsolute_of_isPlainName hplain, if_neg Bool.false_ne_true,
    if_neg (by simp [hslash, hne]), String.utf8ByteSize_append, String.utf8ByteSize_append,
    utf8ByteSize_dotted]
  rfl

end FileSystem

/-! ## Payloads of a builder -/

namespace PartitionKind

/-- The name of a `kind` is plain. -/
private lemma isPlainName_name (kind : PartitionKind) : Path.isPlainName kind.name := by
  cases kind <;> decide

/-- The name of a `kind` is not too long for an entry of a directory. -/
private lemma utf8ByteSize_name_le (kind : PartitionKind) :
    kind.name.utf8ByteSize ≤ maxNameLength := by
  cases kind <;> decide

end PartitionKind

/-- **A payload of a kind is written** into the directory `dir` unless its path there is longer than
`maxPathLength`. The name of `kind` is plain and short, and `hfree` says that it is not that of a
directory, so nothing else can go wrong. -/
theorem FileSystem.IsDirectory.write_kind {files : FileSystem} {dir : String} {place : Location}
    (hdir : files.IsDirectory dir place) {kind : PartitionKind}
    (hfree : files.tree.get? (place ++ [kind.name]) ≠ some .directory) (data : ByteArray) :
    files.write (Path.join dir kind.name) data =
      if maxPathLength < (Path.join dir kind.name).utf8ByteSize then .error .nameTooLong
      else .ok (files.put (place ++ [kind.name]) data) := by
  rw [hdir.write_join kind.isPlainName_name, hdir.check_join kind.isPlainName_name,
    FileSystem.child_eq_ok_iff.2 ⟨kind.utf8ByteSize_name_le, rfl⟩]
  split
  · rfl
  · exact if_neg hfree

section Sources

variable {files : FileSystem} {sources : Slots String} {b : Builder} {output : String}
  {manifest : Manifest}

/-- What `b` with `sources` has for a `kind` is `b.payload? files sources kind`. -/
private lemma Builder.get?_withSources (b : Builder) (files : FileSystem) (sources : Slots String)
    (kind : PartitionKind) :
    (b.withSources files sources).payloads.get? kind = b.payload? files sources kind := by
  cases kind <;> rfl

/-- The sources of a bundle that was written have been read: the source `path` of a `kind` holds
some `data`, and this is the payload of `kind`.

**Proof sketch.** A source that is no file would have been told as the first such
(`writeBundle_of_find?_eq_some`). So there is none, and the one at `path` can be read. -/
private lemma exists_read_of_writeBundle_eq_ok
    (h : (writeBundle files sources b output).result = .ok manifest) {kind : PartitionKind}
    {path : String} (hsource : sources.get? kind = some path) :
    ∃ data, files.read path = .ok data ∧
      (b.withSources files sources).payloads.get? kind = some data := by
  cases hfind : sources.toList.find? fun source => !files.isFile source.2 with
  | some source =>
    obtain ⟨-, cause, -, hresult⟩ := writeBundle_of_find?_eq_some hfind
    cases hresult.symm.trans h
  | none =>
    have hfile := List.find?_eq_none.1 hfind _ (Slots.mem_toList.2 hsource)
    cases hread : files.read path with
    | error cause => simp [FileSystem.isFile, hread, Except.toBool] at hfile
    | ok data =>
      refine ⟨data, rfl, ?_⟩
      rw [b.get?_withSources, Builder.payload?, hsource]
      simp only [hread, Except.toOption]

end Sources

/-! ## Bundles that were built -/

/-- A scan that extracts into `dir` and succeeds could write all valid payloads, or else it would
have been stopped (`scanInto_leaves`). -/
private lemma extractable_of_result_eq_ok {files : FileSystem} {dir : String} {data : ByteArray}
    {report : ScanReport} (h : (scanInto files data (.extract dir)).result = .ok report) :
    Extractable files dir data := by
  intro document offset payloads hmanifest hlongest spec payload hmem
  rcases scanInto_leaves files hmanifest hlongest (.extract dir) with
    ⟨-, path, cause, hwrite⟩ | ⟨-, place, hvalid, -⟩
  · cases hwrite.symm.trans h
  · obtain ⟨hplain, hnames, -⟩ := hvalid (spec, payload) hmem
    exact ⟨hplain, _, FileSystem.write_eq_ok_iff.2 ⟨_, hnames, rfl⟩⟩

section Built

variable {b : Builder} {bundle : Bundle} (hb : b.Safe) (hbuild : b.build = .ok bundle)

include hb hbuild

/-- **What a scan of a bundle that was built comes to** if nothing stops it: all payloads of `b` are
valid, each for its own entry.

**Proof sketch.** The payloads fit (`Builder.build_eq_ok_iff`), so each has a record
(`longest_toBytes`) and is valid for its entry (`valid_zip_entries`). The header is read back
(`readManifest_toBytes`), and the records end with the bytes (`recordsResult_toBytes`). -/
theorem Builder.Safe.exists_recordsResult : ∃ document offset,
    readManifest bundle.toBytes = .ok (document, offset) ∧
      Record.Longest bundle.toBytes offset document.partitions.length bundle.payloads ∧
      Sink.valid (document.partitions.zip bundle.payloads) =
        b.payloads.toList.map (fun image => (b.packing.entry image, image.2)) ∧
      recordsResult bundle.toBytes document offset bundle.payloads =
        .ok ⟨.bundle, b.payloads.toList.map fun image =>
          .ok image.1.name image.2.size (shortDigest image.2), bundle.toBytes.size⟩ := by
  obtain ⟨hfits, rfl⟩ := Builder.build_eq_ok_iff.1 hbuild
  have hshort : ∀ image ∈ b.payloads.toList, image.2.size < 2 ^ 32 := fun image himage =>
    Packing.lt_of_le_capacity (hfits image himage)
  obtain ⟨hvalid, houtcomes⟩ := valid_zip_entries b.packing hshort
  have hpayloads : ∀ payload ∈ b.payloads.toList.map (·.2), payload.size < 2 ^ 32 :=
    List.forall_mem_map.2 hshort
  have hlength : (b.payloads.toList.map (·.2)).length =
      (b.manifest (b.payloads.toList.map b.packing.entry)).partitions.length := by
    simp [Builder.manifest]
  refine ⟨_, _, readManifest_toBytes (hb.manifest b.payloads.toList) b.nodup_names,
    longest_toBytes hpayloads hlength, hvalid, ?_⟩
  rw [recordsResult_toBytes hpayloads hlength, ← houtcomes]
  rfl

variable {files : FileSystem} {dir : String} {place : Location}
  (hdir : files.IsDirectory dir place)

include hdir

/-- **What is extracted of a bundle that was built**, if its payloads can be extracted into the
directory `dir`: a report of all payloads as valid, each payload at its name in `dir`, and nothing
else.

**Proof sketch.** The extraction puts the valid payloads at their places
(`Extractable.scanInto_eq`), and these are all payloads (`Builder.Safe.exists_recordsResult`). Their
names are distinct, so each is read back (`read_extracted`). -/
theorem Builder.Safe.scanInto_of_extractable (hextract : Extractable files dir bundle.toBytes) :
    let run := scanInto files bundle.toBytes (.extract dir)
    run.result = .ok ⟨.bundle, b.payloads.toList.map fun image =>
      .ok image.1.name image.2.size (shortDigest image.2), bundle.toBytes.size⟩ ∧
    (∀ kind data, b.payloads.get? kind = some data →
      run.sink.tree.get? (place ++ [kind.name]) = some (.file data) ∧
        run.sink.read (Path.join dir kind.name) = .ok data) ∧
    files.SameExcept run.sink (b.payloads.toList.map fun image => place ++ [image.1.name]) := by
  intro run
  obtain ⟨document, offset, hmanifest, hlongest, hvalid, hresult⟩ := hb.exists_recordsResult hbuild
  obtain ⟨hnames, hsink, hrun⟩ := hextract.scanInto_eq hdir hmanifest hlongest
  have hdistinct := (names_valid_sublist document.partitions bundle.payloads).nodup
    (nodup_names_of_readManifest hmanifest)
  rw [hvalid] at hnames hsink hdistinct
  refine ⟨hrun.trans hresult, fun kind data hget => ?_, ?_⟩
  · rw [show run.sink = _ from hsink]
    exact read_extracted hnames hdistinct
      (List.mem_map.2 ⟨(kind, data), Slots.mem_toList.2 hget, rfl⟩)
  · rw [show run.sink = _ from hsink]
    have hplaces : files.SameExcept _ ((extracted place (b.payloads.toList.map fun image =>
        (b.packing.entry image, image.2))).map (·.1)) :=
      FileSystem.sameExcept_putAll fun _ => ne_nil_of_mem_extracted
    rw [map_fst_extracted, List.map_map] at hplaces
    exact hplaces

variable (hfree : ∀ kind data, b.payloads.get? kind = some data →
  files.tree.get? (place ++ [kind.name]) ≠ some .directory)

include hfree

/-- **A bundle that was built can be extracted** into the directory `dir` if and only if the path of
each payload there, `Path.join dir kind.name`, has at most `maxPathLength` bytes.

**Proof sketch.** The valid payloads are those of `b` (`Builder.Safe.exists_recordsResult`), and
whether one of them can be written is known from `FileSystem.IsDirectory.write_kind`. -/
theorem Builder.Safe.extractable_iff :
    Extractable files dir bundle.toBytes ↔
    ∀ kind data, b.payloads.get? kind = some data →
      (Path.join dir kind.name).utf8ByteSize ≤ maxPathLength := by
  obtain ⟨document, offset, hmanifest, hlongest, hvalid, -⟩ := hb.exists_recordsResult hbuild
  constructor
  · intro hextract kind data hget
    have hmem : (b.packing.entry (kind, data), data) ∈ Sink.valid
        (document.partitions.zip bundle.payloads) := by
      rw [hvalid]
      exact List.mem_map.2 ⟨(kind, data), Slots.mem_toList.2 hget, rfl⟩
    obtain ⟨-, written, hwritten⟩ := hextract document offset _ hmanifest hlongest _ data hmem
    by_contra hlong
    have hwrite := hdir.write_kind (hfree kind data hget) data
    rw [if_pos (Nat.lt_of_not_le hlong)] at hwrite
    cases hwrite.symm.trans hwritten
  · intro hshort document' offset' payloads hread hpayloads spec payload hmem
    obtain ⟨rfl, rfl⟩ := Prod.mk.inj (Except.ok.inj (hmanifest.symm.trans hread))
    obtain rfl := hpayloads.unique hlongest
    rw [hvalid] at hmem
    obtain ⟨⟨kind, data⟩, himage, heq⟩ := List.mem_map.1 hmem
    obtain ⟨rfl, rfl⟩ := Prod.mk.inj heq
    have hget := Slots.mem_toList.1 himage
    have hwrite := hdir.write_kind (hfree kind data hget) data
    rw [if_neg (Nat.not_lt.2 (hshort kind data hget))] at hwrite
    exact ⟨kind.isPlainName_name, _, hwrite⟩

/-- **The first payload whose path is too long** ends the extraction. With the payloads in order as
`front ++ (kind, data) :: back`, those in `front` are in the directory `dir` afterwards, nothing
else has changed, and the error names the path of `kind` there.

**Proof sketch.** By `FileSystem.IsDirectory.write_kind` the payloads in `front` can be written, so
the sink takes them (`Extraction.feed_eq_ok_iff`). This leaves the directories as they were, so the
path of `kind` is refused behind them for its length, as it would have been before. The sink that
refuses it ends the scan (`scanRecords_of_refused`). -/
theorem Builder.Safe.scanInto_of_tooLong {front back : List (PartitionKind × ByteArray)}
    {kind : PartitionKind} {data : ByteArray}
    (himages : b.payloads.toList = front ++ (kind, data) :: back)
    (hshort : ∀ image ∈ front, (Path.join dir image.1.name).utf8ByteSize ≤ maxPathLength)
    (hlong : maxPathLength < (Path.join dir kind.name).utf8ByteSize) :
    let run := scanInto files bundle.toBytes (.extract dir)
    run.result = .error (.write (Path.join dir kind.name) .nameTooLong) ∧
    (∀ image ∈ front, run.sink.tree.get? (place ++ [image.1.name]) = some (.file image.2)) ∧
    files.SameExcept run.sink (front.map fun image => place ++ [image.1.name]) := by
  intro run
  obtain ⟨document, offset, hmanifest, hlongest, hvalid, -⟩ := hb.exists_recordsResult hbuild
  have hdistinct := (names_valid_sublist document.partitions bundle.payloads).nodup
    (nodup_names_of_readManifest hmanifest)
  rw [himages, List.map_append, List.map_cons] at hvalid
  rw [hvalid, List.map_append] at hdistinct
  have hmem : ∀ image ∈ front ++ [(kind, data)],
      files.tree.get? (place ++ [image.1.name]) ≠ some .directory := by
    intro image himage
    refine hfree image.1 image.2 (Slots.mem_toList.1 ?_)
    rw [himages, List.append_cons]
    exact List.mem_append_left back himage
  -- What stands in front of the long path is written.
  have hnames : ∀ record ∈ front.map fun image => (b.packing.entry image, image.2),
      Path.isPlainName record.1.name ∧
        files.Names (Path.join dir record.1.name) (place ++ [record.1.name]) := by
    refine List.forall_mem_map.2 fun image himage => ?_
    have hplain : Path.isPlainName (b.packing.entry image).name := image.1.isPlainName_name
    have hwrite := hdir.write_kind (hmem image (List.mem_append_left _ himage)) image.2
    rw [if_neg (Nat.not_lt.2 (hshort image himage))] at hwrite
    exact ⟨hplain, ((hdir.write_join_eq_ok_iff hplain).1 hwrite).1⟩
  have hfeed : (Sink.extract dir).feed ⟨files, []⟩ _ = .ok _ :=
    (Extraction.feed_eq_ok_iff hdir.walk).2 ⟨hnames, rfl⟩
  have hsame := sameDirectories_extracted fun record hrecord => (hnames record hrecord).2
  have hrefuse : (files.putAll (extracted place (front.map fun image =>
      (b.packing.entry image, image.2)))).write (Path.join dir kind.name) data =
        .error .nameTooLong := by
    rw [(hsame.isDirectory hdir).write_kind, if_pos hlong]
    rw [ne_eq, hsame.directory_iff]
    exact hmem (kind, data) (List.mem_append_right front List.mem_cons_self)
  obtain ⟨tail, htiles⟩ := hlongest.tiles
  obtain ⟨-, hsink, hresult⟩ := scanRecords_of_refused htiles hvalid hfeed
    (Extraction.accept_eq_error kind.isPlainName_name hrefuse)
  obtain ⟨hrun, hrunResult, -⟩ := scanInto_extract_eq hmanifest files dir
  rw [hsink] at hrun
  refine ⟨hrunResult.trans hresult, fun image himage => ?_, ?_⟩
  · rw [show run.sink = _ from hrun]
    exact (read_extracted (fun record hrecord => (hnames record hrecord).2)
      hdistinct.of_append_left (List.mem_map.2 ⟨image, himage, rfl⟩)).1
  · have hplaces : files.SameExcept _ ((extracted place (front.map fun image =>
        (b.packing.entry image, image.2))).map (·.1)) :=
      FileSystem.sameExcept_putAll fun _ => ne_nil_of_mem_extracted
    rw [map_fst_extracted, List.map_map] at hplaces
    rw [show run.sink = _ from hrun]
    exact hplaces

end Built

/-! ## Bundles that were written -/

section Written

variable {files : FileSystem} {sources : Slots String} {b : Builder} {output : String}
  {manifest : Manifest} (hsafe : b.Safe)
  (hok : (writeBundle files sources b output).result = .ok manifest)

include hok in
/-- **A bundle that was written** is scanned in the place of `output`, in every `mode`: its bytes
are read there, since they were put there. -/
theorem exists_scanFile_eq_scanInto : ∃ bundle, (b.withSources files sources).build = .ok bundle ∧
    ∀ mode, scanFile (writeBundle files sources b output).files output mode =
      scanInto (writeBundle files sources b output).files bundle.toBytes mode := by
  obtain ⟨bundle, place, hbuild, -, hnames, hafter⟩ := exists_of_writeBundle_eq_ok hok
  refine ⟨bundle, hbuild, fun mode => ?_⟩
  rw [hafter]
  exact scanFile_of_read_eq_ok (hnames.read_put bundle.toBytes) mode

include hsafe in
/-- The texts that `b` was given stay the same with `sources`. -/
lemma Builder.Safe.withSources : (b.withSources files sources).Safe :=
  ⟨hsafe.kernelMem, hsafe.mtdPrefix, hsafe.osmem, hsafe.cma⟩

include hsafe hok in
/-- **The directories that a bundle can be extracted into** are those in which the paths of its
payloads have at most `maxPathLength` bytes: there is a report if and only if all payloads can be
written (`Builder.Safe.extractable_iff`). -/
theorem exists_scanFile_extract_iff {dir : String} {place : Location}
    (hdir : (writeBundle files sources b output).files.IsDirectory dir place)
    (hfree : ∀ kind data, (b.withSources files sources).payloads.get? kind = some data →
      (writeBundle files sources b output).files.tree.get? (place ++ [kind.name]) ≠
        some .directory) :
    (∃ report, (scanFile (writeBundle files sources b output).files output
        (.extract dir)).result = .ok report) ↔
      ∀ kind data, (b.withSources files sources).payloads.get? kind = some data →
        (Path.join dir kind.name).utf8ByteSize ≤ maxPathLength := by
  obtain ⟨bundle, hbuild, hscan⟩ := exists_scanFile_eq_scanInto hok
  rw [hscan, ← hsafe.withSources.extractable_iff hbuild hdir hfree]
  constructor
  · rintro ⟨report, hreport⟩
    exact extractable_of_result_eq_ok hreport
  · intro hextract
    exact ⟨_, (hsafe.withSources.scanInto_of_extractable hbuild hdir hextract).1⟩

end Written

/-- **What was written is read back.** If a bundle is written, each source was read, and the bundle
has its contents for that kind, whatever becomes of the source. A scan of `output` finds all
payloads valid. It extracts them into any directory `dir` that has no directories in their places,
if and only if each path `Path.join dir kind.name` has at most `maxPathLength` bytes; the first that
is longer is the error, behind the payloads that were written before it. And it puts the payloads
together in any file that can be made. Nothing else is changed. Sources, output and targets may be
the same files.

**Proof sketch.** The bytes of the bundle are read at the path `output`, since they were put at its
place (`exists_scanFile_eq_scanInto`). What a scan of these bytes comes to is known
(`Builder.Safe.exists_recordsResult`), and it is the same whether the output is overwritten on the
way, since it has been read by then. A path that is too long stops the scan behind the payloads in
front of it (`Builder.Safe.scanInto_of_tooLong`). -/
theorem writeBundle_scanFile {files : FileSystem} {sources : Slots String} {b : Builder}
    {output : String} {manifest : Manifest} (hsafe : b.Safe)
    (hok : (writeBundle files sources b output).result = .ok manifest) :
    let after := (writeBundle files sources b output).files
    let payloads := (b.withSources files sources).payloads
    (∀ kind path, sources.get? kind = some path →
      ∃ data, files.read path = .ok data ∧ payloads.get? kind = some data) ∧
    (∀ kind, sources.get? kind = none → payloads.get? kind = b.payloads.get? kind) ∧
    (∀ dir place, after.IsDirectory dir place →
      (∀ kind data, payloads.get? kind = some data →
        after.tree.get? (place ++ [kind.name]) ≠ some .directory) →
      let run := scanFile after output (.extract dir)
      ((∃ report, run.result = .ok report) ↔
        ∀ kind data, payloads.get? kind = some data →
          (Path.join dir kind.name).utf8ByteSize ≤ maxPathLength) ∧
      (∀ report, run.result = .ok report → report.isClean ∧
        report.outcomes = payloads.toList.map (fun image =>
          .ok image.1.name image.2.size (shortDigest image.2)) ∧
        (∀ kind data, payloads.get? kind = some data →
          run.sink.tree.get? (place ++ [kind.name]) = some (.file data) ∧
            run.sink.read (Path.join dir kind.name) = .ok data) ∧
        after.SameExcept run.sink (payloads.toList.map fun image => place ++ [image.1.name])) ∧
      ∀ front kind data back, payloads.toList = front ++ (kind, data) :: back →
        (∀ image ∈ front, (Path.join dir image.1.name).utf8ByteSize ≤ maxPathLength) →
        maxPathLength < (Path.join dir kind.name).utf8ByteSize →
        run.result = .error (.write (Path.join dir kind.name) .nameTooLong) ∧
        (∀ image ∈ front, run.sink.tree.get? (place ++ [image.1.name]) = some (.file image.2)) ∧
        after.SameExcept run.sink (front.map fun image => place ++ [image.1.name])) ∧
    ∀ path place made, after.create path = .ok (place, made) →
      let run := scanFile after output (.concatenate path)
      (∃ report, run.result = .ok report ∧ report.isClean ∧
        report.outcomes = payloads.toList.map (fun image =>
          .ok image.1.name image.2.size (shortDigest image.2))) ∧
      run.sink.read path = .ok (Bytes.joined (payloads.toList.map (·.2))) ∧
      after.SameExcept run.sink [place] := by
  intro after payloads
  obtain ⟨bundle, hbuild, hscan⟩ := exists_scanFile_eq_scanInto hok
  have hclean : ∀ report : ScanReport, report.outcomes = payloads.toList.map (fun image =>
      .ok image.1.name image.2.size (shortDigest image.2)) → report.isClean := by
    intro report hreport
    rw [ScanReport.isClean, hreport, List.all_map, List.all_eq_true]
    exact fun _ _ => rfl
  refine ⟨fun kind path hsource => exists_read_of_writeBundle_eq_ok hok hsource,
    fun kind hsource => ?_, fun dir place hdir hfree => ?_, fun path place made hcreate => ?_⟩
  · rw [show payloads.get? kind = _ from b.get?_withSources files sources kind, Builder.payload?,
      hsource]
  · intro run
    refine ⟨exists_scanFile_extract_iff hsafe hok hdir hfree, fun report hreport => ?_,
      fun front kind data back himages hshort hlong => ?_⟩
    · rw [show run = _ from hscan _] at hreport ⊢
      obtain ⟨hresult, hfiles, hexcept⟩ := hsafe.withSources.scanInto_of_extractable hbuild hdir
        (extractable_of_result_eq_ok hreport)
      obtain rfl := Except.ok.inj (hresult.symm.trans hreport)
      exact ⟨hclean _ rfl, rfl, hfiles, hexcept⟩
    · rw [show run = _ from hscan _]
      exact hsafe.withSources.scanInto_of_tooLong hbuild hdir hfree himages hshort hlong
  · intro run
    rw [show run = _ from hscan _]
    obtain ⟨document, offset, hmanifest, hlongest, hvalid, hresult⟩ :=
      hsafe.withSources.exists_recordsResult hbuild
    obtain ⟨hplace, -⟩ := FileSystem.create_eq_ok_iff.1 hcreate
    obtain ⟨hsink, hrun⟩ := scanInto_concatenate_eq hlongest hmanifest hplace
    rw [hsink, hvalid, payloadBytes, List.map_map]
    exact ⟨⟨_, hrun.trans hresult, hclean _ rfl, rfl⟩, hplace.read_put _,
      FileSystem.sameExcept_put hplace.ne_nil _⟩

/-! ### A kernel written over itself -/

/-- A directory `out` with a kernel in it. -/
def FileSystem.withKernel : FileSystem where
  tree := ⟨[(["out"], .directory), (["out", "kernel"], .file ⟨#[1, 2, 3]⟩)]⟩
  workingDirectory := []
  suffixes := ["0"]

/-- The bundle of the kernel can be written in place of the kernel. -/
private lemma exists_writeBundle_withKernel : ∃ manifest bytes,
    (writeBundle .withKernel { kernel := some "out/kernel" } {} "out/kernel").result =
        .ok manifest ∧
      (writeBundle .withKernel { kernel := some "out/kernel" } {} "out/kernel").files =
        FileSystem.withKernel.put ["out", "kernel"] bytes := by
  have hreplace : ∀ bytes, FileSystem.withKernel.replace "out/kernel" bytes =
      .ok (FileSystem.withKernel.put ["out", "kernel"] bytes) := fun _ => rfl
  have hbuild := Builder.build_eq_ok_iff.2 (⟨by decide, rfl⟩ :
    (∀ image ∈ (Builder.withSources {} .withKernel
      { kernel := some "out/kernel" }).payloads.toList,
        image.2.size ≤ Packing.capacity .fixedSlot image.1) ∧ _ = _)
  have hfind : (Slots.toList { kernel := some "out/kernel" }).find?
      (fun source => !FileSystem.withKernel.isFile source.2) = none := rfl
  rcases writeBundle_of_find?_eq_none hfind {} "out/kernel" with
    ⟨-, e, herror, -⟩ | ⟨bundle, -, ⟨cause, herror, -⟩ | ⟨hput, hresult⟩⟩
  · cases herror.symm.trans hbuild
  · cases herror.symm.trans (hreplace _)
  · exact ⟨_, _, hresult, Except.ok.inj (hput.symm.trans (hreplace _))⟩

/-- The kernel is read before the bundle takes its place, and the bundle before the kernel does
again. By a path of 4,089 bytes the same directory cannot be used: the path of the kernel has 4,096
bytes there. -/
theorem writeBundle_scanFile_withKernel :
    let written := writeBundle .withKernel { kernel := some "out/kernel" } {} "out/kernel"
    (∃ manifest, written.result = .ok manifest) ∧
      (∃ report, (scanFile written.files "out/kernel" (.extract "out")).result = .ok report ∧
        report.isClean) ∧
      (scanFile written.files "out/kernel" (.extract "out")).sink.tree.get? ["out", "kernel"] =
        some (.file ⟨#[1, 2, 3]⟩) ∧
      (scanFile written.files "out/kernel" (.extract (FileSystem.dotted "out" 2043))).result =
        .error (.write (Path.join (FileSystem.dotted "out" 2043) "kernel") .nameTooLong) ∧
      (scanFile written.files "out/kernel" (.concatenate "out/kernel")).sink.read "out/kernel" =
        .ok ⟨#[1, 2, 3]⟩ := by
  intro written
  obtain ⟨manifest, bytes, hresult, hfiles⟩ := exists_writeBundle_withKernel
  obtain ⟨-, -, hextract, hjoin⟩ := writeBundle_scanFile (by decide) hresult
  rw [hfiles] at hextract hjoin
  rw [show written.files = _ from hfiles]
  obtain ⟨hscan, hreport, -⟩ := hextract "out" ["out"] ⟨rfl, rfl⟩
    (fun kind _ _ => by cases kind <;> exact nofun)
  obtain ⟨-, -, hlong⟩ := hextract (FileSystem.dotted "out" 2043) ["out"]
    (FileSystem.IsDirectory.dotted ⟨rfl, rfl⟩ (by decide))
    (fun kind _ _ => by cases kind <;> exact nofun)
  obtain ⟨hrefused, -⟩ := hlong [] .kernel ⟨#[1, 2, 3]⟩ [] rfl nofun (by
    rw [FileSystem.utf8ByteSize_join_dotted (by decide)]
    decide)
  obtain ⟨report, hok⟩ := hscan.2 fun kind _ _ => by cases kind <;> decide
  obtain ⟨hclean, -, hextracted, -⟩ := hreport report hok
  obtain ⟨-, hjoined, -⟩ := hjoin "out/kernel" ["out", "kernel"] _ rfl
  exact ⟨⟨manifest, hresult⟩, ⟨report, hok, hclean⟩, (hextracted .kernel ⟨#[1, 2, 3]⟩ rfl).1,
    hrefused, hjoined⟩

/-- So it is not true that a bundle that was written can be extracted into every directory that has
no directories in the places of its payloads: the directory `out` by the path with `/.` behind it
2,043 times is none. -/
theorem not_forall_writeBundle_scanFile :
    ¬ ∀ files sources b output manifest dir place, Builder.Safe b →
      (writeBundle files sources b output).result = .ok manifest →
      (writeBundle files sources b output).files.IsDirectory dir place →
      (∀ kind, (writeBundle files sources b output).files.tree.get?
        (place ++ [PartitionKind.name kind]) ≠ some .directory) →
      ∃ report, (scanFile (writeBundle files sources b output).files output
        (.extract dir)).result = .ok report := by
  intro hall
  obtain ⟨manifest, bytes, hresult, hfiles⟩ := exists_writeBundle_withKernel
  have hfree : ∀ kind, (writeBundle .withKernel { kernel := some "out/kernel" } {}
      "out/kernel").files.tree.get? (["out"] ++ [PartitionKind.name kind]) ≠ some .directory := by
    intro kind
    rw [hfiles]
    cases kind <;> exact nofun
  have hdir : (writeBundle .withKernel { kernel := some "out/kernel" } {}
      "out/kernel").files.IsDirectory (FileSystem.dotted "out" 2043) ["out"] := by
    rw [hfiles]
    exact FileSystem.IsDirectory.dotted ⟨rfl, rfl⟩ (by decide)
  have hreport := hall _ _ _ _ manifest _ _ (by decide) hresult hdir hfree
  have hshort := (exists_scanFile_extract_iff (by decide) hresult hdir fun kind _ _ =>
    hfree kind).1 hreport .kernel ⟨#[1, 2, 3]⟩ rfl
  rw [FileSystem.utf8ByteSize_join_dotted (by decide)] at hshort
  exact absurd hshort (by decide)

end FirmwareBundle
