import FirmwareBundle.Bundle.Destination
import FirmwareBundle.Proofs.Delivery
import FirmwareBundle.Proofs.Files
/-!
# Payloads extracted into a directory

An extraction writes each valid payload to a file of its own in a directory. A name is used only if
it is plain, so the path made of it leads to the entry of that name in the directory and nowhere
else; and since the names in a table are distinct, no payload is written over another. What is
written can be told from the records alone, also when the scan fails on the way.

## Main definitions

* `FirmwareBundle.FileSystem.putAll` — several files put at their places.

## Main results

* `FirmwareBundle.FileSystem.get?_putAll_of_last` — what is at one of those places.
* `FirmwareBundle.FileSystem.IsDirectory.write_join_eq_ok_iff` — the files that can be written into
  a directory.
* `FirmwareBundle.Extraction.feed_eq_ok_iff` — the payloads that can be extracted, and what becomes
  of the files.
* `FirmwareBundle.scanInto_extract` — the files after a scan that extracts.
-/

namespace FirmwareBundle

namespace FileSystem

variable {fs : FileSystem} {path dir name : String} {place other : Location} {data : ByteArray}
  {entries : List (Location × ByteArray)}

/-! ## Several files -/

/-- The file system `fs` with files put at their places, one after the other. -/
def putAll (fs : FileSystem) (entries : List (Location × ByteArray)) : FileSystem :=
  entries.foldl (fun fs entry => fs.put entry.1 entry.2) fs

/-- Files that are put one after the other change nothing but their places. Induction on `entries`
with `sameExcept_put`. -/
lemma sameExcept_putAll (h : ∀ entry ∈ entries, entry.1 ≠ []) :
    SameExcept fs (fs.putAll entries) (entries.map (·.1)) := by
  induction entries generalizing fs with
  | nil => exact ⟨rfl, rfl, fun _ _ => rfl⟩
  | cons entry entries ih =>
    rw [List.forall_mem_cons] at h
    have htail : SameExcept (fs.put entry.1 entry.2) (fs.putAll (entry :: entries)) _ := ih h.2
    refine ⟨htail.workingDirectory, htail.suffixes, fun place hplace => ?_⟩
    rw [List.map_cons, List.mem_cons, not_or] at hplace
    exact (htail.get?_eq place hplace.2).trans
      ((sameExcept_put h.1 entry.2).get?_eq place (by simpa using hplace.1))

/-- Files that are put where no directories are leave the directories the same, since after each of
them there are still no directories at the places of the others. -/
private lemma sameDirectories_putAll (h : ∀ entry ∈ entries, entry.1 ≠ [])
    (hdirectory : ∀ entry ∈ entries, fs.tree.get? entry.1 ≠ some .directory) :
    SameDirectories fs (fs.putAll entries) := by
  induction entries generalizing fs with
  | nil => exact SameDirectories.refl fs
  | cons entry entries ih =>
    rw [List.forall_mem_cons] at h hdirectory
    have hsame := sameDirectories_put h.1 hdirectory.1 entry.2
    refine hsame.trans (ih h.2 fun other hother => ?_)
    rw [ne_eq, hsame.directory_iff]
    exact hdirectory.2 other hother

/-- **A file that is put at a place last** is there: what is put before it is replaced, and none of
`back` is put at `place` again. -/
theorem get?_putAll_of_last {front back : List (Location × ByteArray)}
    (h : ∀ entry ∈ front ++ (place, data) :: back, entry.1 ≠ [])
    (hlast : place ∉ back.map (·.1)) :
    (fs.putAll (front ++ (place, data) :: back)).tree.get? place = some (.file data) := by
  rw [List.forall_mem_append, List.forall_mem_cons] at h
  rw [putAll, List.foldl_append, List.foldl_cons]
  have hback : SameExcept _ (putAll (put (fs.putAll front) place data) back) _ :=
    sameExcept_putAll h.2.2
  exact (hback.get?_eq place hlast).trans ((get?_tree_put h.2.1 data place).trans (if_pos rfl))

/-! ## Files of a directory -/

/-- **The path of an entry** leads to its `name` in the directory that the names of the path `dir`
lead to. Here `dir` may also be empty, which is no path of a directory.

**Proof sketch.** The target of `Path.join dir name` is found by a walk through the names of `dir`
(`Path.parts_join`), from where `dir` starts (`Path.isAbsolute_join`). Its last name is `name`,
which is plain, so it means no directory and its place is that of an entry. -/
theorem Names.exists_walk (hplain : Path.isPlainName name)
    (h : fs.Names (Path.join dir name) place) :
    ∃ found, fs.walk (fs.origin dir) (Path.parts dir) = .ok found ∧ place = found ++ [name] := by
  obtain ⟨-, hdot, hdots, -⟩ := Path.isPlainName_iff.1 hplain
  obtain ⟨last, lastName, htarget, hchild⟩ := h.exists_target
  obtain ⟨_, -, htarget⟩ := bind_eq_ok_iff.1 htarget
  have horigin : fs.origin (Path.join dir name) = fs.origin dir := by
    rw [origin, origin, Path.isAbsolute_join hplain]
  simp only [Path.parts_join hplain, List.getLast?_concat, List.dropLast_concat, horigin, hdot,
    hdots, or_self, ↓reduceIte] at htarget
  obtain ⟨found, hwalk, htarget⟩ := bind_eq_ok_iff.1 htarget
  obtain ⟨rfl, rfl⟩ := Target.name.inj (Except.ok.inj htarget)
  exact ⟨found, hwalk, (child_eq_ok_iff.1 hchild).2⟩

/-- Where the path of an entry leads if the names of the path `dir` lead to `place`: to the place of
`name` there. -/
lemma Names.eq_of_walk (hwalk : fs.walk (fs.origin dir) (Path.parts dir) = .ok place)
    (hplain : Path.isPlainName name) (h : fs.Names (Path.join dir name) other) :
    other = place ++ [name] := by
  obtain ⟨found, hfound, rfl⟩ := h.exists_walk hplain
  rw [Except.ok.inj (hfound.symm.trans hwalk)]

/-- **The files that can be written into a directory** are those whose path leads to the place of
their `name` in it, and they are put there. -/
theorem IsDirectory.write_join_eq_ok_iff {fs' : FileSystem} (hdir : fs.IsDirectory dir place)
    (hplain : Path.isPlainName name) :
    fs.write (Path.join dir name) data = .ok fs' ↔
      fs.Names (Path.join dir name) (place ++ [name]) ∧ fs' = fs.put (place ++ [name]) data := by
  rw [write_eq_ok_iff]
  constructor
  · rintro ⟨found, hnames, hput⟩
    obtain rfl := hnames.eq_of_walk hdir.walk hplain
    exact ⟨hnames, hput⟩
  · rintro ⟨hnames, hput⟩
    exact ⟨_, hnames, hput⟩

/-- Whether a file can be written into the directory `dir`, and for what `cause` not, does not
depend on the files in `fs` and `fs'`, only on the directories. Both sides are spelled out by
`IsDirectory.write_join`. -/
lemma SameDirectories.write_join_eq_error_iff {fs' : FileSystem} (h : SameDirectories fs fs')
    (hdir : fs.IsDirectory dir place) (hplain : Path.isPlainName name) {cause : IoFault} :
    fs'.write (Path.join dir name) data = .error cause ↔
      fs.write (Path.join dir name) data = .error cause := by
  rw [hdir.write_join hplain, (h.isDirectory hdir).write_join hplain]
  cases FileSystem.check (Path.join dir name) with
  | error cause => exact Iff.rfl
  | ok _ =>
    cases child place name with
    | error cause => exact Iff.rfl
    | ok file =>
      simp only [Except.bind, h.directory_iff]
      split <;> simp

end FileSystem

/-! ## Extraction -/

section Extraction

variable {files : FileSystem} {dir : String} {place : Location} {written : List String}
  {records : List (PartitionSpec × ByteArray)}

/-- The files that `records` are extracted to in the directory at `place`: each payload at the name
of its entry. -/
def extracted (place : Location) (records : List (PartitionSpec × ByteArray)) :
    List (Location × ByteArray) :=
  records.map fun record => (place ++ [record.1.name], record.2)

/-- No file is extracted to the root. -/
lemma ne_nil_of_mem_extracted {entry : Location × ByteArray}
    (h : entry ∈ extracted place records) : entry.1 ≠ [] := by
  obtain ⟨record, -, rfl⟩ := List.mem_map.1 h
  exact List.append_ne_nil_of_right_ne_nil place (List.cons_ne_nil _ _)

/-- The places that `records` are extracted to are those of their names in the directory at
`place`. -/
lemma map_fst_extracted (place : Location) (records : List (PartitionSpec × ByteArray)) :
    (extracted place records).map (·.1) =
      records.map fun record => place ++ [record.1.name] := by
  rw [extracted, List.map_map]
  rfl

/-- **One payload** is extracted if the name of `spec` is plain and its path leads to a place for a
file. Then it is put there, and the path is added to what was written.

**Proof sketch.** A plain name is followed by `FileSystem.write`, which succeeds if and only if the
path leads to a place (`FileSystem.write_eq_ok_iff`), and that place is unique. -/
theorem Extraction.accept_eq_ok_iff_exists {s s' : Extraction} {spec : PartitionSpec}
    {payload : ByteArray} :
    s.accept dir spec payload = .ok s' ↔
      Path.isPlainName spec.name ∧ ∃ place, s.files.Names (Path.join dir spec.name) place ∧
        s' = ⟨s.files.put place payload, s.written ++ [Path.join dir spec.name]⟩ := by
  rw [Extraction.accept]
  by_cases hplain : Path.isPlainName spec.name
  · simp only [hplain, ↓reduceIte, true_and]
    cases hwrite : s.files.write (Path.join dir spec.name) payload with
    | error cause =>
      simp only [reduceCtorEq, false_iff]
      rintro ⟨place, hnames, -⟩
      cases hwrite.symm.trans (FileSystem.write_eq_ok_iff.2 ⟨place, hnames, rfl⟩)
    | ok saved =>
      obtain ⟨place, hnames, rfl⟩ := FileSystem.write_eq_ok_iff.1 hwrite
      simp only [Except.ok.injEq]
      constructor
      · rintro rfl
        exact ⟨place, hnames, rfl⟩
      · rintro ⟨other, hother, rfl⟩
        rw [hother.unique hnames]
  · simp [hplain]

/-- If the names of the path `dir` lead to `place`, the payload is put at the name of `spec`
there. -/
lemma Extraction.accept_eq_ok_iff {s s' : Extraction}
    (hwalk : s.files.walk (s.files.origin dir) (Path.parts dir) = .ok place)
    {spec : PartitionSpec} {payload : ByteArray} :
    s.accept dir spec payload = .ok s' ↔
      Path.isPlainName spec.name ∧
        s.files.Names (Path.join dir spec.name) (place ++ [spec.name]) ∧
        s' = ⟨s.files.put (place ++ [spec.name]) payload,
          s.written ++ [Path.join dir spec.name]⟩ := by
  rw [accept_eq_ok_iff_exists]
  refine and_congr_right fun hplain => ⟨?_, fun h => ⟨_, h⟩⟩
  rintro ⟨found, hnames, hput⟩
  obtain rfl := hnames.eq_of_walk hwalk hplain
  exact ⟨hnames, hput⟩

/-- **Payloads are extracted** if each could be by itself, and then all are put at their places. The
names of the path `dir` lead to `place`; `dir` need not be a path of a directory, so that this holds
of an empty `dir` as well.

**Proof sketch.** Induction on `records`. The first payload is put where no directory is
(`Extraction.accept_eq_ok_iff`), so the directories stay the same, and the paths of the others lead
where they led (`FileSystem.SameDirectories.names_iff`). -/
theorem Extraction.feed_eq_ok_iff {s : Extraction}
    (hwalk : files.walk (files.origin dir) (Path.parts dir) = .ok place) :
    (Sink.extract dir).feed ⟨files, written⟩ records = .ok s ↔
      (∀ record ∈ records, Path.isPlainName record.1.name ∧
        files.Names (Path.join dir record.1.name) (place ++ [record.1.name])) ∧
      s = ⟨files.putAll (extracted place records),
        written ++ records.map fun record => Path.join dir record.1.name⟩ := by
  induction records generalizing files written with
  | nil =>
    rw [Sink.feed_nil, Except.ok.injEq, List.map_nil, List.append_nil]
    exact ⟨fun h => ⟨nofun, h.symm⟩, fun h => h.2.symm⟩
  | cons record records ih =>
    have hstep : ∀ next, (Sink.extract dir).accept ⟨files, written⟩ record.1 record.2 = .ok next ↔
        _ := fun next => Extraction.accept_eq_ok_iff hwalk
    rw [Sink.feed_cons, List.forall_mem_cons]
    cases haccept : (Sink.extract dir).accept ⟨files, written⟩ record.1 record.2 with
    | error e =>
      simp only [Except.bind, reduceCtorEq, false_iff]
      rintro ⟨⟨⟨hplain, hnames⟩, -⟩, -⟩
      rw [(hstep _).2 ⟨hplain, hnames, rfl⟩] at haccept
      cases haccept
    | ok next =>
      obtain ⟨hplain, hnames, rfl⟩ := (hstep next).1 haccept
      have hsame := FileSystem.sameDirectories_put hnames.ne_nil hnames.notDirectory record.2
      have hwalk' := hsame.origin_eq dir ▸ hsame.walk_eq_ok_iff.2 hwalk
      simp only [Except.bind, ih hwalk', hsame.names_iff, hplain, hnames, true_and,
        List.map_cons, List.append_assoc, List.singleton_append]
      rfl

section Written

variable (hnames : ∀ record ∈ records,
  files.Names (Path.join dir record.1.name) (place ++ [record.1.name]))

include hnames

/-- Extracted files leave the directories the same, since the paths of `records` lead to places for
files. -/
lemma sameDirectories_extracted :
    files.SameDirectories (files.putAll (extracted place records)) := by
  apply FileSystem.sameDirectories_putAll (fun _ => ne_nil_of_mem_extracted)
  intro entry hentry
  obtain ⟨record, hrecord, rfl⟩ := List.mem_map.1 hentry
  exact (hnames record hrecord).notDirectory

/-- **The file that is extracted last under a name** is at its place and is read at its path, if no
record in `back` has the name of `spec`.

**Proof sketch.** Its place is the last one with that name, so it holds `payload`
(`FileSystem.get?_putAll_of_last`). The path still leads there, since the directories are the same
(`sameDirectories_extracted`). -/
theorem read_extracted_of_last {front back : List (PartitionSpec × ByteArray)}
    {spec : PartitionSpec} {payload : ByteArray}
    (hrecords : records = front ++ (spec, payload) :: back)
    (hlast : ∀ later ∈ back, later.1.name ≠ spec.name) :
    let extraction := files.putAll (extracted place records)
    extraction.tree.get? (place ++ [spec.name]) = some (.file payload) ∧
      extraction.read (Path.join dir spec.name) = .ok payload := by
  intro extraction
  have hsplit : extracted place records = extracted place front ++
      (place ++ [spec.name], payload) :: extracted place back := by
    rw [hrecords, extracted, List.map_append, List.map_cons]
    rfl
  have hget : extraction.tree.get? (place ++ [spec.name]) = some (.file payload) := by
    simp only [extraction, hsplit]
    refine FileSystem.get?_putAll_of_last (fun entry hentry => ?_) ?_
    · exact ne_nil_of_mem_extracted (hsplit ▸ hentry)
    · rw [map_fst_extracted, List.mem_map]
      rintro ⟨later, hlater, heq⟩
      exact hlast later hlater (by simpa using heq)
  refine ⟨hget, FileSystem.read_eq_ok_iff.2 ⟨place ++ [spec.name], ?_, hget⟩⟩
  exact (sameDirectories_extracted hnames).names_iff.2
    (hnames (spec, payload) (hrecords ▸ List.mem_append_right front List.mem_cons_self))

/-- Extracted files with distinct names are at their places, and they are read at their paths. This
is `read_extracted_of_last` for each of them. -/
lemma read_extracted (hdistinct : (records.map (·.1.name)).Nodup) {spec : PartitionSpec}
    {payload : ByteArray} (h : (spec, payload) ∈ records) :
    let extraction := files.putAll (extracted place records)
    extraction.tree.get? (place ++ [spec.name]) = some (.file payload) ∧
      extraction.read (Path.join dir spec.name) = .ok payload := by
  obtain ⟨front, back, hrecords⟩ := List.append_of_mem h
  rw [hrecords, List.map_append, List.map_cons] at hdistinct
  refine read_extracted_of_last hnames hrecords fun later hlater heq => ?_
  exact (List.nodup_cons.1 hdistinct.of_append_right).1 (List.mem_map.2 ⟨later, hlater, heq⟩)

end Written

/-- If the name of `spec` is plain, a `cause` for which its file cannot be written is told with the
path of the file. -/
lemma Extraction.accept_eq_error {s : Extraction} {spec : PartitionSpec} {payload : ByteArray}
    {cause : IoFault} (hplain : Path.isPlainName spec.name)
    (hwrite : s.files.write (Path.join dir spec.name) payload = .error cause) :
    s.accept dir spec payload = .error (.write (Path.join dir spec.name) cause) := by
  rw [Extraction.accept]
  simp only [hplain, ↓reduceIte, hwrite]

/-- A payload that is not extracted is told with the path of its file: either the name of `spec` is
not plain, or the file cannot be written. -/
lemma Extraction.exists_of_accept_eq_error {s : Extraction} {spec : PartitionSpec}
    {payload : ByteArray} {e : BundleError} (h : s.accept dir spec payload = .error e) :
    ∃ cause, e = .write (Path.join dir spec.name) cause ∧
      if Path.isPlainName spec.name then
        s.files.write (Path.join dir spec.name) payload = .error cause
      else cause = .notPlainName := by
  rw [Extraction.accept] at h
  by_cases hplain : Path.isPlainName spec.name
  · simp only [hplain, ↓reduceIte] at h ⊢
    cases hwrite : s.files.write (Path.join dir spec.name) payload with
    | error cause =>
      rw [hwrite] at h
      exact ⟨cause, (Except.error.inj h).symm, rfl⟩
    | ok saved =>
      rw [hwrite] at h
      cases h
  · simp only [hplain, Bool.false_eq_true, ↓reduceIte] at h ⊢
    exact ⟨.notPlainName, (Except.error.inj h).symm, rfl⟩

end Extraction

/-! ## Scans that extract -/

/-- A scan that extracts is one of the records behind the header if there is a header, with the sink
`Sink.extract dir` and nothing written yet. -/
lemma scanInto_extract_eq {data : ByteArray} {document : ManifestDocument} {offset : Nat}
    (h : readManifest data = .ok (document, offset)) (files : FileSystem) (dir : String) :
    let run := scanRecords (Sink.extract dir) data document offset ⟨files, []⟩
    (scanInto files data (.extract dir)).sink = run.sink.files ∧
      (scanInto files data (.extract dir)).result = run.result ∧
      (scan (Sink.extract dir) data ⟨files, []⟩).sink.written = run.sink.written := by
  simp only [scanInto, scan, h, Scan.mapSink, Scan.sink_after, Scan.result_after, and_self]

/-- **What a scan extracts.** Without a header nothing is done. With one, the names of the valid
payloads are distinct, and the payloads up to the first that is refused are `written`: each is read
afterwards at the path of its name, whatever was there before, and there is no other place at which
anything has changed. So nothing is changed for a payload that is not valid.

The scan ends at a payload that is refused, the first in `later`, either because its name is not
plain or because its file cannot be written. If none is, the records alone decide the result, and a
report counts as many valid payloads as there are files written.

**Proof sketch.** The sink takes the valid payloads up to the first that it refuses
(`scanRecords_taken`), and `Extraction.feed_eq_ok_iff` says what has become of the files by then.
The names of a table are distinct, so each file is still there at the end (`read_extracted`), and no
file was put at the name of a payload that is not valid. A payload that is refused behind the others
would have been refused before them (`FileSystem.SameDirectories.write_join_eq_error_iff`). -/
theorem scanInto_extract {files : FileSystem} {dir : String} {place : Location}
    (hdir : files.IsDirectory dir place) (data : ByteArray) :
    let run := scanInto files data (.extract dir)
    (∀ e, readManifest data = .error e → run.sink = files ∧ run.result = .error e) ∧
    ∀ document offset, readManifest data = .ok (document, offset) →
      ∃ payloads, Record.Longest data offset document.partitions.length payloads ∧
        let records := document.partitions.zip payloads
        let valid := Sink.valid records
        (valid.map (·.1.name)).Nodup ∧
        ∃ written later, valid = written ++ later ∧
          (∀ spec payload, (spec, payload) ∈ written → Path.isPlainName spec.name ∧
            run.sink.tree.get? (place ++ [spec.name]) = some (.file payload) ∧
            run.sink.read (Path.join dir spec.name) = .ok payload) ∧
          files.SameExcept run.sink (written.map fun record => place ++ [record.1.name]) ∧
          (scan (Sink.extract dir) data ⟨files, []⟩).sink.written =
            written.map (fun record => Path.join dir record.1.name) ∧
          (∀ spec payload, (spec, payload) ∈ records → ¬(Outcome.classify spec payload).isOk →
            run.sink.tree.get? (place ++ [spec.name]) =
              files.tree.get? (place ++ [spec.name])) ∧
          (later = [] → run.result = recordsResult data document offset payloads) ∧
          (∀ spec payload rest, later = (spec, payload) :: rest → ∃ cause,
            run.result = .error (.write (Path.join dir spec.name) cause) ∧
              if Path.isPlainName spec.name then
                files.write (Path.join dir spec.name) payload = .error cause
              else cause = .notPlainName) ∧
          ∀ report, run.result = .ok report → written.length = report.validCount := by
  intro run
  refine ⟨fun e hmanifest => ?_, fun document offset hmanifest => ?_⟩
  · simp only [run, scanInto, scan, hmanifest, Scan.mapSink, and_self]
  obtain ⟨payloads, hlongest⟩ := Record.exists_longest data offset document.partitions.length
  refine ⟨payloads, hlongest, ?_⟩
  intro records valid
  have hnames : (valid.map (·.1.name)).Nodup :=
    (names_valid_sublist document.partitions payloads).nodup (nodup_names_of_readManifest hmanifest)
  obtain ⟨written, later, hvalid, hfeed, hend, hrefused⟩ :=
    scanRecords_taken (rfl : (Sink.extract dir).finish = .ok) hlongest ⟨files, []⟩
  replace hvalid : valid = written ++ later := hvalid
  obtain ⟨hwritten, hsink⟩ := (Extraction.feed_eq_ok_iff hdir.walk).1 hfeed
  obtain ⟨hrun, hresult, hpaths⟩ := scanInto_extract_eq hmanifest files dir
  rw [hsink] at hrun hpaths hrefused
  replace hrun : run.sink = files.putAll (extracted place written) := hrun
  have hplaces : ∀ record ∈ written,
      files.Names (Path.join dir record.1.name) (place ++ [record.1.name]) :=
    fun record hrecord => (hwritten record hrecord).2
  have hdistinct : (written.map (·.1.name)).Nodup := by
    rw [hvalid, List.map_append] at hnames
    exact hnames.of_append_left
  have hexcept : files.SameExcept run.sink
      (written.map fun record => place ++ [record.1.name]) := by
    rw [← map_fst_extracted, hrun]
    exact FileSystem.sameExcept_putAll fun _ => ne_nil_of_mem_extracted
  refine ⟨hnames, written, later, hvalid, ?_, hexcept, hpaths, ?_, ?_, ?_, ?_⟩
  · intro spec payload hmem
    rw [hrun]
    exact ⟨(hwritten _ hmem).1, read_extracted hplaces hdistinct hmem⟩
  · intro spec payload hmem hinvalid
    have hrecords : (records.map (·.1.name)).Nodup :=
      (names_zip_sublist document.partitions payloads).nodup (nodup_names_of_readManifest hmanifest)
    apply hexcept.get?_eq
    intro hplace
    obtain ⟨record, hrecord, hname⟩ := List.mem_map.1 hplace
    apply Sink.name_notMem_valid hrecords hmem hinvalid
    show spec.name ∈ valid.map (·.1.name)
    rw [hvalid]
    exact List.mem_map.2 ⟨record, List.mem_append_left later hrecord, by simpa using hname⟩
  · intro hlater
    rw [hresult]
    exact hend hlater
  · intro spec payload rest hlater
    obtain ⟨e, haccept, he⟩ := hrefused _ rest hlater
    obtain ⟨cause, rfl, hcause⟩ := Extraction.exists_of_accept_eq_error haccept
    refine ⟨cause, hresult.trans he, ?_⟩
    by_cases hplain : Path.isPlainName spec.name
    · rw [if_pos hplain] at hcause ⊢
      exact ((sameDirectories_extracted hplaces).write_join_eq_error_iff hdir hplain).1 hcause
    · rw [if_neg hplain] at hcause ⊢
      exact hcause
  · intro report hok
    rw [hresult] at hok
    cases later with
    | nil =>
      rw [List.append_nil] at hvalid
      rw [validCount_of_recordsResult ((hend rfl).symm.trans hok), ← hvalid]
    | cons record rest =>
      obtain ⟨e, -, he⟩ := hrefused record rest rfl
      cases he.symm.trans hok

/-- A directory `out` with a file in the place of each payload of a bundle. -/
def FileSystem.withOutputs : FileSystem where
  tree := ⟨[(["out"], .directory), (["out", "a"], .file ⟨#[1, 2, 3]⟩),
    (["out", "b"], .file ⟨#[9]⟩)]⟩
  workingDirectory := []
  suffixes := []

/-- The path `out` leads to the directory of `withOutputs`. -/
lemma FileSystem.isDirectory_withOutputs : withOutputs.IsDirectory "out" ["out"] :=
  ⟨rfl, rfl⟩

/-- Of a bundle of a payload of two bytes and an empty one, the first is extracted in place of a
longer file. The second has not the length that the table says, so the file in its place is left as
it is. -/
theorem scanInto_extract_twoPayloads :
    FileSystem.withOutputs.IsDirectory "out" ["out"] ∧
      ∃ extraction report,
        (scanInto .withOutputs Bundle.twoPayloads.toBytes (.extract "out")).sink = extraction ∧
        (scanInto .withOutputs Bundle.twoPayloads.toBytes (.extract "out")).result = .ok report ∧
        extraction.tree.get? ["out", "a"] = some (.file ⟨#[7, 0]⟩) ∧
        extraction.tree.get? ["out", "b"] = some (.file ⟨#[9]⟩) ∧ report.validCount = 1 := by
  have hshort : ∀ payload ∈ Bundle.twoPayloads.payloads, payload.size < 2 ^ 32 := by decide
  obtain ⟨-, hread⟩ :=
    scanInto_extract FileSystem.isDirectory_withOutputs Bundle.twoPayloads.toBytes
  obtain ⟨payloads, hlongest, hrest⟩ := hread _ _ (readManifest_toBytes (by decide) (by decide))
  obtain rfl := hlongest.unique (longest_toBytes hshort rfl)
  obtain ⟨-, written, later, hvalid, hwritten, -, -, hinvalid, hend, hrefused, hcount⟩ := hrest
  have hfirst : [(⟨"a", 2, none, none⟩, ⟨#[7, 0]⟩)] = written ++ later := hvalid
  rcases List.append_eq_singleton_iff.1 hfirst.symm with ⟨rfl, rfl⟩ | ⟨rfl, rfl⟩
  · -- The first payload is not refused.
    obtain ⟨cause, -, hcause⟩ := hrefused _ _ _ rfl
    have hwrite : FileSystem.withOutputs.write (Path.join "out" "a") ⟨#[7, 0]⟩ =
        .ok (FileSystem.withOutputs.put ["out", "a"] ⟨#[7, 0]⟩) := rfl
    rw [if_pos (by decide)] at hcause
    cases hwrite.symm.trans hcause
  · obtain ⟨-, hfile, -⟩ := hwritten _ _ List.mem_cons_self
    have hresult := (hend rfl).trans (recordsResult_toBytes hshort rfl)
    have hother := hinvalid ⟨"b", 1, none, none⟩ .empty (.tail _ (.head _)) (by decide)
    exact ⟨FileSystem.isDirectory_withOutputs, _, _, rfl, hresult, hfile, hother,
      (hcount _ hresult).symm⟩

end FirmwareBundle
