import FirmwareBundle.Proofs.Delivery
/-!
# Where the records of a bundle begin

A header is written without zero bytes, whatever the texts in it are, so the zero byte behind it is
the first one of the bundle. The records behind it are read with the table alone: the text of the
header has no part in it.

## Main results

* `FirmwareBundle.scanRecords_of_neverFails` — a sink that never fails is asked all that is due.
* `FirmwareBundle.Bundle.scanRecords_of_valid` — the records of a bundle whose payloads are valid
  for its entries.
* `FirmwareBundle.scanRecords_behind_header` — the first zero byte of a bundle that was built, and
  the scan of the records behind it.
-/

namespace FirmwareBundle

variable {σ : Type} {sink : Sink σ}

/-! ## Sinks that never fail -/

/-- A `sink` that never fails is asked all that is due, and the records alone decide the result.

**Proof sketch.** In `scanRecords_due` the second case needs a call that is refused, which neither
`sink.accept` nor `sink.finish` does. -/
theorem scanRecords_of_neverFails {data : ByteArray} {document : ManifestDocument} {offset : Nat}
    {payloads : List ByteArray} (hs : sink.NeverFails)
    (h : Record.Longest data offset document.partitions.length payloads) (state : σ) :
    let run := scanRecords sink data document offset state
    run.calls = dueCalls document.partitions payloads ∧
      sink.respondAll state run.calls = .ok run.sink ∧
      run.result = recordsResult data document offset payloads := by
  intro run
  rcases scanRecords_due sink h state with
    ⟨last, hlast, hcalls, hsink, hresult⟩ | ⟨made, call, later, middle, e, -, -, hrefused, -⟩
  · exact ⟨hcalls, by rw [hcalls, hlast, hsink], hresult⟩
  · -- No call is refused.
    cases call with
    | accept spec payload =>
      obtain ⟨next, haccept⟩ := hs.accept middle spec payload
      cases haccept.symm.trans hrefused
    | finish =>
      obtain ⟨next, hfinish⟩ := hs.finish middle
      cases hfinish.symm.trans hrefused

/-- Where all of `payloads` are valid for the entries `specs`, all of them are due, in their
order. -/
private lemma dueCalls_of_valid {specs : List PartitionSpec} {payloads : List ByteArray}
    (hlength : payloads.length = specs.length)
    (hvalid : Sink.valid (specs.zip payloads) = specs.zip payloads) :
    dueCalls specs payloads = List.zipWith SinkCall.accept specs payloads ++ [.finish] := by
  rw [dueCalls, if_pos hlength, hvalid, List.map_zip_eq_zipWith]
  rfl

/-! ## Records behind a header -/

namespace Bundle

variable {bundle : Bundle}

/-- The first zero byte of a `bundle` is the one behind its header, whatever its texts and payloads
are (`Manifest.header_ne_zero`). -/
private lemma firstZero_toBytes (bundle : Bundle) :
    Bytes.firstZero bundle.toBytes = some bundle.manifest.header.size := by
  rw [bundle.toBytes_eq]
  exact Bytes.firstZero_append bundle.manifest.header_ne_zero

/-- **The records of a bundle** whose payloads are valid for its entries are all read behind the
header, and a `sink` that never fails is handed the payloads in their order.

**Proof sketch.** The records stand in a row up to the end (`tiles_toBytes`), one for each entry, so
there is no fault in them, and all calls are due (`scanRecords_of_neverFails`). -/
theorem scanRecords_of_valid (hshort : ∀ payload ∈ bundle.payloads, payload.size < 2 ^ 32)
    (hlength : bundle.payloads.length = bundle.manifest.partitions.length)
    (hvalid : Sink.valid (bundle.manifest.partitions.zip bundle.payloads) =
      bundle.manifest.partitions.zip bundle.payloads)
    (hs : sink.NeverFails) (state : σ) :
    let run := scanRecords sink bundle.toBytes (.bundle bundle.manifest)
      (bundle.manifest.header.size + 1) state
    (∃ report, run.result = .ok report ∧ report.isClean) ∧
      run.calls = List.zipWith SinkCall.accept bundle.manifest.partitions bundle.payloads ++
        [.finish] ∧
      sink.respondAll state run.calls = .ok run.sink := by
  intro run
  have hpartitions : (ManifestDocument.bundle bundle.manifest).partitions =
      bundle.manifest.partitions := rfl
  have hlongest := longest_toBytes hshort hlength
  rw [← hpartitions] at hlongest
  obtain ⟨hcalls, hrespond, hresult⟩ := scanRecords_of_neverFails hs hlongest state
  rw [hpartitions, dueCalls_of_valid hlength hvalid] at hcalls
  rw [recordsResult_toBytes hshort hlength] at hresult
  refine ⟨⟨_, hresult, ?_⟩, hcalls, hrespond⟩
  rw [ScanReport.isClean, Outcome.zipWith_classify, List.all_map, List.all_eq_true]
  exact List.filter_eq_self.1 hvalid

end Bundle

/-- **The boundary between header and records.** The bytes of the header of any manifest `m` hold no
zero, whatever texts stand in its fields. So the first zero byte of a `bundle` that was built is the
one behind its header, whatever its payloads hold; and from behind it on the records are read
without a fault. A `sink` that never fails is handed exactly the payloads that were given, in their
order and with their entries, and then told that there are no more.

**Proof sketch.** `Manifest.header_ne_zero` is the first part. A builder that accepts its payloads
makes valid entries for them, so `Bundle.scanRecords_of_valid` applies. -/
theorem scanRecords_behind_header :
    (∀ (m : Manifest) (i : Nat) (hi : i < m.header.size), m.header[i] ≠ 0) ∧
    ∀ (b : Builder) (bundle : Bundle), b.build = .ok bundle →
      Bytes.firstZero bundle.toBytes = some bundle.manifest.header.size ∧
      bundle.payloads = b.payloads.toList.map (·.2) ∧
      bundle.payloads.length = bundle.manifest.partitions.length ∧
      ∀ {σ : Type} (sink : Sink σ) (state : σ), sink.NeverFails →
        let run := scanRecords sink bundle.toBytes (.bundle bundle.manifest)
          (bundle.manifest.header.size + 1) state
        (∃ report, run.result = .ok report ∧ report.isClean) ∧
          run.calls = List.zipWith SinkCall.accept bundle.manifest.partitions bundle.payloads ++
            [.finish] ∧
          sink.respondAll state run.calls = .ok run.sink := by
  refine ⟨Manifest.header_ne_zero, fun b bundle hbuild => ?_⟩
  obtain ⟨hfits, rfl⟩ := Builder.build_eq_ok_iff.1 hbuild
  have hshort : ∀ image ∈ b.payloads.toList, image.2.size < 2 ^ 32 := fun image himage =>
    Packing.lt_of_le_capacity (hfits image himage)
  have hlength : (b.payloads.toList.map (·.2)).length =
      (b.payloads.toList.map b.packing.entry).length := by
    rw [List.length_map, List.length_map]
  have hvalid : Sink.valid ((b.payloads.toList.map b.packing.entry).zip
      (b.payloads.toList.map (·.2))) = _ := (valid_zip_entries b.packing hshort).1
  rw [← List.zip_map'] at hvalid
  exact ⟨Bundle.firstZero_toBytes _, rfl, hlength, fun sink state hs =>
    Bundle.scanRecords_of_valid (List.forall_mem_map.2 hshort) hlength hvalid hs state⟩

/-- A bundle with zero characters in its texts and payloads of zero bytes. -/
theorem scanRecords_behind_header_zeros :
    let b : Builder := {
      parameters := ⟨"\x00", true, "\x1b\x00", "\u00a0\x7f"⟩
      packing := .tight
      cma := "\x00\n"
      payloads := { boot := some ⟨#[0, 0, 0, 0]⟩, rootfs := some ⟨#[0]⟩ } }
    ∃ bundle, b.build = .ok bundle ∧
      Bytes.firstZero bundle.toBytes = some bundle.manifest.header.size ∧
      let run := scanRecords Sink.discard bundle.toBytes (.bundle bundle.manifest)
        (bundle.manifest.header.size + 1) ()
      (∃ report, run.result = .ok report ∧ report.isClean) ∧
        run.calls.length = 3 := by
  intro b
  have hbuild := Builder.build_eq_ok_iff.2 (⟨by decide, rfl⟩ :
    (∀ image ∈ b.payloads.toList, image.2.size ≤ b.packing.capacity image.1) ∧ _ = _)
  obtain ⟨hzero, -, -, hscan⟩ := scanRecords_behind_header.2 b _ hbuild
  obtain ⟨hreport, hcalls, -⟩ := hscan Sink.discard () Sink.discard_neverFails
  exact ⟨_, hbuild, hzero, hreport, by rw [hcalls]; rfl⟩

end FirmwareBundle
