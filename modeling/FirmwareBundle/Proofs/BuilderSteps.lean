import FirmwareBundle.Proofs.BuiltBundle
/-!
# Builders that are set up step by step

A step replaces what was set before and leaves everything else alone. So a builder is given by the
last step of each sort, whatever the order of the steps is, and a step that is replaced later leaves
no trace: neither in the bundle, nor in the error if there is none.

## Main definitions

* `FirmwareBundle.BuilderSetting` — the sorts of steps.
* `FirmwareBundle.lastStep?` — the last step of a sort.
* `FirmwareBundle.Builder.standing?` — the step that a builder could have a setting from.

## Main results

* `FirmwareBundle.Builder.standing?_step`, `FirmwareBundle.Builder.standing?_foldl_step` — what one
  step sets, and what is set after all of them.
* `FirmwareBundle.Builder.ofSteps_eq_of_lastStep?_eq` — builders with the same last steps are the
  same.
* `FirmwareBundle.Builder.build_ofSteps` — what is built depends on the last steps alone.
-/

namespace FirmwareBundle

/-! ## Last steps -/

/-- The sorts of steps: each step replaces the earlier ones of its own sort. -/
inductive BuilderSetting where
  | packing
  | init
  | cma
  | payload (kind : PartitionKind)
  deriving DecidableEq

/-- The sort of a step. Steps for payloads of different kinds are of different sorts. -/
def BuilderStep.setting : BuilderStep → BuilderSetting
  | .packing _ => .packing
  | .init _ => .init
  | .cma _ => .cma
  | .payload kind _ => .payload kind

/-- The last of the `steps` that is of the sort `setting`. -/
def lastStep? (steps : List BuilderStep) (setting : BuilderSetting) : Option BuilderStep :=
  (steps.filter (·.setting = setting)).getLast?

section LastStep

variable {steps : List BuilderStep} {step : BuilderStep} {setting : BuilderSetting}

/-- The first step is the last one of its sort only if none of that sort is among the `steps` behind
it. -/
lemma lastStep?_cons (step : BuilderStep) (steps : List BuilderStep) (setting : BuilderSetting) :
    lastStep? (step :: steps) setting =
      (lastStep? steps setting).or (if step.setting = setting then some step else none) := by
  rw [lastStep?, lastStep?, List.filter_cons]
  by_cases h : step.setting = setting
  · simp [h, List.getLast?_cons, Option.or_some]
  · simp [h]

/-- The last step of a sort is the last one in `back`, or if there is none, the last one in
`front`. -/
lemma lastStep?_append (front back : List BuilderStep) (setting : BuilderSetting) :
    lastStep? (front ++ back) setting = (lastStep? back setting).or (lastStep? front setting) := by
  simp [lastStep?, List.getLast?_append]

/-- There is a last step of the sort `setting` if some `step ∈ steps` is of that sort. -/
private lemma isSome_lastStep?_of_mem (h : step ∈ steps) (hsetting : step.setting = setting) :
    (lastStep? steps setting).isSome := by
  rw [lastStep?, List.getLast?_isSome]
  exact List.ne_nil_of_mem (List.mem_filter.2 ⟨h, by simpa using hsetting⟩)

/-- **A step that is replaced later** is the last one of no sort, so it can be left out. If
`later ∈ back` is of the sort of `step`, then `front ++ back` and `front ++ step :: back` have the
same last step of each `setting`.

**Proof sketch.** The last step of the sort of `step` comes from `back`, where there is one
(`isSome_lastStep?_of_mem`), and the last step of any other sort is found as if `step` were not
there (`lastStep?_cons`). -/
theorem lastStep?_of_replaced {front back : List BuilderStep} {later : BuilderStep}
    (hmem : later ∈ back) (hsetting : later.setting = step.setting) (setting : BuilderSetting) :
    lastStep? (front ++ back) setting = lastStep? (front ++ step :: back) setting := by
  rw [lastStep?_append, lastStep?_append, lastStep?_cons]
  by_cases h : step.setting = setting
  · obtain ⟨last, hlast⟩ :=
      Option.isSome_iff_exists.1 (isSome_lastStep?_of_mem hmem (hsetting.trans h))
    simp [hlast]
  · simp [h]

end LastStep

/-! ## Builders by their steps -/

namespace Builder

/-- The step that `b` could have a `setting` from. There is none for a payload that is not there. -/
def standing? (b : Builder) : BuilderSetting → Option BuilderStep
  | .packing => some (.packing b.packing)
  | .init => some (.init b.init)
  | .cma => some (.cma b.cma)
  | .payload kind => (b.payloads.get? kind).map (.payload kind)

/-- Builders `b` and `c` with the same parameters and the same standing step of each `setting` are
the same: their fields are the contents of these steps. -/
private lemma ext_standing? {b c : Builder} (hparameters : b.parameters = c.parameters)
    (h : ∀ setting, b.standing? setting = c.standing? setting) : b = c := by
  obtain ⟨parameters, packing, init, cma, payloads⟩ := b
  have hpacking := h .packing
  have hinit := h .init
  have hcma := h .cma
  simp only [standing?, Option.some.injEq, BuilderStep.packing.injEq, BuilderStep.init.injEq,
    BuilderStep.cma.injEq] at hpacking hinit hcma
  have hpayloads : payloads = c.payloads := by
    apply Slots.ext_get?
    intro kind
    refine Option.map_injective ?_ (h (.payload kind))
    intro data other heq
    exact (BuilderStep.payload.inj heq).2
  subst hparameters hpacking hinit hcma hpayloads
  rfl

/-- The standing step for `kind` is the one for `data` if and only if `data` is the payload of
`kind`. -/
lemma standing?_payload_eq_some_iff {b : Builder} {kind : PartitionKind} {data : ByteArray} :
    b.standing? (.payload kind) = some (.payload kind data) ↔
      b.payloads.get? kind = some data := by
  simp [standing?]

/-- **What one step sets** is set by it, and nothing else changes: after `step` the standing step of
its own sort is `step`, and that of any other `setting` is what it was in `b`.

**Proof sketch.** By the constructor of `step`. For a payload, the slots of the other kinds are as
they were (`Slots.get?_put`). -/
theorem standing?_step (b : Builder) (step : BuilderStep) (setting : BuilderSetting) :
    (b.step step).standing? setting =
      if step.setting = setting then some step else b.standing? setting := by
  cases step with
  | packing packing => cases setting <;> rfl
  | init init => cases setting <;> rfl
  | cma cma => cases setting <;> rfl
  | payload kind data =>
    cases setting with
    | packing => rfl
    | init => rfl
    | cma => rfl
    | payload other =>
      simp only [step, standing?, BuilderStep.setting, BuilderSetting.payload.injEq, Slots.get?_put]
      by_cases h : other = kind
      · subst h
        simp
      · simp [h, Ne.symm h]

/-- **What is set after steps** is set by the last step of its sort, or was set before: the last
step of each `setting` stands, and where `steps` has none, what stood in `b`. Induction on `steps`
with `standing?_step`. -/
theorem standing?_foldl_step (b : Builder) (steps : List BuilderStep) (setting : BuilderSetting) :
    (steps.foldl step b).standing? setting =
      (lastStep? steps setting).or (b.standing? setting) := by
  induction steps generalizing b with
  | nil => rfl
  | cons first steps ih =>
    rw [List.foldl_cons, ih, standing?_step, lastStep?_cons, Option.or_assoc]
    by_cases h : first.setting = setting <;> simp [h]

/-- No step changes the `parameters` of `b`, since there is no step for them. -/
private lemma parameters_foldl_step (b : Builder) (steps : List BuilderStep) :
    (steps.foldl step b).parameters = b.parameters := by
  induction steps generalizing b with
  | nil => rfl
  | cons first steps ih =>
    rw [List.foldl_cons, ih]
    cases first <;> rfl

section OfSteps

variable {parameters : BootParameters} {steps others : List BuilderStep}

/-- **Steps with the same last step of each sort** set up the same builder: their standing steps
agree by `standing?_foldl_step`, and so do the parameters. -/
theorem ofSteps_eq_of_lastStep?_eq
    (h : ∀ setting, lastStep? others setting = lastStep? steps setting) :
    ofSteps parameters others = ofSteps parameters steps := by
  apply ext_standing?
  · rw [ofSteps, ofSteps, parameters_foldl_step, parameters_foldl_step]
  · intro setting
    rw [ofSteps, ofSteps, standing?_foldl_step, standing?_foldl_step, h]

variable (parameters) in
/-- The payload of `kind` is the `data` of the last step for it. -/
lemma get?_ofSteps_eq_some_iff {kind : PartitionKind} {data : ByteArray} :
    (ofSteps parameters steps).payloads.get? kind = some data ↔
      lastStep? steps (.payload kind) = some (.payload kind data) := by
  rw [← standing?_payload_eq_some_iff, ofSteps, standing?_foldl_step]
  have hnone : ({ parameters } : Builder).standing? (.payload kind) = none := by
    cases kind <;> rfl
  rw [hnone, Option.or_none]

/-- **What is built depends on the last steps alone.** If `others` have the same last step of each
sort as `steps`, they give the same bundle, byte for byte, or the same error. In particular a `step`
that is replaced by a `later` one can be left out. The payloads of the bundle are those of the last
steps in the order of flash memory, in whatever order they were given, and only such a payload is
told in an error.

**Proof sketch.** Steps that agree in their last ones give one builder
(`ofSteps_eq_of_lastStep?_eq`), and leaving out a step that is replaced changes no last step
(`lastStep?_of_replaced`). What that builder gives is known from `build_eq_ok_iff` and
`build_eq_error_iff`, and its payloads are those of the last steps (`get?_ofSteps_eq_some_iff`). -/
theorem build_ofSteps (parameters : BootParameters) (steps : List BuilderStep) :
    let build := fun steps => (ofSteps parameters steps).build
    (∀ others, (∀ setting, lastStep? others setting = lastStep? steps setting) →
      build others = build steps ∧
        (build others).map Bundle.toBytes = (build steps).map Bundle.toBytes) ∧
    (∀ front step later back, steps = front ++ step :: back → later ∈ back →
      later.setting = step.setting → build (front ++ back) = build steps) ∧
    (∀ bundle, build steps = .ok bundle →
      ∃ kinds : List PartitionKind, kinds.Pairwise (fun kind later => kind.rank < later.rank) ∧
        bundle.manifest.partitions.map (·.name) = kinds.map (·.name) ∧
        bundle.payloads.length = kinds.length ∧
        ∀ kind data, (kind, data) ∈ kinds.zip bundle.payloads ↔
          lastStep? steps (.payload kind) = some (.payload kind data)) ∧
    ∀ e, build steps = .error e → ∃ kind data,
      lastStep? steps (.payload kind) = some (.payload kind data) ∧
        (ofSteps parameters steps).packing.limit kind < data.size ∧
        ∃ capacity, e = .oversize kind.name data.size capacity := by
  intro build
  refine ⟨fun others h => ?_, fun front step later back hsteps hmem hsetting => ?_,
    fun bundle hbuild => ?_, fun e hbuild => ?_⟩
  · have hbuilder : build others = build steps :=
      congrArg Builder.build (ofSteps_eq_of_lastStep?_eq h)
    exact ⟨hbuilder, congrArg _ hbuilder⟩
  · subst hsteps
    exact congrArg Builder.build (ofSteps_eq_of_lastStep?_eq (lastStep?_of_replaced hmem hsetting))
  · obtain ⟨-, rfl⟩ := build_eq_ok_iff.1 hbuild
    refine ⟨(ofSteps parameters steps).payloads.toList.map (·.1), Slots.pairwise_rank _, ?_, ?_, ?_⟩
    · simp [manifest, Packing.entry]
    · simp
    · intro kind data
      rw [← get?_ofSteps_eq_some_iff parameters, ← Slots.mem_toList, List.zip_map', List.map_id'']
      simp
  · obtain ⟨kind, data, ⟨hget, hlt, -⟩, rfl⟩ := build_eq_error_iff.1 hbuild
    exact ⟨kind, data, (get?_ofSteps_eq_some_iff parameters).1 hget, hlt, _, rfl⟩

end OfSteps

/-- Steps that put a root file system first, and a boot loader one byte too large for its slot in
the place of which another one is put later. -/
def replacingSteps : List BuilderStep :=
  [.payload .rootfs ⟨#[1, 2]⟩, .payload .boot ⟨Array.replicate 0x50001 0⟩, .packing .tight,
    .payload .boot ⟨#[3]⟩, .packing .fixedSlot]

/-- The steps `replacingSteps` build what the steps that count, `orderly`, build by themselves, with
the boot loader first. -/
theorem build_ofSteps_replacingSteps :
    let orderly := [.packing .fixedSlot, .payload .boot ⟨#[3]⟩, .payload .rootfs ⟨#[1, 2]⟩]
    (∀ setting, lastStep? orderly setting = lastStep? replacingSteps setting) ∧
      (ofSteps .standard orderly).build = (ofSteps .standard replacingSteps).build ∧
      ∃ bundle, (ofSteps .standard replacingSteps).build = .ok bundle ∧
        bundle.payloads = [⟨#[3]⟩, ⟨#[1, 2]⟩] := by
  intro orderly
  have hlast : ∀ setting, lastStep? orderly setting = lastStep? replacingSteps setting := by
    intro setting
    cases setting with
    | packing => rfl
    | init => rfl
    | cma => rfl
    | payload kind => cases kind <;> rfl
  have hbuild := ((build_ofSteps .standard replacingSteps).1 orderly hlast).1
  refine ⟨hlast, hbuild, _, hbuild.symm.trans (build_eq_ok_iff.2 ⟨?_, rfl⟩), rfl⟩
  decide

end Builder

end FirmwareBundle
