import Mathlib.Data.List.Forall2
/-!
# Steps that succeed

Steps one after the other succeed if each of them does.

## Main definitions

* `FirmwareBundle.Succeeds` — when a step succeeds, and what comes of it.

## Main results

* `FirmwareBundle.bind_eq_ok_iff` — a step after another.
* `FirmwareBundle.Succeeds.mapM` — steps that succeed one by one.
* `FirmwareBundle.exists_mapM_eq_ok_iff` — the same step for each item of a list.
-/

namespace FirmwareBundle

variable {ε α β : Type}

/-- The step `f` after `x` succeeds with `b` if and only if `x` succeeds with some `a` and `f a`
with `b`. -/
theorem bind_eq_ok_iff {x : Except ε α} {f : α → Except ε β} {b : β} :
    x >>= f = .ok b ↔ ∃ a, x = .ok a ∧ f a = .ok b := by
  cases x with
  | error e => simp [bind, Except.bind]
  | ok a => simp [bind, Except.bind]

/-- The result of `x.map f` is `b` if and only if `x` has a result `a` with `f a = b`. -/
lemma map_eq_ok_iff {x : Except ε α} {f : α → β} {b : β} :
    x.map f = .ok b ↔ ∃ a, x = .ok a ∧ f a = b := by
  cases x <;> simp [Except.map]

/-- Mapping the result of `x` leaves its error `e` as it is. -/
lemma map_eq_error_iff {x : Except ε α} {f : α → β} {e : ε} :
    x.map f = .error e ↔ x = .error e := by
  cases x <;> simp [Except.map]

/-- Dropping the error of `x` leaves the result `a` if and only if `x` succeeds with `a`. -/
lemma toOption_eq_some_iff {x : Except ε α} {a : α} : x.toOption = some a ↔ x = .ok a := by
  cases x <;> simp [Except.toOption]

/-- Mapping `x :: xs` by a step `f` that may fail succeeds if and only if `f x` does, with some `y`,
and then mapping `xs`, with some `ys`. The results are `y :: ys`. -/
lemma mapM_cons_eq_ok_iff {f : α → Except ε β} {x : α} {xs : List α} {results : List β} :
    (x :: xs).mapM f = .ok results ↔
      ∃ y ys, f x = .ok y ∧ xs.mapM f = .ok ys ∧ results = y :: ys := by
  rw [List.mapM_cons, bind_eq_ok_iff]
  refine exists_congr fun y => ?_
  rw [bind_eq_ok_iff]
  constructor
  · rintro ⟨hy, ys, hys, h⟩
    exact ⟨ys, hy, hys, (Except.ok.inj h).symm⟩
  · rintro ⟨ys, hy, hys, rfl⟩
    exact ⟨hy, ys, hys, rfl⟩

/-- The step `x` succeeds if and only if `condition` holds, and what comes of it is of the given
`kind`. -/
structure Succeeds (x : Except ε α) (condition : Prop) (kind : α → Prop) : Prop where
  exists_iff : (∃ a, x = .ok a) ↔ condition
  kind_of_eq_ok : ∀ {a}, x = .ok a → kind a

namespace Succeeds

variable {x : Except ε α} {condition : Prop} {kind : α → Prop}

/-- If `f` takes every `a` of `kind` to something of `kind'`, the result of `x.map f` is of `kind'`,
under the same condition. -/
lemma map (h : Succeeds x condition kind) (f : α → β) {kind' : β → Prop}
    (hf : ∀ a, kind a → kind' (f a)) : Succeeds (x.map f) condition kind' where
  exists_iff := by
    rw [← h.exists_iff]
    cases x <;> simp [Except.map]
  kind_of_eq_ok := by
    intro b hb
    cases x with
    | error e => cases hb
    | ok a =>
      obtain rfl := Except.ok.inj hb
      exact hf a (h.kind_of_eq_ok rfl)

/-- A step `y` whose results have the results of `x` in their only field, as `get` reads it,
succeeds under the same condition as `x`, and `get b` is of the kind of the results of `x`. -/
lemma of_eq_ok_iff (h : Succeeds x condition kind) {y : Except ε β} {get : β → α}
    (hget : ∀ a, ∃ b, get b = a) (hy : ∀ b, y = .ok b ↔ x = .ok (get b)) :
    Succeeds y condition fun b => kind (get b) where
  exists_iff := by
    rw [← h.exists_iff]
    constructor
    · rintro ⟨b, hb⟩
      exact ⟨get b, (hy b).1 hb⟩
    · rintro ⟨a, ha⟩
      obtain ⟨b, rfl⟩ := hget a
      exact ⟨b, (hy b).2 ha⟩
  kind_of_eq_ok := fun hb => h.kind_of_eq_ok ((hy _).1 hb)

/-- **Steps that succeed one by one** succeed together. If each `f x` succeeds just under the
`condition` of the `y` in its place, `xs.mapM f` succeeds just under all of these conditions, and
each result is of the `kind` of its `y`.

**Proof sketch.** Induction along the two lists with `mapM_cons_eq_ok_iff`: the first step and the
others succeed, each under its own condition. -/
theorem mapM {γ δ : Type} {f : γ → Except ε α} {condition : δ → Prop} {kind : δ → α → Prop}
    {xs : List γ} {ys : List δ}
    (h : List.Forall₂ (fun x y => Succeeds (f x) (condition y) (kind y)) xs ys) :
    Succeeds (xs.mapM f) (∀ y ∈ ys, condition y) (List.Forall₂ kind ys) := by
  induction h with
  | nil =>
    refine ⟨⟨fun _ _ hy => absurd hy List.not_mem_nil, fun _ => ⟨[], rfl⟩⟩, ?_⟩
    rintro results h
    obtain rfl := Except.ok.inj h
    exact .nil
  | @cons x y xs ys hxy _ ih =>
    refine ⟨?_, ?_⟩
    · rw [List.forall_mem_cons, ← hxy.exists_iff, ← ih.exists_iff]
      constructor
      · rintro ⟨results, h⟩
        obtain ⟨a, as, ha, has, -⟩ := mapM_cons_eq_ok_iff.1 h
        exact ⟨⟨a, ha⟩, as, has⟩
      · rintro ⟨⟨a, ha⟩, as, has⟩
        exact ⟨a :: as, mapM_cons_eq_ok_iff.2 ⟨a, as, ha, has, rfl⟩⟩
    · rintro results h
      obtain ⟨a, as, ha, has, rfl⟩ := mapM_cons_eq_ok_iff.1 h
      exact .cons (hxy.kind_of_eq_ok ha) (ih.kind_of_eq_ok has)

end Succeeds

/-- **The items of a list can be mapped** by `f` if and only if `f` succeeds for each `x ∈ xs`. This
is `Succeeds.mapM` with the condition for `x` that `f x` succeeds. -/
theorem exists_mapM_eq_ok_iff {f : α → Except ε β} {xs : List α} :
    (∃ ys, xs.mapM f = .ok ys) ↔ ∀ x ∈ xs, ∃ y, f x = .ok y := by
  have hsteps : List.Forall₂ (fun x y => Succeeds (f x) (∃ b, f y = .ok b) fun _ => True) xs xs :=
    List.forall₂_same.2 fun x _ => ⟨Iff.rfl, fun _ => trivial⟩
  exact (Succeeds.mapM hsteps).exists_iff

end FirmwareBundle
