import FirmwareBundle.Files.Path
import Mathlib.Tactic.Common
/-!
# Paths of entries of a directory

A plain name put behind the path of a directory is the last of the names that the new path goes
through, whatever the directory's path looks like. So a path made of a directory and a plain name
cannot lead anywhere but to that name in that directory.

## Main results

* `FirmwareBundle.Path.isPlainName_iff` — the names that are plain.
* `FirmwareBundle.Path.parts_join` — the names that the path of an entry goes through.
-/

namespace FirmwareBundle.Path

/-! ## Texts cut at slashes -/

/-- A text cut at its slashes has at least one piece, also if it is empty. -/
lemma pieces_ne_nil (xs : List Char) : pieces xs ≠ [] := by
  fun_cases pieces xs <;> simp_all

/-- A character `c` other than a slash in front of `xs` belongs to the first piece of `xs`. -/
private lemma pieces_cons_of_ne {c : Char} (hc : c ≠ '/') {xs : List Char} {piece : List Char}
    {more : List (List Char)} (h : pieces xs = piece :: more) :
    pieces (c :: xs) = (c :: piece) :: more := by
  rw [pieces]
  · rw [h]
  · exact hc

/-- A slash between `xs` and `ys` divides the pieces of `xs` from those of `ys`.

**Proof sketch.** Induction on `xs`. A slash in `xs` starts a new piece on both sides; any other
character goes into the first piece of what follows (`pieces_cons_of_ne`), which is there by
`pieces_ne_nil`. -/
lemma pieces_append_slash (xs ys : List Char) :
    pieces (xs ++ '/' :: ys) = pieces xs ++ pieces ys := by
  induction xs with
  | nil => rfl
  | cons c xs ih =>
    by_cases hc : c = '/'
    · subst hc
      rw [List.cons_append, pieces, pieces, ih, List.cons_append]
    · obtain ⟨piece, more, hxs⟩ := List.exists_cons_of_ne_nil (pieces_ne_nil xs)
      rw [hxs] at ih
      rw [List.cons_append, pieces_cons_of_ne hc ih, pieces_cons_of_ne hc hxs]
      rfl

/-- A text `xs` without slashes is one piece. -/
private lemma pieces_of_notMem {xs : List Char} (h : '/' ∉ xs) : pieces xs = [xs] := by
  induction xs with
  | nil => rfl
  | cons c xs ih =>
    rw [List.mem_cons, not_or] at h
    exact pieces_cons_of_ne (Ne.symm h.1) (ih h.2)

/-! ## Plain names -/

/-- A name is plain if it is not empty, is neither `.` nor `..`, and has no slash, no backslash and
no zero character. -/
theorem isPlainName_iff {name : String} :
    isPlainName name ↔ name ≠ "" ∧ name ≠ "." ∧ name ≠ ".." ∧ '/' ∉ name.toList ∧
      '\\' ∉ name.toList ∧ '\x00' ∉ name.toList := by
  simp only [isPlainName, Bool.and_eq_true, bne_iff_ne, ne_eq, List.all_eq_true]
  constructor
  · rintro ⟨⟨⟨hempty, hdot⟩, hdots⟩, hall⟩
    exact ⟨hempty, hdot, hdots, fun h => (hall _ h).1.1 rfl, fun h => (hall _ h).1.2 rfl,
      fun h => (hall _ h).2 rfl⟩
  · rintro ⟨hempty, hdot, hdots, hslash, hback, hzero⟩
    refine ⟨⟨⟨hempty, hdot⟩, hdots⟩, fun c hc => ⟨⟨?_, ?_⟩, ?_⟩⟩
    · rintro rfl
      exact hslash hc
    · rintro rfl
      exact hback hc
    · rintro rfl
      exact hzero hc

section Join

variable {dir name : String} (hplain : isPlainName name)

include hplain

/-- A plain name is not an absolute path, since it does not start with a slash. -/
lemma isAbsolute_of_isPlainName : isAbsolute name = false := by
  obtain ⟨-, -, -, hslash, -⟩ := isPlainName_iff.1 hplain
  rw [isAbsolute]
  cases hname : name.toList with
  | nil => rfl
  | cons c rest =>
    rw [hname, List.mem_cons, not_or] at hslash
    simpa using Ne.symm hslash.1

/-- The characters of `join dir name` for a plain `name`: those of `dir`, a slash unless `dir` is
empty or ends with one, and those of `name`. -/
lemma toList_join : (join dir name).toList =
    dir.toList ++ (if dir = "" ∨ hasTrailingSlash dir then [] else ['/']) ++ name.toList := by
  rw [join, isAbsolute_of_isPlainName hplain, if_neg Bool.false_ne_true]
  split
  · rw [String.toList_append, List.append_nil]
  · rw [String.toList_append, String.toList_append]
    rfl

/-- **The path of an entry** goes through the names of the directory's path, and then `name`:
`parts (join dir name)` is `parts dir ++ [name]`.

**Proof sketch.** By `toList_join` the path is `dir`, perhaps a slash, and `name`. The slash divides
the pieces of `dir` from those of what follows (`pieces_append_slash`), and `name` is a piece of its
own (`pieces_of_notMem`). Where `dir` ends with a slash already, the piece behind that slash is
empty, and empty pieces are no names. -/
theorem parts_join : parts (join dir name) = parts dir ++ [name] := by
  obtain ⟨hempty, -, -, hslash, -⟩ := isPlainName_iff.1 hplain
  have hname : name.toList ≠ [] := by
    intro h
    exact hempty (String.toList_eq_nil_iff.1 h)
  have hlast : ((pieces name.toList).filter (· ≠ [])).map String.ofList = [name] := by
    rw [pieces_of_notMem hslash, List.filter_cons_of_pos (by simpa using hname), List.filter_nil,
      List.map_singleton, String.ofList_toList]
  rw [parts, toList_join hplain]
  split
  · rename_i hdir
    rw [List.append_nil]
    rcases hdir with rfl | htrailing
    · rw [show ("" : String).toList = [] from rfl, List.nil_append, hlast]
      rfl
    · -- The slash that the directory's path ends with leaves an empty piece behind it.
      obtain ⟨xs, hxs⟩ : ∃ xs, dir.toList = xs ++ ['/'] := by
        rw [hasTrailingSlash, beq_iff_eq] at htrailing
        exact List.getLast?_eq_some_iff.1 htrailing
      have hvoid : (pieces []).filter (· ≠ []) = [] := rfl
      rw [parts, hxs, List.append_assoc, List.singleton_append, pieces_append_slash,
        pieces_append_slash, List.filter_append, List.filter_append, hvoid, List.append_nil,
        List.map_append, hlast]
  · rw [List.append_assoc, List.singleton_append, pieces_append_slash, List.filter_append,
      List.map_append, hlast]
    rfl

/-- The path `join dir name` is absolute if and only if `dir` is: its first character is that of
`dir`, or that of `name` where `dir` is empty. -/
lemma isAbsolute_join : isAbsolute (join dir name) = isAbsolute dir := by
  rw [isAbsolute, toList_join hplain]
  cases hdir : dir.toList with
  | cons c rest =>
    rw [isAbsolute, hdir]
    rfl
  | nil =>
    obtain rfl := String.toList_eq_nil_iff.1 hdir
    rw [if_pos (.inl rfl)]
    exact isAbsolute_of_isPlainName hplain

/-- The path `join dir name` ends with the last character of `name`, which is not a slash. -/
lemma hasTrailingSlash_join : hasTrailingSlash (join dir name) = false := by
  obtain ⟨hempty, -, -, hslash, -⟩ := isPlainName_iff.1 hplain
  obtain hname | ⟨rest, last, hname⟩ := List.eq_nil_or_concat name.toList
  · exact absurd (String.toList_eq_nil_iff.1 hname) hempty
  · rw [hname, List.concat_eq_append, List.mem_append, not_or, List.mem_singleton] at hslash
    rw [hasTrailingSlash, toList_join hplain, hname, List.concat_eq_append, ← List.append_assoc,
      List.getLast?_concat]
    simpa using Ne.symm hslash.2

end Join

end FirmwareBundle.Path
