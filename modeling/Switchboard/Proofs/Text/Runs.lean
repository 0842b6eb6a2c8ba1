import Mathlib.Data.List.TakeWhile

/-!
# Runs of characters

A scanner takes the elements of a list as long as they pass a test, and stops at the first
that does not.  A scanner that starts at the back stops at the last mark of a text: it takes
the run behind the mark and leaves what stands before it.

## Main results

* `takeWhile_append_eq`, `dropWhile_append_eq` — where a run ends.
* `takeWhile_reverse_mark`, `dropWhile_reverse_mark` — **what stands behind the last mark,
  and what is left.**
* `exists_lastMark` — a text that holds the mark has a last one.
-/

namespace Switchboard.Text

section

variable {α : Type} {p : α → Bool} {xs ys : List α}

theorem takeWhile_append_eq (hxs : ∀ x ∈ xs, p x = true) (hys : ∀ y ∈ ys.head?, p y = false) :
    (xs ++ ys).takeWhile p = xs := by
  rw [List.takeWhile_append_of_pos hxs]
  cases ys with
  | nil => rw [List.takeWhile_nil, List.append_nil]
  | cons y ys => rw [List.takeWhile_cons_of_neg (by simp [hys y rfl]), List.append_nil]

theorem dropWhile_append_eq (hxs : ∀ x ∈ xs, p x = true) (hys : ∀ y ∈ ys.head?, p y = false) :
    (xs ++ ys).dropWhile p = ys := by
  rw [List.dropWhile_append_of_pos hxs]
  cases ys with
  | nil => rfl
  | cons y ys => rw [List.dropWhile_cons_of_neg (by simp [hys y rfl])]

end

/-! ### The last mark -/

variable {mark : Char} {cs front back : List Char}

/-- Seen from the back, the run behind the last mark comes first. -/
theorem reverse_mark (mark : Char) (front back : List Char) :
    (front ++ mark :: back).reverse = back.reverse ++ mark :: front.reverse := by
  simp

theorem ne_of_mem_reverse (h : mark ∉ back) : ∀ c ∈ back.reverse, decide (c ≠ mark) = true := by
  intro c hc
  have hne : c ≠ mark := fun heq => h (heq ▸ List.mem_reverse.mp hc)
  exact decide_eq_true hne

theorem takeWhile_reverse_mark (h : mark ∉ back) :
    (front ++ mark :: back).reverse.takeWhile (· ≠ mark) = back.reverse := by
  rw [reverse_mark]
  apply takeWhile_append_eq (ne_of_mem_reverse h)
  simp

theorem dropWhile_reverse_mark (h : mark ∉ back) :
    (front ++ mark :: back).reverse.dropWhile (· ≠ mark) = mark :: front.reverse := by
  rw [reverse_mark]
  apply dropWhile_append_eq (ne_of_mem_reverse h)
  simp

/-- Where there is no mark, the whole text is the run. -/
theorem dropWhile_reverse_of_notMem (h : mark ∉ cs) : cs.reverse.dropWhile (· ≠ mark) = [] :=
  List.dropWhile_eq_nil_iff.mpr (ne_of_mem_reverse h)

/-- A text that holds the mark can be cut at the last one. -/
theorem exists_lastMark (h : mark ∈ cs) :
    ∃ front back, cs = front ++ mark :: back ∧ mark ∉ back := by
  obtain ⟨before, behind, hcut, hfree⟩ := List.eq_append_cons_of_mem (List.mem_reverse.mpr h)
  refine ⟨behind.reverse, before.reverse, ?_, by simpa using hfree⟩
  simpa using congrArg List.reverse hcut

end Switchboard.Text
