import BracketLang.Text.Distance
import Mathlib.Order.Bounds.Basic

/-! Edit distance as the least number of edits. `Edit` inserts, deletes or replaces one character
anywhere in a text, and `Edits n s t` says that `n` edits in a row turn `s` into `t`. The distance
by recursion on both texts, `levenshtein`, is the least such `n`: that many edits are enough, and
one edit changes the distance to any text by one at most, so that fewer are not.

The distance that is computed goes through the longer text with one row, which holds the distances
to all beginnings of the shorter one (`Text.foldl_nextRow`). It takes both texts by their last
characters, where `levenshtein` takes them by their first; the edits do not mind from which side a
text is read, nor which of the two comes first. -/

namespace BracketLang.Text

/-- One character is inserted, deleted or replaced. -/
inductive Edit : (s t : List Char) → Prop
  | insert (a : List Char) (c : Char) (b : List Char) : Edit (a ++ b) (a ++ c :: b)
  | delete (a : List Char) (c : Char) (b : List Char) : Edit (a ++ c :: b) (a ++ b)
  | replace (a : List Char) (c d : Char) (b : List Char) : Edit (a ++ c :: b) (a ++ d :: b)

/-- `n` edits, one after the other, turn `s` into `t`. -/
inductive Edits : (n : Nat) → (s t : List Char) → Prop
  | refl : Edits 0 s s
  | step (h : Edit s t) (hs : Edits n t u) : Edits (n + 1) s u

/-- The distance of two texts, by their first characters. -/
def levenshtein : (s t : List Char) → Nat
  | [], t => t.length
  | _ :: s, [] => s.length + 1
  | c :: s, d :: t =>
    min (min (levenshtein s (d :: t) + 1) (levenshtein (c :: s) t + 1))
      (levenshtein s t + if c = d then 0 else 1)

/-! ## Edits -/

namespace Edit

theorem symm (h : Edit s t) : Edit t s := by
  cases h with
  | insert a c b => exact .delete a c b
  | delete a c b => exact .insert a c b
  | replace a c d b => exact .replace a d c b

theorem cons (e : Char) (h : Edit s t) : Edit (e :: s) (e :: t) := by
  cases h with
  | insert a c b => exact .insert (e :: a) c b
  | delete a c b => exact .delete (e :: a) c b
  | replace a c d b => exact .replace (e :: a) c d b

theorem reverse (h : Edit s t) : Edit s.reverse t.reverse := by
  cases h with
  | insert a c b => simpa using insert b.reverse c a.reverse
  | delete a c b => simpa using delete b.reverse c a.reverse
  | replace a c d b => simpa using replace b.reverse c d a.reverse

end Edit

namespace Edits

theorem trans (h : Edits m s t) (h' : Edits n t u) : Edits (m + n) s u := by
  induction h with
  | refl => rwa [Nat.zero_add]
  | step h _ ih =>
    rw [Nat.add_right_comm]
    exact .step h (ih h')

theorem symm (h : Edits n s t) : Edits n t s := by
  induction h with
  | refl => exact .refl
  | step h _ ih => exact ih.trans (.step h.symm .refl)

theorem cons (e : Char) (h : Edits n s t) : Edits n (e :: s) (e :: t) := by
  induction h with
  | refl => exact .refl
  | step h _ ih => exact .step (h.cons e) ih

theorem reverse (h : Edits n s t) : Edits n s.reverse t.reverse := by
  induction h with
  | refl => exact .refl
  | step h _ ih => exact .step h.reverse ih

theorem reverse_iff : Edits n s.reverse t.reverse ↔ Edits n s t := by
  refine ⟨fun h => ?_, reverse⟩
  simpa using h.reverse

theorem min (h : Edits m s t) (h' : Edits n s t) : Edits (Min.min m n) s t := by
  rcases Nat.le_total m n with hle | hle
  · rwa [Nat.min_eq_left hle]
  · rwa [Nat.min_eq_right hle]

/-- A text is written with one edit for each character. -/
theorem write (t : List Char) : Edits t.length [] t := by
  induction t with
  | nil => exact .refl
  | cons c t ih => exact ih.trans (.step (.insert [] c t) .refl)

end Edits

/-! ## The distance by recursion -/

@[simp] theorem levenshtein_nil_left (t : List Char) : levenshtein [] t = t.length := by
  rw [levenshtein]

@[simp] theorem levenshtein_nil_right (s : List Char) : levenshtein s [] = s.length := by
  cases s with
  | nil => rw [levenshtein_nil_left]
  | cons c s => rw [levenshtein, List.length_cons]

theorem levenshtein_cons_cons (c d : Char) (s t : List Char) : levenshtein (c :: s) (d :: t) =
    min (min (levenshtein s (d :: t) + 1) (levenshtein (c :: s) t + 1))
      (levenshtein s t + if c = d then 0 else 1) := by
  rw [levenshtein]

/-- As many edits as the distance says are enough. -/
theorem edits_levenshtein (s t : List Char) : Edits (levenshtein s t) s t := by
  fun_induction levenshtein s t with
  | case1 t => exact .write t
  | case2 c s => exact (Edits.write (c :: s)).symm
  | case3 c s d t hdelete hinsert hreplace =>
    have hdelete := Edits.step (.delete [] c s) hdelete
    have hinsert := Edits.step (.insert [] d (c :: s)) (hinsert.cons d)
    have hreplace : Edits (levenshtein s t + if c = d then 0 else 1) (c :: s) (d :: t) := by
      split
      next h =>
        subst h
        exact hreplace.cons c
      next => exact .step (.replace [] c d s) (hreplace.cons d)
    exact (hdelete.min hinsert).min hreplace

/-! ## One edit changes a distance by one at most -/

theorem levenshtein_cons_left_le (c : Char) (s u : List Char) :
    levenshtein (c :: s) u ≤ levenshtein s u + 1 := by
  cases u with
  | nil => simp
  | cons e u =>
    rw [levenshtein_cons_cons]
    omega

theorem levenshtein_cons_right_le (s : List Char) (e : Char) (u : List Char) :
    levenshtein s (e :: u) ≤ levenshtein s u + 1 := by
  cases s with
  | nil => simp
  | cons c s =>
    rw [levenshtein_cons_cons]
    omega

theorem levenshtein_le_cons_left (c : Char) (s u : List Char) :
    levenshtein s u ≤ levenshtein (c :: s) u + 1 := by
  induction u with
  | nil =>
    rw [levenshtein_nil_right, levenshtein_nil_right, List.length_cons]
    omega
  | cons e u ih =>
    have hright := levenshtein_cons_right_le s e u
    rw [levenshtein_cons_cons]
    omega

theorem levenshtein_replace_le (c d : Char) (s u : List Char) :
    levenshtein (c :: s) u ≤ levenshtein (d :: s) u + 1 := by
  induction u with
  | nil => simp
  | cons e u ih =>
    rw [levenshtein_cons_cons, levenshtein_cons_cons]
    split <;> split <;> omega

/-- What holds of two texts holds of them behind one more character. -/
theorem levenshtein_cons_le_cons (h : ∀ u, levenshtein s u ≤ levenshtein t u + 1) (e : Char)
    (u : List Char) : levenshtein (e :: s) u ≤ levenshtein (e :: t) u + 1 := by
  induction u with
  | nil =>
    have hnil := h []
    simp only [levenshtein_nil_right, List.length_cons] at hnil ⊢
    omega
  | cons f u ih =>
    have hf := h (f :: u)
    have hu := h u
    rw [levenshtein_cons_cons, levenshtein_cons_cons]
    omega

theorem levenshtein_append_le (h : ∀ u, levenshtein s u ≤ levenshtein t u + 1)
    (a u : List Char) : levenshtein (a ++ s) u ≤ levenshtein (a ++ t) u + 1 := by
  induction a generalizing u with
  | nil => exact h u
  | cons e a ih => exact levenshtein_cons_le_cons ih e u

theorem Edit.levenshtein_le (h : Edit s t) (u : List Char) :
    levenshtein s u ≤ levenshtein t u + 1 := by
  cases h with
  | insert a c b => exact levenshtein_append_le (levenshtein_le_cons_left c b) a u
  | delete a c b => exact levenshtein_append_le (levenshtein_cons_left_le c b) a u
  | replace a c d b => exact levenshtein_append_le (levenshtein_replace_le c d b) a u

theorem levenshtein_self (s : List Char) : levenshtein s s = 0 := by
  induction s with
  | nil => rw [levenshtein_nil_left, List.length_nil]
  | cons c s ih =>
    rw [levenshtein_cons_cons, ih, if_pos rfl]
    omega

/-- Fewer edits than the distance says are not enough. -/
theorem Edits.levenshtein_le (h : Edits n s t) : levenshtein s t ≤ n := by
  induction h with
  | refl => exact Nat.le_of_eq (levenshtein_self _)
  | step h _ ih =>
    have hstep := h.levenshtein_le
    exact Nat.le_trans (hstep _) (Nat.succ_le_succ ih)

theorem isLeast_levenshtein (s t : List Char) : IsLeast {n | Edits n s t} (levenshtein s t) :=
  ⟨edits_levenshtein s t, fun _ h => Edits.levenshtein_le h⟩

theorem levenshtein_comm (s t : List Char) : levenshtein s t = levenshtein t s := by
  refine (isLeast_levenshtein s t).unique ?_
  exact ⟨(edits_levenshtein t s).symm, fun _ h => Edits.levenshtein_le h.symm⟩

theorem levenshtein_reverse (s t : List Char) :
    levenshtein s.reverse t.reverse = levenshtein s t := by
  refine IsLeast.unique (s := {n | Edits n s t}) ?_ (isLeast_levenshtein s t)
  simpa only [Edits.reverse_iff] using isLeast_levenshtein s.reverse t.reverse

/-! ## Rows -/

/-- The distances from `s` to the beginnings of a text, of which `t` is what is still to come and
`q` what was read before; both `s` and `q` have their last character first. -/
def rowFrom (s : List Char) : (q t : List Char) → List Nat
  | q, [] => [levenshtein s q]
  | q, d :: t => levenshtein s q :: rowFrom s (d :: q) t

theorem rowFrom_eq_cons (s q t : List Char) : ∃ row, rowFrom s q t = levenshtein s q :: row := by
  cases t with
  | nil => exact ⟨_, rfl⟩
  | cons d t => exact ⟨_, rfl⟩

theorem getLastD_rowFrom (s q t : List Char) (n : Nat) :
    (rowFrom s q t).getLastD n = levenshtein s (t.reverse ++ q) := by
  induction t generalizing q n with
  | nil => rfl
  | cons d t ih =>
    rw [rowFrom, List.getLastD_cons, ih, List.reverse_cons, List.append_assoc]
    rfl

/-- The distances from the empty text are the lengths. -/
theorem rowFrom_nil (q t : List Char) :
    rowFrom [] q t = List.range' q.length (t.length + 1) := by
  induction t generalizing q with
  | nil => simp [rowFrom]
  | cons d t ih =>
    rw [rowFrom, ih, levenshtein_nil_left, List.length_cons, List.length_cons]
    exact List.range'_succ.symm

/-- Each entry of a new row comes from the one to its left and two of the old row. -/
theorem extendRow_rowFrom (c : Char) (s q t : List Char) :
    levenshtein (c :: s) q :: extendRow c (levenshtein (c :: s) q) (rowFrom s q t) t =
      rowFrom (c :: s) q t := by
  induction t generalizing q with
  | nil => simp [rowFrom, extendRow]
  | cons d t ih =>
    obtain ⟨row, hrow⟩ := rowFrom_eq_cons s (d :: q) t
    have hih := ih (d :: q)
    rw [hrow] at hih
    rw [rowFrom, rowFrom, hrow, extendRow, ← levenshtein_cons_cons, hih]

theorem nextRow_rowFrom (c : Char) (s t : List Char) :
    nextRow t (rowFrom s [] t) c = rowFrom (c :: s) [] t := by
  obtain ⟨row, hrow⟩ := rowFrom_eq_cons s [] t
  have hfirst : (rowFrom s [] t).headD 0 + 1 = levenshtein (c :: s) [] := by
    rw [hrow, List.headD_cons, levenshtein_nil_right, levenshtein_nil_right, List.length_cons]
  rw [nextRow, hfirst, extendRow_rowFrom]

/-- What the row holds while the first text is gone through. -/
theorem foldl_nextRow (r s t : List Char) :
    r.foldl (nextRow t) (rowFrom s [] t) = rowFrom (r.reverse ++ s) [] t := by
  induction r generalizing s with
  | nil => rfl
  | cons c r ih =>
    rw [List.foldl_cons, nextRow_rowFrom, ih, List.reverse_cons, List.append_assoc]
    rfl

theorem distanceFrom_eq_levenshtein (s t : List Char) : distanceFrom s t = levenshtein s t := by
  unfold distanceFrom
  split
  · next hnil => rw [List.eq_nil_of_length_eq_zero hnil, levenshtein_nil_right]
  · have hstart : List.range (t.length + 1) = rowFrom [] [] t := by
      rw [rowFrom_nil, List.range_eq_range']
      rfl
    rw [hstart, foldl_nextRow, getLastD_rowFrom, List.append_nil, List.append_nil,
      levenshtein_reverse]

/-- Which text is gone through makes no difference, since the distance is the same from both
sides. -/
theorem distance_eq_levenshtein (s t : List Char) : distance s t = levenshtein s t := by
  unfold distance
  split
  · rw [distanceFrom_eq_levenshtein, levenshtein_comm]
  · exact distanceFrom_eq_levenshtein s t

/-- The computed distance is the least number of edits that turn one text into the other, whichever
of the two is longer and whichever comes first. -/
theorem isLeast_editDistance (s t : String) :
    IsLeast {n | Edits n s.toList t.toList} (editDistance s t) ∧
      editDistance t s = editDistance s t := by
  rw [editDistance, editDistance, distance_eq_levenshtein, distance_eq_levenshtein]
  exact ⟨isLeast_levenshtein _ _, levenshtein_comm _ _⟩

end BracketLang.Text
