import Mathlib.Data.List.TakeWhile

/-! # Loops over an index

`for i < len(l) && !p(l[i]) { i++ }` walks from a place in a list to the next item with a
property, or to the end. The place where it stops is told by `takeWhile`, and so are the slices
that scanners cut there.
-/

namespace Scan

variable {α : Type*} (p : α → Bool) (l : List α)

/-- The loop from index `i` on, for at most that many rounds. -/
def loop : (rounds i : Nat) → Nat
  | 0, i => i
  | rounds + 1, i =>
    match l[i]? with
    | none => i
    | some a => if p a then i else loop rounds (i + 1)

/-- The index at which the loop from `i` on stops. -/
def find (i : Nat) : Nat := loop p l (l.length - i) i

/-- The slice `l[i:j]`. -/
def slice (i j : Nat) : List α := (l.take j).drop i

variable {p l} {pre rest : List α}

/-- The items that are passed over. -/
theorem find_append (pre rest : List α) :
    find p (pre ++ rest) pre.length = pre.length + (rest.takeWhile fun a => !p a).length := by
  induction rest generalizing pre with
  | nil => simp [find, loop]
  | cons a rest ih =>
    have hrounds : (pre ++ a :: rest).length - pre.length = rest.length + 1 := by simp
    have hat : (pre ++ a :: rest)[pre.length]? = some a := by simp
    rw [find, hrounds, loop, hat]
    dsimp only
    cases ha : p a with
    | true => simp [ha]
    | false =>
      -- one item further on, the same list is split behind `a`
      have hnext := ih (pre ++ [a])
      have hlen : (pre ++ [a]).length = pre.length + 1 := by simp
      have hleft : (pre ++ a :: rest).length - (pre.length + 1) = rest.length := by
        simp only [List.length_append, List.length_cons]
        omega
      rw [find, List.append_assoc, List.singleton_append, hlen, hleft] at hnext
      rw [if_neg Bool.false_ne_true, hnext, List.takeWhile_cons_of_pos (by simp [ha]),
        List.length_cons]
      omega

theorem find_zero : find p l 0 = (l.takeWhile fun a => !p a).length := by
  have h := find_append (p := p) [] l
  rwa [List.nil_append, List.length_nil, Nat.zero_add] at h

theorem take_append_takeWhile (f : α → Bool) :
    (pre ++ rest).take (pre.length + (rest.takeWhile f).length) = pre ++ rest.takeWhile f := by
  rw [List.take_append, List.take_of_length_le (by omega), Nat.add_sub_cancel_left]
  congr 1
  exact (List.prefix_iff_eq_take.1 (List.takeWhile_prefix f)).symm

/-- What lies between the start of the loop and its end. -/
theorem slice_find (pre rest : List α) :
    slice (pre ++ rest) pre.length (find p (pre ++ rest) pre.length) =
      rest.takeWhile fun a => !p a := by
  rw [slice, find_append, take_append_takeWhile, List.drop_left]

end Scan
