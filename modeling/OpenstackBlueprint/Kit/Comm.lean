import Mathlib

/-!
# Comparing sorted files

`comm` walks two sorted files in step and sorts their lines into three columns.
For sorted files the first column is the multiset difference, and the third one
the intersection (`count_comm`).
-/

namespace OpenstackBlueprint.Kit

/-- The columns of `comm`: lines of the first file only, of the second only, of both. -/
structure Columns (α : Type*) where
  left : List α
  right : List α
  both : List α

namespace Columns

variable {α : Type*}

/-- A line of the first file only. -/
def onlyLeft (x : α) (c : Columns α) : Columns α := { c with left := x :: c.left }

/-- A line of the second file only. -/
def onlyRight (y : α) (c : Columns α) : Columns α := { c with right := y :: c.right }

/-- A line of both files. -/
def inBoth (x : α) (c : Columns α) : Columns α := { c with both := x :: c.both }

end Columns

variable {α : Type*} [LinearOrder α]

/-- `comm`. -/
def comm : List α → List α → Columns α
  | [], b => ⟨[], b, []⟩
  | a, [] => ⟨a, [], []⟩
  | x :: a, y :: b =>
    if x < y then (comm a (y :: b)).onlyLeft x
    else if y < x then (comm (x :: a) b).onlyRight y
    else (comm a b).inBoth x
  termination_by a b => a.length + b.length

variable {a b : List α}

/-- A line below the first of a sorted file is not in it. -/
theorem not_mem_of_lt_head {x y : α} (hb : (y :: b).Pairwise (· ≤ ·)) (h : x < y) : x ∉ y :: b := by
  intro hx
  rcases List.mem_cons.mp hx with rfl | hx
  · exact lt_irrefl x h
  · exact not_le_of_gt h (List.rel_of_pairwise_cons hb hx)

theorem count_comm (ha : a.Pairwise (· ≤ ·)) (hb : b.Pairwise (· ≤ ·)) (z : α) :
    (comm a b).left.count z = a.count z - b.count z ∧
      (comm a b).both.count z = min (a.count z) (b.count z) := by
  fun_induction comm a b with
  | case1 b => simp
  | case2 a => simp
  | case3 x a y b h ih =>
    -- `x` is in the first file only
    obtain ⟨hleft, hboth⟩ := ih ha.of_cons hb
    have hx := List.count_eq_zero_of_not_mem (not_mem_of_lt_head hb h)
    unfold Columns.onlyLeft
    rw [List.count_cons, List.count_cons, hleft, hboth]
    by_cases hz : x = z
    · subst hz
      rw [hx]
      simp
    · simp [hz]
  | case4 x a y b h h' ih =>
    -- `y` is in the second file only
    obtain ⟨hleft, hboth⟩ := ih ha hb.of_cons
    have hy := List.count_eq_zero_of_not_mem (not_mem_of_lt_head ha h')
    unfold Columns.onlyRight
    rw [List.count_cons (a := z) (b := y), hleft, hboth]
    by_cases hz : y = z
    · subst hz
      rw [hy]
      simp
    · simp [hz]
  | case5 x a y b h h' ih =>
    obtain rfl : x = y := le_antisymm (not_lt.mp h') (not_lt.mp h)
    obtain ⟨hleft, hboth⟩ := ih ha.of_cons hb.of_cons
    unfold Columns.inBoth
    rw [List.count_cons, List.count_cons, List.count_cons, hleft, hboth]
    omega

/-- A line the second file lacks. -/
theorem mem_left_of_not_mem (ha : a.Pairwise (· ≤ ·)) (hb : b.Pairwise (· ≤ ·)) {z : α}
    (hz : z ∈ a) (hz' : z ∉ b) : z ∈ (comm a b).left := by
  rw [← List.count_pos_iff, (count_comm ha hb z).1, List.count_eq_zero_of_not_mem hz']
  exact List.count_pos_iff.mpr hz

theorem mem_of_mem_left (ha : a.Pairwise (· ≤ ·)) (hb : b.Pairwise (· ≤ ·)) {z : α}
    (hz : z ∈ (comm a b).left) : z ∈ a := by
  rw [← List.count_pos_iff, (count_comm ha hb z).1] at hz
  exact List.count_pos_iff.mp (by omega)

theorem mem_both_iff (ha : a.Pairwise (· ≤ ·)) (hb : b.Pairwise (· ≤ ·)) {z : α} :
    z ∈ (comm a b).both ↔ z ∈ a ∧ z ∈ b := by
  rw [← List.count_pos_iff, (count_comm ha hb z).2, lt_min_iff, List.count_pos_iff,
    List.count_pos_iff]

end OpenstackBlueprint.Kit
