/-
Program instances of a grid of blocks taken in groups of rows: within a group
down the rows first, then to the next column.
-/
import SelfDistillation.Library.KernelLaunch

namespace GridSwizzle

open Finset

/-- How many rows there are in a group of `group` rows, the last of which may be
cut short. -/
def groupSize (group rows groupId : ℕ) : ℕ :=
  min (rows - groupId * group) group

/-- The block of the instance `pid`. -/
def swizzle (group rows columns pid : ℕ) : ℕ × ℕ :=
  let numPidInGroup := group * columns
  let groupId := pid / numPidInGroup
  let size := groupSize group rows groupId
  (groupId * group + pid % numPidInGroup % size, pid % numPidInGroup / size)

/-- The instance of a block. -/
def instanceOf (group rows columns : ℕ) (block : ℕ × ℕ) : ℕ :=
  let groupId := block.1 / group
  groupId * (group * columns) +
    (block.2 * groupSize group rows groupId + block.1 % group)

variable {group rows columns : ℕ} (hgroup : 0 < group)

section Groups

variable {groupId : ℕ}

theorem groupSize_le : groupSize group rows groupId ≤ group := min_le_right _ _

/-- The rows of a group are rows of the grid. -/
theorem add_lt_rows {r : ℕ} (hr : r < groupSize group rows groupId) :
    groupId * group + r < rows := by
  have hle : groupSize group rows groupId ≤ rows - groupId * group :=
    min_le_left _ _
  omega

/-- The blocks of a group are blocks of the grid. -/
theorem groupSize_mul_le : groupSize group rows groupId * columns ≤
    rows * columns - groupId * (group * columns) := by
  rw [← Nat.mul_assoc, ← Nat.sub_mul]
  exact Nat.mul_le_mul_right _ (min_le_left _ _)

include hgroup

theorem mod_lt_groupSize {m : ℕ} (hm : m < rows) :
    m % group < groupSize group rows (m / group) := by
  have hdiv := Nat.div_add_mod' m group
  exact lt_min (by omega) (Nat.mod_lt m hgroup)

/-- The instances of a group are as many as it has blocks. -/
theorem mod_lt_groupSize_mul {pid : ℕ} (hpid : pid < rows * columns) :
    pid % (group * columns) <
      groupSize group rows (pid / (group * columns)) * columns := by
  have hcolumns : 0 < columns :=
    Nat.pos_of_mul_pos_left (Nat.zero_lt_of_lt hpid)
  have hdiv := Nat.div_add_mod' pid (group * columns)
  rw [groupSize, ← Nat.mul_min_mul_right, Nat.sub_mul, Nat.mul_assoc]
  exact lt_min (by omega) (Nat.mod_lt _ (Nat.mul_pos hgroup hcolumns))

end Groups

section Inverse

include hgroup

/-- Every instance has a block of the grid. -/
theorem swizzle_mem {pid : ℕ} (hpid : pid < rows * columns) :
    swizzle group rows columns pid ∈ range rows ×ˢ range columns := by
  have hrest := mod_lt_groupSize_mul hgroup hpid
  have hsize : 0 < groupSize group rows (pid / (group * columns)) :=
    Nat.pos_of_mul_pos_right (Nat.zero_lt_of_lt hrest)
  rw [mem_product, mem_range, mem_range]
  exact ⟨add_lt_rows (Nat.mod_lt _ hsize), Nat.div_lt_of_lt_mul hrest⟩

/-- The place of a block in its group. -/
theorem cell_lt {block : ℕ × ℕ}
    (hblock : block ∈ range rows ×ˢ range columns) :
    block.2 * groupSize group rows (block.1 / group) + block.1 % group <
      groupSize group rows (block.1 / group) * columns := by
  rw [mem_product, mem_range, mem_range] at hblock
  calc _ < block.2 * groupSize group rows (block.1 / group) +
        groupSize group rows (block.1 / group) :=
        Nat.add_lt_add_left (mod_lt_groupSize hgroup hblock.1) _
    _ = groupSize group rows (block.1 / group) * (block.2 + 1) := by ring
    _ ≤ _ := Nat.mul_le_mul_left _ hblock.2

theorem instanceOf_lt {block : ℕ × ℕ}
    (hblock : block ∈ range rows ×ˢ range columns) :
    instanceOf group rows columns block < rows * columns := by
  have hcell := cell_lt hgroup hblock
  have hle : groupSize group rows (block.1 / group) * columns ≤ _ :=
    groupSize_mul_le
  rw [instanceOf]
  omega

theorem swizzle_instanceOf {block : ℕ × ℕ}
    (hblock : block ∈ range rows ×ˢ range columns) :
    swizzle group rows columns (instanceOf group rows columns block) =
      block := by
  have hcell := cell_lt hgroup hblock
  rw [mem_product, mem_range, mem_range] at hblock
  have hmod := mod_lt_groupSize hgroup hblock.1
  have hlt : block.2 * groupSize group rows (block.1 / group) +
      block.1 % group < group * columns :=
    hcell.trans_le (Nat.mul_le_mul_right _ groupSize_le)
  have hcolumns : 0 < columns := Nat.zero_lt_of_lt hblock.2
  have hdiv : instanceOf group rows columns block / (group * columns) =
      block.1 / group := by
    rw [instanceOf, Nat.mul_comm, Nat.mul_add_div (Nat.mul_pos hgroup hcolumns),
      Nat.div_eq_of_lt hlt, Nat.add_zero]
  have hrest : instanceOf group rows columns block % (group * columns) =
      block.2 * groupSize group rows (block.1 / group) + block.1 % group := by
    rw [instanceOf, Nat.mul_comm, Nat.mul_add_mod, Nat.mod_eq_of_lt hlt]
  simp only [swizzle, hdiv, hrest]
  have hsize : 0 < groupSize group rows (block.1 / group) :=
    Nat.zero_lt_of_lt hmod
  rw [Nat.mul_comm block.2, Nat.mul_add_mod, Nat.mod_eq_of_lt hmod,
    Nat.mul_add_div hsize, Nat.div_eq_of_lt hmod, Nat.div_add_mod']
  rfl

theorem instanceOf_swizzle {pid : ℕ} (hpid : pid < rows * columns) :
    instanceOf group rows columns (swizzle group rows columns pid) = pid := by
  have hrest := mod_lt_groupSize_mul hgroup hpid
  have hsize : 0 < groupSize group rows (pid / (group * columns)) :=
    Nat.pos_of_mul_pos_right (Nat.zero_lt_of_lt hrest)
  have hmod : pid % (group * columns) %
      groupSize group rows (pid / (group * columns)) < group :=
    (Nat.mod_lt _ hsize).trans_le groupSize_le
  have hdiv : (pid / (group * columns) * group + pid % (group * columns) %
      groupSize group rows (pid / (group * columns))) / group =
        pid / (group * columns) := by
    rw [Nat.mul_comm, Nat.mul_add_div hgroup, Nat.div_eq_of_lt hmod,
      Nat.add_zero]
  have hrow : (pid / (group * columns) * group + pid % (group * columns) %
      groupSize group rows (pid / (group * columns))) % group =
        pid % (group * columns) %
          groupSize group rows (pid / (group * columns)) := by
    rw [Nat.mul_comm, Nat.mul_add_mod, Nat.mod_eq_of_lt hmod]
  simp only [instanceOf, swizzle, hdiv, hrow]
  rw [Nat.div_add_mod', Nat.div_add_mod']

/-- The instances taken by their blocks. -/
theorem sum_swizzle {β : Type*} [AddCommMonoid β] (f : ℕ → ℕ → β) :
    ∑ pid ∈ range (rows * columns),
        f (swizzle group rows columns pid).1
          (swizzle group rows columns pid).2 =
      ∑ m ∈ range rows, ∑ n ∈ range columns, f m n := by
  rw [← sum_product']
  exact sum_nbij' (swizzle group rows columns) (instanceOf group rows columns)
    (fun pid hpid => swizzle_mem hgroup (mem_range.mp hpid))
    (fun block hblock => mem_range.mpr (instanceOf_lt hgroup hblock))
    (fun pid hpid => instanceOf_swizzle hgroup (mem_range.mp hpid))
    (fun block hblock => swizzle_instanceOf hgroup hblock) fun _ _ => rfl

end Inverse

end GridSwizzle
