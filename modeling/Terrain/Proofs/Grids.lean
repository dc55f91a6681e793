import Mathlib.Algebra.Order.Floor.Div
import Terrain.Proofs.Inlined

/-!
# Grids of workgroups

A dispatch covers the cells of a volume by workgroups, and what does not fit into one row spills
into more of them.  The number of cells is counted in words of 64 bits, in which the cube of a large
edge wraps around, so the check of a grid is about what is left of the number.  Where nothing was
lost, an accepted grid has a work item for every cell.  Rows are filled up with work items behind
the last cell, and their indices may wrap around in words of 32 bits, back to the first cells.

* `Dispatch.cells`            the number of cells, without a bound;
* `gridRows`, `Dispatchable`  the rows of a grid, and which numbers of cells have a grid;
* `toNat_invocations`         cells are counted up to multiples of `2 ^ 64`;
* `checkGrid_ok_iff`          the check is exact for the number that was counted;
* `checkGrid_exact`           so it is exact unless a number that wrapped around is accepted;
* `IndexExpr`                 the index that an entry point computes for a work item;
* `grid_covers`               every cell has a work item;
* `apart_iff`                 work items have indices of their own where none wraps around;
* `workItems_apart_iff`       which is told by the rows of a grid and the size of a workgroup.
-/

namespace Terrain

/-- a dispatch over two or three axes, reduced no more than is allowed -/
structure Dispatch.InRange (d : Dispatch) : Prop where
  dims : d.dims = .two ∨ d.dims = .three
  reduced : 0 ≤ d.reduction ∧ d.reduction ≤ maxReduction

/-- the number of cells of a volume: its edge at the reduction, at least one, to the power
of the axes -/
def Dispatch.cells (d : Dispatch) (size : UInt32) : Nat :=
  max (size.toNat >>> d.reduction.toNat) 1 ^ d.dims.count.toNat

def gridRows (n w : Nat) : Nat := (n ⌈/⌉ w) ⌈/⌉ min (n ⌈/⌉ w) 65535

/-- can `n` cells be covered by workgroups of `w` work items?  The index of a cell fits a word, and
the rows an axis. -/
def Dispatchable (n w : Nat) : Prop := n ≤ 2 ^ 32 - 1 ∧ gridRows n w ≤ 65535

instance (n w : Nat) : Decidable (Dispatchable n w) := inferInstanceAs (Decidable (_ ∧ _))

/-! ## counting -/

section
variable {d : Dispatch} {size : UInt32} {w : Int}

theorem toNat_reducedSize {r : Int} (low : 0 ≤ r) (high : r ≤ maxReduction) :
    (reducedSize size r).toNat = max (size.toNat >>> r.toNat) 1 := by
  have high : r ≤ 8 := high
  have shift : (size >>> r.toNat.toUInt32).toNat = size.toNat >>> r.toNat := by
    have small : r.toNat.toUInt32.toNat = r.toNat := UInt32.toNat_ofNat_of_lt' (by
      show r.toNat < 2 ^ 32
      omega)
    rw [UInt32.toNat_shiftRight, small, Nat.mod_eq_of_lt (by omega)]
  unfold reducedSize
  dsimp only
  rw [if_pos (And.intro low (by omega)), ← shift]
  split
  · next zero =>
    rw [zero]
    rfl
  · next positive =>
    have positive : (size >>> r.toNat.toUInt32).toNat ≠ 0 := fun zero =>
      positive (UInt32.toNat_inj.1 zero)
    omega

theorem cells_eq (range : d.InRange) : d.cells size = invocationCount d.dims size d.reduction := by
  unfold Dispatch.cells invocationCount
  rw [toNat_reducedSize range.reduced.1 range.reduced.2]
  rcases range.dims with dims | dims <;> rw [dims] <;> rfl

theorem toNat_invocations (d : Dispatch) (size : UInt32) :
    (d.invocations size).toNat = invocationCount d.dims size d.reduction % 2 ^ 64 := by
  unfold Dispatch.invocations invocationCount
  dsimp only
  split
  · rw [UInt64.toNat_mul, UInt32.toNat_toUInt64, Nat.pow_two]
  · have cube (n : Nat) : n ^ 3 = n * n * n := by rw [pow_succ, Nat.pow_two]
    rw [UInt64.toNat_mul, UInt64.toNat_mul, UInt32.toNat_toUInt64, Nat.mod_mul_mod, cube]

theorem cells_pos (d : Dispatch) (size : UInt32) : 0 < d.cells size :=
  Nat.pow_pos (zero_lt_one.trans_le (Nat.le_max_right _ _))

/-! ## workgroups -/

theorem lt_ceilDiv {a b k : Nat} (positive : 0 < b) : k < a ⌈/⌉ b ↔ b * k < a := by
  rw [← not_le, ceilDiv_le_iff_le_mul positive, not_le]

theorem toNat_workgroup (low : 1 ≤ w) (high : w ≤ 1024) : (UInt64.ofInt w).toNat = w.toNat := by
  have small : (w % 2 ^ 64).toNat < 2 ^ 64 := by omega
  show (UInt64.ofNat (w % 2 ^ 64).toNat).toNat = _
  rw [UInt64.toNat_ofNat_of_lt' small]
  omega

theorem workgroups_ok (low : 1 ≤ w) (high : w ≤ 1024)
    (small : (d.invocations size).toNat ≤ 2 ^ 32 - 1) :
    ∃ q : UInt64, d.workgroups size w = .ok q ∧
      q.toNat = (d.invocations size).toNat ⌈/⌉ w.toNat := by
  have width := toNat_workgroup low high
  refine ⟨_, if_neg fun zero => ?_, ?_⟩
  · rw [zero] at width
    have : (0 : UInt64).toNat = 0 := rfl
    omega
  · have one : (1 : UInt64).toNat = 1 := rfl
    rw [UInt64.toNat_div, UInt64.toNat_sub, UInt64.toNat_add, width, one,
      Nat.ceilDiv_eq_add_pred_div]
    congr 1
    omega

theorem gridOf_eq {n : UInt64} (positive : 0 < n.toNat) (small : n.toNat ≤ 2 ^ 32 - 1) :
    (Dispatch.gridOf n).x.toNat = min n.toNat 65535 ∧
      (Dispatch.gridOf n).y.toNat = n.toNat ⌈/⌉ min n.toNat 65535 ∧ (Dispatch.gridOf n).z = 1 := by
  have width : (min n maxWorkgroups).toNat = min n.toNat 65535 := UInt64.toNat_min n maxWorkgroups
  have some : min n maxWorkgroups ≠ 0 := fun zero => by
    rw [zero] at width
    have : (0 : UInt64).toNat = 0 := rfl
    omega
  unfold Dispatch.gridOf
  dsimp only
  rw [if_neg some]
  refine ⟨?_, ?_, rfl⟩
  · rw [UInt64.toNat_toUInt32, width]
    omega
  · have one : (1 : UInt64).toNat = 1 := rfl
    have most : (4294967295 : UInt64).toNat = 2 ^ 32 - 1 := rfl
    have rows : ((n + min n maxWorkgroups - 1) / min n maxWorkgroups).toNat =
        n.toNat ⌈/⌉ min n.toNat 65535 := by
      rw [UInt64.toNat_div, UInt64.toNat_sub, UInt64.toNat_add, width, one,
        Nat.ceilDiv_eq_add_pred_div]
      congr 1
      omega
    have few : n.toNat ⌈/⌉ min n.toNat 65535 ≤ n.toNat := by
      rw [ceilDiv_le_iff_le_mul (by omega)]
      exact Nat.le_mul_of_pos_left _ (by omega)
    rw [UInt64.toNat_toUInt32, UInt64.toNat_min, rows, most]
    omega

theorem gridOf_zero {n : UInt64} (zero : n.toNat = 0) : Dispatch.gridOf n = ⟨0, 0, 0⟩ := by
  obtain rfl : n = 0 := UInt64.toNat_inj.1 zero
  rfl

theorem toNat_rows {n : UInt64} {k : Nat} (groups : n.toNat = k ⌈/⌉ w.toNat) (low : 1 ≤ w)
    (small : k ≤ 2 ^ 32 - 1) : (Dispatch.gridOf n).y.toNat = gridRows k w.toNat := by
  unfold gridRows
  rw [← groups]
  have few : n.toNat ≤ 2 ^ 32 - 1 := by
    rw [groups, ceilDiv_le_iff_le_mul (by omega)]
    exact small.trans (Nat.le_mul_of_pos_left _ (by omega))
  rcases Nat.eq_zero_or_pos n.toNat with zero | positive
  · rw [gridOf_zero zero, zero]
    rfl
  · exact (gridOf_eq positive few).2.1

theorem checkGrid_ok_iff (low : 1 ≤ w) (high : w ≤ 1024) :
    d.checkGrid size w = .ok () ↔ Dispatchable (d.invocations size).toNat w.toNat := by
  unfold Dispatch.checkGrid Dispatchable
  dsimp only
  have most : (4294967295 : UInt64).toNat = 2 ^ 32 - 1 := rfl
  split
  · next large =>
    rw [UInt64.lt_iff_toNat_lt, most] at large
    constructor
    · intro h
      cases h
    · intro h
      omega
  · next notLarge =>
    rw [UInt64.lt_iff_toNat_lt, most] at notLarge
    have small : (d.invocations size).toNat ≤ 2 ^ 32 - 1 := by omega
    obtain ⟨q, made, groups⟩ := workgroups_ok low high small
    have grid : d.grid size w = .ok (Dispatch.gridOf q) := by
      unfold Dispatch.grid
      rw [made]
      rfl
    rw [grid, ← toNat_rows groups low small]
    dsimp only
    have bound : (65535 : UInt32).toNat = 65535 := rfl
    split
    · next many =>
      rw [UInt32.lt_iff_toNat_lt, bound] at many
      constructor
      · intro h
        cases h
      · intro h
        omega
    · next few =>
      rw [UInt32.lt_iff_toNat_lt, bound] at few
      exact ⟨fun _ => ⟨small, not_lt.1 few⟩, fun _ => rfl⟩

/-- **The check of a grid.**  A dispatch is accepted if and only if its number of cells, as far as a
word of 64 bits holds it, can be dispatched.  So the check is exact if and only if it does not
accept a number that has wrapped around. -/
theorem checkGrid_exact (range : d.InRange) (low : 1 ≤ w) (high : w ≤ 1024) (size : UInt32) :
    (d.checkGrid size w = .ok () ↔ Dispatchable (d.cells size % 2 ^ 64) w.toNat) ∧
      ((d.checkGrid size w = .ok () ↔ Dispatchable (d.cells size) w.toNat) ↔
        ¬ (2 ^ 64 ≤ d.cells size ∧ Dispatchable (d.cells size % 2 ^ 64) w.toNat)) := by
  have counted : d.checkGrid size w = .ok () ↔ Dispatchable (d.cells size % 2 ^ 64) w.toNat := by
    rw [checkGrid_ok_iff low high, toNat_invocations, cells_eq range]
  refine ⟨counted, ?_⟩
  rw [counted]
  by_cases wraps : 2 ^ 64 ≤ d.cells size
  · have large : ¬ Dispatchable (d.cells size) w.toNat := fun h => by
      have := h.1
      omega
    constructor
    · intro same both
      exact large (same.1 both.2)
    · intro refused
      exact ⟨fun h => absurd ⟨wraps, h⟩ refused, fun h => absurd h large⟩
  · rw [Nat.mod_eq_of_lt (Nat.not_le.1 wraps)]
    exact ⟨fun _ both => wraps both.1, fun _ => Iff.rfl⟩

end

def wholeVolume : Dispatch := ⟨mainDispatch, 0, .three, 0, none, none⟩

theorem inRange_wholeVolume : wholeVolume.InRange := ⟨.inr rfl, by decide⟩

/-- a volume of edge 1625 has one of the last grids, and 1626 has none -/
theorem checkGrid_exact_edge :
    (wholeVolume.checkGrid 1625 64 = .ok () ↔ Dispatchable (wholeVolume.cells 1625) 64) ∧
      (wholeVolume.checkGrid 1626 64 = .ok () ↔ Dispatchable (wholeVolume.cells 1626) 64) ∧
        Dispatchable (wholeVolume.cells 1625) 64 ∧ ¬ Dispatchable (wholeVolume.cells 1626) 64 := by
  refine ⟨?_, ?_, by decide, by decide⟩
  · exact (checkGrid_exact inRange_wholeVolume (by decide) (by decide) 1625).2.2 (by decide)
  · exact (checkGrid_exact inRange_wholeVolume (by decide) (by decide) 1626).2.2 (by decide)

/-- the cells of a volume of edge `2 ^ 22` are counted as none, and the check accepts them -/
theorem checkGrid_wraps :
    wholeVolume.checkGrid 4194304 64 = .ok () ∧ wholeVolume.cells 4194304 = 2 ^ 66 ∧
      ¬ Dispatchable (wholeVolume.cells 4194304) 64 := by
  decide

/-! ## work items -/

namespace Compile

/-- an index over what an entry point is given: the place of a work item and the number
of workgroups -/
inductive IndexExpr where
  | column
  | row
  | groups
  | literal (n : Int)
  | add (a b : IndexExpr)
  | mul (a b : IndexExpr)
deriving DecidableEq, Repr

namespace IndexExpr

def text : IndexExpr → String
  | column => "gid.x"
  | row => "gid.y"
  | groups => "groups.x"
  | literal n => toString n ++ "u"
  | add a b => a.text ++ " + " ++ b.text
  | mul a b => a.text ++ " * " ++ b.text

/-- the value for a work item, in words that wrap around -/
def eval (x y width : UInt32) : IndexExpr → UInt32
  | column => x
  | row => y
  | groups => width
  | literal n => UInt32.ofInt n
  | add a b => a.eval x y width + b.eval x y width
  | mul a b => a.eval x y width * b.eval x y width

end IndexExpr

/-- row and column of a work item as one index; a product binds more than a sum, and both
to the left -/
def entryIndex (w : Int) : IndexExpr := .add .column (.mul (.mul .row .groups) (.literal w))

theorem entryPoint_index (w : Int) (d : Entry) (function : String) :
    Part ("\tlet index = " ++ (entryIndex w).text ++ ";\n") (Module.entryPoint w d function) := by
  have line : "\tlet index = gid.x + gid.y * groups.x * " ++ toString w ++ "u;\n" =
      "\tlet index = " ++ (entryIndex w).text ++ ";\n" := by
    have head : "\tlet index = gid.x + gid.y * groups.x * " =
        "\tlet index = " ++ ("gid.x" ++ " + " ++ ("gid.y" ++ " * " ++ "groups.x" ++ " * ")) := by
      decide
    have tail : "u;\n" = "u" ++ ";\n" := by decide
    rw [head, tail]
    simp only [entryIndex, IndexExpr.text, String.append_assoc]
  rw [← line]
  unfold Module.entryPoint
  iterate 9 apply Part.left
  exact ⟨_, "", String.append_empty.symm⟩

end Compile

section
variable {d : Dispatch} {size : UInt32} {w : Int}

theorem grid_eq (range : d.InRange) (low : 1 ≤ w) (high : w ≤ 1024)
    (small : d.cells size ≤ 2 ^ 32 - 1) :
    ∃ g, d.grid size w = .ok g ∧ g.x.toNat = min (d.cells size ⌈/⌉ w.toNat) 65535 ∧
      g.y.toNat = gridRows (d.cells size) w.toNat ∧ g.z = 1 := by
  have counted : (d.invocations size).toNat = d.cells size := by
    rw [toNat_invocations, ← cells_eq range]
    omega
  obtain ⟨q, made, groups⟩ := workgroups_ok low high (counted ▸ small)
  rw [counted] at groups
  have positive : 0 < q.toNat := by
    rw [groups, lt_ceilDiv (by omega)]
    exact cells_pos d size
  have few : q.toNat ≤ 2 ^ 32 - 1 := by
    rw [groups, ceilDiv_le_iff_le_mul (by omega)]
    exact small.trans (Nat.le_mul_of_pos_left _ (by omega))
  obtain ⟨columns, rows, flat⟩ := gridOf_eq positive few
  rw [groups] at columns rows
  refine ⟨Dispatch.gridOf q, ?_, columns, rows, flat⟩
  unfold Dispatch.grid
  rw [made]
  rfl

/-- a number is the index of the work item at its remainder and quotient by the width of a row -/
theorem eval_entryIndex {i x : Nat} (low : 1 ≤ w) (high : w ≤ 1024) :
    (Compile.entryIndex w).eval (.ofNat (i % (x * w.toNat))) (.ofNat (i / (x * w.toNat)))
      (.ofNat x) = .ofNat i := by
  have width : UInt32.ofInt w = .ofNat w.toNat := by
    show UInt32.ofNat (w % 2 ^ 32).toNat = _
    congr 1
    omega
  show UInt32.ofNat (i % (x * w.toNat)) + UInt32.ofNat (i / (x * w.toNat)) * UInt32.ofNat x *
    UInt32.ofInt w = UInt32.ofNat i
  rw [width, ← UInt32.ofNat_mul, ← UInt32.ofNat_mul, ← UInt32.ofNat_add,
    mul_assoc, Nat.mod_add_div']

/-- **Every cell has a work item.**  An entry point computes `entryIndex` in words.  A dispatch that
is accepted, and whose cells a word can number, has a grid of rows within the bounds of an axis, of
which the last one is needed; and every cell is the index of a work item of that grid. -/
theorem grid_covers (range : d.InRange) (low : 1 ≤ w) (high : w ≤ 1024)
    (small : d.cells size ≤ 2 ^ 32 - 1) (accepted : d.checkGrid size w = .ok ()) :
    (∀ entry function, Compile.Part ("\tlet index = " ++ (Compile.entryIndex w).text ++ ";\n")
      (Compile.Module.entryPoint w entry function)) ∧
    ∃ x y : UInt32, d.grid size w = .ok ⟨x, y, 1⟩ ∧
      (1 ≤ x.toNat ∧ x.toNat ≤ 65535) ∧ (1 ≤ y.toNat ∧ y.toNat ≤ 65535) ∧
      x.toNat * (y.toNat - 1) * w.toNat < d.cells size ∧
      ∀ i < d.cells size, ∃ column row : UInt32, column.toNat < x.toNat * w.toNat ∧
        row.toNat < y.toNat ∧ ((Compile.entryIndex w).eval column row x).toNat = i := by
  refine ⟨Compile.entryPoint_index w, ?_⟩
  have positive : 0 < w.toNat := by omega
  have counted : (d.invocations size).toNat = d.cells size := by
    rw [toNat_invocations, ← cells_eq range]
    omega
  obtain ⟨⟨x, y, z⟩, made, columns, rows, flat⟩ := grid_eq range low high small
  dsimp only at columns rows flat
  obtain rfl : z = 1 := flat
  have fits : y.toNat ≤ 65535 := by
    have dispatchable := (checkGrid_ok_iff low high).1 accepted
    rw [counted] at dispatchable
    rw [rows]
    exact dispatchable.2
  have groups : 0 < d.cells size ⌈/⌉ w.toNat := by
    rw [lt_ceilDiv positive]
    exact cells_pos d size
  have wide : 0 < x.toNat := by omega
  unfold gridRows at rows
  rw [← columns] at rows
  have tall : 0 < y.toNat := by
    rw [rows, lt_ceilDiv wide]
    exact groups
  refine ⟨x, y, made, ⟨wide, by omega⟩, ⟨tall, fits⟩, ?_, ?_⟩
  · -- one row less would leave a workgroup, and with it a cell, without a place
    have needed : y.toNat - 1 < (d.cells size ⌈/⌉ w.toNat) ⌈/⌉ x.toNat := by omega
    rw [lt_ceilDiv wide, lt_ceilDiv positive] at needed
    rwa [Nat.mul_comm]
  · intro i inside
    have items : 0 < x.toNat * w.toNat := Nat.mul_pos wide positive
    have enough : d.cells size ≤ x.toNat * w.toNat * y.toNat := by
      have : d.cells size ≤ w.toNat * (x.toNat * y.toNat) := by
        rw [← ceilDiv_le_iff_le_mul positive, ← ceilDiv_le_iff_le_mul wide, rows]
      rwa [← Nat.mul_assoc, Nat.mul_comm w.toNat] at this
    have row : i / (x.toNat * w.toNat) < y.toNat :=
      Nat.div_lt_of_lt_mul (Nat.lt_of_lt_of_le inside enough)
    have column := Nat.mod_lt i items
    have word : i < 2 ^ 32 := by omega
    have index := eval_entryIndex (i := i) (x := x.toNat) low high
    rw [UInt32.ofNat_toNat] at index
    refine ⟨.ofNat (i % (x.toNat * w.toNat)), .ofNat (i / (x.toNat * w.toNat)), ?_, ?_, ?_⟩
    · rwa [UInt32.toNat_ofNat_of_lt' (Nat.lt_of_le_of_lt (Nat.mod_le _ _) word)]
    · rwa [UInt32.toNat_ofNat_of_lt' (Nat.lt_of_le_of_lt (Nat.div_le_self _ _) word)]
    · rw [index, UInt32.toNat_ofNat_of_lt' word]

end

/-- at edge 1625 and 128 work items a workgroup, the last cell is in the last of 512 rows -/
theorem grid_covers_spilled :
    wholeVolume.checkGrid 1625 128 = .ok () ∧ wholeVolume.grid 1625 128 = .ok ⟨65535, 512, 1⟩ ∧
      wholeVolume.cells 1625 = 4291015625 ∧
      ∃ x y : UInt32, wholeVolume.grid 1625 128 = .ok ⟨x, y, 1⟩ ∧
        x.toNat * (y.toNat - 1) * 128 < wholeVolume.cells 1625 ∧
        ∃ column row : UInt32, column.toNat < x.toNat * 128 ∧ row.toNat < y.toNat ∧
          ((Compile.entryIndex 128).eval column row x).toNat = 4291015624 := by
  have accepted : wholeVolume.checkGrid 1625 128 = .ok () := by decide
  refine ⟨accepted, by decide, by decide, ?_⟩
  obtain ⟨-, x, y, made, -, -, needed, items⟩ :=
    grid_covers inRange_wholeVolume (by decide) (by decide) (by decide) accepted
  exact ⟨x, y, made, needed, items 4291015624 (by decide)⟩

/-! ## indices that wrap around -/

/-- the index of every work item of a grid fits a word, computed without a bound -/
def Grid.FitsWords (g : Grid) (w : Int) : Prop :=
  ∀ column row : Nat, column < g.x.toNat * w.toNat → row < g.y.toNat →
    column + row * (g.x.toNat * w.toNat) < 2 ^ 32

/-- no two work items of a grid compute the index of one cell -/
def Grid.Apart (g : Grid) (w : Int) (cells : Nat) : Prop :=
  ∀ column row column' row' : UInt32,
    column.toNat < g.x.toNat * w.toNat → row.toNat < g.y.toNat →
    column'.toNat < g.x.toNat * w.toNat → row'.toNat < g.y.toNat →
    ((Compile.entryIndex w).eval column row g.x).toNat < cells →
    (Compile.entryIndex w).eval column row g.x = (Compile.entryIndex w).eval column' row' g.x →
    column = column' ∧ row = row'

section
variable {g : Grid} {w : Int}

theorem fitsWords_iff (items : 0 < g.x.toNat * w.toNat) (rows : 0 < g.y.toNat) :
    g.FitsWords w ↔ g.x.toNat * w.toNat * g.y.toNat ≤ 2 ^ 32 := by
  unfold Grid.FitsWords
  generalize g.x.toNat * w.toNat = width at *
  obtain ⟨last, count⟩ : ∃ last, g.y.toNat = last + 1 := ⟨g.y.toNat - 1, by omega⟩
  have whole : width * g.y.toNat = last * width + width := by rw [count, Nat.mul_succ, mul_comm]
  constructor
  · intro fits
    have := fits (width - 1) last (by omega) (by omega)
    omega
  · intro few column row inside below
    have : row * width ≤ last * width := Nat.mul_le_mul_right _ (by omega)
    omega

theorem toNat_entryIndex (low : 1 ≤ w) (high : w ≤ 1024) (column row x : UInt32) :
    ((Compile.entryIndex w).eval column row x).toNat =
      (column.toNat + row.toNat * (x.toNat * w.toNat)) % 2 ^ 32 := by
  have small : (w % 2 ^ 32).toNat < 2 ^ 32 := by omega
  have width : (UInt32.ofInt w).toNat = w.toNat := by
    show (UInt32.ofNat (w % 2 ^ 32).toNat).toNat = _
    rw [UInt32.toNat_ofNat_of_lt' small]
    omega
  show (column + row * x * UInt32.ofInt w).toNat = _
  rw [UInt32.toNat_add, UInt32.toNat_mul, UInt32.toNat_mul, width, Nat.mod_mul_mod, Nat.add_mod_mod,
    mul_assoc]

theorem apart_iff (low : 1 ≤ w) (high : w ≤ 1024) {cells : Nat} (some : 0 < cells)
    (wide : 0 < g.x.toNat) (narrow : g.x.toNat ≤ 65535) (rows : 0 < g.y.toNat) :
    g.Apart w cells ↔ g.x.toNat * w.toNat * g.y.toNat ≤ 2 ^ 32 := by
  have items : 0 < g.x.toNat * w.toNat := Nat.mul_pos wide (by omega)
  have short : g.x.toNat * w.toNat ≤ 65535 * 1024 := Nat.mul_le_mul narrow (by omega)
  constructor
  · intro apart
    by_contra many
    have column := Nat.mod_lt (2 ^ 32) items
    have row : 2 ^ 32 / (g.x.toNat * w.toNat) < g.y.toNat := Nat.div_lt_of_lt_mul (not_le.1 many)
    have left : (UInt32.ofNat (2 ^ 32 % (g.x.toNat * w.toNat))).toNat =
        2 ^ 32 % (g.x.toNat * w.toNat) := UInt32.toNat_ofNat_of_lt' (show _ < 2 ^ 32 by omega)
    have right : (UInt32.ofNat (2 ^ 32 / (g.x.toNat * w.toNat))).toNat =
        2 ^ 32 / (g.x.toNat * w.toNat) := UInt32.toNat_ofNat_of_lt' (row.trans g.y.toNat_lt)
    have wraps := eval_entryIndex (i := 2 ^ 32) (x := g.x.toNat) low high
    have first := eval_entryIndex (i := 0) (x := g.x.toNat) low high
    rw [UInt32.ofNat_toNat] at wraps first
    rw [Nat.zero_mod, Nat.zero_div] at first
    have zero : (UInt32.ofNat (2 ^ 32)) = UInt32.ofNat 0 := by decide
    obtain ⟨same, same'⟩ := apart (.ofNat (2 ^ 32 % (g.x.toNat * w.toNat)))
      (.ofNat (2 ^ 32 / (g.x.toNat * w.toNat))) (.ofNat 0) (.ofNat 0)
      (by rwa [left]) (by rwa [right])
      items rows (by rw [wraps, zero]; exact some) (by rw [wraps, first, zero])
    -- the two work items are not the same, since the number is not zero
    have same := left.symm.trans (congrArg UInt32.toNat same)
    have same' := right.symm.trans (congrArg UInt32.toNat same')
    have whole := Nat.div_add_mod (2 ^ 32) (g.x.toNat * w.toNat)
    rw [same, same', show (UInt32.ofNat 0).toNat = 0 from rfl] at whole
    omega
  · intro few column row column' row' inside below inside' below' _ same
    have fits := (fitsWords_iff items rows).2 few
    have index := congrArg UInt32.toNat same
    rw [toNat_entryIndex low high, toNat_entryIndex low high,
      Nat.mod_eq_of_lt (fits _ _ inside below), Nat.mod_eq_of_lt (fits _ _ inside' below')] at index
    refine ⟨UInt32.toNat_inj.1 ?_, UInt32.toNat_inj.1 ?_⟩
    · have remainder := congrArg (· % (g.x.toNat * w.toNat)) index
      rwa [Nat.add_mul_mod_self_right, Nat.add_mul_mod_self_right, Nat.mod_eq_of_lt inside,
        Nat.mod_eq_of_lt inside'] at remainder
    · have quotient := congrArg (· / (g.x.toNat * w.toNat)) index
      rwa [Nat.add_mul_div_right _ _ items, Nat.add_mul_div_right _ _ items,
        Nat.div_eq_of_lt inside, Nat.div_eq_of_lt inside', zero_add, zero_add] at quotient

theorem ceilDiv_self {n : Nat} (some : 0 < n) : n ⌈/⌉ n = 1 := by
  rw [Nat.ceilDiv_eq_add_pred_div]
  exact Nat.div_eq_of_lt_le (by omega) (by omega)

/-- rows of 65535 workgroups fit a word if and only if so many work items stand below each other -/
theorem items_le_iff {groups width : Nat} (some : 0 < groups) (high : width ≤ 1024) :
    min groups 65535 * width * (groups ⌈/⌉ min groups 65535) ≤ 2 ^ 32 ↔
      groups ⌈/⌉ min groups 65535 * width ≤ 65537 := by
  rcases Nat.le_total groups 65535 with few | many
  · have one := ceilDiv_self some
    have : groups * width ≤ 65535 * 1024 := Nat.mul_le_mul few high
    rw [Nat.min_eq_left few, one]
    omega
  · rw [Nat.min_eq_right many, mul_assoc, mul_comm width]
    omega

end

section
variable {d : Dispatch} {size : UInt32} {w : Int}

theorem cells_le (range : d.InRange) (small : d.cells size ≤ 2 ^ 32 - 1) :
    d.cells size ≤ 65535 * 65535 := by
  unfold Dispatch.cells at small ⊢
  generalize max (size.toNat >>> d.reduction.toNat) 1 = edge at *
  rcases range.dims with dims | dims <;> rw [dims] at small ⊢
  · have square : edge * edge ≤ 2 ^ 32 - 1 := by rwa [← Nat.pow_two]
    have : edge ≤ 65535 := by
      by_contra large
      have : 65536 * 65536 ≤ edge * edge := Nat.mul_le_mul (by omega) (by omega)
      omega
    show edge ^ 2 ≤ _
    rw [Nat.pow_two]
    exact Nat.mul_le_mul this this
  · have cube (n : Nat) : n ^ 3 = n * n * n := by rw [pow_succ, Nat.pow_two]
    have small : edge ^ 3 ≤ 2 ^ 32 - 1 := small
    show edge ^ 3 ≤ _
    rw [cube] at small ⊢
    have : edge ≤ 1625 := by
      by_contra large
      have : 1626 * 1626 * 1626 ≤ edge * edge * edge :=
        Nat.mul_le_mul (Nat.mul_le_mul (by omega) (by omega)) (by omega)
      omega
    exact Nat.le_trans (Nat.mul_le_mul (Nat.mul_le_mul this this) this) (by decide)

theorem gridRows_mul_le {n width : Nat} (some : 0 < width) (high : width ≤ 1024)
    (small : n ≤ 65535 * 65535) (divides : width ∣ 65535 ∨ width ∣ 65536) :
    gridRows n width * width ≤ 65537 := by
  unfold gridRows
  rcases Nat.le_total (n ⌈/⌉ width) 65535 with few | many
  · rw [Nat.min_eq_left few]
    have : (n ⌈/⌉ width) ⌈/⌉ (n ⌈/⌉ width) ≤ 1 := by
      rcases Nat.eq_zero_or_pos (n ⌈/⌉ width) with zero | positive
      · rw [zero]
        decide
      · exact (ceilDiv_self positive).le
    have := Nat.mul_le_mul_right width this
    omega
  · rw [Nat.min_eq_right many]
    obtain ⟨total, least, most, rows, whole⟩ : ∃ total, 65535 ≤ total ∧ total ≤ 65536 ∧
        ∃ rows, total = width * rows := by
      rcases divides with ⟨rows, whole⟩ | ⟨rows, whole⟩
      · exact ⟨65535, by omega, by omega, rows, whole⟩
      · exact ⟨65536, by omega, by omega, rows, whole⟩
    have enough : (n ⌈/⌉ width) ⌈/⌉ 65535 ≤ rows := by
      rw [ceilDiv_le_iff_le_mul (by decide), ceilDiv_le_iff_le_mul some, Nat.mul_left_comm, ← whole]
      exact small.trans (Nat.mul_le_mul_left _ least)
    have := Nat.mul_le_mul_right width enough
    rw [mul_comm rows, ← whole] at this
    omega

/-- **Indices that wrap around.**  An entry point computes `entryIndex` in words, also for the work
items behind the last cell.  The indices of a grid fit a word, and no two work items compute one
cell, if and only if its rows times the size of a workgroup are at most 65537; which is so for every
volume where that size divides 65535 or 65536, as all powers of two do. -/
theorem workItems_apart_iff (range : d.InRange) (low : 1 ≤ w) (high : w ≤ 1024)
    (small : d.cells size ≤ 2 ^ 32 - 1) :
    (∀ entry function, Compile.Part ("\tlet index = " ++ (Compile.entryIndex w).text ++ ";\n")
      (Compile.Module.entryPoint w entry function)) ∧
    ∃ g, d.grid size w = .ok g ∧
      (g.FitsWords w ↔ gridRows (d.cells size) w.toNat * w.toNat ≤ 65537) ∧
      (g.Apart w (d.cells size) ↔ gridRows (d.cells size) w.toNat * w.toNat ≤ 65537) ∧
      (w.toNat ∣ 65535 ∨ w.toNat ∣ 65536 → g.FitsWords w ∧ g.Apart w (d.cells size)) := by
  refine ⟨Compile.entryPoint_index w, ?_⟩
  have positive : 0 < w.toNat := by omega
  obtain ⟨g, made, columns, rows, -⟩ := grid_eq range low high small
  have groups : 0 < d.cells size ⌈/⌉ w.toNat := by
    rw [lt_ceilDiv positive]
    exact cells_pos d size
  have wide : 0 < g.x.toNat := by omega
  have tall : 0 < g.y.toNat := by
    rw [rows, gridRows, ← columns, lt_ceilDiv wide]
    exact groups
  have bound : g.x.toNat * w.toNat * g.y.toNat ≤ 2 ^ 32 ↔
      gridRows (d.cells size) w.toNat * w.toNat ≤ 65537 := by
    rw [rows, columns]
    exact items_le_iff groups (by omega)
  have fits := (fitsWords_iff (Nat.mul_pos wide positive) tall).trans bound
  have apart := (apart_iff low high (cells_pos d size) wide (by omega) tall).trans bound
  refine ⟨g, made, fits, apart, fun divides => ?_⟩
  have few := gridRows_mul_le positive (by omega) (cells_le range small) divides
  exact ⟨fits.2 few, apart.2 few⟩

end

/-- at edge 1625 and 64 work items a workgroup no index wraps around -/
theorem workItems_apart_iff_usual :
    wholeVolume.checkGrid 1625 64 = .ok () ∧ wholeVolume.cells 1625 ≤ 2 ^ 32 - 1 ∧
      ∃ g, wholeVolume.grid 1625 64 = .ok g ∧ g.FitsWords 64 ∧
        g.Apart 64 (wholeVolume.cells 1625) := by
  refine ⟨by decide, by decide, ?_⟩
  have small : wholeVolume.cells 1625 ≤ 2 ^ 32 - 1 := by decide
  obtain ⟨-, g, made, -, -, both⟩ :=
    workItems_apart_iff (w := 64) inRange_wholeVolume (by decide) (by decide) small
  exact ⟨g, made, both (.inr (by decide))⟩

/-- with 1000 work items a workgroup the same volume is accepted, and a work item of its last row
computes the index of the first cell -/
theorem workItems_meet :
    wholeVolume.checkGrid 1625 1000 = .ok () ∧ wholeVolume.cells 1625 ≤ 2 ^ 32 - 1 ∧
      wholeVolume.grid 1625 1000 = .ok ⟨65535, 66, 1⟩ ∧
      35192296 < 65535 * 1000 ∧ 65 < 66 ∧ 35192296 + 65 * 65535 * 1000 = 2 ^ 32 ∧
      (Compile.entryIndex 1000).eval 35192296 65 65535 = (Compile.entryIndex 1000).eval 0 0 65535 ∧
      ((Compile.entryIndex 1000).eval 0 0 65535).toNat < wholeVolume.cells 1625 := by
  decide

end Terrain
