import DocumentCode.CArray
import DocumentCode.CString
import DocumentCode.ForLoop
import Mathlib.Data.Set.Function

/-!
# Is a Sudoku board valid?

`DocumentCode.isValidSudoku` looks for a character other than a dot that stands
in two cells of one row, one column or one of the blocks of three by three. It
has a nest of loops for each of the three, and the innermost two loops of each go
through the pairs `j < k` of places in a row, a column or a block
(`DocumentCode.isValidSudoku.forPairs`).

The relation looked for is symmetric and the places are different cells, so the
pairs `j < k` are all that is needed: such a search is one for two different
cells (`DocumentCode.isValidSudoku.exists_pair_iff`). What is left is to say which
cells the places are, and for a block that is the pair of the quotient and the
remainder of the place by three, moved to its corner
(`DocumentCode.isValidSudoku.block_eq`).
-/

namespace DocumentCode

open Prog

namespace isValidSudoku

variable {σ : Type}

/-! ### The program -/

/-- `board[i][j]` -/
def cell (board : List (List ℤ)) (i j : ℤ) : C σ ℤ := do arrayAt (← arrayAt board i) j

/-- `for (int j = 0; j < m; j++) for (int k = j + 1; k < n; k++)` -/
def forPairs (m n : ℤ) (body : ℤ → ℤ → C σ (Unit ⊕ Bool)) : C σ (Unit ⊕ Bool) :=
  forLoop 0 m 1 (fun j _ => do forLoop (← int (j + 1)) n 1 (fun k _ => body j k) ()) ()

/-- `if (x != '.' && x == y) return false;` -/
def clash (x y : C σ ℤ) : C σ (Unit ⊕ Bool) := do
  if (← x) ≠ ch '.' then
    if (← x) = (← y) then
      return .inr false
    else
      return .inl ()
  else
    return .inl ()

/-- `if (x == y && x != '.') return false;` -/
def blockClash (x y : C σ ℤ) : C σ (Unit ⊕ Bool) := do
  if (← x) = (← y) then
    if (← x) ≠ ch '.' then
      return .inr false
    else
      return .inl ()
  else
    return .inl ()

/-- The loops over the rows. -/
def rows (board : List (List ℤ)) (boardSize boardColSize : ℤ) : C σ (Unit ⊕ Bool) :=
  forLoop 0 boardSize 1 (fun i _ => forPairs boardColSize boardColSize fun j k =>
    clash (cell board i j) (cell board i k)) ()

/-- The loops over the columns. -/
def columns (board : List (List ℤ)) (boardSize boardColSize : ℤ) : C σ (Unit ⊕ Bool) :=
  forLoop 0 boardSize 1 (fun i _ => forPairs boardColSize boardColSize fun j k =>
    clash (cell board j i) (cell board k i)) ()

/-- `board[k / 3 + i][k % 3 + j]` -/
def blockCell (board : List (List ℤ)) (i j k : ℤ) : C σ ℤ := do
  cell board (← int (k.tdiv 3 + i)) (← int (k.tmod 3 + j))

/-- The loops over the blocks. -/
def blocks (board : List (List ℤ)) (boardSize boardColSize : ℤ) : C σ (Unit ⊕ Bool) :=
  forLoop 0 boardSize 3 (fun i _ => forLoop 0 boardColSize 3 (fun j _ =>
    forPairs (3 * 3 - 1) (3 * 3) fun k l =>
      blockClash (blockCell board i j k) (blockCell board i j l)) ()) ()

end isValidSudoku

open isValidSudoku in
/-- `boardColSize` is what the pointer of this name points to. -/
def isValidSudoku {σ : Type} (board : List (List ℤ)) (boardSize boardColSize : ℤ) : C σ Bool := do
  match ← rows board boardSize boardColSize with
  | .inr r => return r
  | .inl () =>
    match ← columns board boardSize boardColSize with
    | .inr r => return r
    | .inl () =>
      match ← blocks board boardSize boardColSize with
      | .inr r => return r
      | .inl () => return true

namespace isValidSudoku

/-! ### Valid boards -/

/-- The board has `n` rows of `n` cells. -/
def Square (board : List (List ℤ)) (n : ℕ) : Prop :=
  board.length = n ∧ ∀ row ∈ board, row.length = n

/-- The character in a cell. -/
def entry (board : List (List ℤ)) (p : ℕ × ℕ) : ℤ := ((board[p.1]?.getD [])[p.2]?).getD 0

/-- Two cells have the same character, and it is not a dot. -/
def Same (board : List (List ℤ)) (p q : ℕ × ℕ) : Prop :=
  entry board p ≠ ch '.' ∧ entry board p = entry board q

/-- **Some character other than a dot stands in two of the cells.** -/
def Repeats (board : List (List ℤ)) (cells : Set (ℕ × ℕ)) : Prop :=
  ∃ p ∈ cells, ∃ q ∈ cells, p ≠ q ∧ Same board p q

/-- The `i`-th row of a board with `n` rows. -/
def row (n i : ℕ) : Set (ℕ × ℕ) := {p | p.1 = i ∧ p.2 < n}

/-- The `j`-th column. -/
def column (n j : ℕ) : Set (ℕ × ℕ) := {p | p.2 = j ∧ p.1 < n}

/-- The block of three by three that is the `a`-th from above and the `b`-th from
the left. -/
def block (a b : ℕ) : Set (ℕ × ℕ) := {p | p.1 / 3 = a ∧ p.2 / 3 = b}

/-- **A valid board** with `m` blocks on each side. -/
structure Valid (board : List (List ℤ)) (m : ℕ) : Prop where
  row : ∀ i < 3 * m, ¬Repeats board (row (3 * m) i)
  column : ∀ j < 3 * m, ¬Repeats board (column (3 * m) j)
  block : ∀ a < m, ∀ b < m, ¬Repeats board (block a b)

section Cells

variable {board : List (List ℤ)} {n i j k : ℕ} {ι : Type} {R : ι → ι → Prop} {f : ℕ → ι}

theorem Same.symm {p q : ℕ × ℕ} (h : Same board p q) : Same board q p :=
  ⟨h.2 ▸ h.1, h.2.symm⟩

theorem cell_eq (hb : Square board n) (hi : i < n) (hj : j < n) :
    (cell board i j : C σ ℤ) = pure (entry board (i, j)) := by
  have hi' : i < board.length := by rwa [hb.1]
  have hj' : j < board[i].length := by rwa [hb.2 _ (List.getElem_mem hi')]
  rw [cell, arrayAt_of_lt hi', pure_bind, arrayAt_of_lt hj', entry,
    List.getElem?_eq_getElem hi', Option.getD_some, List.getElem?_eq_getElem hj',
    Option.getD_some]

/-- **The pairs `j < k` are enough**, for a symmetric relation between different
things. -/
theorem exists_pair_iff (hR : ∀ p q, R p q → R q p) (hf : Set.InjOn f (Set.Iio n)) :
    (∃ j < n, ∃ k < n, j < k ∧ R (f j) (f k)) ↔
      ∃ p ∈ f '' Set.Iio n, ∃ q ∈ f '' Set.Iio n, p ≠ q ∧ R p q := by
  constructor
  · rintro ⟨j, hj, k, hk, hlt, h⟩
    refine ⟨f j, ⟨j, hj, rfl⟩, f k, ⟨k, hk, rfl⟩, fun heq => ?_, h⟩
    exact absurd (hf hj hk heq) (by omega)
  · rintro ⟨_, ⟨j, hj, rfl⟩, _, ⟨k, hk, rfl⟩, hne, h⟩
    rcases lt_trichotomy j k with hlt | rfl | hlt
    · exact ⟨j, hj, k, hk, hlt, h⟩
    · exact absurd rfl hne
    · exact ⟨k, hk, j, hj, hlt, hR _ _ h⟩

theorem row_eq : row n i = (fun k => (i, k)) '' Set.Iio n := by
  ext ⟨a, b⟩
  simp [row, and_comm, eq_comm]

theorem column_eq : column n j = (fun k => (k, j)) '' Set.Iio n := by
  ext ⟨a, b⟩
  simp [column, and_comm, eq_comm]

/-- The `k`-th cell of a block, row by row. -/
def blockPlace (a b k : ℕ) : ℕ × ℕ := (k / 3 + 3 * a, k % 3 + 3 * b)

theorem block_eq (a b : ℕ) : block a b = blockPlace a b '' Set.Iio 9 := by
  ext ⟨x, y⟩
  constructor
  · rintro ⟨rfl, rfl⟩
    refine ⟨3 * (x % 3) + y % 3, ?_, ?_⟩
    · rw [Set.mem_Iio]
      omega
    · rw [blockPlace, Prod.mk.injEq]
      omega
  · rintro ⟨k, hk, heq⟩
    rw [Set.mem_Iio] at hk
    rw [blockPlace, Prod.mk.injEq] at heq
    constructor
    · change x / 3 = a
      omega
    · change y / 3 = b
      omega

theorem blockPlace_injective (a b : ℕ) : Function.Injective (blockPlace a b) := by
  intro j k h
  rw [blockPlace, blockPlace, Prod.mk.injEq] at h
  omega

end Cells

/-! ### The loops -/

section Loops

variable {board : List (List ℤ)} {m n N : ℕ} {s : σ}

/-- **The loops over the pairs of places**, the first of which may leave out the
last place. -/
theorem forPairs_searches {body : ℤ → ℤ → C σ (Unit ⊕ Bool)} {P : ℕ → ℕ → Prop} (hmn : m ≤ n)
    (hnm : n ≤ m + 1) (hn : n < 2 ^ 31)
    (hbody : ∀ j k, j < k → k < n → Searches (body j k) s false (P j k)) :
    Searches (forPairs m n body) s false (∃ j < n, ∃ k < n, j < k ∧ P j k) := by
  have hloop : Searches (forPairs m n body) s false
      (∃ j < m, ∃ d < n - (j + 1), P j (j + 1 + d)) := by
    refine forLoop_range_searches (by omega) fun j hj => ?_
    rw [int_succ (by omega), pure_bind]
    refine forLoop_searches (by omega) one_pos ⟨by omega, by omega⟩ ⟨by omega, by omega⟩ ?_
    intro d hd
    have hidx : ((j + 1 : ℕ) : ℤ) + 1 * d = (j + 1 + d : ℕ) := by push_cast; ring
    rw [hidx]
    exact hbody j (j + 1 + d) (by omega) (by omega)
  refine hloop.congr ⟨?_, ?_⟩
  · rintro ⟨j, hj, d, hd, h⟩
    exact ⟨j, by omega, j + 1 + d, by omega, by omega, h⟩
  · rintro ⟨j, hj, k, hk, hlt, h⟩
    refine ⟨j, by omega, k - (j + 1), by omega, ?_⟩
    rwa [Nat.add_sub_cancel' hlt]

theorem clash_searches {x y : ℤ} :
    Searches (clash (pure x) (pure y) : C σ (Unit ⊕ Bool)) s false (x ≠ ch '.' ∧ x = y) := by
  rw [clash, pure_bind, pure_bind, pure_bind]
  exact searches_test.guard

theorem blockClash_searches {x y : ℤ} :
    Searches (blockClash (pure x) (pure y) : C σ (Unit ⊕ Bool)) s false (x ≠ ch '.' ∧ x = y) := by
  rw [blockClash, pure_bind, pure_bind, pure_bind]
  exact searches_test.guard.congr and_comm

/-- **The loops over the rows.** -/
theorem rows_searches (hb : Square board n) (hn : n < 2 ^ 31) :
    Searches (rows board n n : C σ (Unit ⊕ Bool)) s false (∃ i < n, Repeats board (row n i)) := by
  refine forLoop_range_searches hn fun i hi => ?_
  refine (forPairs_searches (P := fun j k => Same board (i, j) (i, k)) le_rfl (by omega) hn
    ?_).congr ?_
  · intro j k hjk hk
    rw [cell_eq hb hi (hjk.trans hk), cell_eq hb hi hk]
    exact clash_searches
  · rw [Repeats, row_eq, ← exists_pair_iff fun _ _ => Same.symm]
    exact fun _ _ _ _ h => (Prod.mk.inj h).2

/-- **The loops over the columns.** -/
theorem columns_searches (hb : Square board n) (hn : n < 2 ^ 31) :
    Searches (columns board n n : C σ (Unit ⊕ Bool)) s false
      (∃ j < n, Repeats board (column n j)) := by
  refine forLoop_range_searches hn fun i hi => ?_
  refine (forPairs_searches (P := fun j k => Same board (j, i) (k, i)) le_rfl (by omega) hn
    ?_).congr ?_
  · intro j k hjk hk
    rw [cell_eq hb (hjk.trans hk) hi, cell_eq hb hk hi]
    exact clash_searches
  · rw [Repeats, column_eq, ← exists_pair_iff fun _ _ => Same.symm]
    exact fun _ _ _ _ h => (Prod.mk.inj h).1

theorem blockCell_eq {a b k : ℕ} (hb : Square board (3 * m)) (hm : 3 * m < 2 ^ 31) (ha : a < m)
    (hbm : b < m) (hk : k < 9) :
    (blockCell board (3 * a : ℕ) (3 * b : ℕ) k : C σ ℤ) =
      pure (entry board (blockPlace a b k)) := by
  have hdiv : (int ((k : ℤ).tdiv 3 + (3 * a : ℕ)) : C σ ℤ) = pure ((k / 3 + 3 * a : ℕ) : ℤ) := by
    rw [Int.tdiv_eq_ediv_of_nonneg (Int.natCast_nonneg k)]
    exact int_of_nonneg (by omega) (by omega)
  have hmod : (int ((k : ℤ).tmod 3 + (3 * b : ℕ)) : C σ ℤ) = pure ((k % 3 + 3 * b : ℕ) : ℤ) := by
    rw [Int.tmod_eq_emod_of_nonneg (Int.natCast_nonneg k)]
    exact int_of_nonneg (by omega) (by omega)
  rw [blockCell, hdiv, hmod, pure_bind, pure_bind]
  exact cell_eq hb (by omega) (by omega)

/-- **The loops over the blocks.** -/
theorem blocks_searches (hb : Square board (3 * m)) (hm : 3 * m < 2 ^ 31) :
    Searches (blocks board (3 * m : ℕ) (3 * m : ℕ) : C σ (Unit ⊕ Bool)) s false
      (∃ a < m, ∃ b < m, Repeats board (block a b)) := by
  refine forLoop_searches (by omega) (by decide) (by decide) ⟨by omega, by omega⟩ ?_
  intro a ha
  refine forLoop_searches (by omega) (by decide) (by decide) ⟨by omega, by omega⟩ ?_
  intro b hbm
  have hcorner (c : ℕ) : (0 : ℤ) + 3 * c = (3 * c : ℕ) := by push_cast; ring
  rw [hcorner, hcorner]
  have hpairs : Searches (forPairs (8 : ℕ) (9 : ℕ) fun k l =>
      blockClash (blockCell board (3 * a : ℕ) (3 * b : ℕ) k)
        (blockCell board (3 * a : ℕ) (3 * b : ℕ) l)) s false
      (∃ k < 9, ∃ l < 9, k < l ∧ Same board (blockPlace a b k) (blockPlace a b l)) := by
    refine forPairs_searches (by decide) (by decide) (by decide) ?_
    intro k l hkl hl
    rw [blockCell_eq hb hm ha hbm (hkl.trans hl), blockCell_eq hb hm ha hbm hl]
    exact blockClash_searches
  refine Searches.congr hpairs ?_
  rw [Repeats, block_eq, ← exists_pair_iff fun _ _ => Same.symm]
  exact (blockPlace_injective a b).injOn

end Loops

end isValidSudoku

section Correctness

open isValidSudoku

variable {σ : Type} {board : List (List ℤ)} {m : ℕ}

/-- **`isValidSudoku` decides whether a board is valid**, and reads no cell that is
not on it. -/
theorem isValidSudoku_returns (hb : Square board (3 * m)) (hm : 3 * m < 2 ^ 31) (s : σ) :
    ∃ b, (isValidSudoku board (3 * m : ℕ) (3 * m : ℕ)).Returns s b s ∧
      (∀ k e, (isValidSudoku board (3 * m : ℕ) (3 * m : ℕ)).run k s ≠ some (.error e)) ∧
      (b = true ↔ Valid board m) := by
  suffices hrun : ∃ b, (isValidSudoku board (3 * m : ℕ) (3 * m : ℕ)).Returns s b s ∧
      (b = true ↔ Valid board m) by
    obtain ⟨b, hret, hb⟩ := hrun
    exact ⟨b, hret, hret.not_faults, hb⟩
  have hrows := rows_searches (s := s) hb hm
  have hcolumns := columns_searches (s := s) hb hm
  have hblocks := blocks_searches (s := s) hb hm
  by_cases hr : ∃ i < 3 * m, Repeats board (row (3 * m) i)
  · refine ⟨false, .bind (hrows.1 hr) (Returns.pure _ _), ?_⟩
    obtain ⟨i, hi, h⟩ := hr
    exact iff_of_false Bool.false_ne_true fun hv => hv.row i hi h
  · by_cases hc : ∃ j < 3 * m, Repeats board (column (3 * m) j)
    · refine ⟨false, .bind (hrows.2 hr) (.bind (hcolumns.1 hc) (Returns.pure _ _)), ?_⟩
      obtain ⟨j, hj, h⟩ := hc
      exact iff_of_false Bool.false_ne_true fun hv => hv.column j hj h
    · by_cases hk : ∃ a < m, ∃ b < m, Repeats board (block a b)
      · refine ⟨false, .bind (hrows.2 hr) (.bind (hcolumns.2 hc) (.bind (hblocks.1 hk)
          (Returns.pure _ _))), ?_⟩
        obtain ⟨a, ha, b, hbm, h⟩ := hk
        exact iff_of_false Bool.false_ne_true fun hv => hv.block a ha b hbm h
      · refine ⟨true, .bind (hrows.2 hr) (.bind (hcolumns.2 hc) (.bind (hblocks.2 hk)
          (Returns.pure _ _))), iff_of_true rfl ⟨?_, ?_, ?_⟩⟩
        · exact fun i hi h => hr ⟨i, hi, h⟩
        · exact fun j hj h => hc ⟨j, hj, h⟩
        · exact fun a ha b hbm h => hk ⟨a, ha, b, hbm, h⟩

end Correctness

/-- A board of three by three with the same digit twice in its first row. -/
theorem isValidSudoku_returns_three :
    (isValidSudoku [[53, 46, 53], [46, 46, 46], [46, 46, 46]] 3 3 : C Unit Bool).Returns ()
      false () := by
  have hb : isValidSudoku.Square [[53, 46, 53], [46, 46, 46], [46, 46, 46]] (3 * 1) :=
    ⟨rfl, by decide⟩
  obtain ⟨b, hret, -, hb⟩ := isValidSudoku_returns hb (by decide) ()
  have hrow : isValidSudoku.Repeats [[53, 46, 53], [46, 46, 46], [46, 46, 46]]
      (isValidSudoku.row (3 * 1) 0) :=
    ⟨(0, 0), ⟨rfl, by decide⟩, (0, 2), ⟨rfl, by decide⟩, by decide, by decide, rfl⟩
  obtain rfl : b = false := Bool.eq_false_iff.mpr fun h => (hb.mp h).row 0 (by decide) hrow
  exact hret

end DocumentCode
