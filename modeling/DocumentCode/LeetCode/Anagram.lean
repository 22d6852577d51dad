import DocumentCode.LeetCode.Letters
import DocumentCode.ForLoop
import Mathlib.Data.List.Perm.Basic

/-!
# Is one string a permutation of another?

`DocumentCode.isAnagram` goes through two strings of the same length with one
counter for each letter: those of the first string count up, those of the second
down. After `i` rounds a counter is the difference of the numbers of times its
letter occurs in the first `i` characters of the two
(`DocumentCode.isAnagram.diff`), so at the end all counters are zero exactly when
every letter occurs equally often in both.

The strings are over `'a'` to `'z'`, for which the table of 26 counters is made,
and a string is shorter than 2147483648, so a counter does not overflow.
-/

namespace DocumentCode

open Prog

/-! ### The program -/

namespace isAnagram

/-- The body of the loop that counts. -/
def count (s t : CStr) (i : ℤ) : C (List ℤ) Unit := do
  bump (← int ((← arrayAt s.chars i) - ch 'a')) 1
  bump (← int ((← arrayAt t.chars i) - ch 'a')) (-1)

/-- The body of the loop that looks for a letter that occurs more often in one of
the strings. -/
def check (i : ℤ) : C (List ℤ) (Unit ⊕ Bool) := do
  if (← load i) ≠ 0 then
    return .inr false
  else
    return .inl ()

end isAnagram

/-- The table `c` is the state. -/
def isAnagram (s t : CStr) : C (List ℤ) Bool := do
  Prog.set (List.replicate 26 0)
  let sLen := toInt s.strlen
  let tLen := toInt t.strlen
  if sLen ≠ tLen then
    return false
  else
    forAll 0 sLen 1 (fun i _ => isAnagram.count s t i) ()
    match ← forLoop 0 26 1 (fun i _ => isAnagram.check i) () with
    | .inl () => return true
    | .inr r => return r

/-! ### The table -/

namespace isAnagram

/-- How much more often the `k`-th letter occurs in `l` than in `r`. -/
def diff (l r : List ℤ) (k : ℕ) : ℤ := (l.count (letter k) : ℤ) - r.count (letter k)

section Table

variable {l r : List ℤ} {c : ℤ} {k : ℕ}

/-- A further letter of the first string. -/
theorem diff_concat_left :
    diff (l ++ [letter k]) r = Function.update (diff l r) k (diff l r k + 1) := by
  funext j
  rw [diff, count_concat_letter]
  rcases eq_or_ne j k with rfl | hne
  · rw [Function.update_self, if_pos rfl, diff]
    omega
  · rw [Function.update_of_ne hne, if_neg hne, diff]
    omega

/-- A further letter of the second string. -/
theorem diff_concat_right :
    diff l (r ++ [letter k]) = Function.update (diff l r) k (diff l r k + -1) := by
  funext j
  rw [diff, count_concat_letter]
  rcases eq_or_ne j k with rfl | hne
  · rw [Function.update_self, if_pos rfl, diff]
    omega
  · rw [Function.update_of_ne hne, if_neg hne, diff]
    omega

/-- A counter stays within the lengths of the strings. -/
theorem diff_bounds : -(r.length : ℤ) ≤ diff l r k ∧ diff l r k ≤ l.length := by
  have hl : l.count (letter k) ≤ l.length := List.count_le_length
  have hr : r.count (letter k) ≤ r.length := List.count_le_length
  rw [diff]
  omega

/-- **All counters are zero exactly when the strings are permutations of each
other.** -/
theorem diff_eq_zero_iff (hl : Letters l) (hr : Letters r) :
    (∀ k < 26, diff l r k = 0) ↔ l.Perm r := by
  rw [List.perm_iff_count]
  constructor
  · intro h c
    by_cases hc : c ∈ l ∨ c ∈ r
    · obtain ⟨k, hk, rfl⟩ : ∃ k < 26, c = letter k :=
        hc.elim (exists_letter hl) (exists_letter hr)
      have hk0 := h k hk
      rw [diff] at hk0
      omega
    · obtain ⟨hcl, hcr⟩ := not_or.mp hc
      rw [List.count_eq_zero.mpr hcl, List.count_eq_zero.mpr hcr]
  · intro h k _
    rw [diff, h (letter k), sub_self]

end Table

/-! ### The loops -/

section Loops

variable {s t : CStr}

/-- A round of the first loop. -/
theorem count_returns {i : ℕ} (hs : Letters s.chars) (ht : Letters t.chars)
    (his : i < s.chars.length) (hit : i < t.chars.length) (hlen : s.chars.length < 2 ^ 31) :
    (count s t i).Returns (table 26 (diff (s.chars.take i) (t.chars.take i))) ()
      (table 26 (diff (s.chars.take (i + 1)) (t.chars.take (i + 1)))) := by
  obtain ⟨a, ha, hsa⟩ := exists_getElem?_eq_letter hs his
  obtain ⟨b, hb, htb⟩ := exists_getElem?_eq_letter ht hit
  have hsl : (s.chars.take i).length ≤ i := List.length_take_le _ _
  have htl : (t.chars.take i).length ≤ i := List.length_take_le _ _
  rw [count, letter_subscript hsa ha]
  refine .bind (bump_table ha ?_) ?_
  · have hd := diff_bounds (l := s.chars.take i) (r := t.chars.take i) (k := a)
    exact ⟨by omega, by omega⟩
  · rw [← diff_concat_left, ← take_add_one_of_eq_letter hsa, take_add_one_of_eq_letter htb,
      diff_concat_right, letter_subscript htb hb]
    refine bump_table hb ?_
    have hd := diff_bounds (l := s.chars.take (i + 1)) (r := t.chars.take i) (k := b)
    have hsl' : (s.chars.take (i + 1)).length ≤ i + 1 := List.length_take_le _ _
    exact ⟨by omega, by omega⟩

/-- **The first loop fills the table.** -/
theorem count_loop_returns (hs : Letters s.chars) (ht : Letters t.chars)
    (heq : s.chars.length = t.chars.length) (hlen : s.chars.length < 2 ^ 31) :
    (forAll 0 s.chars.length 1 (fun i _ => count s t i) ()).Returns (table 26 (diff [] [])) ()
      (table 26 (diff s.chars t.chars)) := by
  refine (forAll_range_ensures
    (I := fun i _ c => c = table 26 (diff (s.chars.take i) (t.chars.take i))) hlen ?_ ?_).returns ?_
  · rintro i ⟨⟩ _ hi rfl
    exact (count_returns hs ht hi (heq ▸ hi) hlen).ensures rfl
  · rw [List.take_zero, List.take_zero]
  · rintro ⟨⟩ _ rfl
    rw [List.take_length, heq, List.take_length]
    exact ⟨rfl, rfl⟩

/-- **The second loop looks for a counter that is not zero.** -/
theorem check_loop_searches (f : ℕ → ℤ) :
    Searches (forLoop 0 26 1 (fun i _ => check i) ()) (table 26 f) false (∃ k < 26, f k ≠ 0) := by
  have hsize : 26 < 2 ^ 31 := by decide
  exact forLoop_range_searches hsize fun k hk => (load_table hk).bind_searches searches_test

end Loops

end isAnagram

/-- **`isAnagram` decides whether one string is a permutation of the other**, and
no subscript is out of range. -/
theorem isAnagram_returns {s t : CStr} (hs : Letters s.chars) (ht : Letters t.chars)
    (hls : s.strlen < 2 ^ 31) (hlt : t.strlen < 2 ^ 31) (c : List ℤ) :
    ∃ b c', (isAnagram s t).Returns c b c' ∧
      (∀ k e, (isAnagram s t).run k c ≠ some (.error e)) ∧
      (b = true ↔ s.chars.Perm t.chars) := by
  have hinit : List.replicate 26 (0 : ℤ) = table 26 (isAnagram.diff [] []) := rfl
  have hs31 : toInt s.strlen = s.strlen := toInt_of_lt hls
  have ht31 : toInt t.strlen = t.strlen := toInt_of_lt hlt
  by_cases heq : s.chars.length = t.chars.length
  · have hlen : (s.strlen : ℤ) = t.strlen := congrArg Nat.cast heq
    have hcall (b : Bool) (hb : b = true ↔ s.chars.Perm t.chars) :
        (isAnagram s t).Returns c b (table 26 (isAnagram.diff s.chars t.chars)) := by
      refine .bind (Returns.set c _) ?_
      rw [hs31, ht31, if_neg (not_not.mpr hlen), hinit]
      refine .bind (isAnagram.count_loop_returns hs ht heq hls) ?_
      have hcheck := isAnagram.check_loop_searches (isAnagram.diff s.chars t.chars)
      rw [← isAnagram.diff_eq_zero_iff hs ht] at hb
      cases b with
      | false =>
        have hne : ∃ k < 26, isAnagram.diff s.chars t.chars k ≠ 0 := by
          by_contra h
          push Not at h
          exact Bool.false_ne_true (hb.mpr h)
        exact .bind (hcheck.1 hne) (Returns.pure _ _)
      | true =>
        have hall := hb.mp rfl
        exact .bind (hcheck.2 fun ⟨k, hk, h⟩ => h (hall k hk)) (Returns.pure _ _)
    have hret := hcall _ decide_eq_true_iff
    exact ⟨_, _, hret, hret.not_faults, decide_eq_true_iff⟩
  · have hlen : (s.strlen : ℤ) ≠ t.strlen := fun h => heq (Nat.cast_injective h)
    have hret : (isAnagram s t).Returns c false (List.replicate 26 0) := by
      refine .bind (Returns.set c _) ?_
      rw [hs31, ht31, if_pos hlen]
      exact Returns.pure _ _
    exact ⟨_, _, hret, hret.not_faults, iff_of_false Bool.false_ne_true fun h => heq h.length_eq⟩

/-- "tea" and "eat" -/
theorem isAnagram_returns_tea :
    ∃ c', (isAnagram (.lit [116, 101, 97]) (.lit [101, 97, 116])).Returns [] true c' := by
  let s : CStr := .lit [116, 101, 97]
  let t : CStr := .lit [101, 97, 116]
  have hs : Letters s.chars := by decide
  have ht : Letters t.chars := by decide
  have hls : s.strlen < 2 ^ 31 := by decide
  have hlt : t.strlen < 2 ^ 31 := by decide
  obtain ⟨b, c', hret, -, hb⟩ := isAnagram_returns hs ht hls hlt []
  obtain rfl : b = true := hb.mpr (by decide)
  exact ⟨c', hret⟩

end DocumentCode
