import DocumentCode.LeetCode.Letters
import DocumentCode.ForLoop

/-!
# The first character that occurs once

`DocumentCode.firstUniqChar` goes through a string twice. The first time it counts
the letters, and after `i` rounds a counter has the number of times its letter
occurs in the first `i` characters (`DocumentCode.firstUniqChar.tally`). The second
time it looks up the counter of each character, which by then is the number of times
it occurs in the whole string, and answers the index of the first one that has come
to 1.

The strings are over `'a'` to `'z'`, for which the table of 26 counters is made. The
length is asked for in every round of both loops and is a `size_t`.
-/

namespace DocumentCode

open Prog

/-! ### The program -/

namespace firstUniqChar

/-- The body of the loop that counts. -/
def count (s : CStr) (i : ℤ) : C (List ℤ) Unit := do
  bump (← int ((← arrayAt s.chars i) - ch 'a')) 1

/-- The body of the loop that looks for a letter that was counted once. -/
def check (s : CStr) (i : ℤ) : C (List ℤ) (Unit ⊕ ℤ) := do
  if (← load (← int ((← arrayAt s.chars i) - ch 'a'))) = 1 then
    return .inr i
  else
    return .inl ()

end firstUniqChar

/-- The table `c` is the state. -/
def firstUniqChar (s : CStr) : C (List ℤ) ℤ := do
  Prog.set (List.replicate 26 0)
  forSizeAll s.strlen (fun i _ => firstUniqChar.count s i) ()
  match ← forSize s.strlen (fun i _ => firstUniqChar.check s i) () with
  | .inl () => return -1
  | .inr r => return r

/-! ### Characters that occur once -/

/-- The character at the index `i` occurs nowhere else. -/
def UniqueAt (l : List ℤ) (i : ℕ) : Prop := ∃ c ∈ l[i]?, l.count c = 1

instance (l : List ℤ) (i : ℕ) : Decidable (UniqueAt l i) :=
  inferInstanceAs (Decidable (∃ c ∈ l[i]?, _))

section Unique

variable {l : List ℤ} {i : ℕ}

theorem UniqueAt.lt_length (h : UniqueAt l i) : i < l.length := by
  obtain ⟨c, hc, -⟩ := h
  exact (List.getElem?_eq_some_iff.mp hc).1

/-- **No character occurs once** exactly when all occur at least twice. -/
theorem forall_not_uniqueAt_iff : (∀ i, ¬UniqueAt l i) ↔ ∀ c ∈ l, 2 ≤ l.count c := by
  constructor
  · intro h c hc
    obtain ⟨i, hi⟩ := List.mem_iff_getElem?.mp hc
    have hpos : 0 < l.count c := List.count_pos_iff.mpr hc
    have hne : l.count c ≠ 1 := fun hone => h i ⟨c, hi, hone⟩
    omega
  · rintro h i ⟨c, hi, hone⟩
    have htwo := h c (List.mem_of_getElem? hi)
    omega

end Unique

namespace firstUniqChar

/-- How often the `k`-th letter occurs. -/
def tally (l : List ℤ) (k : ℕ) : ℤ := l.count (letter k)

section Tally

variable {l : List ℤ} {i k : ℕ}

/-- A further letter. -/
theorem tally_concat :
    tally (l ++ [letter k]) = Function.update (tally l) k (tally l k + 1) := by
  funext j
  rw [tally, count_concat_letter]
  rcases eq_or_ne j k with rfl | hne
  · rw [Function.update_self, if_pos rfl, tally]
    rfl
  · rw [Function.update_of_ne hne, if_neg hne, tally]
    rfl

theorem tally_bounds : 0 ≤ tally l k ∧ tally l k ≤ l.length := by
  have hcount : l.count (letter k) ≤ l.length := List.count_le_length
  rw [tally]
  omega

/-- **The counter of a character tells whether it occurs once.** -/
theorem tally_eq_one_iff (hi : l[i]? = some (letter k)) : tally l k = 1 ↔ UniqueAt l i := by
  rw [UniqueAt, hi, tally, Nat.cast_eq_one]
  simp

end Tally

/-! ### The loops -/

section Loops

variable {s : CStr}

/-- A round of the first loop. -/
theorem count_returns {i : ℕ} (hs : Letters s.chars) (hi : i < s.chars.length)
    (hlen : s.chars.length < 2 ^ 31) :
    (count s i).Returns (table 26 (tally (s.chars.take i))) ()
      (table 26 (tally (s.chars.take (i + 1)))) := by
  obtain ⟨k, hk, hsk⟩ := exists_getElem?_eq_letter hs hi
  have htake : (s.chars.take i).length ≤ i := List.length_take_le _ _
  have hbounds := tally_bounds (l := s.chars.take i) (k := k)
  rw [count, letter_subscript hsk hk, take_add_one_of_eq_letter hsk, tally_concat]
  exact bump_table hk ⟨by omega, by omega⟩

/-- **The first loop fills the table.** -/
theorem count_loop_returns (hs : Letters s.chars) (hlen : s.chars.length < 2 ^ 31) :
    (forAll 0 s.chars.length 1 (fun i _ => count s i) ()).Returns (table 26 (tally [])) ()
      (table 26 (tally s.chars)) := by
  refine (forAll_range_ensures (I := fun i _ c => c = table 26 (tally (s.chars.take i)))
    hlen ?_ ?_).returns ?_
  · rintro i ⟨⟩ _ hi rfl
    exact (count_returns hs hi hlen).ensures rfl
  · rw [List.take_zero]
  · rintro ⟨⟩ _ rfl
    rw [List.take_length]
    exact ⟨rfl, rfl⟩

/-- A round of the second loop looks whether the character occurs once. -/
theorem check_searches {i : ℕ} (hs : Letters s.chars) (hi : i < s.chars.length) :
    Searches (check s i) (table 26 (tally s.chars)) (i : ℤ) (UniqueAt s.chars i) := by
  obtain ⟨k, hk, hsk⟩ := exists_getElem?_eq_letter hs hi
  rw [← tally_eq_one_iff hsk, check, letter_subscript hsk hk]
  exact (load_table hk).bind_searches searches_test

/-- **The second loop finds the first character that occurs once.** -/
theorem check_loop_ensures (hs : Letters s.chars) (hlen : s.chars.length < 2 ^ 31) :
    (forLoop 0 s.chars.length 1 (fun i _ => check s i) ()).Ensures (table 26 (tally s.chars))
      (Sum.elim (fun _ _ => FirstIndex (UniqueAt s.chars) (-1))
        fun r _ => FirstIndex (UniqueAt s.chars) r) := by
  refine (forLoop_range_finds hlen fun i hi => check_searches hs hi).mono ?_
  rintro (⟨⟩ | r) c hr
  · exact Or.inr ⟨rfl, fun i hi => hr.2 i hi.lt_length hi⟩
  · obtain ⟨-, i, -, hri, hi, hmin⟩ := hr
    exact Or.inl ⟨i, hri, hi, hmin⟩

end Loops

end firstUniqChar

/-- **`firstUniqChar` finds the first character that occurs once.** It answers an
index exactly when the character there occurs nowhere else and none before it does,
and -1 exactly when every character occurs at least twice; and no subscript is out
of range. -/
theorem firstUniqChar_returns {s : CStr} (hs : Letters s.chars) (hlen : s.strlen < 2 ^ 31)
    (c : List ℤ) :
    ∃ r c', (firstUniqChar s).Returns c r c' ∧
      (∀ k e, (firstUniqChar s).run k c ≠ some (.error e)) ∧
      (r = -1 ↔ ∀ x ∈ s.chars, 2 ≤ s.chars.count x) ∧
      ∀ i : ℕ, r = i ↔ UniqueAt s.chars i ∧ ∀ k < i, ¬UniqueAt s.chars k := by
  have hinit : List.replicate 26 (0 : ℤ) = table 26 (firstUniqChar.tally []) := rfl
  have hrun : (firstUniqChar s).Ensures c fun r _ => FirstIndex (UniqueAt s.chars) r := by
    refine (Returns.set c _).bind_ensures ?_
    rw [hinit, forSizeAll_eq, forSize_eq]
    refine (firstUniqChar.count_loop_returns hs hlen).bind_ensures ?_
    refine (firstUniqChar.check_loop_ensures hs hlen).bind ?_
    rintro (⟨⟩ | r) c' hr
    · exact .pure hr
    · exact .pure hr
  obtain ⟨r, c', hret, hr⟩ := hrun
  refine ⟨r, c', hret, hret.not_faults, ?_, fun i => hr.eq_natCast_iff⟩
  rw [hr.eq_neg_one_iff, forall_not_uniqueAt_iff]

/-- "loveleetcode" -/
theorem firstUniqChar_returns_loveleetcode :
    ∃ c', (firstUniqChar (.lit [108, 111, 118, 101, 108, 101, 101, 116, 99, 111, 100, 101])).Returns
      [] 2 c' := by
  let s : CStr := .lit [108, 111, 118, 101, 108, 101, 101, 116, 99, 111, 100, 101]
  have hs : Letters s.chars := by decide
  have hlen : s.strlen < 2 ^ 31 := by decide
  obtain ⟨r, c', hret, -, -, hr⟩ := firstUniqChar_returns hs hlen []
  have h2 : UniqueAt s.chars 2 := by decide
  obtain rfl : r = (2 : ℕ) := (hr 2).mpr ⟨h2, by decide⟩
  exact ⟨c', hret⟩

end DocumentCode
