import DocumentCode.CArray
import DocumentCode.CString
import Mathlib.Data.List.Forall2

/-!
# Is a string a palindrome?

`DocumentCode.PalindromeString.isPalindrome` compares the letters and digits of a
string from both ends, the letters in upper case – to which it changes them in
the string itself. A character that is neither is skipped by undoing one half of
what the `for` loop does to its two cursors at the end of a round, so that only
the other one moves.

A round therefore takes a character off one end of the part still to be compared
or one off each (`DocumentCode.PalindromeString.round_left`,
`DocumentCode.PalindromeString.round_right`, `DocumentCode.PalindromeString.round_compare`),
and what the rest of the run comes to is an induction on the length of that part.
The string that counts is the word of its letters and digits
(`DocumentCode.PalindromeString.word`). It is the same for the string the call
leaves, whose only difference is that some letters are raised, so a second call
gives the same answer (`DocumentCode.PalindromeString.isPalindrome_word`).
-/

namespace DocumentCode

namespace PalindromeString

open Prog

/-- `c >= '0' && c <= '9' || c >= 'A' && c <= 'Z' || c >= 'a' && c <= 'z'` -/
def IsAlnum (c : ℤ) : Prop :=
  ch '0' ≤ c ∧ c ≤ ch '9' ∨ ch 'A' ≤ c ∧ c ≤ ch 'Z' ∨ ch 'a' ≤ c ∧ c ≤ ch 'z'

/-- `c >= 'a' && c <= 'z'` -/
def IsLower (c : ℤ) : Prop := ch 'a' ≤ c ∧ c ≤ ch 'z'

instance (c : ℤ) : Decidable (IsAlnum c) := inferInstanceAs (Decidable (_ ∨ _ ∨ _))

instance (c : ℤ) : Decidable (IsLower c) := inferInstanceAs (Decidable (_ ∧ _))

/-! ### The program -/

/-- `if (s[k] >= 'a' && s[k] <= 'z') s[k] -= 32;` -/
def raise (k : ℤ) : C (List ℤ) Unit := do
  if IsLower (← load k) then
    store k ((← load k) - 32)
  else
    return ()

/-- A round of the loop. -/
def round : ℤ × ℤ → C (List ℤ) ((ℤ × ℤ) ⊕ Bool)
  | (i, j) => do
    if i < j then
      if ¬IsAlnum (← load i) then
        let j ← int (j + 1)
        return .inl (← int (i + 1), ← int (j - 1))
      else if ¬IsAlnum (← load j) then
        let i ← int (i - 1)
        return .inl (← int (i + 1), ← int (j - 1))
      else
        raise i
        raise j
        if (← load i) ≠ (← load j) then
          return .inr false
        else
          return .inl (← int (i + 1), ← int (j - 1))
    else
      return .inr true

/-- The argument: the null pointer, or the string whose characters are the
state. The NUL behind them is not part of the state: no access may come to it. -/
inductive Arg
  /-- `NULL` -/
  | null
  /-- A string. -/
  | string
  deriving DecidableEq

def isPalindrome (s : Arg) : C (List ℤ) Bool := do
  if s = .null then
    return true
  else
    let sLen := toInt (← Prog.get).length
    loop round (0, ← int (sLen - 1))

/-! ### Characters and words -/

/-- A letter in upper case. -/
def upper (c : ℤ) : ℤ := if IsLower c then c - 32 else c

/-- **The word of a string**: its letters and digits, the letters in upper case. -/
def word (l : List ℤ) : List ℤ := (l.filter fun c => IsAlnum c).map upper

/-- A character may have been raised. -/
def Raised (c d : ℤ) : Prop := d = c ∨ IsLower c ∧ d = c - 32

section Chars

variable {c d x y : ℤ} {l l' ys : List ℤ}

theorem isLower_iff : IsLower c ↔ 97 ≤ c ∧ c ≤ 122 := Iff.rfl

theorem isAlnum_iff :
    IsAlnum c ↔ 48 ≤ c ∧ c ≤ 57 ∨ 65 ≤ c ∧ c ≤ 90 ∨ 97 ≤ c ∧ c ≤ 122 := Iff.rfl

theorem upper_of_isLower (h : IsLower c) : upper c = c - 32 := if_pos h

theorem upper_of_not_isLower (h : ¬IsLower c) : upper c = c := if_neg h

theorem raised_refl : Raised c c := Or.inl rfl

theorem forall₂_raised_refl (l : List ℤ) : List.Forall₂ Raised l l :=
  List.forall₂_same.mpr fun _ _ => raised_refl

theorem raised_upper : Raised c (upper c) := by
  by_cases h : IsLower c
  · exact Or.inr ⟨h, upper_of_isLower h⟩
  · exact Or.inl (upper_of_not_isLower h)

theorem Raised.isAlnum_iff (h : Raised c d) : IsAlnum d ↔ IsAlnum c := by
  rcases h with rfl | ⟨hc, rfl⟩
  · exact Iff.rfl
  · rw [isLower_iff] at hc
    rw [PalindromeString.isAlnum_iff, PalindromeString.isAlnum_iff]
    omega

theorem Raised.upper_eq (h : Raised c d) : upper d = upper c := by
  rcases h with rfl | ⟨hc, rfl⟩
  · rfl
  · rw [upper_of_isLower hc, upper_of_not_isLower]
    rw [isLower_iff] at hc ⊢
    omega

/-- A raised character is again one of a string. -/
theorem Raised.inChar (h : Raised c d) (hc : InChar c) : InChar d := by
  rcases h with rfl | ⟨hl, rfl⟩
  · exact hc
  · rw [isLower_iff] at hl
    exact ⟨by omega, by omega⟩

theorem Raised.ne_nul (h : Raised c d) (hc : c ≠ 0) : d ≠ 0 := by
  rcases h with rfl | ⟨hl, rfl⟩
  · exact hc
  · rw [isLower_iff] at hl
    omega

/-- **Raising letters does not change the word.** -/
theorem word_eq_of_raised (h : List.Forall₂ Raised l l') : word l' = word l := by
  induction h with
  | nil => rfl
  | cons hcd _ ih =>
    rw [word, word, List.filter_cons, List.filter_cons]
    simp only [decide_eq_true_eq, hcd.isAlnum_iff]
    split
    · rw [List.map_cons, List.map_cons, hcd.upper_eq]
      exact congrArg _ ih
    · exact ih

/-- Each character left by the call was one of the string, raised perhaps. -/
theorem exists_raised (h : List.Forall₂ Raised l l') (hd : d ∈ l') : ∃ c ∈ l, Raised c d := by
  induction h with
  | nil => exact absurd hd List.not_mem_nil
  | cons hcd _ ih =>
    rcases List.mem_cons.mp hd with rfl | hd
    · exact ⟨_, List.mem_cons_self, hcd⟩
    · obtain ⟨c, hc, hcd⟩ := ih hd
      exact ⟨c, List.mem_cons_of_mem _ hc, hcd⟩

theorem word_append : word (l ++ l') = word l ++ word l' := by
  rw [word, List.filter_append, List.map_append]
  rfl

theorem word_cons (h : IsAlnum c) : word (c :: l) = upper c :: word l := by
  rw [word, List.filter_cons_of_pos (by simpa using h), List.map_cons]
  rfl

theorem word_cons_of_not (h : ¬IsAlnum c) : word (c :: l) = word l := by
  rw [word, List.filter_cons_of_neg (by simpa using h)]
  rfl

theorem word_singleton (h : IsAlnum c) : word [c] = [upper c] := word_cons h

theorem word_singleton_of_not (h : ¬IsAlnum c) : word [c] = [] := word_cons_of_not h

/-- A word is a palindrome if its ends agree and what is between them is one. -/
theorem cons_concat_eq_reverse_iff :
    x :: l ++ [y] = (x :: l ++ [y]).reverse ↔ x = y ∧ l = l.reverse := by
  have hrev : (x :: l ++ [y]).reverse = y :: (l.reverse ++ [x]) := by simp
  rw [hrev, List.cons_append, List.cons_eq_cons]
  constructor
  · rintro ⟨rfl, h⟩
    exact ⟨rfl, List.append_cancel_right h⟩
  · rintro ⟨rfl, h⟩
    exact ⟨rfl, congrArg (· ++ [x]) h⟩

/-- The word of a part with a letter or digit at both ends. -/
theorem word_eq_reverse_iff (hx : IsAlnum x) (hy : IsAlnum y) :
    word (x :: ys ++ [y]) = (word (x :: ys ++ [y])).reverse ↔
      upper x = upper y ∧ word ys = (word ys).reverse := by
  rw [List.cons_append, word_cons hx, word_append, word_singleton hy, ← List.cons_append,
    cons_concat_eq_reverse_iff]

/-- A word of at most one character reads the same backwards. -/
theorem word_eq_reverse_of_length_le (h : l.length ≤ 1) : word l = (word l).reverse := by
  rcases l with _ | ⟨x, _ | ⟨y, ys⟩⟩
  · rfl
  · by_cases hx : IsAlnum x
    · rw [word_singleton hx, List.reverse_singleton]
    · rw [word_singleton_of_not hx, List.reverse_nil]
  · simp at h

end Chars

/-! ### One round -/

/-- The cursors at the ends of `ms`, behind `as`. -/
def cursors (as ms : List ℤ) : ℤ × ℤ := (as.length, as.length + ms.length - 1)

section Round

variable {as ms ys bs cs : List ℤ} {x y : ℤ}

theorem cursors_ends : cursors as (x :: ys ++ [y]) = (↑as.length, ↑(as ++ x :: ys).length) := by
  simp [cursors]
  omega

theorem raise_append : (raise as.length).Returns (as ++ x :: cs) () (as ++ upper x :: cs) := by
  refine .bind load_append ?_
  by_cases h : IsLower x
  · rw [if_pos h, upper_of_isLower h]
    exact .bind load_append store_append
  · rw [if_neg h, upper_of_not_isLower h]
    exact Returns.pure _ _

/-- Both ends are read from the same string. -/
theorem append_cons_append : as ++ x :: ys ++ y :: bs = as ++ x :: (ys ++ y :: bs) := by
  rw [List.append_assoc, List.cons_append]

theorem load_left :
    (load as.length).Returns (as ++ x :: ys ++ y :: bs) x (as ++ x :: ys ++ y :: bs) := by
  rw [append_cons_append]
  exact load_append

theorem raise_left :
    (raise as.length).Returns (as ++ x :: ys ++ y :: bs) () (as ++ upper x :: ys ++ y :: bs) := by
  rw [append_cons_append, append_cons_append]
  exact raise_append

/-- The loop ends when the cursors have met. -/
theorem round_end (h : ms.length ≤ 1) (s : List ℤ) :
    (round (cursors as ms)).Returns s (.inr true) s := by
  rw [cursors, round, if_neg (by omega)]
  exact Returns.pure _ _

/-- The left cursor is before the right one, and both can be moved. -/
theorem cursors_lt (hlen : (as ++ x :: ys ++ y :: bs).length < 2 ^ 31) :
    as.length < (as ++ x :: ys).length ∧ (as ++ x :: ys).length + 1 < 2 ^ 31 := by
  rw [List.length_append, List.length_cons] at hlen
  rw [List.length_append, List.length_cons] at hlen ⊢
  omega

/-- The left character is skipped. -/
theorem round_left (hx : ¬IsAlnum x) (hlen : (as ++ x :: ys ++ y :: bs).length < 2 ^ 31) :
    (round (cursors as (x :: ys ++ [y]))).Returns (as ++ x :: ys ++ y :: bs)
      (.inl (cursors (as ++ [x]) (ys ++ [y]))) (as ++ x :: ys ++ y :: bs) := by
  obtain ⟨hij, hj⟩ := cursors_lt hlen
  have hnew : cursors (as ++ [x]) (ys ++ [y]) =
      (((as.length + 1 : ℕ) : ℤ), (((as ++ x :: ys).length + 1 : ℕ) : ℤ) - 1) := by
    simp [cursors]
    omega
  rw [cursors_ends, hnew, round, if_pos (by omega)]
  refine .bind load_left ?_
  rw [if_pos hx]
  refine .bind (int_succ_returns hj _) (.bind (int_succ_returns (by omega) _) ?_)
  exact .bind (int_pred_returns hj _) (Returns.pure _ _)

/-- The right character is skipped. -/
theorem round_right (hx : IsAlnum x) (hy : ¬IsAlnum y)
    (hlen : (as ++ x :: ys ++ y :: bs).length < 2 ^ 31) :
    (round (cursors as (x :: ys ++ [y]))).Returns (as ++ x :: ys ++ y :: bs)
      (.inl (cursors as (x :: ys))) (as ++ x :: ys ++ y :: bs) := by
  obtain ⟨hij, hj⟩ := cursors_lt hlen
  have hnew : cursors as (x :: ys) =
      ((as.length : ℤ) - 1 + 1, ((as ++ x :: ys).length : ℤ) - 1) := by
    simp [cursors]
  have hback : (int ((as.length : ℤ) - 1 + 1)).Returns (as ++ x :: ys ++ y :: bs)
      ((as.length : ℤ) - 1 + 1) (as ++ x :: ys ++ y :: bs) :=
    int_returns _ (by omega) (by omega)
  rw [cursors_ends, hnew, round, if_pos (by omega)]
  refine .bind load_left ?_
  rw [if_neg (not_not.mpr hx)]
  refine .bind load_append ?_
  rw [if_pos hy]
  -- `i--` may lead to -1, and `i++` leads back.
  refine .bind (int_pred_returns (by omega) _) (.bind hback ?_)
  exact .bind (int_pred_returns (by omega) _) (Returns.pure _ _)

/-- Letters and digits at both ends are raised before they are compared. -/
theorem round_compare (hx : IsAlnum x) (hy : IsAlnum y)
    (hlen : (as ++ x :: ys ++ y :: bs).length < 2 ^ 31) :
    (round (cursors as (x :: ys ++ [y]))).Returns (as ++ x :: ys ++ y :: bs)
      (if upper x = upper y then .inl (cursors (as ++ [upper x]) ys) else .inr false)
      (as ++ upper x :: ys ++ upper y :: bs) := by
  obtain ⟨hij, hj⟩ := cursors_lt hlen
  have hraised : (as ++ x :: ys).length = (as ++ upper x :: ys).length := by simp
  have hnew : cursors (as ++ [upper x]) ys =
      (((as.length + 1 : ℕ) : ℤ), ((as ++ x :: ys).length : ℤ) - 1) := by
    simp [cursors]
    omega
  rw [cursors_ends, hnew, round, if_pos (by omega)]
  refine .bind load_left ?_
  rw [if_neg (not_not.mpr hx)]
  refine .bind load_append ?_
  rw [if_neg (not_not.mpr hy)]
  refine .bind raise_left ?_
  rw [hraised] at hj ⊢
  refine .bind raise_append (.bind load_left (.bind load_append ?_))
  by_cases heq : upper x = upper y
  · rw [if_neg (not_not.mpr heq), if_pos heq]
    refine .bind (int_succ_returns (by omega) _) ?_
    exact .bind (int_pred_returns (by omega) _) (Returns.pure _ _)
  · rw [if_pos heq, if_neg heq]
    exact Returns.pure _ _

end Round

/-! ### The run -/

/-- A part with at least two characters has two ends. -/
theorem exists_ends {ms : List ℤ} (h : 1 < ms.length) : ∃ x ys y, ms = x :: ys ++ [y] := by
  obtain ⟨x, zs, rfl⟩ := List.exists_cons_of_length_pos (by omega : 0 < ms.length)
  obtain ⟨ys, y, rfl⟩ := (List.eq_nil_or_concat' zs).resolve_left (by rintro rfl; simp at h)
  exact ⟨x, ys, y, rfl⟩

/-- **The run on the part `ms` of the string**, by induction on its length. -/
theorem run_ends (n : ℕ) (as ms bs : List ℤ) (hn : ms.length ≤ n)
    (hlen : (as ++ ms ++ bs).length < 2 ^ 31) :
    ∃ b ms', LoopEnds round (cursors as ms) (as ++ ms ++ bs) (.ok (b, as ++ ms' ++ bs)) ∧
      List.Forall₂ Raised ms ms' ∧ (b = true ↔ word ms = (word ms).reverse) := by
  induction n generalizing as ms bs with
  | zero =>
    have hms : ms = [] := List.length_eq_zero_iff.mp (by omega)
    subst hms
    exact ⟨true, [], .leave (round_end (by simp) _), .nil, by simp [word]⟩
  | succ n ih =>
    rcases Nat.lt_or_ge 1 ms.length with hlt | hle
    · obtain ⟨x, ys, y, rfl⟩ := exists_ends hlt
      have hst : as ++ (x :: ys ++ [y]) ++ bs = as ++ x :: ys ++ y :: bs := by simp
      rw [hst] at hlen ⊢
      have hys : ys.length + 1 ≤ n := by simpa using hn
      by_cases hx : IsAlnum x
      · by_cases hy : IsAlnum y
        · have hround := round_compare hx hy hlen
          by_cases heq : upper x = upper y
          · -- Both ends are right, and what is between them decides.
            rw [if_pos heq] at hround
            have hst' : as ++ [upper x] ++ ys ++ upper y :: bs =
                as ++ upper x :: ys ++ upper y :: bs := by simp
            obtain ⟨b, ys', hL, hr, hb⟩ := ih (as ++ [upper x]) ys (upper y :: bs) (by omega)
              (by simp at hlen ⊢; omega)
            rw [hst'] at hL
            refine ⟨b, upper x :: ys' ++ [upper y], .next hround ?_, ?_, ?_⟩
            · simpa using hL
            · exact List.rel_append (.cons raised_upper hr) (.cons raised_upper .nil)
            · rw [hb, word_eq_reverse_iff hx hy, and_iff_right heq]
          · -- The ends differ.
            rw [if_neg heq] at hround
            refine ⟨false, upper x :: ys ++ [upper y], .leave ?_, ?_, ?_⟩
            · simpa using hround
            · exact List.rel_append (.cons raised_upper (forall₂_raised_refl ys))
                (.cons raised_upper .nil)
            · rw [word_eq_reverse_iff hx hy]
              exact iff_of_false Bool.false_ne_true fun h => heq h.1
        · obtain ⟨b, ms', hL, hr, hb⟩ := ih as (x :: ys) (y :: bs) (by simpa using hys)
            (by simpa using hlen)
          refine ⟨b, ms' ++ [y], .next (round_right hx hy hlen) ?_, ?_, ?_⟩
          · simpa using hL
          · exact List.rel_append hr (.cons raised_refl .nil)
          · rw [hb, word_append, word_singleton_of_not hy, List.append_nil]
      · obtain ⟨b, ms', hL, hr, hb⟩ := ih (as ++ [x]) (ys ++ [y]) bs (by simpa using hys)
          (by simpa using hlen)
        refine ⟨b, x :: ms', .next (round_left hx hlen) ?_, ?_, ?_⟩
        · simpa using hL
        · exact .cons raised_refl hr
        · rw [hb, List.cons_append, word_cons_of_not hx]
    · exact ⟨true, ms, .leave (round_end hle _), forall₂_raised_refl ms,
        iff_of_true rfl (word_eq_reverse_of_length_le hle)⟩

/-- The call, on any string. -/
theorem isPalindrome_ends {l : List ℤ} (h : l.length < 2 ^ 31) :
    ∃ b l', (isPalindrome .string).Returns l b l' ∧ List.Forall₂ Raised l l' ∧
      (b = true ↔ word l = (word l).reverse) := by
  obtain ⟨b, l', hL, hr, hb⟩ := run_ends l.length [] l [] le_rfl (by simpa using h)
  refine ⟨b, l', ?_, hr, hb⟩
  rw [isPalindrome, if_neg (by decide)]
  refine .bind (Returns.get l) ?_
  rw [toInt_of_lt h]
  refine .bind (int_pred_returns h l) ?_
  have hc : cursors [] l = (0, (l.length : ℤ) - 1) := by simp [cursors]
  rw [← hc]
  simpa using hL.ends

/-- A string that was raised is one. -/
def raisedStr (s : CStr) (l : List ℤ) (h : List.Forall₂ Raised s.chars l) : CStr where
  chars := l
  inChar d hd := by
    obtain ⟨c, hc, hcd⟩ := exists_raised h hd
    exact hcd.inChar (s.inChar c hc)
  ne_nul d hd := by
    obtain ⟨c, hc, hcd⟩ := exists_raised h hd
    exact hcd.ne_nul (s.ne_nul c hc)

/-- **`isPalindrome` decides whether the word of a string is a palindrome.** It
does not get out of the string, leaves one in which some letters are raised and
nothing else is changed, and gives the same answer for that one. -/
theorem isPalindrome_word (s : CStr) (h : s.strlen < 2 ^ 31) :
    ∃ (b : Bool) (t : CStr), (isPalindrome .string).Returns s.chars b t.chars ∧
      (∀ k e, (isPalindrome .string).run k s.chars ≠ some (.error e)) ∧
      (b = true ↔ word s.chars = (word s.chars).reverse) ∧
      List.Forall₂ Raised s.chars t.chars ∧
      ∃ u : CStr, (isPalindrome .string).Returns t.chars b u.chars := by
  obtain ⟨b, l, hret, hr, hb⟩ := isPalindrome_ends h
  have hlen : l.length < 2 ^ 31 := hr.length_eq ▸ h
  obtain ⟨b', l', hret', hr', hb'⟩ := isPalindrome_ends hlen
  have hbb : b' = b := by
    rw [Bool.eq_iff_iff, hb', hb, word_eq_of_raised hr]
  subst hbb
  exact ⟨b', raisedStr s l hr, hret, hret.not_faults, hb, hr,
    raisedStr (raisedStr s l hr) l' hr', hret'⟩

/-- The call of the program's `main`: `isPalindrome("0P")`. -/
theorem isPalindrome_word_main :
    ∃ t : CStr, (isPalindrome .string).Returns [48, 80] false t.chars := by
  let s : CStr := .lit [48, 80]
  obtain ⟨b, t, hret, -, hb, -, -⟩ := isPalindrome_word s (by decide)
  have hw : ¬word s.chars = (word s.chars).reverse := by decide
  obtain rfl : b = false := Bool.eq_false_iff.mpr (mt hb.mp hw)
  exact ⟨t, hret⟩

end PalindromeString

end DocumentCode
