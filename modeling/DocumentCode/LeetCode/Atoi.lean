import DocumentCode.CString
import Mathlib.Data.Nat.Digits.Defs

/-!
# Reading an integer from a string

`DocumentCode.myAtoi` skips spaces, takes at most one sign and then digits, and
answers the nearest `int` to the number they write. It has one loop for negative
numbers and one for the others, the same but for the test that a further digit
would lead out of the range: the quotient of 2147483648 by ten and a digit from 8
on, the quotient of 2147483647 by ten and a digit above 7
(`DocumentCode.myAtoi.accumulate`).

Both tests come to the same, that ten times the number so far plus the digit is
at least 2147483648. As further digits only make a number greater
(`DocumentCode.le_decimal_append`), leaving in the middle of the digits is right
(`DocumentCode.accumulate_ends`); and as the test precedes the
computation, no `int` expression overflows.
-/

namespace DocumentCode

open Prog

/-- `c >= '0' && c <= '9'` -/
def IsDigit (c : ℤ) : Prop := ch '0' ≤ c ∧ c ≤ ch '9'

instance (c : ℤ) : Decidable (IsDigit c) := inferInstanceAs (Decidable (_ ∧ _))

/-! ### The program -/

namespace myAtoi

variable {σ : Type}

/-- `while (str[index] == ' ') index++;` -/
def skipSpaces (str : CStr) (index : ℤ) : C σ (ℤ ⊕ ℤ) := do
  if (← str.get index) = ch ' ' then
    return .inl (← int (index + 1))
  else
    return .inr index

/-- A round of the loop over the digits, and the `return` after it. The number is
`bound` where a further digit would lead past `limit`: the number so far is
greater than `limit / 10`, or equal to it and the digit is one of `last`. -/
def accumulate (str : CStr) (strLen limit bound : ℤ) (last : ℤ → Bool) (result : ℤ → C σ ℤ) :
    ℤ × ℤ → C σ ((ℤ × ℤ) ⊕ ℤ)
  | (i, temp) => do
    let c ← str.get i
    if IsDigit c ∧ i < strLen then
      if temp > limit / 10 then
        return .inr bound
      else if temp = limit / 10 ∧ last (← int (c - 48)) then
        return .inr bound
      else
        let temp ← int ((← int (temp * 10)) + (← int (c - 48)))
        return .inl (← int (i + 1), temp)
    else
      return .inr (← result temp)

end myAtoi

/-- The limits `2147483648` and `0-2147483648` of the negative branch are of type
`long`. -/
def myAtoi {σ : Type} (str : Option CStr) : C σ ℤ := do
  match str with
  | none => return 0
  | some str =>
    let index ← loop (myAtoi.skipSpaces str) 0
    let c ← str.get index
    if ¬(IsDigit c ∨ c = ch '-' ∨ c = ch '+') then
      return 0
    else
      let strLen := toInt str.strlen
      if c = ch '-' then
        let i ← int (index + 1)
        loop (myAtoi.accumulate str strLen 2147483648 (0 - 2147483648) (fun d => 8 ≤ d)
          fun temp => int (0 - temp)) (i, 0)
      else
        let i ← if c = ch '+' then int (index + 1) else pure index
        loop (myAtoi.accumulate str strLen 2147483647 2147483647 (fun d => 7 < d) pure) (i, 0)

/-! ### The number a string writes -/

/-- The value of a row of digits. -/
def decimal (ds : List ℤ) : ℕ := Nat.ofDigits 10 (ds.reverse.map fun c => (c - ch '0').toNat)

/-- The nearest `int`. -/
def clamp (z : ℤ) : ℤ := max (-2 ^ 31) (min z (2 ^ 31 - 1))

/-- The number a string without leading spaces starts with: a sign, if there is
one, and digits. -/
def signed : List ℤ → ℤ
  | [] => 0
  | c :: cs =>
    if c = ch '-' then -decimal (cs.takeWhile (IsDigit ·))
    else if c = ch '+' then decimal (cs.takeWhile (IsDigit ·))
    else decimal ((c :: cs).takeWhile (IsDigit ·))

/-- **The integer a string stands for.** -/
def atoiValue (cs : List ℤ) : ℤ := clamp (signed (cs.dropWhile (· = ch ' ')))

section Decimal

variable {ds es : List ℤ} {c : ℤ}

@[simp] theorem decimal_nil : decimal [] = 0 := rfl

theorem decimal_append (ds es : List ℤ) :
    decimal (ds ++ es) = decimal es + 10 ^ es.length * decimal ds := by
  rw [decimal, List.reverse_append, List.map_append, Nat.ofDigits_append, List.length_map,
    List.length_reverse, decimal, decimal]

/-- **One more digit.** -/
theorem decimal_append_singleton (hc : IsDigit c) :
    (decimal (ds ++ [c]) : ℤ) = decimal ds * 10 + (c - 48) := by
  have hdigit : (decimal [c] : ℤ) = c - 48 := by
    rw [decimal, List.reverse_singleton, List.map_singleton, Nat.ofDigits_singleton]
    exact Int.toNat_of_nonneg (sub_nonneg.mpr hc.1)
  rw [decimal_append, List.length_singleton, pow_one, Nat.cast_add, Nat.cast_mul, hdigit,
    Nat.cast_ofNat]
  ring

/-- **Further digits only make a number greater.** -/
theorem le_decimal_append (ds es : List ℤ) : decimal ds ≤ decimal (ds ++ es) := by
  rw [decimal_append]
  exact Nat.le_add_left_of_le (Nat.le_mul_of_pos_left _ (Nat.pow_pos (by decide)))

end Decimal

/-! ### The loops -/

section Loops

variable {σ : Type} {st : σ} {s : CStr} {as cs ds : List ℤ}

theorem not_isDigit_nul : ¬IsDigit 0 := by decide

/-- The spaces are skipped. -/
theorem skipSpaces_ends (hlen : s.strlen < 2 ^ 31) (hs : s.chars = as ++ cs) :
    ∃ bs, s.chars = bs ++ cs.dropWhile (· = ch ' ') ∧
      LoopEnds (myAtoi.skipSpaces s) (as.length : ℤ) st (.ok ((bs.length : ℤ), st)) := by
  induction cs generalizing as with
  | nil =>
    refine ⟨as, hs, .leave (Ends.of_forall fun k => ?_)⟩
    rw [myAtoi.skipSpaces, CStr.get_append hs, Prog.pure_bind, if_neg (by decide), run_pure]
  | cons c cs ih =>
    by_cases hc : c = ch ' '
    · have hs' : s.chars = as ++ [c] ++ cs := by rw [hs, List.append_assoc, List.singleton_append]
      obtain ⟨bs, hbs, hends⟩ := ih hs'
      refine ⟨bs, by rwa [List.dropWhile_cons_of_pos (by simpa using hc)],
        .next (Ends.of_forall fun k => ?_) hends⟩
      have hin := CStr.length_lt hs
      rw [myAtoi.skipSpaces, CStr.get_cons hs, Prog.pure_bind, if_pos hc,
        int_succ_length (by omega) c, Prog.pure_bind, run_pure]
    · refine ⟨as, by rwa [List.dropWhile_cons_of_neg (by simpa using hc)],
        .leave (Ends.of_forall fun k => ?_)⟩
      rw [myAtoi.skipSpaces, CStr.get_cons hs, Prog.pure_bind, if_neg hc, run_pure]

variable {limit bound : ℤ} {last : ℤ → Bool} {result : ℤ → C σ ℤ} {w : ℤ → ℤ}

/-- The loop is left at the first character that is no digit. -/
theorem accumulate_leave (hresult : ∀ t, 0 ≤ t → t < 2 ^ 31 → result t = pure (w t))
    (hs : s.chars = as ++ ds ++ cs) (hds : decimal ds < 2 ^ 31) (hc : ¬IsDigit (cs.headD 0)) :
    LoopEnds (myAtoi.accumulate s s.strlen limit bound last result)
      (((as ++ ds).length : ℤ), (decimal ds : ℤ)) st (.ok (w (decimal ds), st)) := by
  refine .leave (Ends.of_forall fun k => ?_)
  rw [myAtoi.accumulate, CStr.get_append hs, Prog.pure_bind, if_neg fun h => hc h.1,
    hresult _ (by omega) (by omega), Prog.pure_bind, run_pure]

/-- **The digits are read, or their number is out of range.** So far the digits
`ds` have been read, and their number is an `int`. -/
theorem accumulate_ends (hlen : s.strlen < 2 ^ 31) (hlimit : limit / 10 = 214748364)
    (hlast : ∀ d, last d = true ↔ 7 < d)
    (hresult : ∀ t, 0 ≤ t → t < 2 ^ 31 → result t = pure (w t)) (hs : s.chars = as ++ ds ++ cs)
    (hds : decimal ds < 2 ^ 31) :
    LoopEnds (myAtoi.accumulate s s.strlen limit bound last result)
      (((as ++ ds).length : ℤ), (decimal ds : ℤ)) st
      (.ok (if decimal (ds ++ cs.takeWhile (IsDigit ·)) < 2 ^ 31
        then w (decimal (ds ++ cs.takeWhile (IsDigit ·))) else bound, st)) := by
  induction cs generalizing ds with
  | nil =>
    rw [List.takeWhile_nil, List.append_nil, if_pos hds]
    exact accumulate_leave hresult hs hds not_isDigit_nul
  | cons c cs ih =>
    by_cases hc : IsDigit c
    · have hin := CStr.length_lt hs
      have hc' : 48 ≤ c ∧ c ≤ 57 := hc
      have hdigit : (int (c - 48) : C σ ℤ) = pure (c - 48) := int_of_inInt ⟨by omega, by omega⟩
      have hdec : (decimal (ds ++ [c]) : ℤ) = decimal ds * 10 + (c - 48) :=
        decimal_append_singleton hc
      rw [List.takeWhile_cons_of_pos (by simpa using hc), ← List.singleton_append,
        ← List.append_assoc]
      by_cases hbig : decimal (ds ++ [c]) < 2 ^ 31
      · -- the digit passes both tests
        have hs' : s.chars = as ++ (ds ++ [c]) ++ cs := by simp [hs]
        have hquot : ¬(decimal ds : ℤ) > limit / 10 := by omega
        have hrem : ¬((decimal ds : ℤ) = limit / 10 ∧ last (c - 48) = true) := by
          rw [hlast]
          omega
        refine .next (Ends.of_forall fun k => ?_) (ih hs' hbig)
        rw [myAtoi.accumulate, CStr.get_cons hs, Prog.pure_bind, if_pos ⟨hc, by omega⟩,
          if_neg hquot, hdigit, Prog.pure_bind, if_neg hrem,
          int_of_nonneg (by omega) (by omega), Prog.pure_bind, Prog.pure_bind,
          ← hdec, int_natCast hbig, Prog.pure_bind, int_succ_length (by omega) c,
          Prog.pure_bind, run_pure, List.append_assoc]
      · -- the number of all digits is at least that of the first ones
        have hall := le_decimal_append (ds ++ [c]) (cs.takeWhile (IsDigit ·))
        rw [if_neg (by omega)]
        refine .leave (Ends.of_forall fun k => ?_)
        rw [myAtoi.accumulate, CStr.get_cons hs, Prog.pure_bind, if_pos ⟨hc, by omega⟩]
        by_cases hquot : (decimal ds : ℤ) > limit / 10
        · rw [if_pos hquot, run_pure]
        · rw [if_neg hquot, hdigit, Prog.pure_bind, if_pos ⟨by omega, (hlast _).mpr (by omega)⟩,
            run_pure]
    · rw [List.takeWhile_cons_of_neg (by simpa using hc), List.append_nil, if_pos hds]
      exact accumulate_leave hresult hs hds hc

end Loops

/-! ### What a call returns -/

section Results

variable {σ : Type} {st : σ} {s : CStr} {as cs : List ℤ} {c : ℤ}

theorem clamp_neg (n : ℕ) : clamp (-n) = if n < 2 ^ 31 then 0 - (n : ℤ) else 0 - 2147483648 := by
  rw [clamp]
  split <;> omega

theorem clamp_natCast (n : ℕ) : clamp n = if n < 2 ^ 31 then (n : ℤ) else 2147483647 := by
  rw [clamp]
  split <;> omega

/-- The negative branch, from the character after the sign. -/
theorem accumulate_neg_ends (hlen : s.strlen < 2 ^ 31) (hs : s.chars = as ++ cs) :
    LoopEnds (myAtoi.accumulate s s.strlen 2147483648 (0 - 2147483648) (fun d => 8 ≤ d)
      fun temp => int (0 - temp)) ((as.length : ℤ), 0) st
      (.ok (clamp (-decimal (cs.takeWhile (IsDigit ·))), st)) := by
  have hends : LoopEnds (myAtoi.accumulate s s.strlen 2147483648 (0 - 2147483648)
      (fun d => 8 ≤ d) fun temp => int (0 - temp)) (((as ++ []).length : ℤ), 0) st _ :=
    accumulate_ends (w := fun t => 0 - t) hlen (by decide) (fun d => by simp; omega)
      (fun t _ _ => int_of_inInt ⟨by omega, by omega⟩)
      (show s.chars = as ++ [] ++ cs by rwa [List.append_nil]) (by decide)
  rwa [List.append_nil, List.nil_append, ← clamp_neg] at hends

/-- The other branch, from the first digit. -/
theorem accumulate_pos_ends (hlen : s.strlen < 2 ^ 31) (hs : s.chars = as ++ cs) :
    LoopEnds (myAtoi.accumulate s s.strlen 2147483647 2147483647 (fun d => 7 < d) pure)
      ((as.length : ℤ), 0) st (.ok (clamp (decimal (cs.takeWhile (IsDigit ·))), st)) := by
  have hends : LoopEnds (myAtoi.accumulate s s.strlen 2147483647 2147483647 (fun d => 7 < d) pure)
      (((as ++ []).length : ℤ), 0) st _ :=
    accumulate_ends (w := fun t => t) hlen (by decide) (fun d => by simp) (fun _ _ _ => rfl)
      (show s.chars = as ++ [] ++ cs by rwa [List.append_nil]) (by decide)
  rwa [List.append_nil, List.nil_append, ← clamp_natCast] at hends

/-- **The function computes the integer a string stands for**, clamped to the
range of `int`, without leaving that range or the string on the way. -/
theorem myAtoi_returns (s : CStr) (hlen : s.strlen < 2 ^ 31) (st : σ) :
    (myAtoi (some s)).Returns st (atoiValue s.chars) st ∧
      ∀ k e, (myAtoi (some s)).run k st ≠ some (.error e) := by
  suffices hret : (myAtoi (some s)).Returns st (atoiValue s.chars) st from
    ⟨hret, hret.not_faults⟩
  obtain ⟨bs, hbs, hskip⟩ := skipSpaces_ends hlen (List.nil_append s.chars).symm
  refine Ends.bind hskip.ends ?_
  rw [CStr.get_append hbs, Prog.pure_bind, toInt_of_lt hlen, atoiValue]
  cases hcs : s.chars.dropWhile (· = ch ' ') with
  | nil => exact Returns.pure _ _
  | cons c cs =>
    rw [hcs] at hbs
    have hbs' : s.chars = bs ++ [c] ++ cs := by rw [hbs, List.append_assoc, List.singleton_append]
    have hin := CStr.length_lt hbs
    rw [List.headD_cons, int_succ_length (by omega) c, signed]
    by_cases hneg : c = ch '-'
    · rw [if_neg (by simp [hneg]), if_pos hneg, if_pos hneg]
      exact (accumulate_neg_ends hlen hbs').ends
    · rw [if_neg hneg, if_neg hneg]
      by_cases hpos : c = ch '+'
      · rw [if_neg (by simp [hpos]), if_pos hpos, if_pos hpos]
        exact (accumulate_pos_ends hlen hbs').ends
      · rw [if_neg hpos, if_neg hpos]
        by_cases hc : IsDigit c
        · rw [if_neg (by simp [hc])]
          exact (accumulate_pos_ends hlen hbs).ends
        · rw [if_pos (by simp [hc, hneg, hpos]), List.takeWhile_cons_of_neg (by simpa using hc)]
          exact Returns.pure _ _

/-- A number below the range of `int`, between spaces and letters. -/
def belowRange : CStr where
  chars := "  -2147483649ab".toList.map ch
  inChar := by decide
  ne_nul := by decide

/-- A number below the range of `int`. -/
theorem myAtoi_returns_belowRange :
    (myAtoi (some belowRange)).Returns () (-2147483648) () ∧
      ∀ k e, (myAtoi (some belowRange)).run k () ≠ some (.error e) := by
  have hvalue : atoiValue belowRange.chars = -2147483648 := by decide
  exact hvalue ▸ myAtoi_returns belowRange (by decide) ()

end Results

end DocumentCode
