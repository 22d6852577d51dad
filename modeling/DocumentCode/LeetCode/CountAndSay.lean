import DocumentCode.CString
import DocumentCode.LookAndSay
import Mathlib.Algebra.Group.Nat.Even

/-!
# Count and say

`DocumentCode.CountAndSay.countAndSay` calls itself for the string before and
reads it from left to right, comparing each character with the next one; the last
run is put out because the character past the end of a `std::string` is a NUL.

* The loop spells the runs of a string out, whatever its characters are
  (`DocumentCode.CountAndSay.round_ends`), unless the string is so long that an
  `int` overflows (`DocumentCode.CountAndSay.round_faults`).
* So `countAndSay(n)` is the `n`-th word of the look-and-say sequence for `n` up to
  80 (`DocumentCode.CountAndSay.countAndSay_ends`). No run of these words is of more
  than three characters, hence each one can be decoded to the one before
  (`DocumentCode.CountAndSay.countAndSay_decodes`).
* The 80th string is of more characters than an `int` can count, and no further one
  is returned (`DocumentCode.CountAndSay.countAndSay_faults`).
-/

namespace DocumentCode

open Prog RunLength

namespace CountAndSay

/-! ### The program -/

namespace countAndSay

variable {σ : Type}

/-- A round of `for (int i = 0; i < preResult.size(); i++)`. -/
def round (preResult : List ℤ) :
    ℤ × ℤ × List ℤ → C σ ((ℤ × ℤ × List ℤ) ⊕ List ℤ)
  | (i, count, result) => do
    if toSize i < preResult.length then
      if (← strAt preResult i) = (← strAt preResult (← int (i + 1))) then
        let count ← int (count + 1)
        return .inl (← int (i + 1), count, result)
      else
        let result := result ++ (toStr count ++ [← strAt preResult i])
        return .inl (← int (i + 1), 1, result)
    else
      return .inr result

/-- The body of the function, which calls `self`. -/
def body (self : ℤ → C σ (List ℤ)) (n : ℤ) : C σ (List ℤ) := do
  if n = 1 then
    return [ch '1']
  else
    let preResult ← self (← int (n - 1))
    loop (round preResult) (0, 1, [])

end countAndSay

/-- The recursive function. -/
def countAndSay {σ : Type} (n : ℤ) : C σ (List ℤ) := recurse countAndSay.body n

/-! ### The loop -/

section Loop

variable {σ : Type} {st : σ} {s as cs result : List ℤ} {c d : ℤ} {k : ℕ}

/-- Runs spelled out in characters. -/
def spellStr (rs : List (ℕ × ℤ)) : List ℤ := rs.flatMap fun r => toStr r.1 ++ [r.2]

/-- The runs of a string, `k` letters of the first one having been counted
before. -/
def counted (k : ℕ) : List (ℕ × ℤ) → List (ℕ × ℤ)
  | [] => []
  | r :: rs => (k + r.1, r.2) :: rs

theorem counted_zero (rs : List (ℕ × ℤ)) : counted 0 rs = rs := by
  cases rs with
  | nil => rfl
  | cons r rs => rw [counted, Nat.zero_add]

theorem counted_push_of_eq :
    counted k (runs (c :: c :: cs)) = counted (k + 1) (runs (c :: cs)) := by
  obtain ⟨n, rest, hrest⟩ := exists_runs_cons c cs
  have hsum : k + (n + 1 + 1) = k + 1 + (n + 1) := by omega
  rw [runs_cons, hrest, push, if_pos rfl, counted, counted, hsum]

theorem counted_push_of_ne (h : c ≠ d) :
    counted k (runs (c :: d :: cs)) = (k + 1, c) :: runs (d :: cs) := by
  obtain ⟨n, rest, hrest⟩ := exists_runs_cons d cs
  rw [runs_cons, hrest, push, if_neg h, counted]

theorem toSize_lt (hs : s = as ++ c :: cs) (hlen : as.length < 2 ^ 31) :
    toSize (as.length : ℤ) < s.length := by
  rw [toSize_natCast (by omega), hs, List.length_append, List.length_cons]
  omega

/-- What a round does at the index `i`, the next index being `j`: the character is
counted, or its run is put out. -/
theorem round_of_strAt {i j count : ℤ} (hin : toSize i < s.length)
    (hc : (strAt s i : C σ ℤ) = pure c) (hj : (int (i + 1) : C σ ℤ) = pure j)
    (hd : (strAt s j : C σ ℤ) = pure d) :
    (countAndSay.round s (i, count, result) : C σ ((ℤ × ℤ × List ℤ) ⊕ List ℤ)) =
      if c = d then do
        let count ← int (count + 1)
        return .inl (j, count, result)
      else
        pure (.inl (j, 1, result ++ (toStr count ++ [c]))) := by
  rw [countAndSay.round, if_pos hin, hc, Prog.pure_bind, hj, Prog.pure_bind, hd, Prog.pure_bind]
  rfl

/-- A round in the middle of the string, as long as the next index and the count are
of type `int`. -/
theorem round_eq (hs : s = as ++ c :: cs) (hlen : as.length + 1 < 2 ^ 31)
    (hk : c = cs.headD 0 → k + 2 < 2 ^ 31) :
    (countAndSay.round s ((as.length : ℤ), ((k + 1 : ℕ) : ℤ), result) :
        C σ ((ℤ × ℤ × List ℤ) ⊕ List ℤ)) =
      if c = cs.headD 0 then
        pure (.inl (((as ++ [c]).length : ℤ), ((k + 1 + 1 : ℕ) : ℤ), result))
      else
        pure (.inl (((as ++ [c]).length : ℤ), ((0 + 1 : ℕ) : ℤ),
          result ++ (toStr (k + 1 : ℕ) ++ [c]))) := by
  have hs' : s = as ++ [c] ++ cs := by rw [hs, List.append_assoc, List.singleton_append]
  have hnext : (as ++ [c]).length = as.length + 1 := List.length_append
  rw [round_of_strAt (toSize_lt hs (by omega)) (strAt_append hs (by omega))
    (int_succ_length hlen c) (strAt_append hs' (by omega))]
  by_cases h : c = cs.headD 0
  · rw [List.headD_cons, if_pos h, if_pos h, int_succ (hk h), Prog.pure_bind]
  · rw [List.headD_cons, if_neg h, if_neg h]
    rfl

/-- At its end the string has been read. -/
theorem round_end (hlen : s.length < 2 ^ 31) (i : ℤ) :
    (countAndSay.round s ((s.length : ℤ), i, result) : C σ ((ℤ × ℤ × List ℤ) ⊕ List ℤ)) =
      pure (.inr result) := by
  rw [countAndSay.round, toSize_natCast (by omega), if_neg (lt_irrefl _)]

/-- **The loop spells the runs out.** Up to the index `as.length` the runs have been
put into `result`, but for the `k` characters before it that are of the run of the
character there. -/
theorem round_ends_from (h0 : 0 ∉ s) (hlen : s.length < 2 ^ 31) (hs : s = as ++ c :: cs)
    (hk : k ≤ as.length) :
    LoopEnds (countAndSay.round s) ((as.length : ℤ), ((k + 1 : ℕ) : ℤ), result) st
      (.ok (result ++ spellStr (counted k (runs (c :: cs))), st)) := by
  induction cs generalizing as c k result with
  | nil =>
    -- the last character differs from the NUL after it
    have hend : (as ++ [c]).length = s.length := by rw [hs]
    have hc : c ≠ 0 := by
      rintro rfl
      exact h0 (by simp [hs])
    have hround : countAndSay.round s ((as.length : ℤ), ((k + 1 : ℕ) : ℤ), result) = (_ : C σ _) :=
      round_eq hs (by simp at hend; omega) fun h => absurd h hc
    rw [List.headD_nil, if_neg hc, hend] at hround
    have hspell : spellStr (counted k (runs [c])) = toStr (k + 1 : ℕ) ++ [c] :=
      List.append_nil _
    rw [hspell]
    refine .next (Ends.of_forall fun n => by rw [hround, run_pure]) (.leave ?_)
    exact Ends.of_forall fun n => by rw [round_end hlen, run_pure]
  | cons d cs ih =>
    have hs' : s = as ++ [c] ++ d :: cs := by rw [hs, List.append_assoc, List.singleton_append]
    have hin : as.length + 2 ≤ s.length := by simp [hs]
    have hround : countAndSay.round s ((as.length : ℤ), ((k + 1 : ℕ) : ℤ), result) = (_ : C σ _) :=
      round_eq hs (by omega) fun _ => by omega
    rw [List.headD_cons] at hround
    by_cases hcd : c = d
    · -- the run goes on
      subst hcd
      rw [if_pos rfl] at hround
      rw [counted_push_of_eq]
      refine .next (Ends.of_forall fun n => by rw [hround, run_pure]) (ih hs' ?_)
      simpa using hk
    · -- the run ends here, and the next one starts
      rw [if_neg hcd] at hround
      rw [counted_push_of_ne hcd, spellStr, List.flatMap_cons, ← List.append_assoc,
        ← counted_zero (runs (d :: cs))]
      exact .next (Ends.of_forall fun n => by rw [hround, run_pure]) (ih hs' (Nat.zero_le _))

/-- **The loop spells the runs of a string out.** -/
theorem round_ends (h0 : 0 ∉ s) (hlen : s.length < 2 ^ 31) :
    LoopEnds (countAndSay.round s) (0, 1, []) st (.ok (spellStr (runs s), st)) := by
  cases s with
  | nil => exact .leave (Ends.of_forall fun n => rfl)
  | cons c cs =>
    have hends : LoopEnds (countAndSay.round (c :: cs)) (0, 1, []) st
        (.ok ([] ++ spellStr (counted 0 (runs (c :: cs))), st)) :=
      round_ends_from h0 hlen (List.nil_append _).symm le_rfl
    rwa [counted_zero, List.nil_append] at hends

/-- A character of a string that is too long for an `int`. -/
theorem exists_strAt {i : ℤ} (hlen : 2 ^ 31 ≤ s.length) (hi : 0 ≤ i ∧ i < 2 ^ 31) :
    toSize i < s.length ∧ ∃ c, (strAt s i : C σ ℤ) = pure c := by
  have hsize : toSize i < s.length := by
    rw [toSize_of_nonneg hi.1 (by omega)]
    omega
  exact ⟨hsize, _, if_pos hsize.le⟩

/-- **The index overflows** on a string that is too long for it, or the count does
before. -/
theorem round_faults {i count : ℤ} (hlen : 2 ^ 31 ≤ s.length) (hi : 0 ≤ i ∧ i < 2 ^ 31) :
    LoopEnds (countAndSay.round s) (i, count, result) st (.error .overflow) := by
  obtain ⟨m, hm⟩ : ∃ m : ℕ, i + m = 2 ^ 31 - 1 := ⟨(2 ^ 31 - 1 - i).toNat, by omega⟩
  -- on the number of rounds left until the index is the greatest `int`
  induction m generalizing i count result with
  | zero =>
    obtain ⟨hsize, c, hc⟩ := exists_strAt (σ := σ) hlen hi
    have hlast : ¬InInt (i + 1) := fun h => absurd h.2 (by omega)
    refine .stop (Ends.of_forall fun n => ?_)
    rw [countAndSay.round, if_pos hsize, hc, Prog.pure_bind, int_of_not_inInt hlast,
      Prog.fault_bind, run_fault]
  | succ m ih =>
    obtain ⟨hsize, c, hc⟩ := exists_strAt (σ := σ) hlen hi
    obtain ⟨-, d, hd⟩ := exists_strAt (σ := σ) (i := i + 1) hlen (by omega)
    have hnext : (int (i + 1) : C σ ℤ) = pure (i + 1) :=
      int_of_nonneg (by omega) (by omega)
    have hrest : ∀ count result,
        LoopEnds (countAndSay.round s) (i + 1, count, result) st (.error .overflow) :=
      fun _ _ => ih (by omega) (by omega)
    by_cases hcd : c = d
    · by_cases hcount : InInt (count + 1)
      · refine .next (Ends.of_forall fun n => ?_) (hrest (count + 1) result)
        rw [round_of_strAt hsize hc hnext hd, if_pos hcd, int_of_inInt hcount, Prog.pure_bind,
          run_pure]
      · refine .stop (Ends.of_forall fun n => ?_)
        rw [round_of_strAt hsize hc hnext hd, if_pos hcd, int_of_not_inInt hcount, Prog.fault_bind,
          run_fault]
    · refine .next (Ends.of_forall fun n => ?_) (hrest 1 (result ++ (toStr count ++ [c])))
      rw [round_of_strAt hsize hc hnext hd, if_neg hcd, run_pure]

end Loop

/-! ### The calls -/

section Calls

open LookAndSay

variable {σ : Type} {st : σ} {w : List ℕ} {rs : List (ℕ × ℕ)}

/-- The character of a digit. -/
def digit (d : ℕ) : ℤ := ch '0' + d

/-- A word in characters. -/
def text (w : List ℕ) : List ℤ := w.map digit

theorem digit_injective : Function.Injective digit := by
  intro d e h
  exact Int.ofNat_inj.mp (add_left_cancel h)

theorem runs_text (w : List ℕ) : runs (text w) = (runs w).map (Prod.map id digit) :=
  runs_map digit_injective w

/-- A count of one digit is one character. -/
theorem toStr_of_lt : ∀ n < 10, toStr (n : ℕ) = [digit n] := by decide

theorem spellStr_map (h : ∀ r ∈ rs, r.1 < 10) :
    spellStr (rs.map (Prod.map id digit)) = text (spell id rs) := by
  induction rs with
  | nil => rfl
  | cons r rs ih =>
    have hr : toStr (r.1 : ℕ) = [digit r.1] := toStr_of_lt r.1 (h r List.mem_cons_self)
    have hrs := ih fun r hr => h r (List.mem_cons_of_mem _ hr)
    rw [List.map_cons, spellStr, List.flatMap_cons, ← spellStr, hrs, Prod.map_fst, id_eq, hr]
    rfl

theorem zero_notMem_text (w : List ℕ) : 0 ∉ text w := by
  intro h
  obtain ⟨d, -, hd⟩ := List.mem_map.mp h
  have hpos : 0 < ch '0' := by decide
  rw [digit] at hd
  omega

/-- A call with a greater argument than 1 calls the function for the one before. -/
theorem run_body {n : ℕ} (hmax : n + 2 < 2 ^ 31) (self : ℤ → C σ (List ℤ)) (k : ℕ) :
    (countAndSay.body self (((n + 1 : ℕ) : ℤ) + 1)).run k st =
      (self ((n : ℤ) + 1) >>= fun s => loop (countAndSay.round s) (0, 1, [])).run k st := by
  have hpred : ((n + 1 : ℕ) : ℤ) + 1 - 1 = n + 1 := add_sub_cancel_right _ _
  rw [countAndSay.body, if_neg (by omega), hpred,
    int_of_nonneg (by omega) (by omega), Prog.pure_bind]

/-- **The string of a call** is a word of the sequence, up to the 80th call. -/
theorem countAndSay_ends {n : ℕ} (hn : n < 80) :
    RecEnds countAndSay.body ((n : ℤ) + 1) st (.ok (text (term n), st)) := by
  induction n with
  | zero => exact .base fun self k => rfl
  | succ n ih =>
    have hlen : (text (term n)).length < 2 ^ 31 := by
      rw [text, List.length_map]
      exact length_term_lt (by omega)
    have hloop : LoopEnds (countAndSay.round (text (term n))) (0, 1, []) st _ :=
      round_ends (zero_notMem_text (term n)) hlen
    rw [runs_text, spellStr_map fun r hr => (runs_term n hr).2.trans_lt (by decide)] at hloop
    exact .call (run_body (by omega)) (ih (by omega)) hloop.ends

/-- **From the 81st call on** nothing is returned. -/
theorem countAndSay_faults {n : ℕ} (hn : 80 ≤ n) (hmax : n + 1 < 2 ^ 31) :
    RecEnds countAndSay.body ((n : ℤ) + 1) st (.error .overflow) := by
  induction n, hn using Nat.le_induction with
  | base =>
    have hlen : 2 ^ 31 ≤ (text (term 79)).length := by
      rw [text, List.length_map]
      exact le_length_term
    have hloop : LoopEnds (countAndSay.round (text (term 79))) (0, 1, []) st _ :=
      round_faults hlen (by decide)
    exact .call (run_body hmax) (countAndSay_ends (Nat.lt_succ_self 79)) hloop.ends
  | succ n hn ih =>
    exact .call_fault (run_body hmax) (ih (by omega))

end Calls

/-! ### Decoding -/

section Decode

open LookAndSay

variable {σ : Type} {rs : List (ℕ × ℕ)}

/-- The consecutive pairs of a string. -/
def pairs : List ℤ → List (ℤ × ℤ)
  | c :: d :: cs => (c, d) :: pairs cs
  | _ => []

/-- Each pair expanded to as many copies of its second character as the first one, a
digit, says. -/
def decode (t : List ℤ) : List ℤ :=
  (pairs t).flatMap fun p => List.replicate (p.1 - ch '0').toNat p.2

/-- **The string `t'` can be decoded to `t`**: its pairs are the maximal runs of
`t`. -/
structure Decodes (t t' : List ℤ) : Prop where
  /-- It falls into pairs. -/
  even_length : Even t'.length
  /-- Its characters are '1', '2' and '3'. -/
  digits : ∀ c ∈ t', c = ch '1' ∨ c = ch '2' ∨ c = ch '3'
  /-- Each count is put out as one character. -/
  length_toStr : ∀ r ∈ runs t, (toStr r.1).length = 1
  /-- Expanding the pairs gives the other string. -/
  decode_eq : decode t' = t
  /-- Adjacent pairs say different digits. -/
  isChain_pairs : (pairs t').IsChain (·.2 ≠ ·.2)

theorem pairs_spell (rs : List (ℕ × ℕ)) :
    pairs (text (spell id rs)) = rs.map (Prod.map digit digit) := by
  induction rs with
  | nil => rfl
  | cons r rs ih =>
    rw [List.map_cons, ← ih]
    rfl

theorem decode_spell (rs : List (ℕ × ℕ)) : decode (text (spell id rs)) = text (expand rs) := by
  rw [decode, pairs_spell]
  induction rs with
  | nil => rfl
  | cons r rs ih =>
    have hcount : (digit r.1 - ch '0').toNat = r.1 := by
      rw [digit, add_sub_cancel_left, Int.toNat_natCast]
    rw [List.map_cons, List.flatMap_cons, ih, Prod.map_fst, Prod.map_snd, hcount, expand_cons,
      text, text, List.map_append, List.map_replicate]

/-- **A word of the sequence** can be decoded to the one before. -/
theorem decodes_term (n : ℕ) : Decodes (text (term n)) (text (term (n + 1))) where
  even_length := by
    rw [text, List.length_map, term_succ, say, length_spell]
    exact ⟨_, Nat.two_mul _⟩
  digits := by
    intro c hc
    obtain ⟨d, hd, rfl⟩ := List.mem_map.mp hc
    obtain ⟨h1, h3⟩ := mem_term (n + 1) hd
    obtain rfl | rfl | rfl : d = 1 ∨ d = 2 ∨ d = 3 := by omega
    · exact .inl rfl
    · exact .inr (.inl rfl)
    · exact .inr (.inr rfl)
  length_toStr := by
    intro r hr
    rw [runs_text] at hr
    obtain ⟨q, hq, rfl⟩ := List.mem_map.mp hr
    rw [Prod.map_fst, id_eq, toStr_of_lt q.1 ((runs_term n hq).2.trans_lt (by decide)),
      List.length_singleton]
  decode_eq := by rw [term_succ, say, decode_spell, expand_runs]
  isChain_pairs := by
    rw [term_succ, say, pairs_spell, List.isChain_map]
    exact (isChain_runs (term n)).imp fun _ _ h => digit_injective.ne h

/-- **Each string can be decoded to the one before**, as far as they are returned. -/
theorem countAndSay_decodes {n : ℤ} (h1 : 1 ≤ n) (hn : n ≤ 79) (st : σ) :
    ∃ t t', (countAndSay n).Returns st t st ∧ (countAndSay (n + 1)).Returns st t' st ∧
      Decodes t t' := by
  obtain ⟨m, rfl⟩ : ∃ m : ℕ, n = m + 1 := ⟨(n - 1).toNat, by omega⟩
  refine ⟨text (term m), text (term (m + 1)), (countAndSay_ends (by omega)).ends, ?_,
    decodes_term m⟩
  exact (countAndSay_ends (n := m + 1) (by omega)).ends

/-- The fifth string can be decoded to the fourth. -/
theorem countAndSay_decodes_four :
    ∃ t t', (countAndSay 4).Returns () t () ∧ (countAndSay (4 + 1)).Returns () t' () ∧
      Decodes t t' :=
  countAndSay_decodes (by decide) (by decide) ()

/-- **The 81st string is not returned**: the index of the loop overflows on the
80th. -/
theorem countAndSay_not_decodes :
    ¬∀ n : ℤ, 1 ≤ n → InInt (n + 1) →
      ∃ t t', (countAndSay n).Returns () t () ∧ (countAndSay (n + 1)).Returns () t' () ∧
        Decodes t t' := by
  intro h
  obtain ⟨-, t', -, hret, -⟩ := h 80 (by decide) (by decide)
  exact Faults.not_returns (countAndSay_faults le_rfl (by decide)).ends hret

end Decode

end CountAndSay

end DocumentCode
