import DocumentCode.CArray
import DocumentCode.CString
import DocumentCode.ForLoop
import Mathlib.Data.List.Infix

/-!
# Looking for a string in a string

`DocumentCode.strStr` tries the positions of the haystack from left to right. It
compares only where the first character is that of the needle, and gives up at
the first such position that is too near to the end – a position further right is
nearer still. One variable, `index`, is both the cursor in the haystack and, as
-1, the sign that a comparison failed.

The needle occurs at a position when it is a prefix of what follows there
(`DocumentCode.OccursAt`), and the answer is the first position at which it does,
or -1 where there is none (`DocumentCode.strStr_returns`). The reads of the
comparison are reads of `DocumentCode.arrayAt`, for which the NUL at the end of a
string is already out of bounds: the program does without it.
-/

namespace DocumentCode

open Prog

variable {σ : Type}

/-! ### The program -/

namespace strStr

/-- The body of the inner loop. The loop counts `index` with `j`. -/
def compare (haystack needle : CStr) (j index : ℤ) : C σ (ℤ ⊕ ℤ) := do
  if (← arrayAt haystack.chars index) ≠ (← arrayAt needle.chars j) then
    -- `index = -1; break;`
    return .inr (-1)
  else
    return .inl (← int (index + 1))

/-- The body of the outer loop. -/
def body (haystack needle : CStr) (hLen nLen i : ℤ) : C σ (Unit ⊕ ℤ) := do
  if (← arrayAt needle.chars 0) ≠ (← arrayAt haystack.chars i) then
    return .inl ()
  else if (← int (hLen - i)) < nLen then
    return .inr (-1)
  else
    let index := (← forLoop 0 nLen 1 (compare haystack needle) i).elim id id
    if index = -1 then
      return .inl ()
    else
      return .inr (← int (index - nLen))

end strStr

def strStr : Option CStr → Option CStr → C σ ℤ
  | some haystack, some needle => do
    if needle.strlen = 0 then
      return 0
    else
      let hLen := toInt haystack.strlen
      let nLen := toInt needle.strlen
      if nLen > hLen then
        return -1
      else
        match ← forLoop 0 hLen 1 (fun i _ => strStr.body haystack needle hLen nLen i) () with
        | .inl () => return -1
        | .inr r => return r
  | _, _ => return 0

/-! ### Occurrences -/

/-- The needle occurs in the haystack at the position `i`. -/
def OccursAt (needle haystack : List ℤ) (i : ℕ) : Prop := needle <+: haystack.drop i

instance (needle haystack : List ℤ) (i : ℕ) : Decidable (OccursAt needle haystack i) :=
  inferInstanceAs (Decidable (_ <+: _))

section Occurs

variable {needle haystack : List ℤ} {i k : ℕ}

/-- An occurrence ends before the haystack does. -/
theorem OccursAt.le_length (h : OccursAt needle haystack i) (hne : needle ≠ []) :
    i + needle.length ≤ haystack.length := by
  have hpos := List.length_pos_of_ne_nil hne
  have hle := h.length_le
  rw [List.length_drop] at hle
  omega

/-- An occurrence, character by character. -/
theorem occursAt_iff : OccursAt needle haystack i ↔
    ∀ k, k < needle.length → haystack[i + k]? = needle[k]? := by
  rw [OccursAt, List.prefix_iff_getElem?]
  refine forall₂_congr fun k hk => ?_
  rw [List.getElem?_drop, List.getElem?_eq_getElem hk]

end Occurs

/-! ### The loops -/

namespace strStr

section Loops

variable {haystack needle : CStr} {i : ℕ} {s : σ}

/-- **The comparison at `i`**: the cursor gets past the needle, or it becomes -1
and the needle does not occur there. -/
theorem compare_ensures (hi : i + needle.strlen ≤ haystack.strlen)
    (hh : haystack.strlen < 2 ^ 31) :
    (forLoop 0 needle.strlen 1 (compare haystack needle) i : C σ (ℤ ⊕ ℤ)).Ensures s
      (Sum.elim
        (fun index t => index = (i + needle.strlen : ℕ) ∧ t = s ∧
          OccursAt needle.chars haystack.chars i)
        (fun index t => index = -1 ∧ t = s ∧ ¬OccursAt needle.chars haystack.chars i)) := by
  have hn : needle.strlen < 2 ^ 31 := by omega
  refine (forLoop_range_ensures (I := fun j (index : ℤ) t => index = (i + j : ℕ) ∧
      t = s ∧ ∀ k < j, haystack.chars[i + k]? = needle.chars[k]?)
    (Q := fun index t => index = -1 ∧ t = s ∧ ¬OccursAt needle.chars haystack.chars i)
    hn ?_ ?_).mono ?_
  · rintro j _ t hj ⟨rfl, rfl, heq⟩
    have hj1 : j < needle.chars.length := hj
    have hj2 : i + j < haystack.chars.length := by
      have hlen : haystack.chars.length = haystack.strlen := rfl
      omega
    rw [compare, arrayAt_of_lt hj2, arrayAt_of_lt hj1, pure_bind, pure_bind]
    by_cases hc : haystack.chars[i + j] = needle.chars[j]
    · rw [if_neg (not_not.mpr hc)]
      have hint : (int (((i + j : ℕ) : ℤ) + 1)).Returns t ((i + j + 1 : ℕ) : ℤ) t :=
        int_succ_returns (by omega) t
      have hchar : haystack.chars[i + j]? = needle.chars[j]? := by
        rw [List.getElem?_eq_getElem hj2, List.getElem?_eq_getElem hj1, hc]
      exact hint.bind_ensures (.pure ⟨rfl, rfl, Nat.forall_lt_succ_right.mpr ⟨heq, hchar⟩⟩)
    · rw [if_pos hc]
      refine .pure ⟨rfl, rfl, fun hocc => hc ?_⟩
      have hk := occursAt_iff.mp hocc j hj1
      rw [List.getElem?_eq_getElem hj2, List.getElem?_eq_getElem hj1] at hk
      exact Option.some.inj hk
  · exact ⟨rfl, rfl, fun k hk => absurd hk (Nat.not_lt_zero k)⟩
  · rintro (index | index) t hr
    · exact ⟨hr.1, hr.2.1, occursAt_iff.mpr hr.2.2⟩
    · exact hr

/-- **One round**: the needle does not occur at `i`, or the answer is known. -/
theorem body_ensures (hi : i < haystack.strlen) (hne : needle.chars ≠ [])
    (hh : haystack.strlen < 2 ^ 31)
    (hnone : ∀ k < i, ¬OccursAt needle.chars haystack.chars k) :
    (body haystack needle haystack.strlen needle.strlen i : C σ (Unit ⊕ ℤ)).Ensures s
      (Sum.elim (fun _ t => t = s ∧ ¬OccursAt needle.chars haystack.chars i)
        (fun r t => t = s ∧ FirstIndex (OccursAt needle.chars haystack.chars) r)) := by
  have hn : 0 < needle.chars.length := List.length_pos_of_ne_nil hne
  have hfirst : (arrayAt needle.chars 0 : C σ ℤ) = pure needle.chars[0] := arrayAt_of_lt hn
  have hi1 : i < haystack.chars.length := hi
  rw [body, hfirst, arrayAt_of_lt hi1, pure_bind, pure_bind]
  by_cases hc : needle.chars[0] = haystack.chars[i]
  · rw [if_neg (not_not.mpr hc)]
    refine (int_returns s (by omega) (by omega)).bind_ensures ?_
    by_cases hshort : (haystack.strlen : ℤ) - i < needle.strlen
    · -- What is left is too short, here and further right.
      rw [if_pos hshort]
      refine .pure ⟨rfl, Or.inr ⟨rfl, fun k hk => ?_⟩⟩
      have hle : k + needle.strlen ≤ haystack.strlen := hk.le_length hne
      exact hnone k (by omega) hk
    · rw [if_neg hshort]
      refine (compare_ensures (by omega) hh).bind ?_
      rintro (index | index) t ⟨rfl, rfl, hocc⟩
      · rw [Sum.elim_inl, id, if_neg (by omega)]
        have hdiff : ((i + needle.strlen : ℕ) : ℤ) - needle.strlen = i := by omega
        rw [hdiff]
        exact (int_returns _ (by omega) (by omega)).bind_ensures
          (.pure ⟨rfl, Or.inl ⟨i, rfl, hocc, hnone⟩⟩)
      · rw [Sum.elim_inr, id, if_pos rfl]
        exact .pure ⟨rfl, hocc⟩
  · rw [if_pos hc]
    refine .pure ⟨rfl, fun hocc => hc ?_⟩
    have hk := occursAt_iff.mp hocc 0 hn
    rw [add_zero, List.getElem?_eq_getElem hn, List.getElem?_eq_getElem hi1] at hk
    exact (Option.some.inj hk).symm

end Loops

end strStr

/-- **`strStr` finds the first occurrence.** It answers a position exactly when
the needle occurs there and nowhere before, and -1 exactly when it occurs
nowhere; and it never reads at or behind the end of a string. -/
theorem strStr_returns {haystack needle : CStr} (hh : haystack.strlen < 2 ^ 31)
    (hn : needle.strlen < 2 ^ 31) (hne : needle.chars ≠ []) (s : σ) :
    ∃ r, (strStr (some haystack) (some needle)).Returns s r s ∧
      (∀ k e, (strStr (some haystack) (some needle)).run k s ≠ some (.error e)) ∧
      (r = -1 ↔ ∀ i, ¬OccursAt needle.chars haystack.chars i) ∧
      ∀ i : ℕ, r = i ↔ OccursAt needle.chars haystack.chars i ∧
        ∀ k < i, ¬OccursAt needle.chars haystack.chars k := by
  suffices hrun : (strStr (some haystack) (some needle)).Ensures s
      fun r t => t = s ∧ FirstIndex (OccursAt needle.chars haystack.chars) r by
    obtain ⟨r, t, hret, rfl, hfirst⟩ := hrun
    exact ⟨r, hret, hret.not_faults, hfirst.eq_neg_one_iff, fun i => hfirst.eq_natCast_iff⟩
  have hpos : needle.strlen ≠ 0 := (List.length_pos_of_ne_nil hne).ne'
  simp only [strStr, toInt_of_lt hh, toInt_of_lt hn]
  rw [if_neg hpos]
  by_cases hlen : (needle.strlen : ℤ) > haystack.strlen
  · rw [if_pos hlen]
    refine .pure ⟨rfl, Or.inr ⟨rfl, fun i hi => ?_⟩⟩
    have hle : i + needle.strlen ≤ haystack.strlen := hi.le_length hne
    omega
  · rw [if_neg hlen]
    refine (forLoop_range_ensures (I := fun i _ t => t = s ∧
        ∀ k < i, ¬OccursAt needle.chars haystack.chars k)
      (Q := fun r t => t = s ∧ FirstIndex (OccursAt needle.chars haystack.chars) r)
      hh ?_ ?_).bind ?_
    · rintro i ⟨⟩ _ hi ⟨rfl, hnone⟩
      refine (strStr.body_ensures hi hne hh hnone).mono ?_
      rintro (⟨⟩ | r) t ⟨rfl, hr⟩
      · exact ⟨rfl, Nat.forall_lt_succ_right.mpr ⟨hnone, hr⟩⟩
      · exact ⟨rfl, hr⟩
    · exact ⟨rfl, fun k hk => absurd hk (Nat.not_lt_zero k)⟩
    · rintro (⟨⟩ | r) t ⟨rfl, hr⟩
      · refine .pure ⟨rfl, Or.inr ⟨rfl, fun i hi => ?_⟩⟩
        have hle : i + needle.strlen ≤ haystack.strlen := hi.le_length hne
        exact hr i (by omega) hi
      · exact .pure ⟨rfl, hr⟩

/-- The call of the program's `main`: `strStr("hello", "ll")`. -/
theorem strStr_returns_main :
    (strStr (some (.lit [104, 101, 108, 108, 111])) (some (.lit [108, 108])) :
      C Unit ℤ).Returns () 2 () := by
  let haystack : CStr := .lit [104, 101, 108, 108, 111]
  let needle : CStr := .lit [108, 108]
  have hh : haystack.strlen < 2 ^ 31 := by decide
  have hn : needle.strlen < 2 ^ 31 := by decide
  obtain ⟨r, hret, -, -, hr⟩ := strStr_returns hh hn (List.cons_ne_nil _ _) ()
  have h2 : OccursAt needle.chars haystack.chars 2 := by decide
  obtain rfl : r = (2 : ℕ) := (hr 2).mpr ⟨h2, by decide⟩
  exact hret

end DocumentCode
