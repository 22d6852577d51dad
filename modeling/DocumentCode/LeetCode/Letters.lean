import DocumentCode.CArray
import DocumentCode.CString

/-!
# Letters

The programs that count letters do it in a table of 26 counters, one for each
letter from `'a'` to `'z'`, and reach the counter of a character by its distance
from `'a'`. On strings over these letters (`DocumentCode.Letters`) that distance is
a subscript of the table (`DocumentCode.letter_subscript`), and two letters with the
same one are the same (`DocumentCode.letter_injective`).
-/

namespace DocumentCode

/-- The string is over `'a'` to `'z'`. -/
def Letters (l : List ℤ) : Prop := ∀ c ∈ l, ch 'a' ≤ c ∧ c ≤ ch 'z'

instance (l : List ℤ) : Decidable (Letters l) := inferInstanceAs (Decidable (∀ c ∈ l, _))

/-- The `k`-th letter. -/
def letter (k : ℕ) : ℤ := ch 'a' + k

section Letters

variable {σ β : Type} {l : List ℤ} {c : ℤ} {i k : ℕ}

/-- A letter has an entry in the table. -/
theorem exists_letter (hl : Letters l) (hc : c ∈ l) : ∃ k < 26, c = letter k := by
  obtain ⟨h1, h2⟩ : 97 ≤ c ∧ c ≤ 122 := hl c hc
  refine ⟨(c - 97).toNat, by omega, ?_⟩
  have ha : ch 'a' = 97 := rfl
  rw [letter, ha]
  omega

theorem exists_getElem?_eq_letter (hl : Letters l) (hi : i < l.length) :
    ∃ k < 26, l[i]? = some (letter k) := by
  obtain ⟨k, hk, hc⟩ := exists_letter hl (List.getElem_mem hi)
  exact ⟨k, hk, by rw [List.getElem?_eq_getElem hi, hc]⟩

theorem take_add_one_of_eq_letter (hi : l[i]? = some (letter k)) :
    l.take (i + 1) = l.take i ++ [letter k] := by
  rw [List.take_add_one, hi]
  rfl

theorem letter_sub : letter k - ch 'a' = k := by
  rw [letter]
  omega

theorem letter_injective : Function.Injective letter := by
  intro j k h
  rw [letter, letter] at h
  omega

theorem count_concat_letter (j : ℕ) :
    (l ++ [letter k]).count (letter j) = l.count (letter j) + if j = k then 1 else 0 := by
  rw [List.count_append]
  rcases eq_or_ne j k with rfl | hne
  · rw [List.count_singleton_self, if_pos rfl]
  · have hmem : letter j ∉ [letter k] := fun h =>
      hne (letter_injective (List.mem_singleton.mp h))
    rw [List.count_eq_zero.mpr hmem, if_neg hne]

/-- **The counter of a letter** is reached by its distance from `'a'`. -/
theorem letter_subscript (hi : l[i]? = some (letter k)) (hk : k < 26) (f : ℤ → C σ β) :
    (do f (← int ((← arrayAt l i) - ch 'a'))) = f k := by
  rw [arrayAt_of_getElem? hi, Prog.pure_bind, letter_sub, int_natCast (by omega), Prog.pure_bind]

end Letters

end DocumentCode
