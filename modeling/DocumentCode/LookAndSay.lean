import DocumentCode.RunLength
import Mathlib.Logic.Function.Iterate
import Mathlib.Algebra.BigOperators.Group.List.Basic
import Mathlib.Algebra.Ring.Nat

/-!
# Look and say

The words 1, 11, 21, 1211, 111221, …: each says the runs of the one before
(`DocumentCode.LookAndSay.term`), so that no run is of more than three digits
(`DocumentCode.LookAndSay.runs_term`).

How long the words are is read off from their elements: parts which, read aloud
again and again, never run into the part beside them
(`DocumentCode.LookAndSay.Elements`). A word that falls into elements decays into
elements, each on its own (`DocumentCode.LookAndSay.Elements.say_words`), and
its length after `n` rounds is the sum of theirs
(`DocumentCode.LookAndSay.Elements.length_decays`). From 1113213211 on the words
of the sequence fall into the 92 elements of `DocumentCode.LookAndSay.table`, and
so the 79th word is the last one of fewer than 2³¹ digits
(`DocumentCode.LookAndSay.length_term_lt`,
`DocumentCode.LookAndSay.le_length_term`).
-/

namespace DocumentCode

namespace LookAndSay

open RunLength

/-! ### Reading aloud -/

/-- **A word read aloud**: of each run its length and its digit. -/
def say (w : List ℕ) : List ℕ := spell id (runs w)

/-- **The words of the sequence**, the first one having the number 0. -/
def term : ℕ → List ℕ
  | 0 => [1]
  | n + 1 => say (term n)

theorem term_succ (n : ℕ) : term (n + 1) = say (term n) := rfl

/-- Words on both sides of a seam that is not inside a run are read apart. -/
theorem say_append {v w : List ℕ} (h : ∀ a ∈ v.getLast?, ∀ b ∈ w.head?, a ≠ b) :
    say (v ++ w) = say v ++ say w := by
  rw [say, runs_append h, spell_append]
  rfl

/-- **The runs of the sequence** are of one to three digits. -/
theorem runs_term (n : ℕ) {r : ℕ × ℕ} (hr : r ∈ runs (term n)) : 0 < r.1 ∧ r.1 ≤ 3 := by
  refine ⟨pos_of_mem_runs hr, ?_⟩
  cases n with
  | zero =>
    obtain rfl : r = (1, 1) := List.mem_singleton.mp hr
    decide
  | succ n => exact count_le_three (isChain_runs (term n)) hr

/-- **The digits of the sequence** are 1, 2 and 3. -/
theorem mem_term (n : ℕ) {d : ℕ} (hd : d ∈ term n) : 1 ≤ d ∧ d ≤ 3 := by
  induction n with
  | zero =>
    obtain rfl : d = 1 := List.mem_singleton.mp hd
    decide
  | succ n ih =>
    obtain ⟨r, hr, rfl | rfl⟩ := mem_spell.mp hd
    · exact runs_term n hr
    · exact ih (mem_of_mem_runs hr)

/-! ### Elements -/

/-- **Elements**: words which decay, when they are read aloud, into words of the
same kind, and a relation that says which of them may follow which. Neighbours
are no part of one run, and what they decay into are neighbours again. -/
structure Elements (K : Type) where
  /-- The digits of an element. -/
  word : K → List ℕ
  /-- What it decays into. -/
  decay : K → List K
  /-- The second may follow the first. -/
  Follow : K → K → Prop
  word_ne_nil : ∀ k, word k ≠ []
  decay_ne_nil : ∀ k, decay k ≠ []
  say_word : ∀ k, say (word k) = (decay k).flatMap word
  seam : ∀ {j k}, Follow j k → ∀ a ∈ (word j).getLast?, ∀ b ∈ (word k).head?, a ≠ b
  isChain_decay : ∀ k, (decay k).IsChain Follow
  follow_decay : ∀ {j k}, Follow j k →
    ∀ i ∈ (decay j).getLast?, ∀ l ∈ (decay k).head?, Follow i l

namespace Elements

variable {K : Type} (E : Elements K) {ks : List K}

/-- The digits of a row of elements. -/
def words (ks : List K) : List ℕ := ks.flatMap E.word

/-- What a row of elements decays into. -/
def decays (ks : List K) : List K := ks.flatMap E.decay

/-- The number of digits of an element after `n` rounds of decay. -/
def len (n : ℕ) : K → ℕ := (fun f k => ((E.decay k).map f).sum)^[n] fun k => (E.word k).length

/-- The first letter of the words of a row is that of the first one. -/
theorem head?_flatMap {β : Type} {f : K → List β} (hf : ∀ k, f k ≠ []) (k : K) (ks : List K) :
    ((k :: ks).flatMap f).head? = (f k).head? := by
  rw [List.flatMap_cons, List.head?_append_of_ne_nil _ (hf k)]

/-- **A row of elements is read aloud** element by element. -/
theorem say_words (h : ks.IsChain E.Follow) : say (E.words ks) = E.words (E.decays ks) := by
  induction ks with
  | nil => rfl
  | cons k ks ih =>
    -- what follows starts as the element next to `k` does
    have hseam : ∀ a ∈ (E.word k).getLast?, ∀ b ∈ (E.words ks).head?, a ≠ b := by
      cases ks with
      | nil => simp [words]
      | cons l ks =>
        rw [words, head?_flatMap E.word_ne_nil]
        exact E.seam (List.isChain_cons_cons.mp h).1
    have hhead : E.words (k :: ks) = E.word k ++ E.words ks := rfl
    have hdecays : E.decays (k :: ks) = E.decay k ++ E.decays ks := rfl
    rw [hhead, say_append hseam, ih h.tail, E.say_word, hdecays, words, words, List.flatMap_append]

/-- **What a row of elements decays into** is such a row. -/
theorem isChain_decays (h : ks.IsChain E.Follow) : (E.decays ks).IsChain E.Follow := by
  induction ks with
  | nil => exact List.isChain_nil
  | cons k ks ih =>
    have hdecays : E.decays (k :: ks) = E.decay k ++ E.decays ks := rfl
    rw [hdecays, List.isChain_append]
    refine ⟨E.isChain_decay k, ih h.tail, ?_⟩
    cases ks with
    | nil => simp [decays]
    | cons l ks =>
      rw [decays, head?_flatMap E.decay_ne_nil]
      exact E.follow_decay (List.isChain_cons_cons.mp h).1

/-- **The words after `n` rounds** are those of the elements after `n` rounds. -/
theorem iterate_say_words (h : ks.IsChain E.Follow) (n : ℕ) :
    say^[n] (E.words ks) = E.words (E.decays^[n] ks) := by
  induction n generalizing ks with
  | zero => rfl
  | succ n ih =>
    rw [Function.iterate_succ_apply, Function.iterate_succ_apply, E.say_words h,
      ih (E.isChain_decays h)]

theorem len_succ (n : ℕ) (k : K) : E.len (n + 1) k = ((E.decay k).map (E.len n)).sum := by
  rw [len, Function.iterate_succ_apply']
  rfl

/-- **The length after `n` rounds** is the sum of the elements' lengths. -/
theorem length_decays (n : ℕ) (ks : List K) :
    (E.words (E.decays^[n] ks)).length = (ks.map (E.len n)).sum := by
  induction n generalizing ks with
  | zero => exact List.length_flatMap
  | succ n ih =>
    rw [Function.iterate_succ_apply, ih, decays]
    -- the sums over the rows the elements decay into
    induction ks with
    | nil => rfl
    | cons k ks ih =>
      rw [List.flatMap_cons, List.map_append, List.sum_append, ih, List.map_cons, List.sum_cons,
        len_succ]

end Elements

/-! ### The elements of the sequence -/

/-- **The elements the sequence falls into**, each with its digits and the numbers
of the elements it decays into. -/
def table : List (List ℕ × List (Fin 92)) := [
  ([1, 1, 1, 3, 2], [2]),
  ([1, 3, 2, 1, 1], [3]),
  ([3, 1, 1, 3, 1, 2], [4]),
  ([1, 1, 1, 3, 1, 2, 2, 1], [5]),
  ([1, 3, 2, 1, 1, 3, 1, 1, 1, 2], [6]),
  ([3, 1, 1, 3, 1, 1, 2, 2, 1, 1], [7]),
  ([1, 1, 1, 3, 1, 2, 2, 1, 1, 3, 3, 1, 1, 2], [8, 9, 10]),
  ([1, 3, 2, 1, 1, 3, 2, 1, 2, 2, 2, 1], [11]),
  ([3, 1, 1, 3, 1, 1, 2, 2, 2], [12, 13]),
  ([1, 2], [14]),
  ([3, 2, 1, 1, 2], [15]),
  ([1, 1, 1, 3, 1, 2, 2, 1, 1, 3, 1, 2, 1, 1, 3, 2, 1, 1], [16]),
  ([1, 3, 2, 1, 1, 3, 2], [17]),
  ([1, 3, 2], [18]),
  ([1, 1, 1, 2], [19]),
  ([1, 3, 1, 2, 2, 1, 1, 2], [20]),
  ([3, 1, 1, 3, 1, 1, 2, 2, 2, 1, 1, 3, 1, 1, 1, 2, 2, 1, 1, 3, 1, 2, 2, 1], [12, 21]),
  ([1, 1, 1, 3, 1, 2, 2, 1, 1, 3, 1, 2], [22]),
  ([1, 1, 1, 3, 1, 2], [23]),
  ([3, 1, 1, 2], [24]),
  ([1, 1, 1, 3, 1, 1, 2, 2, 2, 1, 1, 2], [25, 26]),
  ([1, 3, 2, 2, 1, 1, 3, 3, 1, 2, 2, 2, 1, 1, 3, 1, 1, 2, 2, 1, 1], [27, 9, 28]),
  ([3, 1, 1, 3, 1, 1, 2, 2, 2, 1, 1, 3, 1, 1, 1, 2], [12, 29]),
  ([3, 1, 1, 3, 1, 1, 1, 2], [30]),
  ([1, 3, 2, 1, 1, 2], [31]),
  ([3, 1, 1, 3, 2], [32]),
  ([1, 3, 2, 2, 1, 1, 2], [33]),
  ([1, 1, 1, 3, 2, 2, 2], [34]),
  ([3, 1, 1, 3, 2, 2, 1, 1, 3, 2, 1, 2, 2, 2, 1], [35]),
  ([1, 3, 2, 2, 1, 1, 3, 3, 1, 1, 2], [27, 9, 10]),
  ([1, 3, 2, 1, 1, 3, 3, 1, 1, 2], [36, 37, 9, 10]),
  ([1, 1, 1, 3, 1, 2, 2, 1, 1, 2], [38]),
  ([1, 3, 2, 1, 1, 3, 1, 2], [39]),
  ([1, 1, 1, 3, 2, 2, 2, 1, 1, 2], [40]),
  ([3, 1, 1, 3, 3, 2], [13, 9, 41]),
  ([1, 3, 2, 1, 1, 3, 2, 2, 2, 1, 1, 3, 1, 2, 1, 1, 3, 2, 1, 1], [42]),
  ([1, 1, 1, 3, 1], [43]),
  ([2, 2], [37]),
  ([3, 1, 1, 3, 1, 1, 2, 2, 2, 1, 1, 2], [12, 26]),
  ([1, 1, 1, 3, 1, 2, 2, 1, 1, 3, 1, 1, 1, 2], [44]),
  ([3, 1, 1, 3, 3, 2, 2, 1, 1, 2], [13, 45]),
  ([3, 1, 2], [46]),
  ([1, 1, 1, 3, 1, 2, 2, 1, 1, 3, 3, 2, 2, 1, 1, 3, 1, 1, 1, 2, 2, 1, 1, 3, 1, 2, 2, 1], [8, 47]),
  ([3, 1, 1, 3, 1, 1], [48]),
  ([3, 1, 1, 3, 1, 1, 2, 2, 2, 1, 1, 3, 3, 1, 1, 2], [12, 49, 37, 9, 10]),
  ([1, 2, 3, 2, 2, 2, 1, 1, 2], [50]),
  ([1, 3, 1, 1, 1, 2], [51]),
  ([1, 2, 3, 2, 2, 2, 1, 1, 3, 3, 1, 2, 2, 2, 1, 1, 3, 1, 1, 2, 2, 1, 1], [52, 37, 9, 28]),
  ([1, 3, 2, 1, 1, 3, 2, 1], [53]),
  ([1, 3], [54]),
  ([1, 1, 1, 2, 1, 3, 3, 2, 2, 1, 1, 2], [55]),
  ([1, 1, 1, 3, 3, 1, 1, 2], [41, 10]),
  ([1, 1, 1, 2, 1, 3, 3], [56, 57]),
  ([1, 1, 1, 3, 1, 2, 2, 1, 1, 3, 1, 2, 1, 1], [58]),
  ([1, 1, 1, 3], [59]),
  ([3, 1, 1, 2, 1, 1, 2, 3, 2, 2, 2, 1, 1, 2], [60]),
  ([3, 1, 1, 2, 1, 1, 2], [61]),
  ([3], [49]),
  ([3, 1, 1, 3, 1, 1, 2, 2, 2, 1, 1, 3, 1, 1, 1, 2, 2, 1], [12, 62]),
  ([3, 1, 1, 3], [63]),
  ([1, 3, 2, 1, 1, 2, 2, 1, 1, 2, 1, 3, 3, 2, 2, 1, 1, 2], [64]),
  ([1, 3, 2, 1, 1, 2, 2, 1, 1, 2], [65]),
  ([1, 3, 2, 2, 1, 1, 3, 3, 1, 2, 2, 1, 1], [27, 9, 66]),
  ([1, 3, 2, 1, 1, 3], [67]),
  ([1, 1, 1, 3, 1, 2, 2, 1, 2, 2, 2, 1, 1, 2, 1, 1, 2, 3, 2, 2, 2, 1, 1, 2], [68]),
  ([1, 1, 1, 3, 1, 2, 2, 1, 2, 2, 2, 1, 1, 2], [69]),
  ([3, 1, 1, 2, 2, 2, 1], [13, 1]),
  ([1, 1, 1, 3, 1, 2, 2, 1, 1, 3], [70]),
  ([3, 1, 1, 3, 1, 1, 2, 2, 1, 1, 3, 2, 2, 1, 1, 2, 2, 1, 1, 2, 1, 3, 3, 2, 2, 1, 1, 2], [71]),
  ([3, 1, 1, 3, 1, 1, 2, 2, 1, 1, 3, 2, 2, 1, 1, 2], [72]),
  ([3, 1, 1, 3, 1, 1, 2, 2, 2, 1, 1, 3], [12, 73]),
  ([1, 3, 2, 1, 1, 3, 2, 1, 2, 2, 2, 1, 1, 3, 2, 2, 2, 1, 2, 2, 2, 1, 1, 2, 1, 1, 2, 3, 2, 2,
    2, 1, 1, 2], [74]),
  ([1, 3, 2, 1, 1, 3, 2, 1, 2, 2, 2, 1, 1, 3, 2, 2, 2, 1, 1, 2], [75]),
  ([1, 3, 2, 2, 1, 1, 3], [76]),
  ([1, 1, 1, 3, 1, 2, 2, 1, 1, 3, 1, 2, 1, 1, 3, 2, 2, 1, 1, 3, 3, 2, 1, 1, 3, 2, 2, 1, 1, 2,
    2, 1, 1, 2, 1, 3, 3, 2, 2, 1, 1, 2], [77, 9, 78]),
  ([1, 1, 1, 3, 1, 2, 2, 1, 1, 3, 1, 2, 1, 1, 3, 2, 2, 1, 1, 3, 3, 2, 2, 1, 1, 2], [77, 45]),
  ([1, 1, 1, 3, 2, 2, 2, 1, 1, 3], [79]),
  ([3, 1, 1, 3, 1, 1, 2, 2, 2, 1, 1, 3, 1, 1, 1, 2, 2, 1, 1, 3, 2, 2, 2], [12, 80]),
  ([3, 1, 2, 2, 1, 1, 3, 2, 2, 2, 1, 2, 2, 2, 1, 1, 2, 1, 1, 2, 3, 2, 2, 2, 1, 1, 2], [81]),
  ([3, 1, 1, 3, 3, 2, 2, 1, 1, 3], [13, 82]),
  ([1, 3, 2, 2, 1, 1, 3, 3, 1, 2, 2, 2, 1, 1, 3, 3, 2], [27, 9, 59, 37, 9, 41]),
  ([1, 3, 1, 1, 2, 2, 2, 1, 1, 3, 3, 2, 1, 1, 3, 2, 2, 1, 1, 2, 2, 1, 1, 2, 1, 3, 3, 2, 2, 1,
    1, 2], [0, 49, 37, 9, 78]),
  ([1, 2, 3, 2, 2, 2, 1, 1, 3], [83]),
  ([1, 1, 1, 2, 1, 3, 3, 2, 2, 1, 1, 3], [84]),
  ([3, 1, 1, 2, 1, 1, 2, 3, 2, 2, 2, 1, 1, 3], [85]),
  ([1, 3, 2, 1, 1, 2, 2, 1, 1, 2, 1, 3, 3, 2, 2, 1, 1, 3], [86]),
  ([1, 1, 1, 3, 1, 2, 2, 1, 2, 2, 2, 1, 1, 2, 1, 1, 2, 3, 2, 2, 2, 1, 1, 3], [87]),
  ([3, 1, 1, 3, 1, 1, 2, 2, 1, 1, 3, 2, 2, 1, 1, 2, 2, 1, 1, 2, 1, 3, 3, 2, 2, 1, 1, 3], [88]),
  ([1, 3, 2, 1, 1, 3, 2, 1, 2, 2, 2, 1, 1, 3, 2, 2, 2, 1, 2, 2, 2, 1, 1, 2, 1, 1, 2, 3, 2, 2,
    2, 1, 1, 3], [89]),
  ([1, 1, 1, 3, 1, 2, 2, 1, 1, 3, 1, 2, 1, 1, 3, 2, 2, 1, 1, 3, 3, 2, 1, 1, 3, 2, 2, 1, 1, 2,
    2, 1, 1, 2, 1, 3, 3, 2, 2, 1, 1, 3], [77, 9, 90]),
  ([3, 1, 2, 2, 1, 1, 3, 2, 2, 2, 1, 2, 2, 2, 1, 1, 2, 1, 1, 2, 3, 2, 2, 2, 1, 1, 3], [91]),
  ([1, 3, 1, 1, 2, 2, 2, 1, 1, 3, 3, 2, 1, 1, 3, 2, 2, 1, 1, 2, 2, 1, 1, 2, 1, 3, 3, 2, 2, 1,
    1, 3], [0, 49, 37, 9, 90])]

/-- The digits of an element. -/
def word (k : Fin 92) : List ℕ := (table.getD k ([], [])).1

/-- The elements it decays into. -/
def decay (k : Fin 92) : List (Fin 92) := (table.getD k ([], [])).2

/-- The first element it decays into. -/
def lead (k : Fin 92) : Fin 92 := (decay k).headD k

/-- The last element it decays into. -/
def trail (k : Fin 92) : Fin 92 := (decay k).getLastD k

/-- The first digits an element shows as it decays: from the third round on they
come again. -/
def firsts (k : Fin 92) : List ℕ := [k, lead k, lead (lead k)].map fun k => (word k).headD 0

/-- An element may follow one whose last digit it never begins with. -/
def Follow (j k : Fin 92) : Prop := (word j).getLastD 0 ∉ firsts k

instance : DecidableRel Follow := fun j k =>
  inferInstanceAs (Decidable ((word j).getLastD 0 ∉ firsts k))

/-- The last digit of an element stays the last one. -/
theorem getLastD_trail : ∀ k, (word (trail k)).getLastD 0 = (word k).getLastD 0 := by
  decide +kernel

/-- An element that has decayed begins as it did, or as it will. -/
theorem firsts_lead : ∀ k, ∀ a ∈ firsts (lead k), a ∈ firsts k := by
  decide +kernel

section Ends

variable {α : Type} {a b : α} {as : List α}

theorem headD_of_mem_head? (h : a ∈ as.head?) : as.headD b = a := by
  rw [List.headD_eq_head?_getD, Option.mem_def.mp h, Option.getD_some]

theorem getLastD_of_mem_getLast? (h : a ∈ as.getLast?) : as.getLastD b = a := by
  rw [List.getLastD_eq_getLast?, Option.mem_def.mp h, Option.getD_some]

end Ends

/-- **The elements of the sequence.** -/
def elements : Elements (Fin 92) where
  word := word
  decay := decay
  Follow := Follow
  word_ne_nil := by decide +kernel
  decay_ne_nil := by decide +kernel
  say_word := by decide +kernel
  seam := by
    intro j k h a ha b hb hab
    have hfirst : (word k).headD 0 ∈ firsts k := List.mem_cons_self
    rw [headD_of_mem_head? hb, ← hab, ← getLastD_of_mem_getLast? (b := 0) ha] at hfirst
    exact h hfirst
  isChain_decay := by decide +kernel
  follow_decay := by
    intro j k h i hi l hl hmem
    have htrail : trail j = i := getLastD_of_mem_getLast? hi
    have hlead : lead k = l := headD_of_mem_head? hl
    rw [← htrail, ← hlead, getLastD_trail] at hmem
    exact h (firsts_lead k _ hmem)

theorem words_start : elements.words [0, 1] = term 7 := by decide +kernel

/-- **The length of the words**, from the one that falls into elements on. -/
theorem length_term (n : ℕ) : (term (7 + n)).length = elements.len n 0 + elements.len n 1 := by
  have hiterate : ∀ n, term (7 + n) = say^[n] (term 7) := by
    intro n
    induction n with
    | zero => rfl
    | succ n ih => rw [Function.iterate_succ_apply', ← ih, ← add_assoc, term_succ]
  have hchain : [0, 1].IsChain elements.Follow := 
    List.isChain_pair.mpr (show Follow 0 1 by decide)
  rw [hiterate, ← words_start, elements.iterate_say_words hchain, elements.length_decays]
  rfl

theorem len_lt : ∀ n < 72, elements.len n 0 + elements.len n 1 < 2 ^ 31 := by decide +kernel

theorem le_len : 2 ^ 31 ≤ elements.len 72 0 + elements.len 72 1 := by decide +kernel

/-- **The first 79 words are of fewer than 2³¹ digits.** -/
theorem length_term_lt {n : ℕ} (hn : n < 79) : (term n).length < 2 ^ 31 := by
  by_cases h : n < 7
  · have hsmall : ∀ n < 7, (term n).length < 2 ^ 31 := by decide
    exact hsmall n h
  · obtain ⟨m, rfl⟩ := Nat.exists_eq_add_of_le (not_lt.mp h)
    rw [length_term]
    exact len_lt m (by omega)

/-- **The 80th word is of more.** -/
theorem le_length_term : 2 ^ 31 ≤ (term 79).length := by
  rw [show 79 = 7 + 72 from rfl, length_term]
  exact le_len

end LookAndSay

end DocumentCode
