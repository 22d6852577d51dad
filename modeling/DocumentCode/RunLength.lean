import Mathlib.Data.List.Chain
import Mathlib.Data.List.Infix
import Mathlib.Data.List.Flatten
import Mathlib.Tactic.Common

/-!
# Runs

The maximal runs of a list, each with its length, and the list spelled out from
them: a run-length code, over any type of letters.

* Expanding the runs of a list gives the list back (`DocumentCode.RunLength.expand_runs`),
  and neighbouring runs are of different letters
  (`DocumentCode.RunLength.isChain_runs`).
* The runs of two lists put together are those of the two where the seam is not
  inside a run (`DocumentCode.RunLength.runs_append`).
* Spelled out, each run as its length and its letter, runs give a list in which no
  letter stands four times in a row (`DocumentCode.RunLength.count_le_three`): of
  any four places in a row two are the letters of neighbouring runs.
-/

namespace DocumentCode

namespace RunLength

variable {α β : Type}

/-! ### The runs of a list -/

section Runs

variable [DecidableEq α] [DecidableEq β]

/-- The runs with one more letter in front. -/
def push (a : α) : List (ℕ × α) → List (ℕ × α)
  | [] => [(1, a)]
  | (n, b) :: rs => if a = b then (n + 1, b) :: rs else (1, a) :: (n, b) :: rs

/-- **The maximal runs of a list.** -/
def runs : List α → List (ℕ × α)
  | [] => []
  | a :: as => push a (runs as)

/-- The list with the given runs. -/
def expand (rs : List (ℕ × α)) : List α := rs.flatMap fun r => List.replicate r.1 r.2

variable {a b : α} {as bs : List α} {rs : List (ℕ × α)} {r : ℕ × α}

@[simp] theorem runs_nil : runs ([] : List α) = [] := rfl

theorem runs_cons : runs (a :: as) = push a (runs as) := rfl

omit [DecidableEq α] in
@[simp] theorem expand_cons : expand (r :: rs) = List.replicate r.1 r.2 ++ expand rs := rfl

theorem push_eq (a : α) (rs : List (ℕ × α)) :
    ∃ n rest, push a rs = (n + 1, a) :: rest ∧ expand (push a rs) = a :: expand rs := by
  rcases rs with _ | ⟨⟨n, b⟩, rs⟩
  · exact ⟨0, [], rfl, rfl⟩
  · by_cases h : a = b
    · subst h
      exact ⟨n, rs, if_pos rfl, by rw [push, if_pos rfl, expand_cons, expand_cons]; rfl⟩
    · exact ⟨0, (n, b) :: rs, if_neg h, by rw [push, if_neg h]; rfl⟩

/-- **Expanding the runs gives the list back.** -/
theorem expand_runs (as : List α) : expand (runs as) = as := by
  induction as with
  | nil => rfl
  | cons a as ih =>
    obtain ⟨-, -, -, hexpand⟩ := push_eq a (runs as)
    rw [runs_cons, hexpand, ih]

/-- The first run of a list is of its first letter. -/
theorem exists_runs_cons (a : α) (as : List α) :
    ∃ n rest, runs (a :: as) = (n + 1, a) :: rest := by
  obtain ⟨n, rest, h, -⟩ := push_eq a (runs as)
  exact ⟨n, rest, h⟩

/-- **Neighbouring runs are of different letters.** -/
theorem isChain_runs (as : List α) : (runs as).IsChain (·.2 ≠ ·.2) := by
  induction as with
  | nil => exact List.isChain_nil
  | cons a as ih =>
    rw [runs_cons]
    rcases hrs : runs as with _ | ⟨⟨n, b⟩, rs⟩
    · exact List.isChain_singleton _
    · rw [hrs] at ih
      by_cases h : a = b
      · subst h
        rw [push, if_pos rfl]
        cases rs with
        | nil => exact List.isChain_singleton _
        | cons r rs =>
          rw [List.isChain_cons_cons] at ih ⊢
          exact ih
      · rw [push, if_neg h, List.isChain_cons_cons]
        exact ⟨h, ih⟩

/-- **The runs of two lists put together**, where the seam is not inside a run. -/
theorem runs_append (h : ∀ a ∈ as.getLast?, ∀ b ∈ bs.head?, a ≠ b) :
    runs (as ++ bs) = runs as ++ runs bs := by
  induction as with
  | nil => rfl
  | cons a as ih =>
    rcases as with _ | ⟨c, as⟩
    · -- the seam is between `a` and the first letter of `bs`
      rcases bs with _ | ⟨b, bs⟩
      · rfl
      · obtain ⟨n, rest, hrest⟩ := exists_runs_cons b bs
        have hab : a ≠ b := h a rfl b rfl
        rw [List.singleton_append, runs_cons, hrest, push, if_neg hab]
        rfl
    · have ih := ih fun a ha b hb => h a (by rwa [List.getLast?_cons_cons]) b hb
      obtain ⟨n, rest, hrest⟩ := exists_runs_cons c as
      rw [List.cons_append, runs_cons, ih, runs_cons (a := a), hrest, List.cons_append, push, push]
      split <;> rfl

/-- Renaming the letters renames them in the runs. -/
theorem runs_map {f : α → β} (hf : Function.Injective f) (as : List α) :
    runs (as.map f) = (runs as).map (Prod.map id f) := by
  induction as with
  | nil => rfl
  | cons a as ih =>
    rw [List.map_cons, runs_cons, ih, runs_cons]
    rcases runs as with _ | ⟨⟨n, b⟩, rs⟩
    · rfl
    · by_cases h : a = b
      · simp [push, h]
      · simp [push, h, hf.ne h]

omit [DecidableEq α] in
/-- A run is a stretch of the list. -/
theorem infix_expand_of_mem (h : r ∈ rs) : List.replicate r.1 r.2 <:+: expand rs := by
  obtain ⟨rs₁, rs₂, rfl⟩ := List.append_of_mem h
  exact ⟨expand rs₁, expand rs₂, by simp [expand]⟩

theorem infix_of_mem_runs (h : r ∈ runs as) : List.replicate r.1 r.2 <:+: as := by
  have hinfix := infix_expand_of_mem h
  rwa [expand_runs] at hinfix

theorem pos_of_mem_runs (h : r ∈ runs as) : 0 < r.1 := by
  induction as generalizing r with
  | nil => simp at h
  | cons a as ih =>
    rw [runs_cons] at h
    rcases hrs : runs as with _ | ⟨⟨n, b⟩, rs⟩
    · rw [hrs, push, List.mem_singleton] at h
      rw [h]
      exact Nat.one_pos
    · rw [hrs] at h ih
      rw [push] at h
      split at h
      · rcases List.mem_cons.mp h with rfl | h
        · exact Nat.succ_pos n
        · exact ih (List.mem_cons_of_mem _ h)
      · rcases List.mem_cons.mp h with rfl | h
        · exact Nat.one_pos
        · exact ih h

/-- The letter of a run is one of the list. -/
theorem mem_of_mem_runs (h : r ∈ runs as) : r.2 ∈ as :=
  (infix_of_mem_runs h).subset (List.mem_replicate.mpr ⟨(pos_of_mem_runs h).ne', rfl⟩)

end Runs

/-! ### Runs spelled out -/

section Spell

variable {digit : ℕ → α} {rs : List (ℕ × α)} {a : α}

/-- The runs spelled out: of each its length and its letter. -/
def spell (digit : ℕ → α) (rs : List (ℕ × α)) : List α := rs.flatMap fun r => [digit r.1, r.2]

@[simp] theorem spell_nil : spell digit [] = [] := rfl

@[simp] theorem spell_cons {r : ℕ × α} :
    spell digit (r :: rs) = digit r.1 :: r.2 :: spell digit rs := rfl

theorem spell_append {ss : List (ℕ × α)} :
    spell digit (rs ++ ss) = spell digit rs ++ spell digit ss := List.flatMap_append

theorem mem_spell : a ∈ spell digit rs ↔ ∃ r ∈ rs, a = digit r.1 ∨ a = r.2 := by
  simp [spell]

theorem length_spell : (spell digit rs).length = 2 * rs.length := by
  induction rs with
  | nil => rfl
  | cons r rs ih => simp [ih, Nat.mul_succ]

/-- The letter of the next run after one of `a` is not the second of the letters that
follow. -/
theorem not_prefix_spell {r : ℕ × α} (hchain : (r :: rs).IsChain (·.2 ≠ ·.2)) :
    ¬[a, r.2] <+: spell digit rs := by
  cases rs with
  | nil => simp
  | cons s rs =>
    rw [List.isChain_cons_cons] at hchain
    intro hpre
    rw [spell_cons, List.cons_prefix_cons, List.cons_prefix_cons] at hpre
    exact hchain.1 hpre.2.1

/-- **No letter stands four times in a row** in runs that are spelled out. -/
theorem not_replicate_four_infix (hchain : rs.IsChain (·.2 ≠ ·.2)) :
    ¬List.replicate 4 a <:+: spell digit rs := by
  induction rs with
  | nil => simp
  | cons r rs ih =>
    have hnot : ∀ c, ¬[c, r.2] <+: spell digit rs := fun c => not_prefix_spell hchain
    rw [spell_cons, List.infix_cons_iff, List.infix_cons_iff]
    rintro (hpre | hpre | hinfix)
    · -- the four places start with the length of the run
      obtain ⟨-, hpre⟩ := List.cons_prefix_cons.mp hpre
      obtain ⟨rfl, hpre⟩ := List.cons_prefix_cons.mp hpre
      exact hnot _ hpre
    · -- they start with its letter
      obtain ⟨rfl, hpre⟩ := List.cons_prefix_cons.mp hpre
      exact hnot _ ((List.prefix_append [r.2, r.2] [r.2]).trans hpre)
    · exact ih hchain.tail hinfix

/-- **The runs of what is spelled out are of at most three letters.** -/
theorem count_le_three [DecidableEq α] {r : ℕ × α} (hchain : rs.IsChain (·.2 ≠ ·.2))
    (hr : r ∈ runs (spell digit rs)) : r.1 ≤ 3 := by
  by_contra hlt
  push Not at hlt
  obtain ⟨k, hk⟩ := Nat.exists_eq_add_of_lt hlt
  have hpre : List.replicate 4 r.2 <+: List.replicate r.1 r.2 := by
    rw [hk, show 3 + k + 1 = 4 + k by omega, List.replicate_add]
    exact List.prefix_append _ _
  exact not_replicate_four_infix hchain (hpre.isInfix.trans (infix_of_mem_runs hr))

end Spell

end RunLength

end DocumentCode
