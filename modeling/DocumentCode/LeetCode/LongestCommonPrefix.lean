import DocumentCode.CArray
import DocumentCode.CString
import DocumentCode.ForLoop
import Mathlib.Data.List.Infix

/-!
# The longest common prefix

`DocumentCode.longestCommonPrefix` copies the first string into an array of 128
bytes and cuts it down, string by string, to what the two have in common. The
longest common prefix of two strings is their greatest lower bound in the prefix
order (`DocumentCode.prefix_common_iff`), so cutting down one string after the
other leaves that of all of them (`DocumentCode.prefix_lcp_iff`).

A string shorter than what is left is not read past its end: the NUL there
differs from every character of the candidate, so the comparison stops at it
(`DocumentCode.longestCommonPrefix.scan_ends`). Nothing of the kind protects the
array the first string is copied to, and the two halves of the development are
what this comes to: with at most 127 characters in the first string the result is
the longest common prefix (`DocumentCode.longestCommonPrefix_returns`), and an
access is out of bounds exactly when there are more
(`DocumentCode.longestCommonPrefix_inBounds_iff`).
-/

namespace DocumentCode

open Prog

/-! ### The program -/

namespace longestCommonPrefix

/-- The 128 bytes `malloc(128)` hands out, with whatever is in them. -/
abbrev Block : Type := {b : List ℤ // b.length = 128}

/-- A round of the inner loop, and what becomes of `j` after it. -/
def scan (currentStr : CStr) (count : ℤ) : ℤ → C (List ℤ) (ℤ ⊕ ℤ)
  | j => do
    if j < count then
      if (← load j) ≠ (← currentStr.get j) then
        return .inr j
      else
        return .inl (← int (j + 1))
    else
      return .inr j

/-- The body of the outer loop. -/
def body (strs : List CStr) (i count : ℤ) : C (List ℤ) (ℤ ⊕ List ℤ) := do
  let currentStr ← arrayAt strs i
  if count = 0 then
    return .inr []
  else
    let j ← loop (scan currentStr count) 0
    store j 0
    return .inl j

end longestCommonPrefix

/-- `temp` is the state, `malloc` what `malloc(128)` gives, and the value the
string the returned pointer points to. -/
def longestCommonPrefix (malloc : Option longestCommonPrefix.Block) (strs : List CStr)
    (strsSize : ℤ) : C (List ℤ) (List ℤ) :=
  match malloc with
  | none => Prog.fault .nullDeref
  | some block => do
    Prog.set block.1
    memset 0 128
    if strsSize = 0 then
      return []
    else
      strcpy (← arrayAt strs 0)
      let count := toInt (← bufLen)
      match ← forLoop 0 strsSize 1 (longestCommonPrefix.body strs) count with
      | .inl _ => return bufStr (← Prog.get)
      | .inr r => return r

/-! ### Common prefixes -/

section Common

variable {p q r : List ℤ} {s : CStr} {strs : List CStr}

/-- The longest common prefix of two strings. -/
def common : List ℤ → List ℤ → List ℤ
  | x :: p, y :: q => if x = y then x :: common p q else []
  | _, _ => []

theorem common_nil_left : common [] q = [] := by
  cases q <;> rfl

theorem common_nil_right : common p [] = [] := by
  cases p <;> rfl

theorem common_cons_of_eq {x : ℤ} : common (x :: p) (x :: q) = x :: common p q := if_pos rfl

theorem common_cons_of_ne {x y : ℤ} (h : x ≠ y) : common (x :: p) (y :: q) = [] := if_neg h

/-- **The longest common prefix of two strings is their greatest lower bound** in
the prefix order. -/
theorem prefix_common_iff : r <+: common p q ↔ r <+: p ∧ r <+: q := by
  induction p generalizing q r with
  | nil =>
    rw [common_nil_left, iff_self_and]
    intro h
    rw [List.prefix_nil.mp h]
    exact List.nil_prefix
  | cons x p ih =>
    cases q with
    | nil =>
      rw [common_nil_right, iff_and_self]
      intro h
      rw [List.prefix_nil.mp h]
      exact List.nil_prefix
    | cons y q =>
      cases r with
      | nil => simp
      | cons z r =>
        rcases eq_or_ne x y with rfl | hne
        · rw [common_cons_of_eq, List.cons_prefix_cons, List.cons_prefix_cons,
            List.cons_prefix_cons, ih]
          tauto
        · rw [common_cons_of_ne hne, List.prefix_nil, List.cons_prefix_cons, List.cons_prefix_cons]
          constructor
          · intro h
            cases h
          · rintro ⟨⟨rfl, -⟩, rfl, -⟩
            exact absurd rfl hne

theorem common_prefix_left : common p q <+: p := (prefix_common_iff.mp (List.prefix_refl _)).1

/-- What is left of the candidate `p` after the strings. -/
def commonAll (p : List ℤ) (strs : List CStr) : List ℤ :=
  strs.foldl (fun p s => common p s.chars) p

theorem prefix_commonAll_iff :
    r <+: commonAll p strs ↔ r <+: p ∧ ∀ s ∈ strs, r <+: s.chars := by
  induction strs generalizing p with
  | nil => simp [commonAll]
  | cons s strs ih =>
    rw [commonAll, List.foldl_cons]
    refine ih.trans ?_
    rw [prefix_common_iff, List.forall_mem_cons, and_assoc]

theorem commonAll_concat : commonAll p (strs ++ [s]) = common (commonAll p strs) s.chars := by
  rw [commonAll, List.foldl_append]
  rfl

theorem commonAll_isPrefix : commonAll p strs <+: p :=
  (prefix_commonAll_iff.mp (List.prefix_refl _)).1

/-- **The longest common prefix of some strings**: nothing where there are none. -/
def lcp : List CStr → List ℤ
  | [] => []
  | s :: strs => commonAll s.chars (s :: strs)

/-- It is a common prefix, and every common prefix is a prefix of it. -/
theorem prefix_lcp_iff (hne : strs ≠ []) : r <+: lcp strs ↔ ∀ s ∈ strs, r <+: s.chars := by
  obtain ⟨s, strs, rfl⟩ := List.exists_cons_of_ne_nil hne
  rw [lcp, prefix_commonAll_iff, and_iff_right_iff_imp]
  exact fun h => h s List.mem_cons_self

/-- Once the candidate is empty it stays so. -/
theorem commonAll_eq_nil_of_take {n : ℕ} (h : commonAll p (strs.take n) = []) :
    commonAll p strs = [] := by
  rw [← List.prefix_nil, ← h, prefix_commonAll_iff]
  exact ⟨commonAll_isPrefix, fun s hs =>
    (prefix_commonAll_iff.mp (List.prefix_refl _)).2 s (List.mem_of_mem_take hs)⟩

end Common

/-! ### The loops -/

namespace longestCommonPrefix

section Loops

variable {strs : List CStr} {currentStr : CStr} {p q as rest : List ℤ}

/-- A round of the comparison. -/
theorem scan_round {st : List ℤ} {j count : ℕ} {x y : ℤ} (hj : j < count) (hint : count < 2 ^ 31)
    (hload : (load j).Returns st x st) (hget : (currentStr.get j : C (List ℤ) ℤ) = pure y) :
    (scan currentStr count j).Returns st
      (if x = y then .inl ((j + 1 : ℕ) : ℤ) else .inr (j : ℤ)) st := by
  rw [scan, if_pos (Int.ofNat_lt.mpr hj)]
  refine .bind hload ?_
  rw [hget, pure_bind]
  by_cases hxy : x = y
  · rw [if_neg (not_not.mpr hxy), if_pos hxy]
    exact .bind (int_succ_returns (by omega) _) (Returns.pure _ _)
  · rw [if_pos hxy, if_neg hxy]
    exact Returns.pure _ _

/-- **The comparison** of the candidate with a string, after the part `as` the
two have in common. The string may end before the candidate does: the NUL that is
read then is none of its characters. -/
theorem scan_ends (hs : currentStr.chars = as ++ q) (h0 : 0 ∉ p)
    (hlen : as.length + p.length < 2 ^ 31) :
    LoopEnds (scan currentStr (as.length + p.length : ℕ)) as.length (as ++ p ++ 0 :: rest)
      (.ok ((as.length + (common p q).length : ℕ), as ++ p ++ 0 :: rest)) := by
  induction p generalizing as q with
  | nil =>
    refine .leave ?_
    rw [scan, if_neg (by simp), common_nil_left]
    exact Returns.pure _ _
  | cons x p ih =>
    have hst : as ++ x :: p ++ 0 :: rest = as ++ x :: (p ++ 0 :: rest) := by simp
    have hlt : as.length < as.length + (x :: p).length := by simp
    have hload : (load as.length).Returns (as ++ x :: p ++ 0 :: rest) x
        (as ++ x :: p ++ 0 :: rest) := by
      rw [hst]
      exact load_append
    rcases q with _ | ⟨y, q⟩
    · -- The string has come to its end.
      have hx : x ≠ 0 := fun hx => h0 (hx ▸ List.mem_cons_self)
      have hround := scan_round hlt hlen hload (CStr.get_append hs)
      rw [List.headD_nil, if_neg hx] at hround
      rw [common_nil_right]
      exact .leave hround
    · rcases eq_or_ne x y with rfl | hne
      · have hst' : as ++ [x] ++ p ++ 0 :: rest = as ++ x :: p ++ 0 :: rest := by simp
        have hL := ih (q := q) (show currentStr.chars = as ++ [x] ++ q by simpa using hs)
          (fun h => h0 (List.mem_cons_of_mem _ h)) (by simp at hlen ⊢; omega)
        have hcount : (as ++ [x]).length + p.length = as.length + (x :: p).length := by
          simp
          omega
        have hres : (as ++ [x]).length + (common p q).length =
            as.length + (common (x :: p) (x :: q)).length := by
          rw [common_cons_of_eq]
          simp
          omega
        rw [hst', hcount, hres, List.length_append, List.length_singleton] at hL
        have hround := scan_round hlt hlen hload (CStr.get_cons hs)
        rw [if_pos rfl] at hround
        exact .next hround hL
      · have hround := scan_round hlt hlen hload (CStr.get_cons hs)
        rw [if_neg hne] at hround
        rw [common_cons_of_ne hne]
        exact .leave hround

/-- The array and the counter when the candidate is `p`. -/
structure Holds (p : List ℤ) (count : ℤ) (buf : List ℤ) : Prop where
  /-- The candidate, and its NUL. -/
  str : ∃ rest, buf = p ++ 0 :: rest
  /-- There is no NUL in the candidate. -/
  zero_notMem : 0 ∉ p
  /-- The counter is its length. -/
  count_eq : count = p.length
  /-- It fits into the array. -/
  length_lt : p.length < 128

/-- **One string**: the candidate is cut down to what it has in common with it. -/
theorem body_returns {i : ℕ} {count : ℤ} {buf : List ℤ} (hi : strs[i]? = some currentStr)
    (h : Holds p count buf) (hp : p ≠ []) :
    ∃ buf', (body strs i count).Returns buf (.inl (common p currentStr.chars).length) buf' ∧
      Holds (common p currentStr.chars) (common p currentStr.chars).length buf' := by
  obtain ⟨⟨rest, rfl⟩, h0, rfl, hlen⟩ := h
  obtain ⟨t, ht⟩ := common_prefix_left (p := p) (q := currentStr.chars)
  obtain ⟨x, rest', hx⟩ : ∃ x rest', t ++ 0 :: rest = x :: rest' := by
    cases t with
    | nil => exact ⟨0, rest, rfl⟩
    | cons x t => exact ⟨x, t ++ 0 :: rest, rfl⟩
  have hst : p ++ 0 :: rest = common p currentStr.chars ++ x :: rest' := by
    rw [← hx, ← List.append_assoc, ht]
  have hscan : (loop (scan currentStr p.length) 0).Returns (p ++ 0 :: rest)
      (common p currentStr.chars).length (p ++ 0 :: rest) := by
    have hL : LoopEnds (scan currentStr (([] : List ℤ).length + p.length : ℕ)) 0
        ([] ++ p ++ 0 :: rest) (.ok ((([] : List ℤ).length +
          (common p currentStr.chars).length : ℕ), [] ++ p ++ 0 :: rest)) :=
      scan_ends rfl h0 (by simp; omega)
    simpa using hL.ends
  refine ⟨common p currentStr.chars ++ 0 :: rest', ?_, ⟨rest', rfl⟩, ?_, rfl, ?_⟩
  · rw [body, arrayAt_of_getElem? hi, pure_bind, if_neg (by simpa using hp)]
    refine .bind hscan ?_
    rw [hst]
    exact .bind store_append (Returns.pure _ _)
  · exact fun h => h0 (common_prefix_left.subset h)
  · have hle := (common_prefix_left (p := p) (q := currentStr.chars)).length_le
    omega

end Loops

end longestCommonPrefix

/-! ### The call -/

section Correctness

variable {block : longestCommonPrefix.Block} {strs : List CStr} {buf : List ℤ}

open longestCommonPrefix

/-- The first string is copied into an array of zeros. -/
theorem memset_block_returns :
    (memset 0 128).Returns block.1 () (List.replicate 128 0) := by
  have h : (memset 0 128).Returns block.1 () (List.replicate 128 0 ++ block.1.drop 128) :=
    memset_returns (by rw [block.2])
  rwa [List.drop_eq_nil_of_le (by rw [block.2]), List.append_nil] at h

/-- **The loop over the strings**, the first of which has been copied. -/
theorem loop_ensures {s : CStr} {count : ℤ} (hlen : strs.length < 2 ^ 31)
    (h : Holds s.chars count buf) :
    (forLoop 0 strs.length 1 (body strs) count).Ensures buf
      (Sum.elim (fun count buf' => Holds (commonAll s.chars strs) count buf')
        (fun r _ => r = [] ∧ commonAll s.chars strs = [])) := by
  refine (forLoop_range_ensures
    (I := fun i count buf' => Holds (commonAll s.chars (strs.take i)) count buf')
    (Q := fun r _ => r = [] ∧ commonAll s.chars strs = []) hlen ?_ h).mono ?_
  · intro i count buf' hi hI
    have hget : strs[i]? = some strs[i] := List.getElem?_eq_getElem hi
    by_cases hnil : commonAll s.chars (strs.take i) = []
    · -- Nothing is left in common: the function returns.
      have hcount : count = 0 := by
        rw [hI.count_eq, hnil]
        rfl
      rw [body, arrayAt_of_getElem? hget, pure_bind, if_pos hcount]
      exact .pure ⟨rfl, commonAll_eq_nil_of_take hnil⟩
    · obtain ⟨buf'', hret, hI'⟩ := body_returns hget hI hnil
      refine hret.ensures ?_
      rw [← commonAll_concat] at hI'
      rw [Sum.elim_inl, List.take_add_one, hget, Option.toList_some, ← commonAll_concat]
      exact hI'
  · rintro (count | r) buf' hr
    · rw [Sum.elim_inl, List.take_length] at hr
      exact hr
    · exact hr

variable (block buf)

/-- With at most 127 characters in the first string the call returns. -/
theorem longestCommonPrefix_ends (hlen : strs.length < 2 ^ 31)
    (hfirst : ∀ s ∈ strs.head?, s.strlen ≤ 127) :
    ∃ buf', (longestCommonPrefix (some block) strs strs.length).Returns buf (lcp strs) buf' := by
  rcases strs with _ | ⟨s, strs⟩
  · exact ⟨_, .bind (Returns.set buf block.1) (.bind memset_block_returns (Returns.pure _ _))⟩
  · have hs : s.strlen < 128 := Nat.lt_succ_of_le (hfirst s rfl)
    have h0 : 0 ∉ s.chars := fun h => s.ne_nul 0 h rfl
    have hcopy : (strcpy s).Returns (List.replicate 128 0) ()
        (s.chars ++ 0 :: (List.replicate 128 0).drop (s.strlen + 1)) :=
      strcpy_returns (by rw [List.length_replicate]; exact hs)
    have hholds : Holds s.chars s.strlen
        (s.chars ++ 0 :: (List.replicate 128 0).drop (s.strlen + 1)) :=
      ⟨⟨_, rfl⟩, h0, rfl, hs⟩
    obtain ⟨r, buf', hret, hr⟩ := loop_ensures hlen hholds
    have hcall : (longestCommonPrefix (some block) (s :: strs) (s :: strs).length).Ensures buf
        fun p _ => p = lcp (s :: strs) := by
      refine (Returns.set buf block.1).bind_ensures (memset_block_returns.bind_ensures ?_)
      rw [if_neg (by rw [List.length_cons]; omega)]
      have hat : (arrayAt (s :: strs) 0 : C (List ℤ) CStr) = pure s := rfl
      rw [hat, Prog.pure_bind]
      refine hcopy.bind_ensures ((bufLen_returns h0).bind_ensures ?_)
      have htoInt : toInt s.chars.length = s.strlen := toInt_of_lt (lt_trans hs (by decide))
      rw [htoInt]
      refine hret.bind_ensures ?_
      rcases r with count | r
      · obtain ⟨⟨rest, rfl⟩, h0', -, -⟩ := hr
        refine (Returns.get _).bind_ensures (.pure ?_)
        exact bufStr_append h0'
      · obtain ⟨rfl, hnil⟩ := hr
        exact .pure hnil.symm
    obtain ⟨p, buf', hret, rfl⟩ := hcall
    exact ⟨buf', hret⟩

/-- **A first string of 128 characters or more is copied past the end** of the
array. -/
theorem longestCommonPrefix_faults {s : CStr} (hs : 128 ≤ s.strlen) :
    (longestCommonPrefix (some block) (s :: strs) (s :: strs).length).Faults buf .outOfBounds := by
  refine .bind (Returns.set buf block.1) (.bind memset_block_returns ?_)
  rw [if_neg (by rw [List.length_cons]; omega)]
  have hat : (arrayAt (s :: strs) 0 : C (List ℤ) CStr) = pure s := rfl
  rw [hat, Prog.pure_bind]
  exact .bind_fault (strcpy_faults (by rw [List.length_replicate]; exact hs))

/-- **`longestCommonPrefix` returns the longest common prefix**, the empty string
where there are no strings. -/
theorem longestCommonPrefix_returns (hlen : strs.length < 2 ^ 31)
    (hfirst : ∀ s ∈ strs.head?, s.strlen ≤ 127) :
    ∃ p buf', (longestCommonPrefix (some block) strs strs.length).Returns buf p buf' ∧
      (strs = [] → p = []) ∧
      (strs ≠ [] → (∀ s ∈ strs, p <+: s.chars) ∧
        ∀ q, (∀ s ∈ strs, q <+: s.chars) → q <+: p) := by
  obtain ⟨buf', hret⟩ := longestCommonPrefix_ends block buf hlen hfirst
  refine ⟨lcp strs, buf', hret, ?_, fun hne => ⟨?_, fun q => (prefix_lcp_iff hne).mpr⟩⟩
  · rintro rfl
    rfl
  · exact (prefix_lcp_iff hne).mp (List.prefix_refl _)

end Correctness

/-- The strings of the program's `main`: "flower", "" and "flight". -/
def longestCommonPrefix.mainStrs : List CStr :=
  [.lit [102, 108, 111, 119, 101, 114], .lit [], .lit [102, 108, 105, 103, 104, 116]]

/-- A block of zeros. -/
def longestCommonPrefix.zeroBlock : longestCommonPrefix.Block :=
  ⟨List.replicate 128 0, List.length_replicate⟩

theorem longestCommonPrefix_returns_main :
    ∃ buf', (longestCommonPrefix (some longestCommonPrefix.zeroBlock)
      longestCommonPrefix.mainStrs 3).Returns [] [] buf' := by
  obtain ⟨p, buf', hret, -, hp⟩ := longestCommonPrefix_returns longestCommonPrefix.zeroBlock []
    (by decide : longestCommonPrefix.mainStrs.length < 2 ^ 31) (by
      rintro s hs
      obtain rfl := Option.some.inj hs
      decide)
  have hnil : p <+: [] := (hp (List.cons_ne_nil _ _)).1 (.lit [])
    (List.mem_cons_of_mem _ List.mem_cons_self)
  obtain rfl := List.prefix_nil.mp hnil
  exact ⟨buf', hret⟩

section Bounds

variable {strs : List CStr}

/-- **Every access is in bounds exactly when the first string has at most 127
characters**, if there is one. -/
theorem longestCommonPrefix_inBounds_iff (block : longestCommonPrefix.Block) (buf : List ℤ)
    (hlen : strs.length < 2 ^ 31) :
    (∀ k, (longestCommonPrefix (some block) strs strs.length).run k buf ≠
        some (.error .outOfBounds)) ↔
      ∀ s ∈ strs.head?, s.strlen ≤ 127 := by
  constructor
  · intro h
    by_contra hc
    rcases strs with _ | ⟨s, strs⟩
    · exact hc fun s hs => by cases hs
    · have hs : 128 ≤ s.strlen := by
        by_contra hs
        exact hc fun t ht => by
          obtain rfl : s = t := Option.some.inj ht
          omega
      obtain ⟨N, hN⟩ := (longestCommonPrefix_faults block buf hs).enough
      exact h N (hN N le_rfl)
  · intro h k
    obtain ⟨buf', hret⟩ := longestCommonPrefix_ends block buf hlen h
    exact hret.not_faults k _

end Bounds

theorem longestCommonPrefix_inBounds_iff_main :
    (∀ s ∈ longestCommonPrefix.mainStrs.head?, s.strlen ≤ 127) ∧
      ∀ k, (longestCommonPrefix (some longestCommonPrefix.zeroBlock) longestCommonPrefix.mainStrs
        longestCommonPrefix.mainStrs.length).run k [] ≠ some (.error .outOfBounds) := by
  have hfirst : ∀ s ∈ longestCommonPrefix.mainStrs.head?, s.strlen ≤ 127 := by
    intro s hs
    obtain rfl := Option.some.inj hs
    decide
  exact ⟨hfirst, (longestCommonPrefix_inBounds_iff _ _ (by decide)).mpr hfirst⟩

/-- A string of 128 times the letter `a`. -/
def longestCommonPrefix.longStr : CStr where
  chars := List.replicate 128 97
  inChar c hc := by
    rw [List.eq_of_mem_replicate hc]
    decide
  ne_nul c hc := by
    rw [List.eq_of_mem_replicate hc]
    decide

/-- A first string of 128 characters. -/
theorem longestCommonPrefix_not_inBounds :
    ¬∀ k, (longestCommonPrefix (some longestCommonPrefix.zeroBlock)
      [longestCommonPrefix.longStr] 1).run k [] ≠ some (.error .outOfBounds) := by
  intro h
  have hlen : longestCommonPrefix.longStr.strlen = 128 := List.length_replicate
  have hfault : (longestCommonPrefix (some longestCommonPrefix.zeroBlock)
      [longestCommonPrefix.longStr] 1).Faults [] .outOfBounds :=
    longestCommonPrefix_faults longestCommonPrefix.zeroBlock [] hlen.ge
  obtain ⟨N, hN⟩ := hfault.enough
  exact h N (hN N le_rfl)

end DocumentCode
