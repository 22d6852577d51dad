import DocumentCode.CArray
import DocumentCode.ForLoop
import Mathlib.Tactic.Linarith

/-!
# Adding one to a number

`DocumentCode.plusOne` adds one to a number that is given by its decimal digits,
the most significant first. It works from the last digit to the first, and the
one to be added is a carry into the last digit: what it computes is a recursion on
the digits with that carry at its end (`DocumentCode.plusOne.inc`,
`DocumentCode.plusOne.carry`), which the loop runs backwards
(`DocumentCode.plusOne.round_ends`). The sum is right digit by digit
(`DocumentCode.plusOne.value_inc`).

A carry out of the first digit needs an array with one place more, to which the
digits are copied; it happens exactly when every digit is 9
(`DocumentCode.plusOne.carry_eq_one_iff`). Room for that array is asked for in any case,
and the `int` expression for its size is what keeps the number of digits below
2147483647 (`DocumentCode.plusOne_returns`).
-/

namespace DocumentCode

open Prog

namespace plusOne

/-! ### The program -/

/-- `malloc` for an array of `int`s. -/
structure Malloc where
  /-- The array of `n` `int`s that is handed out, with whatever is in it. -/
  alloc : ℕ → Option (List ℤ)
  /-- It has the size that was asked for. -/
  length_alloc : ∀ n b, alloc n = some b → b.length = n

/-- What the function can write to: the array it is given, the one it has
allocated, if it got it, and the place of the size. -/
structure Mem where
  digits : List ℤ
  block : Option (List ℤ)
  returnSize : ℤ

/-- The pointers the function can return. -/
inductive ArrayPtr
  /-- `digits` -/
  | digits
  /-- What `malloc` gave. -/
  | block

/-- The array a pointer points to. -/
def Mem.array (m : Mem) : ArrayPtr → List ℤ
  | .digits => m.digits
  | .block => m.block.getD []

/-- `digits[i]` -/
def loadDigit (i : ℤ) : C Mem ℤ := do arrayAt (← Prog.get).digits i

/-- `digits[i] = x;` -/
def storeDigit (i x : ℤ) : C Mem Unit := do
  let m ← Prog.get
  Prog.set { m with digits := ← arraySet m.digits i x }

/-- `retArray[i] = x;` -/
def storeBlock (i x : ℤ) : C Mem Unit := do
  let m ← Prog.get
  match m.block with
  | none => Prog.fault .nullDeref
  | some b => Prog.set { m with block := some (← arraySet b i x) }

/-- `*returnSize = x;` -/
def storeSize (x : ℤ) : C Mem Unit := do Prog.set { ← Prog.get with returnSize := x }

/-- What `currentData` becomes in a round. -/
def currentData (digitsSize i temp : ℤ) : C Mem ℤ := do
  if i = (← int (digitsSize - 1)) then
    int ((← int ((← loadDigit i) + 1)) + temp)
  else
    int ((← loadDigit i) + temp)

/-- A round of the loop over the digits, on `i` and `temp`. -/
def round (digitsSize : ℤ) : ℤ × ℤ → C Mem ((ℤ × ℤ) ⊕ ℤ)
  | (i, temp) => do
    if i ≥ 0 then
      let currentData ← currentData digitsSize i temp
      storeDigit i (currentData.tmod 10)
      return .inl (← int (i - 1), currentData.tdiv 10)
    else
      return .inr temp

/-- What follows the loop over the digits. -/
def finish (digitsSize temp : ℤ) : C Mem ArrayPtr := do
  if temp = 1 then
    storeSize (← int (digitsSize + 1))
    forAll 0 digitsSize 1 (fun i _ => do storeBlock (← int (i + 1)) (← loadDigit i)) ()
    storeBlock 0 1
    return .block
  else
    return .digits

end plusOne

open plusOne in
def plusOne (m : Malloc) (digitsSize : ℤ) : C Mem ArrayPtr := do
  let retArray := m.alloc (toSize (← int (digitsSize + 1)))
  Prog.set { ← Prog.get with block := retArray }
  let i ← int (digitsSize - 1)
  storeSize digitsSize
  let temp ← loop (round digitsSize) (i, 0)
  finish digitsSize temp

namespace plusOne

/-! ### The sum -/

/-- The carry out of the digits, one being added at their end. -/
def carry : List ℤ → ℤ
  | [] => 1
  | d :: ds => (d + carry ds) / 10

/-- The digits of the sum. -/
def inc : List ℤ → List ℤ
  | [] => []
  | d :: ds => (d + carry ds) % 10 :: inc ds

/-- The number the digits write, the most significant first. -/
def value : List ℤ → ℤ
  | [] => 0
  | d :: ds => d * 10 ^ ds.length + value ds

/-- Decimal digits. -/
def Digits (ds : List ℤ) : Prop := ∀ d ∈ ds, 0 ≤ d ∧ d ≤ 9

instance (ds : List ℤ) : Decidable (Digits ds) := inferInstanceAs (Decidable (∀ d ∈ ds, _))

section Sum

variable {d : ℤ} {ds es : List ℤ}

theorem digits_cons : Digits (d :: ds) ↔ (0 ≤ d ∧ d ≤ 9) ∧ Digits ds := List.forall_mem_cons

@[simp] theorem length_inc : (inc ds).length = ds.length := by
  induction ds with
  | nil => rfl
  | cons d ds ih => rw [inc, List.length_cons, ih, List.length_cons]

theorem carry_bounds (h : Digits ds) : 0 ≤ carry ds ∧ carry ds ≤ 1 := by
  induction ds with
  | nil => exact ⟨zero_le_one, le_rfl⟩
  | cons d ds ih =>
    obtain ⟨hd, hds⟩ := digits_cons.mp h
    have hc := ih hds
    rw [carry]
    omega

/-- **There is a carry out of the digits exactly when they are all 9.** -/
theorem carry_eq_one_iff (h : Digits ds) : carry ds = 1 ↔ ∀ d ∈ ds, d = 9 := by
  induction ds with
  | nil => exact iff_of_true rfl fun d hd => absurd hd List.not_mem_nil
  | cons d ds ih =>
    obtain ⟨hd, hds⟩ := digits_cons.mp h
    have hc := carry_bounds hds
    rw [List.forall_mem_cons, ← ih hds, carry]
    omega

theorem carry_eq_zero_iff (h : Digits ds) : carry ds = 0 ↔ ¬∀ d ∈ ds, d = 9 := by
  have hc := carry_bounds h
  rw [← carry_eq_one_iff h]
  omega

theorem digits_inc (h : Digits ds) : Digits (inc ds) := by
  induction ds with
  | nil => exact h
  | cons d ds ih =>
    obtain ⟨hd, hds⟩ := digits_cons.mp h
    have hc := carry_bounds hds
    exact digits_cons.mpr ⟨by omega, ih hds⟩

/-- **The sum is right.** -/
theorem value_inc (ds : List ℤ) : carry ds * 10 ^ ds.length + value (inc ds) = value ds + 1 := by
  induction ds with
  | nil => rfl
  | cons d ds ih =>
    have hdiv := Int.mul_ediv_add_emod (d + carry ds) 10
    rw [carry, inc, value, value, List.length_cons, length_inc, pow_succ]
    calc (d + carry ds) / 10 * (10 ^ ds.length * 10) +
            ((d + carry ds) % 10 * 10 ^ ds.length + value (inc ds))
        = (10 * ((d + carry ds) / 10) + (d + carry ds) % 10) * 10 ^ ds.length +
            value (inc ds) := by ring
      _ = d * 10 ^ ds.length + (carry ds * 10 ^ ds.length + value (inc ds)) := by
          rw [hdiv]
          ring
      _ = d * 10 ^ ds.length + value ds + 1 := by rw [ih, add_assoc]

/-- Without a carry the first digit does not become less. -/
theorem head_inc_ne_zero (h : Digits (d :: ds)) (hc : carry (d :: ds) = 0)
    (hd : d ≠ 0 ∨ ds = []) : (d + carry ds) % 10 ≠ 0 := by
  obtain ⟨hd0, hds⟩ := digits_cons.mp h
  have hb := carry_bounds hds
  rw [carry] at hc
  rcases hd with hd | rfl
  · omega
  · have hnil : carry [] = 1 := rfl
    omega

end Sum

/-! ### The loops -/

section Loops

variable {m : Mem} {ds es as cs b : List ℤ} {x y d : ℤ}

theorem loadDigit_returns (h : m.digits = as ++ x :: cs) :
    (loadDigit as.length).Returns m x m := by
  refine .bind (Returns.get m) ?_
  rw [h, arrayAt_append]
  exact Returns.pure _ _

theorem storeDigit_returns (h : m.digits = as ++ x :: cs) :
    (storeDigit as.length y).Returns m () { m with digits := as ++ y :: cs } := by
  refine .bind (Returns.get m) ?_
  rw [h, arraySet_append]
  exact Returns.set _ _

theorem storeBlock_returns (h : m.block = some (as ++ x :: cs)) :
    (storeBlock as.length y).Returns m () { m with block := some (as ++ y :: cs) } := by
  refine .bind (Returns.get m) ?_
  rw [h]
  change (arraySet (as ++ x :: cs) as.length y >>= _).Returns _ _ _
  rw [arraySet_append]
  exact Returns.set _ _

theorem storeSize_returns : (storeSize y).Returns m () { m with returnSize := y } :=
  .bind (Returns.get m) (Returns.set _ _)

/-- The variable `temp` when the digits `es` have been dealt with: the one that is
added at the end is not kept in it. -/
def temp : List ℤ → ℤ
  | [] => 0
  | d :: ds => carry (d :: ds)

theorem currentData_returns (hm : m.digits = ds ++ d :: inc es) (hd : 0 ≤ d ∧ d ≤ 9)
    (hes : Digits es) (hlen : ds.length + 1 + es.length < 2 ^ 31) :
    (currentData (ds.length + 1 + es.length : ℕ) ds.length (temp es)).Returns m
      (d + carry es) m := by
  have hc := carry_bounds hes
  have hload := loadDigit_returns hm
  refine .bind (int_pred_returns hlen m) ?_
  cases es with
  | nil =>
    -- The last digit, to which the one is added.
    rw [if_pos (by simp)]
    refine .bind hload (.bind (int_returns m (by omega) (by omega)) ?_)
    have hcarry : d + 1 + temp [] = d + carry [] := add_zero _
    rw [hcarry]
    exact int_returns m (by omega) (by omega)
  | cons e es =>
    have htemp : temp (e :: es) = carry (e :: es) := rfl
    rw [if_neg (by simp; omega), htemp]
    exact .bind hload (int_returns m (by omega) (by omega))

/-- A round of the loop over the digits. -/
theorem round_returns (hm : m.digits = ds ++ d :: inc es) (hd : 0 ≤ d ∧ d ≤ 9) (hes : Digits es)
    (hlen : ds.length + 1 + es.length < 2 ^ 31) :
    (round (ds.length + 1 + es.length : ℕ) (ds.length, temp es)).Returns m
      (.inl (ds.length - 1, temp (d :: es))) { m with digits := ds ++ inc (d :: es) } := by
  have hc := carry_bounds hes
  have hdiv : temp (d :: es) = (d + carry es).tdiv 10 :=
    (Int.tdiv_eq_ediv_of_nonneg (by omega)).symm
  have hmod : inc (d :: es) = (d + carry es).tmod 10 :: inc es := by
    rw [inc, Int.tmod_eq_emod_of_nonneg (by omega)]
  rw [hdiv, hmod, round, if_pos (Int.natCast_nonneg _)]
  refine .bind (currentData_returns hm hd hes hlen) (.bind (storeDigit_returns hm) ?_)
  exact .bind (int_pred_returns (by omega) _) (Returns.pure _ _)

/-- **The loop over the digits** adds the carry of those behind to those before. -/
theorem round_ends (ds es : List ℤ) (m : Mem) (hm : m.digits = ds ++ inc es)
    (hds : Digits (ds ++ es)) (hlen : ds.length + es.length < 2 ^ 31) :
    LoopEnds (round (ds.length + es.length : ℕ)) (ds.length - 1, temp es) m
      (.ok (temp (ds ++ es), { m with digits := inc (ds ++ es) })) := by
  induction ds using List.reverseRecOn generalizing es m with
  | nil =>
    have heq : { m with digits := inc ([] ++ es) } = m := by
      rw [List.nil_append, ← List.nil_append (inc es), ← hm]
    rw [heq]
    refine .leave ?_
    rw [round, if_neg (by simp)]
    exact Returns.pure _ _
  | append_singleton ds d ih =>
    rw [List.append_assoc, List.singleton_append] at hm hds ⊢
    have hdes : Digits (d :: es) := fun x hx => hds x (List.mem_append_right _ hx)
    obtain ⟨hd, hes⟩ := digits_cons.mp hdes
    have hsize : (ds ++ [d]).length + es.length = ds.length + 1 + es.length := by simp
    have hi : ((ds ++ [d]).length : ℤ) - 1 = ds.length := by simp
    rw [hsize] at hlen ⊢
    rw [hi]
    refine .next (round_returns hm hd hes hlen) ?_
    have hsize' : ds.length + (d :: es).length = ds.length + 1 + es.length := by simp; omega
    have hL := ih (d :: es) { m with digits := ds ++ inc (d :: es) } rfl hds (by omega)
    rwa [hsize'] at hL

/-- **The digits are copied** behind the first place of the new array. -/
theorem copy_returns {n : ℤ} (hb : b.length = ds.length) (hlen : ds.length + 1 < 2 ^ 31) :
    (forAll 0 ds.length 1 (fun i _ => do storeBlock (← int (i + 1)) (← loadDigit i)) ()).Returns
      ⟨ds, some (x :: b), n⟩ () ⟨ds, some (x :: ds), n⟩ := by
  refine (forAll_range_ensures (I := fun i _ t => t = ⟨ds, some (x :: ds.take i ++ b.drop i), n⟩)
    (by omega) ?_ rfl).returns ?_
  · rintro i ⟨⟩ _ hi rfl
    have hsplit : ds = ds.take i ++ ds[i] :: ds.drop (i + 1) := by
      rw [List.getElem_cons_drop, List.take_append_drop]
    have hdrop : b.drop i = b[i] :: b.drop (i + 1) := List.drop_eq_getElem_cons _
    have hilen : (ds.take i).length = i := List.length_take_of_le hi.le
    have hlist : x :: ds.take i ++ ds[i] :: b.drop (i + 1) =
        x :: ds.take (i + 1) ++ b.drop (i + 1) := by
      rw [List.take_add_one, List.getElem?_eq_getElem hi, Option.toList_some, List.cons_append,
        List.cons_append, List.append_assoc, List.singleton_append]
    have hload : (loadDigit (ds.take i).length).Returns
        ⟨ds, some (x :: ds.take i ++ b.drop i), n⟩ ds[i]
        ⟨ds, some (x :: ds.take i ++ b.drop i), n⟩ := loadDigit_returns hsplit
    have hstore : (storeBlock (x :: ds.take i).length ds[i]).Returns
        ⟨ds, some (x :: ds.take i ++ b.drop i), n⟩ ()
        ⟨ds, some (x :: ds.take i ++ ds[i] :: b.drop (i + 1)), n⟩ :=
      storeBlock_returns (by rw [hdrop])
    rw [hilen] at hload
    rw [List.length_cons, hilen, hlist] at hstore
    exact (int_succ_returns (by omega) _).bind_ensures (hload.bind_ensures (hstore.ensures rfl))
  · rintro ⟨⟩ _ rfl
    rw [List.take_length, ← hb, List.drop_length, List.append_nil]
    exact ⟨rfl, rfl⟩

end Loops

end plusOne

/-! ### The call -/

section Correctness

open plusOne

variable {m : Malloc} {t : Mem}

/-- The call, up to the end of the loop over the digits. -/
theorem plusOne_ends {r : Except Fault (ArrayPtr × Mem)} (hne : t.digits ≠ [])
    (hd : Digits t.digits) (hlen : t.digits.length + 1 < 2 ^ 31)
    (hr : (finish t.digits.length (carry t.digits)).Ends ⟨inc t.digits,
      m.alloc (t.digits.length + 1), t.digits.length⟩ r) :
    (plusOne m t.digits.length).Ends t r := by
  have hsize : toSize (t.digits.length + 1 : ℕ) = t.digits.length + 1 :=
    toSize_natCast (lt_trans hlen (by decide))
  refine .bind (int_succ_returns hlen t) ?_
  rw [hsize]
  refine .bind (Returns.get t) (.bind (Returns.set t _) ?_)
  refine .bind (int_pred_returns (by omega) _) (.bind storeSize_returns ?_)
  have hL := round_ends t.digits []
    ⟨t.digits, m.alloc (t.digits.length + 1), t.digits.length⟩ (List.append_nil _).symm
    (by rwa [List.append_nil]) (by rw [List.length_nil]; omega)
  rw [List.append_nil, List.length_nil, Nat.add_zero] at hL
  have htemp : temp t.digits = carry t.digits := by
    obtain ⟨d, ds, hcons⟩ := List.exists_cons_of_ne_nil hne
    rw [hcons]
    rfl
  rw [htemp] at hL
  exact .bind hL.ends hr

/-- **Without a carry** the digits are changed in place. -/
theorem plusOne_returns_digits (hne : t.digits ≠ []) (hd : Digits t.digits)
    (hlen : t.digits.length + 1 < 2 ^ 31) (hc : carry t.digits = 0) :
    (plusOne m t.digits.length).Returns t .digits
      ⟨inc t.digits, m.alloc (t.digits.length + 1), t.digits.length⟩ := by
  refine plusOne_ends hne hd hlen ?_
  rw [hc, finish, if_neg zero_ne_one]
  exact Returns.pure _ _

/-- **With a carry** the digits go to the new array, behind a one. -/
theorem plusOne_returns_block {b : List ℤ} (hne : t.digits ≠ []) (hd : Digits t.digits)
    (hlen : t.digits.length + 1 < 2 ^ 31) (hc : carry t.digits = 1)
    (hm : m.alloc (t.digits.length + 1) = some b) :
    (plusOne m t.digits.length).Returns t .block
      ⟨inc t.digits, some (1 :: inc t.digits), t.digits.length + 1⟩ := by
  have hb := m.length_alloc _ _ hm
  obtain ⟨x, b, rfl⟩ := List.exists_cons_of_ne_nil
    (List.ne_nil_of_length_pos (by omega : 0 < b.length))
  refine plusOne_ends hne hd hlen ?_
  rw [hc, hm, finish, if_pos rfl]
  refine .bind (int_succ_returns hlen _) (.bind storeSize_returns ?_)
  have hblen : b.length = (inc t.digits).length := by
    rw [length_inc]
    simpa using hb
  have hcopy : (forAll 0 (inc t.digits).length 1
      (fun i _ => do storeBlock (← int (i + 1)) (← loadDigit i)) ()).Returns
      ⟨inc t.digits, some (x :: b), t.digits.length + 1⟩ ()
      ⟨inc t.digits, some (x :: inc t.digits), t.digits.length + 1⟩ :=
    copy_returns hblen (by rwa [length_inc])
  have hfirst : (storeBlock ([] : List ℤ).length 1).Returns
      ⟨inc t.digits, some ([] ++ x :: inc t.digits), t.digits.length + 1⟩ ()
      ⟨inc t.digits, some ([] ++ 1 :: inc t.digits), t.digits.length + 1⟩ :=
    storeBlock_returns rfl
  rw [length_inc] at hcopy
  exact .bind hcopy (.bind hfirst (Returns.pure _ _))

/-- What the result is to be: the number one greater, in one place more exactly if
all digits are 9, and without a zero in front unless there was one. -/
structure plusOne.IsSucc (digits result : List ℤ) : Prop where
  decimal : Digits result
  value_eq : value result = value digits + 1
  length_eq : result.length = digits.length ∨ result.length = digits.length + 1
  longer_iff : result.length = digits.length + 1 ↔ ∀ d ∈ digits, d = 9
  head_ne : digits.head? ≠ some 0 ∨ digits = [0] → result.head? ≠ some 0

theorem plusOne.isSucc_inc {ds : List ℤ} (hne : ds ≠ []) (hd : Digits ds) (hc : carry ds = 0) :
    IsSucc ds (inc ds) where
  decimal := digits_inc hd
  value_eq := by
    rw [← value_inc, hc, zero_mul, zero_add]
  length_eq := Or.inl length_inc
  longer_iff := by
    rw [length_inc]
    exact iff_of_false (by omega) ((carry_eq_zero_iff hd).mp hc)
  head_ne := by
    obtain ⟨d, ds, rfl⟩ := List.exists_cons_of_ne_nil hne
    intro h
    have hhead : d ≠ 0 ∨ ds = [] := by
      rcases h with h | h
      · exact Or.inl fun hd0 => h (by rw [hd0]; rfl)
      · exact Or.inr (List.cons.inj h).2
    intro h0
    exact head_inc_ne_zero hd hc hhead (Option.some.inj h0)

theorem plusOne.isSucc_cons_inc {ds : List ℤ} (hd : Digits ds) (hc : carry ds = 1) :
    IsSucc ds (1 :: inc ds) where
  decimal := digits_cons.mpr ⟨by decide, digits_inc hd⟩
  value_eq := by
    rw [← value_inc, hc, value, length_inc]
  length_eq := Or.inr (by rw [List.length_cons, length_inc])
  longer_iff := by
    rw [List.length_cons, length_inc]
    exact iff_of_true rfl ((carry_eq_one_iff hd).mp hc)
  head_ne _ h := absurd (Option.some.inj h) one_ne_zero

/-- **`plusOne` adds one**, for fewer than 2147483647 digits. The new array is
needed only if all of them are 9, and then it has to be got. -/
theorem plusOne_returns (hne : t.digits ≠ []) (hd : Digits t.digits)
    (hlen : t.digits.length + 1 < 2 ^ 31)
    (hm : (∀ d ∈ t.digits, d = 9) → (m.alloc (t.digits.length + 1)).isSome) :
    ∃ p t', (plusOne m t.digits.length).Returns t p t' ∧
      t'.returnSize = (t'.array p).length ∧ IsSucc t.digits (t'.array p) := by
  rcases (by have := carry_bounds hd; omega : carry t.digits = 0 ∨ carry t.digits = 1) with hc | hc
  · refine ⟨_, _, plusOne_returns_digits hne hd hlen hc, ?_, isSucc_inc hne hd hc⟩
    rw [Mem.array, length_inc]
  · obtain ⟨b, hb⟩ := Option.isSome_iff_exists.mp (hm ((carry_eq_one_iff hd).mp hc))
    refine ⟨_, _, plusOne_returns_block hne hd hlen hc hb, ?_, isSucc_cons_inc hd hc⟩
    rw [Mem.array, Option.getD_some, List.length_cons, length_inc]
    rfl

/-- The size of the new array is an `int` expression. -/
theorem plusOne_faults {n : ℤ} (h : 2 ^ 31 ≤ n + 1) (t : Mem) :
    (plusOne m n).Faults t .overflow := by
  rw [plusOne, int_of_not_inInt fun hn => by have := hn.2; omega]
  exact Faults.fault _ _

end Correctness

/-- A `malloc` that hands out zeros. -/
def plusOne.zeros : plusOne.Malloc where
  alloc n := some (List.replicate n 0)
  length_alloc n b h := by
    obtain rfl := Option.some.inj h
    exact List.length_replicate

/-- Memory with an array of `n` nines. -/
def plusOne.nines (n : ℕ) : plusOne.Mem := ⟨List.replicate n 9, none, 0⟩

/-- Adding one to 99. -/
theorem plusOne_returns_99 :
    ∃ p t', (plusOne plusOne.zeros (plusOne.nines 2).digits.length).Returns
      (plusOne.nines 2) p t' ∧ t'.returnSize = (t'.array p).length ∧
      plusOne.IsSucc (plusOne.nines 2).digits (t'.array p) := by
  have hne : (plusOne.nines 2).digits ≠ [] := List.cons_ne_nil _ _
  have hd : plusOne.Digits (plusOne.nines 2).digits := by decide
  exact plusOne_returns hne hd (by decide) fun _ => rfl

/-- 2147483647 nines. -/
theorem plusOne_not_returns :
    ¬∃ p t', (plusOne plusOne.zeros (plusOne.nines 2147483647).digits.length).Returns
      (plusOne.nines 2147483647) p t' := by
  rintro ⟨p, t', h⟩
  have hlen (n : ℕ) : (plusOne.nines n).digits.length = n := List.length_replicate
  rw [hlen] at h
  exact (plusOne_faults (by norm_num) _).not_returns h

end DocumentCode
