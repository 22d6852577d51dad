import DocumentCode.CArray
import DocumentCode.CString
import DocumentCode.Ensures
import Mathlib.Data.List.TakeWhile

/-!
# Matching a string with a pattern

`match_one` of the kernel compares a string with a pattern such as `sig=%s`, and notes
where in the string the texts for its conversions stand; `match_token` goes through a
table of patterns until one fits.

What a pattern means is `DocumentCode.MatchToken.Spells`: a character stands for itself,
`%%` for a percent sign, and a conversion for a text of its kind, as long a one as
there is. `DocumentCode.MatchToken.matchOne_ensures` says that `match_one` decides just
this, for any pattern and any string – at most three conversions being allowed – and that
it notes the texts: it returns, and neither looks behind the end of one of the strings nor
writes behind the end of the array, whatever is wrong with the pattern. All it asks for is
that the length of the string is an `int`, since that is what `len = strlen(s)` makes of it.
-/

namespace DocumentCode

open Prog

namespace MatchToken

/-- What the program relies on when it reads a number: `simple_strtoul` and `simple_strtol`
for a base, with the value and how many characters it takes up. -/
structure Numerals where
  strtoul : ℕ → List ℤ → ℕ × ℕ
  strtol : ℕ → List ℤ → ℤ × ℕ
  /-- The end of the number is in the string. -/
  strtoul_le : ∀ base cs, (strtoul base cs).2 ≤ cs.length
  strtol_le : ∀ base cs, (strtol base cs).2 ≤ cs.length

/-- `substring_t` -/
structure SubstringT where
  /-- `from` -/
  start : ℕ
  /-- `to` -/
  stop : ℕ
  deriving DecidableEq, Repr

/-- The text of a substring. -/
def SubstringT.text (t : SubstringT) (cs : List ℤ) : List ℤ := (cs.take t.stop).drop t.start

/-- `MAX_OPT_ARGS` -/
def MAX_OPT_ARGS : ℕ := 3

/-- `isdigit(c)` -/
def IsDigit (c : ℤ) : Prop := ch '0' ≤ c ∧ c ≤ ch '9'

instance (c : ℤ) : Decidable (IsDigit c) := inferInstanceAs (Decidable (_ ∧ _))

/-! ### The program -/

/-- The label `num`: nothing has been read. -/
def num (i stop j : ℕ) (argc : ℤ) : C (List SubstringT) ((ℕ × ℕ × ℤ) ⊕ Bool) := do
  store argc { (← load argc) with stop }
  if stop = i then
    return .inr false
  else
    return .inl (stop, j, ← int (argc + 1))

/-- A round of the loop of `match_one`, from where the conversion has been found. -/
def conversion (N : Numerals) (s p : CStr) (i j : ℕ) (len argc : ℤ) :
    C (List SubstringT) ((ℕ × ℕ × ℤ) ⊕ Bool) := do
  if argc ≥ MAX_OPT_ARGS then
    return .inr false
  else
    store argc { (← load argc) with start := i }
    let c ← p.get j
    let j := j + 1
    let str ← s.rest i
    if c = ch 's' then
      if str.length = 0 then
        return .inr false
      else
        let len := if len = -1 ∨ toSize len > str.length then toInt str.length else len
        let stop ← s.addr (i + len)
        store argc { (← load argc) with stop }
        return .inl (stop, j, ← int (argc + 1))
    else if c = ch 'd' then
      num i (i + (N.strtol 0 str).2) j argc
    else if c = ch 'u' then
      num i (i + (N.strtoul 0 str).2) j argc
    else if c = ch 'o' then
      num i (i + (N.strtoul 8 str).2) j argc
    else if c = ch 'x' then
      num i (i + (N.strtoul 16 str).2) j argc
    else
      return .inr false

/-- A round of the loop of `match_one`, the pointers being `s + i` and `p + j`. -/
def round (N : Numerals) (s p : CStr) :
    ℕ × ℕ × ℤ → C (List SubstringT) ((ℕ × ℕ × ℤ) ⊕ Bool)
  | (i, j, argc) => do
    let pat ← p.rest j
    let str ← s.rest i
    match pat.idxOf? (ch '%') with
    | none => return .inr (pat = str)
    | some n =>
      if pat.take n ≠ str.take n then
        return .inr false
      else
        let i := i + n
        let j := j + n + 1
        let c ← p.get j
        if IsDigit c then
          let (len, n) := N.strtoul 10 (← p.rest j)
          conversion N s p i (j + n) (toInt len) argc
        else if c = ch '%' then
          if (← s.get i) ≠ ch '%' then
            return .inr false
          else
            return .inl (i + 1, j + 1, argc)
        else
          conversion N s p i j (-1) argc

end MatchToken

/-- `match_one(s, p, args)`, the array `args` being the state. -/
def matchOne (N : MatchToken.Numerals) (s : CStr) (p : Option CStr) :
    C (List MatchToken.SubstringT) Bool := do
  match p with
  | none => return true
  | some p => loop (MatchToken.round N s p) (0, 0, 0)

/-- A round of the loop of `match_token`. -/
def MatchToken.tokenRound {τ : Type} (N : Numerals) (s : CStr) (table : List (τ × Option CStr))
    (p : ℕ) : C (List SubstringT) (ℕ ⊕ τ) := do
  let (token, pattern) ← arrayAt table p
  if (← matchOne N s pattern) = false then
    return .inl (p + 1)
  else
    return .inr token

/-- `match_token(s, table, args)` -/
def matchToken {τ : Type} (N : MatchToken.Numerals) (s : CStr) (table : List (τ × Option CStr)) :
    C (List MatchToken.SubstringT) τ :=
  loop (MatchToken.tokenRound N s table) 0

namespace MatchToken

/-! ### What a pattern means -/

/-- The width of a conversion, -1 if there is none, and what follows it. -/
def width (N : Numerals) (p : List ℤ) : ℤ × List ℤ :=
  if IsDigit (p.headD 0) then (toInt (N.strtoul 10 p).1, p.drop (N.strtoul 10 p).2) else (-1, p)

/-- How many characters of a string a conversion takes. -/
def taken (N : Numerals) (c len : ℤ) (cs : List ℤ) : ℕ :=
  if c = ch 's' then
    if len = -1 ∨ toSize len > cs.length then cs.length else toSize len
  else if c = ch 'd' then (N.strtol 0 cs).2
  else if c = ch 'u' then (N.strtoul 0 cs).2
  else if c = ch 'o' then (N.strtoul 8 cs).2
  else if c = ch 'x' then (N.strtoul 16 cs).2
  else 0

/-- There is a text for the conversion. -/
def Admits (N : Numerals) (c len : ℤ) (cs : List ℤ) : Prop :=
  if c = ch 's' then cs ≠ [] else taken N c len cs ≠ 0

instance (N : Numerals) (c len : ℤ) (cs : List ℤ) : Decidable (Admits N c len cs) :=
  inferInstanceAs (Decidable (if c = ch 's' then cs ≠ [] else taken N c len cs ≠ 0))

/-- **The pattern spells the string**, with these texts for its conversions. -/
inductive Spells (N : Numerals) : List ℤ → List ℤ → List (List ℤ) → Prop
  /-- Nothing is left. -/
  | nil : Spells N [] [] []
  /-- A character that stands for itself. -/
  | char {c : ℤ} {p s : List ℤ} {as : List (List ℤ)} (hc : c ≠ ch '%') (h : Spells N p s as) :
    Spells N (c :: p) (c :: s) as
  /-- `%%` -/
  | percent {p s : List ℤ} {as : List (List ℤ)} (h : Spells N p s as) :
    Spells N (ch '%' :: ch '%' :: p) (ch '%' :: s) as
  /-- A conversion `c`. -/
  | conversion {q p s : List ℤ} {as : List (List ℤ)} {len c : ℤ} (hq : q.head? ≠ some (ch '%'))
    (hwidth : width N q = (len, c :: p)) (hs : Admits N c len s)
    (h : Spells N p (s.drop (taken N c len s)) as) :
    Spells N (ch '%' :: q) s (s.take (taken N c len s) :: as)

section Spells

variable {N : Numerals} {l p q s cs : List ℤ} {as : List (List ℤ)} {c len : ℤ}

@[simp] theorem spells_nil : Spells N [] s as ↔ s = [] ∧ as = [] := by
  constructor
  · rintro ⟨⟩
    exact ⟨rfl, rfl⟩
  · rintro ⟨rfl, rfl⟩
    exact .nil

theorem spells_char (hc : c ≠ ch '%') :
    Spells N (c :: p) s as ↔ ∃ s', s = c :: s' ∧ Spells N p s' as := by
  constructor
  · intro h
    cases h with
    | char _ h => exact ⟨_, rfl, h⟩
    | percent h => exact absurd rfl hc
    | conversion => exact absurd rfl hc
  · rintro ⟨s', rfl, h⟩
    exact .char hc h

theorem spells_append (hl : ch '%' ∉ l) :
    Spells N (l ++ p) s as ↔ ∃ s', s = l ++ s' ∧ Spells N p s' as := by
  induction l generalizing s with
  | nil => simp
  | cons c l ih =>
    obtain ⟨hc, hl⟩ := not_or.mp (mt List.mem_cons.mpr hl)
    simp only [List.cons_append, spells_char (Ne.symm hc), ih hl]
    constructor
    · rintro ⟨s', rfl, s'', rfl, h⟩
      exact ⟨s'', rfl, h⟩
    · rintro ⟨s'', rfl, h⟩
      exact ⟨_, rfl, s'', rfl, h⟩

/-- A pattern without conversions spells itself. -/
theorem spells_self (hp : ch '%' ∉ p) : Spells N p s as ↔ s = p ∧ as = [] := by
  have h : Spells N (p ++ []) s as ↔ _ := spells_append hp
  rw [List.append_nil] at h
  rw [h]
  simp

theorem spells_percent :
    Spells N (ch '%' :: ch '%' :: p) s as ↔ ∃ s', s = ch '%' :: s' ∧ Spells N p s' as := by
  constructor
  · intro h
    cases h with
    | char hc => exact absurd rfl hc
    | percent h => exact ⟨_, rfl, h⟩
    | conversion hq => exact absurd rfl hq
  · rintro ⟨s', rfl, h⟩
    exact .percent h

theorem spells_conversion (hq : q.head? ≠ some (ch '%')) :
    Spells N (ch '%' :: q) s as ↔ ∃ len c p as', width N q = (len, c :: p) ∧ Admits N c len s ∧
      as = s.take (taken N c len s) :: as' ∧ Spells N p (s.drop (taken N c len s)) as' := by
  constructor
  · intro h
    cases h with
    | char hc => exact absurd rfl hc
    | percent h => exact absurd rfl hq
    | conversion _ hwidth hs h => exact ⟨_, _, _, _, hwidth, hs, rfl, h⟩
  · rintro ⟨len, c, p, as', hwidth, hs, rfl, h⟩
    exact .conversion hq hwidth hs h

/-- **There is only one way to spell a string.** -/
theorem Spells.unique {as' : List (List ℤ)} (h : Spells N p s as) (h' : Spells N p s as') :
    as = as' := by
  induction h generalizing as' with
  | nil => exact (spells_nil.mp h').2.symm
  | char hc _ ih =>
    obtain ⟨s', hs, h'⟩ := (spells_char hc).mp h'
    obtain ⟨-, rfl⟩ := List.cons.inj hs
    exact ih h'
  | percent _ ih =>
    obtain ⟨s', hs, h'⟩ := spells_percent.mp h'
    obtain ⟨-, rfl⟩ := List.cons.inj hs
    exact ih h'
  | conversion hq hwidth _ _ ih =>
    obtain ⟨len', c', p', as', hwidth', -, rfl, h'⟩ := (spells_conversion hq).mp h'
    obtain ⟨rfl, hcp⟩ := Prod.mk.inj (hwidth.symm.trans hwidth')
    obtain ⟨rfl, rfl⟩ := List.cons.inj hcp
    rw [ih h']

/-- A conversion does not take more than there is. -/
theorem taken_le : taken N c len s ≤ s.length := by
  rw [taken]
  split_ifs with h1 h2 h3 h4 h5 h6
  · exact le_rfl
  · exact not_lt.mp (not_or.mp h2).2
  · exact N.strtol_le 0 s
  · exact N.strtoul_le 0 s
  · exact N.strtoul_le 8 s
  · exact N.strtoul_le 16 s
  · exact Nat.zero_le _

/-- A text at the end of the pattern. -/
theorem spells_text : Spells N [ch '%', ch 's'] s as ↔ s ≠ [] ∧ as = [s] := by
  have hwidth : width N [ch 's'] = (-1, [ch 's']) := if_neg (by decide)
  have htaken : taken N (ch 's') (-1) s = s.length := by simp [taken]
  rw [spells_conversion (by decide)]
  constructor
  · rintro ⟨len, c, p, as, hw, hs, rfl, h⟩
    obtain ⟨rfl, hp⟩ := Prod.mk.inj (hwidth.symm.trans hw)
    obtain ⟨rfl, rfl⟩ := List.cons.inj hp
    rw [htaken] at h ⊢
    obtain ⟨-, rfl⟩ := spells_nil.mp h
    exact ⟨hs, by rw [List.take_length]⟩
  · rintro ⟨hs, rfl⟩
    refine ⟨-1, ch 's', [], [], hwidth, hs, ?_, ?_⟩
    · rw [htaken, List.take_length]
    · rw [htaken, List.drop_length]
      exact .nil

/-- A number at the end of the pattern. -/
theorem spells_number :
    Spells N [ch '%', ch 'u'] s as ↔ s ≠ [] ∧ (N.strtoul 0 s).2 = s.length ∧ as = [s] := by
  have hwidth : width N [ch 'u'] = (-1, [ch 'u']) := if_neg (by decide)
  have htaken : taken N (ch 'u') (-1) s = (N.strtoul 0 s).2 := by simp [taken, ch]
  have hadmits : Admits N (ch 'u') (-1) s ↔ (N.strtoul 0 s).2 ≠ 0 := by
    rw [← htaken, Admits, if_neg (by decide)]
  rw [spells_conversion (by decide)]
  constructor
  · rintro ⟨len, c, p, as, hw, hs, rfl, h⟩
    obtain ⟨rfl, hp⟩ := Prod.mk.inj (hwidth.symm.trans hw)
    obtain ⟨rfl, rfl⟩ := List.cons.inj hp
    rw [htaken] at h ⊢
    obtain ⟨hnil, rfl⟩ := spells_nil.mp h
    have hlength := (N.strtoul_le 0 s).antisymm (List.drop_eq_nil_iff.mp hnil)
    refine ⟨?_, hlength, by rw [hlength, List.take_length]⟩
    rintro rfl
    exact hadmits.mp hs hlength
  · rintro ⟨hs, hlength, rfl⟩
    refine ⟨-1, ch 'u', [], [], hwidth, hadmits.mpr ?_, ?_, ?_⟩
    · rwa [hlength, Ne, List.length_eq_zero_iff]
    · rw [htaken, hlength, List.take_length]
    · rw [htaken, hlength, List.drop_length]
      exact .nil

/-- The width of a conversion is an `int`. -/
theorem width_mem (N : Numerals) (q : List ℤ) :
    -2 ^ 31 ≤ (width N q).1 ∧ (width N q).1 < 2 ^ 31 := by
  rw [width]
  split_ifs
  · simp only [toInt]
    omega
  · exact (by decide : (-2 ^ 31 : ℤ) ≤ -1 ∧ (-1 : ℤ) < 2 ^ 31)

/-- A width that is not too large is what it is as a `size_t`. -/
theorem toSize_of_le {k : ℕ} (hlen : -2 ^ 31 ≤ len ∧ len < 2 ^ 31) (hk : k < 2 ^ 31)
    (hle : toSize len ≤ k) : len = toSize len := by
  rw [toSize] at hle ⊢
  omega

/-- The width of a conversion is a part of the pattern. -/
theorem exists_width (N : Numerals) (q : List ℤ) :
    ∃ ds, q = ds ++ (width N q).2 := by
  rw [width]
  split_ifs
  · exact ⟨q.take (N.strtoul 10 q).2, (List.take_append_drop _ _).symm⟩
  · exact ⟨[], rfl⟩

end Spells

/-! ### The rounds -/

section Rounds

variable {N : Numerals} {s p : CStr} {s1 cs p1 pat q : List ℤ} {args : ℕ → SubstringT}
  {argc i j n : ℕ} {c len : ℤ}

/-- What a round makes of a conversion `c`: it notes its text and goes on behind it, or the
whole match fails. -/
def Converted (N : Numerals) (i j argc : ℕ) (c len : ℤ) (cs : List ℤ) (args : ℕ → SubstringT)
    (r : (ℕ × ℕ × ℤ) ⊕ Bool) (t : List SubstringT) : Prop :=
  ∃ args', t = table MAX_OPT_ARGS args' ∧ (∀ k < argc, args' k = args k) ∧
    if argc < MAX_OPT_ARGS ∧ Admits N c len cs then
      r = .inl (i + taken N c len cs, j, ((argc + 1 : ℕ) : ℤ)) ∧
        args' argc = ⟨i, i + taken N c len cs⟩
    else r = .inr false

theorem Converted.failed (hc : ¬(argc < MAX_OPT_ARGS ∧ Admits N c len cs)) {args' : ℕ → SubstringT}
    (hkept : ∀ k < argc, args' k = args k) :
    Converted N i j argc c len cs args (.inr false) (table MAX_OPT_ARGS args') :=
  ⟨args', rfl, hkept, by rw [if_neg hc]⟩

theorem Converted.noted (hargc : argc < MAX_OPT_ARGS) (hc : Admits N c len cs)
    {args' : ℕ → SubstringT} (hkept : ∀ k < argc, args' k = args k)
    (hnoted : args' argc = ⟨i, i + taken N c len cs⟩) :
    Converted N i j argc c len cs args
      (.inl (i + taken N c len cs, j, ((argc + 1 : ℕ) : ℤ))) (table MAX_OPT_ARGS args') :=
  ⟨args', rfl, hkept, by rw [if_pos ⟨hargc, hc⟩]; exact ⟨rfl, hnoted⟩⟩

theorem num_ensures (hargc : argc < MAX_OPT_ARGS) (hn : n = taken N c len cs)
    (hc : Admits N c len cs ↔ taken N c len cs ≠ 0) {args' : ℕ → SubstringT}
    (hkept : ∀ k < argc, args' k = args k)
    (hstart : (args' argc).start = i) :
    (num i (i + n) j argc).Ensures (table MAX_OPT_ARGS args')
      (Converted N i j argc c len cs args) := by
  have hkept' (x : SubstringT) : ∀ k < argc, Function.update args' argc x k = args k := by
    intro k hk
    rw [Function.update_of_ne hk.ne, hkept k hk]
  refine Returns.bind_ensures (load_table hargc) (Returns.bind_ensures (store_table hargc) ?_)
  split_ifs with hstop
  · exact Ensures.pure (.failed (fun h => hc.mp h.2 (by omega)) (hkept' _))
  · have hadmits : Admits N c len cs := hc.mpr fun h => hstop (by omega)
    refine Returns.bind_ensures (int_succ_returns (by rw [MAX_OPT_ARGS] at hargc; omega) _) ?_
    rw [hn]
    refine Ensures.pure (.noted hargc hadmits (hkept' _) ?_)
    rw [Function.update_self, ← hstart]

/-- **A conversion**, the pattern going on with `q`. -/
theorem conversion_ensures (hlength : s.strlen < 2 ^ 31) (hs : s.chars = s1 ++ cs)
    (hp : p.chars = p1 ++ q) (hwidth : -2 ^ 31 ≤ len ∧ len < 2 ^ 31) :
    (conversion N s p s1.length p1.length len argc).Ensures (table MAX_OPT_ARGS args)
      (Converted N s1.length (p1.length + 1) argc (q.headD 0) len cs args) := by
  rw [conversion]
  split_ifs with hargc
  · refine Ensures.pure (.failed (fun h => ?_) fun _ _ => rfl)
    omega
  replace hargc : argc < MAX_OPT_ARGS := by omega
  refine Returns.bind_ensures (load_table hargc) (Returns.bind_ensures (store_table hargc) ?_)
  rw [CStr.get_append hp, Prog.pure_bind, CStr.rest_append hs, Prog.pure_bind]
  set args' := Function.update args argc { args argc with start := s1.length } with hargs'
  have hkept : ∀ k < argc, args' k = args k := fun k hk => Function.update_of_ne hk.ne _ _
  have hstart : (args' argc).start = s1.length := by rw [hargs', Function.update_self]
  generalize q.headD 0 = c
  by_cases hc : c = ch 's'
  · rw [if_pos hc]
    by_cases hlen : cs.length = 0
    · rw [if_pos hlen]
      refine Ensures.pure (.failed (fun h => ?_) hkept)
      rw [Admits, if_pos hc] at h
      exact h.2 (List.length_eq_zero_iff.mp hlen)
    have hadmits : Admits N c len cs := by
      rw [Admits, if_pos hc]
      exact fun h => hlen (List.length_eq_zero_iff.mpr h)
    -- the length of what is left is an `int`
    have hall : s.strlen = s1.length + cs.length := by rw [CStr.strlen, hs, List.length_append]
    have htaken : (if len = -1 ∨ toSize len > cs.length then toInt cs.length else len) =
        taken N c len cs := by
      rw [taken, if_pos hc]
      split_ifs with hlong
      · exact toInt_of_lt (by omega)
      · exact toSize_of_le hwidth (by omega) (not_lt.mp (not_or.mp hlong).2)
    have hle : s1.length + taken N c len cs ≤ s.strlen :=
      hall ▸ Nat.add_le_add_left taken_le _
    have haddr : (s.addr (s1.length + (taken N c len cs : ℤ)) : C (List SubstringT) ℕ) =
        pure (s1.length + taken N c len cs) := CStr.addr_of_le hle
    rw [if_neg hlen, htaken]
    simp only [haddr, Prog.pure_bind]
    refine Returns.bind_ensures (load_table hargc) (Returns.bind_ensures (store_table hargc) ?_)
    refine Returns.bind_ensures (int_succ_returns (by rw [MAX_OPT_ARGS] at hargc; omega) _) ?_
    refine Ensures.pure (.noted hargc hadmits (fun k hk => ?_) ?_)
    · rw [Function.update_of_ne hk.ne, hkept k hk]
    · rw [Function.update_self, ← hstart]
  · have hadmits : Admits N c len cs ↔ taken N c len cs ≠ 0 := by rw [Admits, if_neg hc]
    rw [if_neg hc]
    split_ifs with hd hu ho hx
    · have htaken : (N.strtol 0 cs).2 = taken N c len cs := by rw [taken, if_neg hc, if_pos hd]
      exact num_ensures hargc htaken hadmits hkept hstart
    · have htaken : (N.strtoul 0 cs).2 = taken N c len cs := by
        rw [taken, if_neg hc, if_neg hd, if_pos hu]
      exact num_ensures hargc htaken hadmits hkept hstart
    · have htaken : (N.strtoul 8 cs).2 = taken N c len cs := by
        rw [taken, if_neg hc, if_neg hd, if_neg hu, if_pos ho]
      exact num_ensures hargc htaken hadmits hkept hstart
    · have htaken : (N.strtoul 16 cs).2 = taken N c len cs := by
        rw [taken, if_neg hc, if_neg hd, if_neg hu, if_neg ho, if_pos hx]
      exact num_ensures hargc htaken hadmits hkept hstart
    · have htaken : taken N c len cs = 0 := by
        rw [taken, if_neg hc, if_neg hd, if_neg hu, if_neg ho, if_neg hx]
      exact Ensures.pure (.failed (fun h => hadmits.mp h.2 htaken) hkept)

end Rounds

/-! ### The loop -/

section Loop

variable {N : Numerals} {s p : CStr} {s1 cs p1 pat l ds q : List ℤ} {args args' : ℕ → SubstringT}
  {argc : ℕ} {c len : ℤ}

/-- Where the first percent sign stands. -/
theorem idxOf?_append (hl : c ∉ l) : (l ++ c :: q).idxOf? c = some l.length := by
  induction l with
  | nil => simp [List.idxOf?_cons]
  | cons d l ih =>
    obtain ⟨hd, hl⟩ := not_or.mp (mt List.mem_cons.mpr hl)
    rw [List.cons_append, List.idxOf?_cons, ih hl, if_neg (by simpa using Ne.symm hd)]
    rfl

/-- A round that comes to a conversion. -/
theorem round_conversion (hlength : s.strlen < 2 ^ 31) (hl : ch '%' ∉ l)
    (hs : s.chars = s1 ++ (l ++ cs))
    (hp : p.chars = p1 ++ (l ++ ch '%' :: (ds ++ q))) (hq : (ds ++ q).head? ≠ some (ch '%'))
    (hwidth : width N (ds ++ q) = (len, q)) :
    (round N s p (s1.length, p1.length, argc)).Ensures (table MAX_OPT_ARGS args)
      (Converted N (s1.length + l.length) (p1.length + l.length + 1 + ds.length + 1) argc
        (q.headD 0) len cs args) := by
  have hs' : s.chars = (s1 ++ l) ++ cs := by rw [hs, List.append_assoc]
  have hpercent : p.chars = (p1 ++ l ++ [ch '%']) ++ (ds ++ q) := by rw [hp]; simp
  have hds : p.chars = (p1 ++ l ++ [ch '%'] ++ ds) ++ q := by rw [hp]; simp
  have hi : s1.length + l.length = (s1 ++ l).length := by simp
  have hj : p1.length + l.length + 1 = (p1 ++ l ++ [ch '%']).length := by simp [add_assoc]
  have hj' : p1.length + l.length + 1 + ds.length = (p1 ++ l ++ [ch '%'] ++ ds).length := by
    rw [hj, ← List.length_append]
  have hconversion : (conversion N s p (s1 ++ l).length (p1 ++ l ++ [ch '%'] ++ ds).length len
      argc).Ensures (table MAX_OPT_ARGS args) _ :=
    conversion_ensures hlength hs' hds (by simpa only [hwidth] using width_mem N (ds ++ q))
  rw [← hi, ← hj'] at hconversion
  rw [round, CStr.rest_append hp, Prog.pure_bind, CStr.rest_append hs, Prog.pure_bind,
    idxOf?_append hl]
  simp only [List.take_left, ne_eq, not_true_eq_false, if_false]
  rw [hj, CStr.get_append hpercent, Prog.pure_bind, CStr.rest_append hpercent, ← hj]
  rw [width] at hwidth
  split_ifs at hwidth with hdigit
  · obtain ⟨rfl, hdrop⟩ := Prod.mk.inj hwidth
    have hcount : (N.strtoul 10 (ds ++ q)).2 = ds.length := by
      have hle := N.strtoul_le 10 (ds ++ q)
      have hlength := congrArg List.length hdrop
      rw [List.length_drop] at hlength
      rw [List.length_append] at hle hlength
      omega
    rw [if_pos hdigit, Prog.pure_bind]
    simp only [hcount]
    exact hconversion
  · obtain ⟨rfl, hdrop⟩ := Prod.mk.inj hwidth
    obtain rfl : ds = [] := List.append_left_eq_self.mp hdrop
    have hhead : q.headD 0 ≠ ch '%' := by
      cases q with
      | nil => decide
      | cons c q => exact fun h => hq (congrArg some h)
    rw [if_neg hdigit, List.nil_append, if_neg hhead]
    exact hconversion

/-- How a match ends that has come to the rest `pat` of the pattern and the rest `cs` of the
string, with `argc` texts noted. -/
inductive Fits (N : Numerals) (s : CStr) (pat cs : List ℤ) (argc : ℕ)
    (args args' : ℕ → SubstringT) : Bool → Prop
  /-- The rest of the pattern spells the rest of the string. -/
  | spelled (as : List (List ℤ)) (spells : Spells N pat cs as)
    (le : argc + as.length ≤ MAX_OPT_ARGS)
    (texts : ∀ k, (h : k < as.length) → (args' (argc + k)).text s.chars = as[k])
    (kept : ∀ k < argc, args' k = args k) : Fits N s pat cs argc args args' true
  /-- It does not. -/
  | failed (fails : ∀ as, Spells N pat cs as → MAX_OPT_ARGS < argc + as.length) :
    Fits N s pat cs argc args args' false

/-- A literal part of the pattern. -/
theorem Fits.append {b : Bool} (hl : ch '%' ∉ l) (h : Fits N s pat cs argc args args' b) :
    Fits N s (l ++ pat) (l ++ cs) argc args args' b := by
  cases h with
  | spelled as spells le texts kept =>
    exact .spelled as ((spells_append hl).mpr ⟨cs, rfl, spells⟩) le texts kept
  | failed fails =>
    refine .failed fun as h => ?_
    obtain ⟨cs', hcs, h⟩ := (spells_append hl).mp h
    obtain rfl := List.append_cancel_left hcs
    exact fails as h

/-- Two percent signs. -/
theorem Fits.percent {b : Bool} (h : Fits N s pat cs argc args args' b) :
    Fits N s (ch '%' :: ch '%' :: pat) (ch '%' :: cs) argc args args' b := by
  cases h with
  | spelled as spells le texts kept =>
    exact .spelled as (.percent spells) le texts kept
  | failed fails =>
    refine .failed fun as h => ?_
    obtain ⟨cs', hcs, h⟩ := spells_percent.mp h
    obtain rfl := (List.cons.inj hcs).2
    exact fails as h

/-- A conversion that has a text. -/
theorem Fits.conversion {b : Bool} {args₁ : ℕ → SubstringT} (hs : s.chars = s1 ++ cs)
    (hq : q.head? ≠ some (ch '%')) (hwidth : width N q = (len, c :: pat)) (hc : Admits N c len cs)
    (hkept : ∀ k < argc, args₁ k = args k)
    (hnoted : args₁ argc = ⟨s1.length, s1.length + taken N c len cs⟩)
    (h : Fits N s pat (cs.drop (taken N c len cs)) (argc + 1) args₁ args' b) :
    Fits N s (ch '%' :: q) cs argc args args' b := by
  cases h with
  | spelled as spells le texts kept =>
    refine .spelled _ (.conversion hq hwidth hc spells) ?_ (fun k hk => ?_) fun k hk => ?_
    · rw [List.length_cons]
      omega
    · cases k with
      | zero =>
        rw [Nat.add_zero, kept argc (Nat.lt_succ_self argc), hnoted, SubstringT.text, hs]
        simp [List.take_append]
      | succ k =>
        have htext := texts k (by simpa using hk)
        rwa [Nat.add_right_comm] at htext
    · rw [kept k (by omega), hkept k hk]
  | failed fails =>
    refine .failed fun as h => ?_
    obtain ⟨len', c', pat', as', hwidth', -, rfl, h⟩ := (spells_conversion hq).mp h
    obtain ⟨rfl, hpat⟩ := Prod.mk.inj (hwidth.symm.trans hwidth')
    obtain ⟨rfl, rfl⟩ := List.cons.inj hpat
    have hlt := fails as' h
    rw [List.length_cons]
    omega

/-- A conversion that has none, or comes after the last one allowed. -/
theorem Fits.not_conversion (hq : q.head? ≠ some (ch '%')) (hwidth : width N q = (len, pat))
    (hc : ¬(argc < MAX_OPT_ARGS ∧ Admits N (pat.headD 0) len cs)) :
    Fits N s (ch '%' :: q) cs argc args args' false := by
  refine .failed fun as h => ?_
  obtain ⟨len', c', pat', as', hwidth', hadmits, rfl, h⟩ := (spells_conversion hq).mp h
  obtain ⟨rfl, rfl⟩ := Prod.mk.inj (hwidth.symm.trans hwidth')
  have hargc : ¬argc < MAX_OPT_ARGS := fun hargc => hc ⟨hargc, hadmits⟩
  rw [List.length_cons]
  omega

theorem not_admits_nul : ¬Admits N 0 len cs := by
  simp [Admits, taken, ch]

/-- A round that does not find the literal part of the pattern, or the pattern ends. -/
theorem round_failed (hl : ch '%' ∉ l) (hs : s.chars = s1 ++ cs)
    (hp : p.chars = p1 ++ (l ++ ch '%' :: q)) (hne : cs.take l.length ≠ l) (t : List SubstringT) :
    (round N s p (s1.length, p1.length, argc)).Returns t (.inr false) t := by
  rw [round, CStr.rest_append hp, Prog.pure_bind, CStr.rest_append hs, Prog.pure_bind,
    idxOf?_append hl]
  simp only [List.take_left]
  rw [if_pos (Ne.symm hne)]
  exact Returns.pure _ t

/-- A round that comes to two percent signs. -/
theorem round_percent (hl : ch '%' ∉ l) (hs : s.chars = s1 ++ (l ++ cs))
    (hp : p.chars = p1 ++ (l ++ ch '%' :: ch '%' :: q)) (t : List SubstringT) :
    (round N s p (s1.length, p1.length, argc)).Returns t
      (if cs.headD 0 = ch '%' then
        .inl (s1.length + l.length + 1, p1.length + l.length + 1 + 1, argc)
      else .inr false) t := by
  have hs' : s.chars = (s1 ++ l) ++ cs := by rw [hs, List.append_assoc]
  have hpercent : p.chars = (p1 ++ l ++ [ch '%']) ++ ch '%' :: q := by rw [hp]; simp
  have hi : s1.length + l.length = (s1 ++ l).length := List.length_append.symm
  have hj : p1.length + l.length + 1 = (p1 ++ l ++ [ch '%']).length := by simp [add_assoc]
  rw [round, CStr.rest_append hp, Prog.pure_bind, CStr.rest_append hs, Prog.pure_bind,
    idxOf?_append hl]
  simp only [List.take_left, ne_eq, not_true_eq_false, if_false]
  rw [hj, CStr.get_append hpercent, Prog.pure_bind, List.headD_cons, if_neg (by decide),
    if_pos rfl, hi, CStr.get_append hs', Prog.pure_bind]
  split_ifs with hcs
  · exact Returns.pure _ t
  · exact Returns.pure _ t

/-- The last round, with no percent sign ahead. -/
theorem round_last (hpat : ch '%' ∉ pat) (hs : s.chars = s1 ++ cs) (hp : p.chars = p1 ++ pat)
    (t : List SubstringT) :
    (round N s p (s1.length, p1.length, argc)).Returns t (.inr (pat = cs)) t := by
  rw [round, CStr.rest_append hp, Prog.pure_bind, CStr.rest_append hs, Prog.pure_bind,
    List.idxOf?_eq_none_iff.mpr hpat]
  exact Returns.pure _ t

/-- **The loop**, from where it has come to any place in the pattern: the induction is on
what is left of it. -/
theorem loop_fits (hlength : s.strlen < 2 ^ 31) (argc : ℕ) (args : ℕ → SubstringT)
    (hs : s.chars = s1 ++ cs) (hp : p.chars = p1 ++ pat) (hargc : argc ≤ MAX_OPT_ARGS) :
    ∃ b args', LoopEnds (round N s p) (s1.length, p1.length, (argc : ℤ)) (table MAX_OPT_ARGS args)
        (.ok (b, table MAX_OPT_ARGS args')) ∧ Fits N s pat cs argc args args' b := by
  induction hn : pat.length using Nat.strong_induction_on
    generalizing pat cs s1 p1 argc args with
  | _ n ih =>
  by_cases hpercent : ch '%' ∈ pat
  · obtain ⟨l, q, rfl, hl⟩ := List.eq_append_cons_of_mem hpercent
    by_cases hlit : cs.take l.length = l
    · obtain ⟨cs, rfl⟩ : ∃ cs', cs = l ++ cs' :=
        ⟨cs.drop l.length, by conv_lhs => rw [← List.take_append_drop l.length cs, hlit]⟩
      by_cases hq : q.head? = some (ch '%')
      · -- `%%`
        obtain ⟨q, rfl⟩ : ∃ q', q = ch '%' :: q' := ⟨q.tail, List.eq_cons_of_mem_head? hq⟩
        have hround : (round N s p (s1.length, p1.length, argc)).Returns
            (table MAX_OPT_ARGS args) _ _ := round_percent hl hs hp _
        by_cases hhead : cs.headD 0 = ch '%'
        · obtain ⟨cs, rfl⟩ : ∃ cs', cs = ch '%' :: cs' := by
            cases cs with
            | nil => exact absurd hhead (by decide)
            | cons c cs => exact ⟨cs, by rw [← hhead]; rfl⟩
          have hs' : s.chars = (s1 ++ l ++ [ch '%']) ++ cs := by rw [hs]; simp
          have hp' : p.chars = (p1 ++ l ++ [ch '%', ch '%']) ++ q := by rw [hp]; simp
          have hlt : q.length < n := by
            rw [← hn]
            simp
            omega
          obtain ⟨b, args', hloop, hfits⟩ := ih _ hlt argc args hs' hp' hargc rfl
          rw [if_pos hhead] at hround
          refine ⟨b, args', .next hround ?_, hfits.percent.append hl⟩
          simpa [add_assoc] using hloop
        · rw [if_neg hhead] at hround
          refine ⟨false, args, .leave hround, Fits.append hl (.failed fun as h => ?_)⟩
          obtain ⟨cs', rfl, -⟩ := spells_percent.mp h
          exact absurd rfl hhead
      · -- a conversion, with its width
        obtain ⟨ds, hds⟩ := exists_width N q
        obtain ⟨len, rest, hwidth⟩ : ∃ len rest, width N q = (len, rest) := ⟨_, _, rfl⟩
        rw [hwidth] at hds
        subst hds
        have hensures : (round N s p (s1.length, p1.length, argc)).Ensures
            (table MAX_OPT_ARGS args) _ := round_conversion hlength hl hs hp hq hwidth
        obtain ⟨r, t, hround, args₁, rfl, hkept, hr⟩ := hensures
        by_cases hc : argc < MAX_OPT_ARGS ∧ Admits N (rest.headD 0) len cs
        · rw [if_pos hc] at hr
          obtain ⟨rfl, hnoted⟩ := hr
          cases rest with
          | nil => exact absurd hc.2 not_admits_nul
          | cons c rest =>
            rw [List.headD_cons] at hc hround hnoted
            have hle : taken N c len cs ≤ cs.length := taken_le
            have hs' : s.chars =
                (s1 ++ l ++ cs.take (taken N c len cs)) ++ cs.drop (taken N c len cs) := by
              rw [hs, List.append_assoc _ _ (cs.drop _), List.take_append_drop, List.append_assoc]
            have hp' : p.chars = (p1 ++ l ++ [ch '%'] ++ ds ++ [c]) ++ rest := by rw [hp]; simp
            have hlt : rest.length < n := by
              rw [← hn]
              simp
              omega
            obtain ⟨b, args', hloop, hfits⟩ := ih _ hlt (argc + 1) args₁ hs' hp' hc.1 rfl
            have hi : (s1 ++ l ++ cs.take (taken N c len cs)).length =
                s1.length + l.length + taken N c len cs := by
              rw [List.length_append, List.length_append, List.length_take_of_le hle]
            have hj : (p1 ++ l ++ [ch '%'] ++ ds ++ [c]).length =
                p1.length + l.length + 1 + ds.length + 1 := by
              simp
              omega
            rw [hi, hj] at hloop
            refine ⟨b, args', .next hround hloop, Fits.append hl ?_⟩
            have hs'' : s.chars = (s1 ++ l) ++ cs := by rw [hs, List.append_assoc]
            refine Fits.conversion hs'' hq hwidth hc.2 hkept ?_ hfits
            rw [hnoted, List.length_append]
        · rw [if_neg hc] at hr
          subst hr
          exact ⟨false, args₁, .leave hround, (Fits.not_conversion hq hwidth hc).append hl⟩
    · refine ⟨false, args, .leave (round_failed hl hs hp hlit _), .failed fun as h => ?_⟩
      obtain ⟨cs', rfl, -⟩ := (spells_append hl).mp h
      exact absurd List.take_left hlit
  · refine ⟨pat = cs, args, .leave (round_last hpercent hs hp _), ?_⟩
    by_cases heq : pat = cs
    · rw [decide_eq_true heq]
      exact .spelled [] ((spells_self hpercent).mpr ⟨heq.symm, rfl⟩) hargc
        (fun k hk => absurd hk (Nat.not_lt_zero k)) fun _ _ => rfl
    · rw [decide_eq_false heq]
      refine .failed fun as h => ?_
      exact absurd ((spells_self hpercent).mp h).1.symm heq

end Loop

/-- **The string is one for the pattern**, with these texts for its conversions; any string is
one for the pattern at the end of a table. -/
def Accepts (N : Numerals) (cs : List ℤ) : Option CStr → List (List ℤ) → Prop
  | none, as => as = []
  | some p, as => Spells N p.chars cs as ∧ as.length ≤ MAX_OPT_ARGS

/-- The texts stand in the array. -/
def Noted (cs : List ℤ) (args : ℕ → SubstringT) (as : List (List ℤ)) : Prop :=
  ∀ k, (h : k < as.length) → (args k).text cs = as[k]

/-- What `match_one` answers, with the array it leaves. -/
def Answered (N : Numerals) (cs : List ℤ) (p : Option CStr) (b : Bool) (t : List SubstringT) :
    Prop :=
  ∃ args', t = table MAX_OPT_ARGS args' ∧
    if b then ∃ as, Accepts N cs p as ∧ Noted cs args' as else ∀ as, ¬Accepts N cs p as

theorem matchOne_answered (N : Numerals) {s : CStr} (hs : s.strlen < 2 ^ 31) (p : Option CStr)
    (args : ℕ → SubstringT) :
    (matchOne N s p).Ensures (table MAX_OPT_ARGS args) (Answered N s.chars p) := by
  cases p with
  | none => exact Ensures.pure ⟨args, rfl, [], rfl, fun k hk => absurd hk (Nat.not_lt_zero k)⟩
  | some p =>
    obtain ⟨b, args', hloop, hfits⟩ := loop_fits (N := N) hs 0 args
      (List.nil_append s.chars).symm (List.nil_append p.chars).symm (Nat.zero_le _)
    refine Returns.ensures hloop.ends ⟨args', rfl, ?_⟩
    cases hfits with
    | spelled as spells le texts =>
      refine ⟨as, ⟨spells, by omega⟩, fun k hk => ?_⟩
      simpa using texts k hk
    | failed fails =>
      refine fun as h => ?_
      have hlt := fails as h.1
      have hle := h.2
      omega

/-- **`match_one` decides whether a pattern spells a string** with at most three conversions,
and notes their texts: there is only one way to spell a string. It returns whatever the
pattern is, and never looks behind the end of either, or writes behind the end of the array.
The length of the string has to be an `int`. -/
theorem matchOne_ensures (N : Numerals) {s : CStr} (hs : s.strlen < 2 ^ 31) (p : CStr)
    (args : ℕ → SubstringT) :
    (matchOne N s (some p)).Ensures (table MAX_OPT_ARGS args) fun b t =>
      (b = true ↔ ∃ as, Spells N p.chars s.chars as ∧ as.length ≤ MAX_OPT_ARGS) ∧
        (b = true → ∀ as, Spells N p.chars s.chars as → as.length ≤ MAX_OPT_ARGS ∧
          ∀ k, (h : k < as.length) → ∃ x, t[k]? = some x ∧ x.text s.chars = as[k]) := by
  refine (matchOne_answered N hs (some p) args).mono ?_
  rintro b t ⟨args', rfl, hb⟩
  cases b with
  | false =>
    refine ⟨⟨fun h => absurd h (by simp), fun h => ?_⟩, fun h => absurd h (by simp)⟩
    obtain ⟨as, h⟩ := h
    exact absurd h (hb as)
  | true =>
    obtain ⟨as, ⟨hspells, hle⟩, hnoted⟩ := hb
    refine ⟨⟨fun _ => ⟨as, hspells, hle⟩, fun _ => rfl⟩, fun _ as' hspells' => ?_⟩
    obtain rfl := hspells.unique hspells'
    exact ⟨hle, fun k hk => ⟨args' k, getElem?_table (hk.trans_le hle), hnoted k hk⟩⟩

/-- Readers of numbers, for a string that does not begin with one. -/
def noNumerals : Numerals where
  strtoul _ _ := (0, 0)
  strtol _ _ := (0, 0)
  strtoul_le _ _ := Nat.zero_le _
  strtol_le _ _ := Nat.zero_le _

/-- `sig=ab` is a string for `sig=%s`, and `ab` is noted. -/
theorem matchOne_ensures_sig :
    (matchOne noNumerals (.ofString "sig=ab") (some (.ofString "sig=%s"))).Ensures
      (table MAX_OPT_ARGS fun _ => ⟨0, 0⟩) fun b t =>
        b = true ∧ ∃ x, t[0]? = some x ∧ x.text ((CStr.ofString "sig=ab").chars) =
          [ch 'a', ch 'b'] := by
  have hspells : Spells noNumerals (CStr.ofString "sig=%s").chars (CStr.ofString "sig=ab").chars
      [[ch 'a', ch 'b']] :=
    (spells_append (l := [ch 's', ch 'i', ch 'g', ch '=']) (by decide)).mpr
      ⟨[ch 'a', ch 'b'], rfl, spells_text.mpr ⟨List.cons_ne_nil _ _, rfl⟩⟩
  refine (matchOne_ensures noNumerals (s := .ofString "sig=ab") (by decide) (.ofString "sig=%s")
    fun _ => ⟨0, 0⟩).mono ?_
  rintro b t ⟨hb, htexts⟩
  have hb' : b = true := hb.mpr ⟨_, hspells, by decide⟩
  exact ⟨hb', (htexts hb' _ hspells).2 0 Nat.one_pos⟩

section Table

variable {τ : Type} {N : Numerals} {s : CStr}

/-- What `match_token` answers: the token of the first entry that the string is one for. -/
def Found (N : Numerals) (cs : List ℤ) (entries : List (τ × Option CStr)) (token : τ)
    (t : List SubstringT) : Prop :=
  ∃ before pattern after args' as, entries = before ++ (token, pattern) :: after ∧
    (∀ e ∈ before, ∀ as, ¬Accepts N cs e.2 as) ∧ Accepts N cs pattern as ∧
    t = table MAX_OPT_ARGS args' ∧ Noted cs args' as

/-- The loop, from where it has come to any entry. -/
theorem tokenRound_loopEnds (hs : s.strlen < 2 ^ 31) (done entries rest : List (τ × Option CStr))
    (last : τ) (args : ℕ → SubstringT) (hdone : ∀ e ∈ done, ∀ as, ¬Accepts N s.chars e.2 as) :
    ∃ token t, LoopEnds (tokenRound N s (done ++ (entries ++ (last, none) :: rest))) done.length
        (table MAX_OPT_ARGS args) (.ok (token, t)) ∧
      Found N s.chars (done ++ (entries ++ [(last, none)])) token t := by
  induction entries generalizing done args with
  | nil =>
    obtain ⟨b, -, hone, args', rfl, hb⟩ := matchOne_answered N hs none args
    cases b with
    | false => exact absurd rfl (hb [])
    | true =>
      obtain ⟨as, has, hnoted⟩ := hb
      refine ⟨last, _, .leave ?_, done, none, [], args', as, rfl, hdone, has, rfl, hnoted⟩
      rw [tokenRound, List.nil_append, arrayAt_append, Prog.pure_bind]
      exact .bind hone (Returns.pure _ _)
  | cons e entries ih =>
    obtain ⟨token, pattern⟩ := e
    obtain ⟨b, -, hone, args', rfl, hb⟩ := matchOne_answered N hs pattern args
    cases b with
    | false =>
      have hdone' : ∀ e ∈ done ++ [(token, pattern)], ∀ as, ¬Accepts N s.chars e.2 as := by
        intro e he
        rcases List.mem_append.mp he with he | he
        · exact hdone e he
        · obtain rfl := List.mem_singleton.mp he
          exact hb
      obtain ⟨token', t, hloop, hfound⟩ := ih _ args' hdone'
      simp only [List.append_assoc, List.cons_append, List.nil_append, List.length_append,
        List.length_singleton] at hloop hfound ⊢
      refine ⟨token', t, .next ?_ hloop, hfound⟩
      rw [tokenRound, arrayAt_append, Prog.pure_bind]
      exact .bind hone (Returns.pure _ _)
    | true =>
      obtain ⟨as, has, hnoted⟩ := hb
      refine ⟨token, _, .leave ?_, done, pattern, _, args', as, rfl, hdone, has, rfl, hnoted⟩
      rw [tokenRound, List.cons_append, arrayAt_append, Prog.pure_bind]
      exact .bind hone (Returns.pure _ _)

end Table

/-- **`match_token` finds the first entry of a table whose pattern spells the string**, or
the one without a pattern that ends the table. -/
theorem matchToken_ensures {τ : Type} (N : Numerals) {s : CStr} (hs : s.strlen < 2 ^ 31)
    (entries rest : List (τ × Option CStr)) (last : τ) (args : ℕ → SubstringT) :
    (matchToken N s (entries ++ (last, none) :: rest)).Ensures (table MAX_OPT_ARGS args)
      (Found N s.chars (entries ++ [(last, none)])) := by
  obtain ⟨token, t, hloop, hfound⟩ := tokenRound_loopEnds (N := N) hs [] entries rest last
    args fun e he => absurd he List.not_mem_nil
  exact Returns.ensures hloop.ends hfound

end MatchToken

end DocumentCode
