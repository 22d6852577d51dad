import DocumentCode.CLang

/-!
# Strings

A string of C is the list of its characters up to the terminating NUL, which is
part of the array but not of the list. So `s[i]` can be read for every `i` up to
the length, the NUL standing there, and for no other.

A character is the `int` it is promoted to wherever it is compared or computed
with, and `DocumentCode.ch` is the value of a character constant.

A string that is copied into an array is the part of it before the first NUL
(`DocumentCode.bufStr`), and the array is the state of the program that does so.

A `std::string` is the list of its characters. Its subscript is a `size_t`
(`DocumentCode.strAt`), and there too a NUL stands after the last character.
-/

namespace DocumentCode

/-- A character constant. -/
def ch (c : Char) : ℤ := c.toNat

/-- The values of the type `char`. -/
def InChar (z : ℤ) : Prop := -2 ^ 7 ≤ z ∧ z < 2 ^ 7

instance (z : ℤ) : Decidable (InChar z) := inferInstanceAs (Decidable (_ ∧ _))

/-- **A NUL-terminated string.** -/
structure CStr where
  /-- The characters before the NUL. -/
  chars : List ℤ
  /-- They are values of type `char`. -/
  inChar : ∀ c ∈ chars, InChar c
  /-- None of them is the NUL. -/
  ne_nul : ∀ c ∈ chars, c ≠ 0

namespace CStr

/-- A string literal. -/
def lit (chars : List ℤ) (h : ∀ c ∈ chars, InChar c ∧ c ≠ 0 := by decide) : CStr where
  chars := chars
  inChar c hc := (h c hc).1
  ne_nul c hc := (h c hc).2

/-- A string literal, as it is written. -/
def ofString (t : String) (h : ∀ c ∈ t.toList.map ch, InChar c ∧ c ≠ 0 := by decide) : CStr :=
  lit (t.toList.map ch) h

variable {σ : Type} {s : CStr} {as cs : List ℤ} {c : ℤ}

/-- `strlen(s)`. -/
def strlen (s : CStr) : ℕ := s.chars.length

/-- `s[i]`. -/
def get (s : CStr) (i : ℤ) : C σ ℤ :=
  if 0 ≤ i ∧ i ≤ s.strlen then pure (s.chars[i.toNat]?.getD 0) else Prog.fault .outOfBounds

/-- The character after a part of the string is the first one of the rest, or
the NUL. -/
theorem get_append (hs : s.chars = as ++ cs) : (s.get as.length : C σ ℤ) = pure (cs.headD 0) := by
  have hle : as.length ≤ s.strlen := by
    rw [strlen, hs, List.length_append]
    omega
  rw [get, if_pos ⟨by omega, by omega⟩, hs, Int.toNat_natCast, List.getElem?_append_right le_rfl,
    Nat.sub_self]
  cases cs <;> rfl

theorem get_cons (hs : s.chars = as ++ c :: cs) : (s.get as.length : C σ ℤ) = pure c :=
  get_append hs

/-- The string that a pointer to `s[i]` points to. -/
def rest (s : CStr) (i : ℕ) : C σ (List ℤ) :=
  if i ≤ s.strlen then pure (s.chars.drop i) else Prog.fault .outOfBounds

theorem rest_append (hs : s.chars = as ++ cs) : (s.rest as.length : C σ (List ℤ)) = pure cs := by
  have hle : as.length ≤ s.strlen := by
    rw [strlen, hs, List.length_append]
    exact Nat.le_add_right _ _
  rw [rest, if_pos hle, hs, List.drop_left]

/-- The pointer `&s[i]`, by its distance from the start of the string. -/
def addr (s : CStr) (i : ℤ) : C σ ℕ :=
  if 0 ≤ i ∧ i ≤ s.strlen then pure i.toNat else Prog.fault .outOfBounds

theorem addr_of_le {i : ℕ} (hi : i ≤ s.strlen) : (s.addr i : C σ ℕ) = pure i := by
  rw [addr, if_pos ⟨by omega, by omega⟩, Int.toNat_natCast]

theorem length_lt (hs : s.chars = as ++ c :: cs) : as.length < s.strlen := by
  rw [strlen, hs, List.length_append, List.length_cons]
  omega

end CStr

/-! ### A string in an array -/

section Buffer

variable {buf as rest : List ℤ} {s : CStr}

/-- `memset(buf, c, n)`, the array being the state. -/
def memset (c : ℤ) (n : ℕ) : C (List ℤ) Unit := do
  let buf ← Prog.get
  if n ≤ buf.length then
    Prog.set (List.replicate n c ++ buf.drop n)
  else
    Prog.fault .outOfBounds

/-- `strcpy(buf, s)`, the array being the state. The NUL is copied too. -/
def strcpy (s : CStr) : C (List ℤ) Unit := do
  let buf ← Prog.get
  if s.strlen < buf.length then
    Prog.set (s.chars ++ 0 :: buf.drop (s.strlen + 1))
  else
    Prog.fault .outOfBounds

/-- The string an array begins with. -/
def bufStr (buf : List ℤ) : List ℤ := buf.takeWhile (· ≠ 0)

/-- `strlen(buf)`, the array being the state. -/
def bufLen : C (List ℤ) ℕ := do
  let buf ← Prog.get
  if 0 ∈ buf then pure (bufStr buf).length else Prog.fault .outOfBounds

theorem memset_returns {c : ℤ} {n : ℕ} (h : n ≤ buf.length) :
    (memset c n).Returns buf () (List.replicate n c ++ buf.drop n) := by
  refine .bind (Prog.Returns.get buf) ?_
  rw [if_pos h]
  exact Prog.Returns.set buf _

theorem strcpy_returns (h : s.strlen < buf.length) :
    (strcpy s).Returns buf () (s.chars ++ 0 :: buf.drop (s.strlen + 1)) := by
  refine .bind (Prog.Returns.get buf) ?_
  rw [if_pos h]
  exact Prog.Returns.set buf _

/-- The copy does not look at the size of the array. -/
theorem strcpy_faults (h : buf.length ≤ s.strlen) : (strcpy s).Faults buf .outOfBounds := by
  refine .bind (Prog.Returns.get buf) ?_
  rw [if_neg (by omega)]
  exact Prog.Faults.fault _ buf

theorem bufStr_append (h : 0 ∉ as) : bufStr (as ++ 0 :: rest) = as := by
  rw [bufStr, List.takeWhile_append_of_pos]
  · simp
  · intro c hc
    simpa using fun hc0 : c = 0 => h (hc0 ▸ hc)

theorem bufLen_returns (h : 0 ∉ as) :
    bufLen.Returns (as ++ 0 :: rest) as.length (as ++ 0 :: rest) := by
  refine .bind (Prog.Returns.get _) ?_
  rw [if_pos (by simp), bufStr_append h]
  exact Prog.Returns.pure _ _

end Buffer

/-! ### `std::string` -/

section StdString

variable {σ : Type} {s as cs : List ℤ}

/-- `s[i]` of a `std::string`. -/
def strAt (s : List ℤ) (i : ℤ) : C σ ℤ :=
  if toSize i ≤ s.length then pure (s[toSize i]?.getD 0) else Prog.fault .outOfBounds

/-- `to_string(z)` -/
def toStr (z : ℤ) : List ℤ := (toString z).toList.map ch

/-- The character after a part of the string is the first one of the rest, or
the NUL. -/
theorem strAt_append (hs : s = as ++ cs) (has : as.length < 2 ^ 64) :
    (strAt s as.length : C σ ℤ) = pure (cs.headD 0) := by
  have hle : as.length ≤ s.length := by
    rw [hs, List.length_append]
    exact Nat.le_add_right _ _
  rw [strAt, toSize_natCast has, if_pos hle, hs, List.getElem?_append_right le_rfl, Nat.sub_self]
  cases cs <;> rfl

end StdString

end DocumentCode
