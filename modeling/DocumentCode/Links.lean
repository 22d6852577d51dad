import Mathlib.Data.List.Nodup
import Mathlib.Data.Fintype.Pigeonhole
import Mathlib.Data.Set.Finite.Lattice
import Mathlib.Logic.Relation
import Mathlib.Logic.Function.Iterate
import Mathlib.Tactic.Ring

/-!
# Chains of links

The shape of a chain of cells each holding at most one link, with no cell
contents and no program in sight. A *link map* sends an address to `none` when
no cell lives there, to `some none` when its cell ends the chain and to
`some (some b)` when its cell links to `b`; a pointer is an `Option α`, `none`
being the null pointer.

* `DocumentCode.Links.Path` – following the links from a pointer goes through
  the cells of a list, in order, and stops at another pointer. A path to the
  null pointer never repeats a cell (`DocumentCode.Links.Path.nodup`) and is the
  only one (`DocumentCode.Links.Path.null_unique`).
* `DocumentCode.Links.Rho` – a chain that runs into a cycle: a tail, then a
  cycle, all cells distinct.
* `DocumentCode.Links.exists_shape` – **in finitely many cells there is no third
  shape**.
* `DocumentCode.Links.advance` – following one link, as a function of pointers,
  with the two facts a walk at two speeds rests on: the two walkers meet
  (`DocumentCode.Links.exists_meet`), and the slow one reaches the null pointer
  only where the fast one has.
* `DocumentCode.Links.turn` – the links of a list of cells turned round, each
  towards the cell before it.
-/

namespace DocumentCode

namespace Links

open Relation

variable {α : Type}

/-! ### Paths -/

/-- Following the links from `p` goes through the cells of the list, in order,
and stops at `q`. -/
def Path (link : α → Option (Option α)) : Option α → List α → Option α → Prop
  | p, [], q => p = q
  | p, a :: as, q => p = some a ∧ ∃ p', link a = some p' ∧ Path link p' as q

variable {link link' : α → Option (Option α)} {p q m : Option α} {a b c : α}
  {as bs xs ys ts cs : List α}

@[simp] theorem path_nil : Path link p [] q ↔ p = q := Iff.rfl

@[simp] theorem path_cons :
    Path link p (a :: as) q ↔ p = some a ∧ ∃ p', link a = some p' ∧ Path link p' as q := Iff.rfl

theorem path_append : Path link p (as ++ bs) q ↔ ∃ m, Path link p as m ∧ Path link m bs q := by
  induction as generalizing p with
  | nil => simp
  | cons a as ih =>
    simp only [List.cons_append, path_cons, ih]
    constructor
    · rintro ⟨hp, p', hl, m, h1, h2⟩
      exact ⟨m, ⟨hp, p', hl, h1⟩, h2⟩
    · rintro ⟨m, ⟨hp, p', hl, h1⟩, h2⟩
      exact ⟨hp, p', hl, m, h1, h2⟩

theorem Path.append (h : Path link p as m) (h' : Path link m bs q) :
    Path link p (as ++ bs) q := path_append.mpr ⟨m, h, h'⟩

/-- **A path only reads its own cells.** -/
theorem Path.congr (h : Path link p as q) (heq : ∀ a ∈ as, link' a = link a) :
    Path link' p as q := by
  induction as generalizing p with
  | nil => exact h
  | cons a as ih =>
    obtain ⟨hp, p', hl, hrest⟩ := h
    exact ⟨hp, p', (heq a List.mem_cons_self).trans hl,
      ih hrest fun b hb => heq b (List.mem_cons_of_mem a hb)⟩

/-- The cells of a path are there. -/
theorem Path.isSome (h : Path link p as q) (ha : a ∈ as) : (link a).isSome := by
  induction as generalizing p with
  | nil => simp at ha
  | cons b as ih =>
    obtain ⟨-, p', hl, hrest⟩ := h
    rcases List.mem_cons.mp ha with rfl | ha
    · simp [hl]
    · exact ih hrest ha

/-- **There is only one path to the null pointer.** -/
theorem Path.null_unique (h : Path link p as none) (h' : Path link p bs none) : as = bs := by
  induction as generalizing p bs with
  | nil =>
    obtain rfl : p = none := h
    cases bs with
    | nil => rfl
    | cons b bs => exact absurd h'.1 (by simp)
  | cons a as ih =>
    obtain ⟨rfl, p', hl, hrest⟩ := h
    cases bs with
    | nil => exact absurd (show some a = none from h') (by simp)
    | cons b bs =>
      obtain ⟨hab, p'', hl', hrest'⟩ := h'
      obtain rfl : a = b := Option.some.inj hab
      obtain rfl : p' = p'' := Option.some.inj (hl.symm.trans hl')
      rw [ih hrest hrest']

/-- **A path to the null pointer never comes back to a cell**: two visits would
give two paths from there, of different lengths. -/
theorem Path.nodup (h : Path link p as none) : as.Nodup := by
  induction as generalizing p with
  | nil => exact List.nodup_nil
  | cons a as ih =>
    obtain ⟨rfl, p', hl, hrest⟩ := h
    refine List.nodup_cons.mpr ⟨fun ha => ?_, ih hrest⟩
    obtain ⟨as₁, as₂, rfl⟩ := List.append_of_mem ha
    -- the path from `a`, and the one from the second visit to it
    obtain ⟨m, -, hm⟩ := path_append.mp hrest
    obtain rfl : m = some a := hm.1
    have hself : Path link (some a) (a :: (as₁ ++ a :: as₂)) none := ⟨rfl, p', hl, hrest⟩
    have hlen := congrArg List.length (hself.null_unique hm)
    simp only [List.length_cons, List.length_append] at hlen
    omega

/-- A path determines the links of its cells. -/
theorem Path.link_eq (h : Path link p as q) (h' : Path link' p as q) (ha : a ∈ as) :
    link' a = link a := by
  induction as generalizing p with
  | nil => simp at ha
  | cons b as ih =>
    obtain ⟨-, m, hl, hrest⟩ := h
    obtain ⟨-, m', hl', hrest'⟩ := h'
    obtain rfl : m = m' := by
      cases as with
      | nil => exact hrest.trans hrest'.symm
      | cons d as => exact hrest.1.trans hrest'.1.symm
    rcases List.mem_cons.mp ha with rfl | ha
    · rw [hl, hl']
    · exact ih hrest hrest' ha

/-! ### Reachable cells -/

/-- The cell `a` links to the cell `b`. -/
def Edge (link : α → Option (Option α)) (a b : α) : Prop := link a = some (some b)

theorem Edge.unique (h : Edge link a b) (h' : Edge link a c) : b = c :=
  Option.some.inj (Option.some.inj (h.symm.trans h'))

/-- The address `a` is reached by following links from `p`. -/
def Reach (link : α → Option (Option α)) (p : Option α) (a : α) : Prop :=
  ∃ b, p = some b ∧ ReflTransGen (Edge link) b a

/-- Every address reached from `p` has a cell: following links from `p` runs into
no dangling pointer. -/
def Sound (link : α → Option (Option α)) (p : Option α) : Prop :=
  ∀ a, Reach link p a → (link a).isSome

theorem not_reach_none : ¬Reach link none a := by
  rintro ⟨b, hb, -⟩
  simp at hb

theorem reach_head : Reach link (some a) a := ⟨a, rfl, .refl⟩

theorem reach_some : Reach link (some a) b ↔ ReflTransGen (Edge link) a b :=
  ⟨fun ⟨_, h, hr⟩ => Option.some.inj h ▸ hr, fun h => ⟨a, rfl, h⟩⟩

/-- What is reached from a cell is the cell, or is reached from its link. -/
theorem reach_some_iff (hl : link a = some m) :
    Reach link (some a) b ↔ b = a ∨ Reach link m b := by
  rw [reach_some, ReflTransGen.cases_head_iff]
  refine or_congr eq_comm ⟨fun ⟨d, hd, hr⟩ => ?_, fun ⟨d, hd, hr⟩ => ?_⟩
  · exact ⟨d, Option.some.inj (hl.symm.trans hd), hr⟩
  · exact ⟨d, by rw [Edge, hl, hd], hr⟩

theorem Sound.of_link (h : Sound link (some a)) (hl : link a = some m) : Sound link m :=
  fun _ hb => h _ ((reach_some_iff hl).mpr (Or.inr hb))

/-- What is reached from the start of a path is on it, or is reached from its
end. -/
theorem Path.reach_iff (h : Path link p as q) : Reach link p b ↔ b ∈ as ∨ Reach link q b := by
  induction as generalizing p with
  | nil =>
    obtain rfl : p = q := h
    simp
  | cons a as ih =>
    obtain ⟨rfl, p', hl, hrest⟩ := h
    rw [reach_some_iff hl, ih hrest, List.mem_cons, or_assoc]

theorem Path.reach_null_iff (h : Path link p as none) : Reach link p b ↔ b ∈ as :=
  h.reach_iff.trans (or_iff_left not_reach_none)

theorem Path.sound (h : Path link p as none) : Sound link p :=
  fun _ ha => h.isSome (h.reach_null_iff.mp ha)

/-- The cell `a` lies on a cycle: it is reached from itself in one or more
steps. -/
def Cyclic (link : α → Option (Option α)) (a : α) : Prop := TransGen (Edge link) a a

theorem cyclic_iff (hl : link a = some m) : Cyclic link a ↔ Reach link m a := by
  rw [Cyclic, TransGen.head'_iff]
  constructor
  · rintro ⟨d, hd, hr⟩
    exact ⟨d, Option.some.inj (hl.symm.trans hd), hr⟩
  · rintro ⟨d, rfl, hr⟩
    exact ⟨d, hl, hr⟩

/-- **No cell of a path to the null pointer lies on a cycle.** -/
theorem Path.not_cyclic (h : Path link p as none) (ha : Reach link p a) : ¬Cyclic link a := by
  intro hcyc
  obtain ⟨as₁, as₂, rfl⟩ := List.append_of_mem (h.reach_null_iff.mp ha)
  obtain ⟨m, -, -, p', hl, hrest⟩ := path_append.mp h
  -- `a` would be reached from its own link, hence be further down
  have hmem : a ∈ as₂ := hrest.reach_null_iff.mp ((cyclic_iff hl).mp hcyc)
  exact (List.nodup_cons.mp h.nodup.of_append_right).1 hmem

/-! ### Chains that run into a cycle -/

/-- **A chain that runs into a cycle**: from `p` along the tail `ts` to the cell
`c`, and from there along `c :: cs` back to `c`, no two of these cells being the
same. The tail may be empty, and so may `cs`: the cell then links to itself. -/
structure Rho (link : α → Option (Option α)) (p : Option α) (ts : List α) (c : α)
    (cs : List α) : Prop where
  /-- The tail leads into the cycle. -/
  tail : Path link p ts (some c)
  /-- The cycle comes back to its first cell. -/
  cycle : Path link (some c) (c :: cs) (some c)
  /-- The cells are distinct. -/
  nodup : (ts ++ c :: cs).Nodup

/-- What is reached from a cell of a cycle is the whole cycle. -/
theorem reach_cycle_iff (h : Path link (some c) (c :: cs) (some c)) :
    Reach link (some c) b ↔ b ∈ c :: cs := by
  refine ⟨fun hb => ?_, fun hb => h.reach_iff.mpr (Or.inl hb)⟩
  have hstep : ∀ d e, d ∈ c :: cs → Edge link d e → e ∈ c :: cs := by
    intro d e hd he
    obtain ⟨as₁, as₂, hsplit⟩ := List.append_of_mem hd
    rw [hsplit] at h
    obtain ⟨m, -, -, p', hl, hrest⟩ := path_append.mp h
    obtain rfl : p' = some e := Option.some.inj (hl.symm.trans he)
    cases as₂ with
    | nil =>
      obtain rfl : e = c := Option.some.inj hrest
      exact List.mem_cons_self
    | cons f as₂ =>
      obtain rfl : e = f := Option.some.inj hrest.1
      rw [hsplit]
      simp
  induction reach_some.mp hb with
  | refl => exact List.mem_cons_self
  | tail hr he ih => exact hstep _ _ (ih (reach_some.mpr hr)) he

theorem Rho.reach_iff (h : Rho link p ts c cs) : Reach link p b ↔ b ∈ ts ++ c :: cs := by
  rw [h.tail.reach_iff, reach_cycle_iff h.cycle, List.mem_append]

/-- **The cells of the cycle are the cyclic ones.** -/
theorem Rho.cyclic_iff (h : Rho link p ts c cs) (hb : Reach link p b) :
    Cyclic link b ↔ b ∈ c :: cs := by
  constructor
  · intro hcyc
    rcases List.mem_append.mp (h.reach_iff.mp hb) with ht | hc
    · -- a cyclic cell of the tail would be met again further down
      obtain ⟨as₁, as₂, rfl⟩ := List.append_of_mem ht
      obtain ⟨m, -, -, p', hl, hrest⟩ := path_append.mp h.tail
      have hback := (Links.cyclic_iff hl).mp hcyc
      rw [hrest.reach_iff, reach_cycle_iff h.cycle, ← List.mem_append] at hback
      have hnd := h.nodup
      rw [List.append_assoc, List.cons_append] at hnd
      exact absurd hback (List.nodup_cons.mp hnd.of_append_right).1
    · exact hc
  · intro hc
    obtain ⟨as₁, as₂, hsplit⟩ := List.append_of_mem hc
    have hcycle := h.cycle
    rw [hsplit] at hcycle
    obtain ⟨m, h1, -, p', hl, hrest⟩ := path_append.mp hcycle
    rw [Links.cyclic_iff hl, hrest.reach_iff, reach_cycle_iff h.cycle]
    exact Or.inr hc

theorem Rho.sound (h : Rho link p ts c cs) : Sound link p := by
  intro b hb
  rcases List.mem_append.mp (h.reach_iff.mp hb) with ht | hc
  · exact h.tail.isSome ht
  · exact h.cycle.isSome hc

/-- **In finitely many cells a chain ends or runs into a cycle.** The walk is
extended cell by cell; as its cells are distinct it stops, at the null pointer or
at a cell it has seen. -/
theorem exists_shape (hfin : {a | link a ≠ none}.Finite) (h : Sound link p) :
    (∃ as, Path link p as none) ∨ ∃ ts c cs, Rho link p ts c cs := by
  classical
  suffices H : ∀ n as q, hfin.toFinset.card - as.length = n → Path link p as q → as.Nodup →
      (∃ as, Path link p as none) ∨ ∃ ts c cs, Rho link p ts c cs from
    H _ [] p rfl rfl List.nodup_nil
  intro n
  -- on the number of cells that are not on the path yet
  induction n using Nat.strongRecOn with
  | ind n ih =>
    intro as q hn hpath hnd
    cases q with
    | none => exact Or.inl ⟨as, hpath⟩
    | some b =>
      -- the walk stands at the cell `b`
      by_cases hb : b ∈ as
      · -- a cell that has been seen starts the cycle
        obtain ⟨ts, cs, rfl⟩ := List.append_of_mem hb
        obtain ⟨m, h1, h2⟩ := path_append.mp hpath
        obtain rfl : m = some b := h2.1
        exact Or.inr ⟨ts, b, cs, h1, h2, hnd⟩
      · obtain ⟨q', hq'⟩ := Option.isSome_iff_exists.mp
          (h b (hpath.reach_iff.mpr (Or.inr reach_head)))
        have hpath' : Path link p (as ++ [b]) q' := hpath.append ⟨rfl, q', hq', rfl⟩
        have hnd' : (as ++ [b]).Nodup :=
          List.nodup_append_comm.mp (List.nodup_cons.mpr ⟨hb, hnd⟩)
        have hsub : (as ++ [b]).toFinset ⊆ hfin.toFinset := by
          intro d hd
          rw [Set.Finite.mem_toFinset]
          exact Option.isSome_iff_ne_none.mp (hpath'.isSome (List.mem_toFinset.mp hd))
        have hlen : as.length + 1 ≤ hfin.toFinset.card := by
          have hcard := Finset.card_le_card hsub
          rw [List.toFinset_card_of_nodup hnd'] at hcard
          simpa using hcard
        refine ih (hfin.toFinset.card - (as ++ [b]).length) ?_ _ _ rfl hpath' hnd'
        rw [List.length_append, List.length_singleton]
        omega

/-- **The links of a path are the neighbours in its list of cells**, the end
counted in. -/
theorem Path.edge_of_infix (h : Path link p as (some c)) (hab : [a, b] <:+: as ++ [c]) :
    Edge link a b := by
  obtain ⟨as₁, as₂, hsplit⟩ := hab
  induction as generalizing p as₁ with
  | nil =>
    have hlen := congrArg List.length hsplit
    simp only [List.length_append, List.length_cons, List.length_nil] at hlen
    omega
  | cons d as ih =>
    obtain ⟨-, m, hl, hrest⟩ := h
    cases as₁ with
    | nil =>
      simp only [List.nil_append, List.cons_append, List.cons.injEq] at hsplit
      obtain ⟨rfl, hsplit⟩ := hsplit
      cases as with
      | nil =>
        obtain ⟨rfl, -⟩ : b = c ∧ as₂ = [] := by simpa using hsplit
        rw [Edge, hl, show m = some b from hrest]
      | cons e as =>
        obtain ⟨rfl, -⟩ : b = e ∧ as₂ = as ++ [c] := by simpa using hsplit
        rw [Edge, hl, hrest.1]
    | cons e as₁ =>
      simp only [List.cons_append, List.cons.injEq] at hsplit
      exact ih hrest as₁ (by simpa using hsplit.2)

theorem Path.infix_of_edge (h : Path link p as (some c)) (ha : a ∈ as) (hab : Edge link a b) :
    [a, b] <:+: as ++ [c] := by
  obtain ⟨as₁, as₂, rfl⟩ := List.append_of_mem ha
  obtain ⟨m, -, -, m', hl, hrest⟩ := path_append.mp h
  obtain rfl : m' = some b := Option.some.inj (hl.symm.trans hab)
  cases as₂ with
  | nil =>
    obtain rfl : b = c := Option.some.inj hrest
    exact ⟨as₁, [], by simp⟩
  | cons d as₂ =>
    obtain rfl : b = d := Option.some.inj hrest.1
    exact ⟨as₁, as₂ ++ [c], by simp⟩

/-! ### Walking at two speeds -/

/-- The pointer one link further; the null pointer stays where it is. -/
def advance (link : α → Option (Option α)) : Option α → Option α
  | none => none
  | some a => (link a).getD none

@[simp] theorem advance_none : advance link none = none := rfl

theorem advance_some (h : link a = some m) : advance link (some a) = m := by
  rw [advance, h, Option.getD_some]

theorem Sound.advance (h : Sound link p) : Sound link (advance link p) := by
  cases p with
  | none => exact h
  | some a =>
    obtain ⟨m, hl⟩ := Option.isSome_iff_exists.mp (h a reach_head)
    exact advance_some hl ▸ h.of_link hl

theorem Sound.advance_iterate (h : Sound link p) (n : ℕ) :
    Sound link ((Links.advance link)^[n] p) := by
  induction n with
  | zero => exact h
  | succ n ih =>
    rw [Function.iterate_succ_apply']
    exact ih.advance

@[simp] theorem advance_iterate_none (n : ℕ) : (advance link)^[n] none = none :=
  Function.iterate_fixed rfl n

/-- The null pointer, once reached, is not left. -/
theorem advance_iterate_eq_none {i j : ℕ} (hij : i ≤ j) (h : (advance link)^[i] p = none) :
    (advance link)^[j] p = none := by
  obtain ⟨k, rfl⟩ := Nat.exists_eq_add_of_le' hij
  rw [Function.iterate_add_apply, h, advance_iterate_none]

/-- The walk along a path meets its cells in order. -/
theorem Path.advance_iterate (h : Path link p as none) (i : ℕ) :
    (advance link)^[i] p = as[i]? := by
  induction as generalizing p i with
  | nil =>
    obtain rfl : p = none := h
    simp
  | cons a as ih =>
    obtain ⟨rfl, p', hl, hrest⟩ := h
    cases i with
    | zero => rfl
    | succ i => rw [Function.iterate_succ_apply, advance_some hl, ih hrest, List.getElem?_cons_succ]

theorem reach_of_advance_iterate {i : ℕ} (h : (advance link)^[i] p = some a) : Reach link p a := by
  induction i generalizing p with
  | zero => exact ⟨a, h, .refl⟩
  | succ i ih =>
    rw [Function.iterate_succ_apply] at h
    obtain ⟨d, hd, hr⟩ := ih h
    cases p with
    | none => simp at hd
    | some b =>
      refine ⟨b, rfl, .head (b := d) ?_ hr⟩
      cases hl : link b with
      | none => simp [advance, hl] at hd
      | some m => rw [Edge, hl, ← advance_some hl, hd]

/-- Two steps of the walk at the same cell put it on a cycle. -/
theorem cyclic_of_advance_iterate {i j : ℕ} (hij : i < j) (hi : (advance link)^[i] p = some a)
    (hj : (advance link)^[j] p = some a) : Cyclic link a := by
  obtain ⟨k, rfl⟩ := Nat.exists_eq_add_of_lt hij
  rw [show i + k + 1 = k + 1 + i by omega, Function.iterate_add_apply, hi,
    Function.iterate_succ_apply] at hj
  obtain ⟨d, hd, hr⟩ := reach_of_advance_iterate hj
  cases hl : link a with
  | none => simp [advance, hl] at hd
  | some m => exact (Links.cyclic_iff hl).mpr ⟨d, (advance_some hl).symm.trans hd, hr⟩

theorem exists_advance_iterate (h : Reach link p a) : ∃ i, (advance link)^[i] p = some a := by
  obtain ⟨b, rfl, hr⟩ := h
  induction hr with
  | refl => exact ⟨0, rfl⟩
  | tail _ he ih =>
    obtain ⟨i, hi⟩ := ih
    exact ⟨i + 1, by rw [Function.iterate_succ_apply', hi, advance_some he]⟩

/-- A walk that reaches a cycle never ends. -/
theorem advance_iterate_ne_none (ha : Reach link p a) (hcyc : Cyclic link a) (i : ℕ) :
    (advance link)^[i] p ≠ none := by
  intro hi
  -- from `a` the walk comes back to `a` after `k + 1` steps, hence after any multiple
  obtain ⟨m, hm⟩ := exists_advance_iterate ha
  obtain ⟨d, hd, hr⟩ := TransGen.head'_iff.mp hcyc
  obtain ⟨k, hk⟩ := exists_advance_iterate (reach_some.mpr hr)
  have hloop : (advance link)^[k + 1] (some a) = some a := by
    rw [Function.iterate_succ_apply, advance_some hd, hk]
  have hback : (advance link)^[i * (k + 1) + m] p = some a := by
    rw [Function.iterate_add_apply, hm, mul_comm, Function.iterate_mul,
      Function.iterate_fixed hloop]
  have hle : i ≤ i * (k + 1) + m :=
    Nat.le_add_right_of_le (Nat.le_mul_of_pos_right i (Nat.succ_pos k))
  simp [advance_iterate_eq_none hle hi] at hback

/-- **The two walkers meet**: in finitely many cells there is a step at which a
walk and a walk twice as fast are at the same place, be it the null pointer. -/
theorem exists_meet (hfin : {a | link a ≠ none}.Finite) (p : Option α) :
    ∃ T, 0 < T ∧ (advance link)^[T] p = (advance link)^[2 * T] p := by
  -- the walk stays in a finite set, so two of its steps `i < j` agree
  have hS : (insert p (insert none ((fun a => advance link (some a)) ''
      {a | link a ≠ none}))).Finite := ((hfin.image _).insert _).insert _
  have hmem : ∀ n, (advance link)^[n] p ∈ insert p (insert none
      ((fun a => advance link (some a)) '' {a | link a ≠ none})) := by
    intro n
    cases n with
    | zero => exact Or.inl rfl
    | succ n =>
      rw [Function.iterate_succ_apply']
      cases hq : (advance link)^[n] p with
      | none => exact Or.inr (Or.inl rfl)
      | some a =>
        by_cases ha : link a = none
        · exact Or.inr (Or.inl (by rw [advance, ha, Option.getD_none]))
        · exact Or.inr (Or.inr ⟨a, ha, rfl⟩)
  have hex : ∃ i j, i < j ∧ (advance link)^[i] p = (advance link)^[j] p := by
    by_contra hno
    push Not at hno
    refine Set.infinite_of_injective_forall_mem (fun i j hij => ?_) hmem hS
    rcases lt_trichotomy i j with hlt | rfl | hlt
    · exact absurd hij (hno i j hlt)
    · rfl
    · exact absurd hij.symm (hno j i hlt)
  obtain ⟨i, j, hlt, heq⟩ := hex
  obtain ⟨d, rfl⟩ := Nat.exists_eq_add_of_lt hlt
  -- from step `i` on the walk has period `d + 1`
  have hper : ∀ n, i ≤ n → ∀ k, (advance link)^[k * (d + 1) + n] p = (advance link)^[n] p := by
    intro n hn k
    induction k with
    | zero => rw [zero_mul, zero_add]
    | succ k ih =>
      obtain ⟨e, rfl⟩ := Nat.exists_eq_add_of_le' hn
      rw [← ih, show (k + 1) * (d + 1) + (e + i) = k * (d + 1) + e + (i + d + 1) by ring,
        show k * (d + 1) + (e + i) = k * (d + 1) + e + i by ring,
        Function.iterate_add_apply, Function.iterate_add_apply _ _ i, heq]
  refine ⟨(i + 1) * (d + 1), Nat.mul_pos (Nat.succ_pos i) (Nat.succ_pos d), ?_⟩
  have hle : i ≤ (i + 1) * (d + 1) :=
    (Nat.le_succ i).trans (Nat.le_mul_of_pos_right (i + 1) (Nat.succ_pos d))
  rw [two_mul, hper _ hle]

/-! ### Taking a cell out -/

/-- The link of a cell of a path is the next cell of it. -/
theorem Path.link_getElem (h : Path link p as none) {i : ℕ} (hi : i < as.length) :
    link as[i] = some as[i + 1]? := by
  induction as generalizing p i with
  | nil => simp at hi
  | cons a as ih =>
    obtain ⟨-, p', hl, hrest⟩ := h
    cases i with
    | zero =>
      rw [List.getElem_cons_zero, hl, List.getElem?_cons_succ, ← hrest.advance_iterate 0]
      rfl
    | succ i => exact ih hrest (by simpa using hi)

/-- **Linking a cell past the next one takes that one out of the chain.** -/
theorem Path.unlink [DecidableEq α] (h : Path link p as none) {i : ℕ}
    (hi : i + 1 < as.length) :
    Path (Function.update link as[i] (some as[i + 2]?)) p (as.eraseIdx (i + 1)) none := by
  have hnd := h.nodup
  induction as generalizing p i with
  | nil => simp at hi
  | cons a as ih =>
    obtain ⟨rfl, p', hl, hrest⟩ := h
    obtain ⟨ha, hnd⟩ := List.nodup_cons.mp hnd
    cases i with
    | zero =>
      cases as with
      | nil => simp at hi
      | cons b as =>
        obtain ⟨-, p'', hl', hrest'⟩ := hrest
        refine ⟨rfl, p'', ?_, hrest'.congr fun d hd => Function.update_of_ne ?_ _ _⟩
        · rw [List.getElem_cons_zero, Function.update_self, List.getElem?_cons_succ,
            List.getElem?_cons_succ, ← hrest'.advance_iterate 0]
          rfl
        · rintro rfl
          exact ha (List.mem_cons_of_mem _ hd)
    | succ i =>
      have hi' : i + 1 < as.length := by simpa using hi
      have hne : a ≠ as[i] := fun hc => ha (hc ▸ List.getElem_mem _)
      refine ⟨rfl, p', ?_, ih hrest hi' hnd⟩
      rw [List.getElem_cons_succ, Function.update_of_ne hne, hl]

/-! ### Turning links round -/

/-- The last of `pre` and the cells of the list. -/
def lastFrom (pre : Option α) : List α → Option α
  | [] => pre
  | a :: as => lastFrom (some a) as

@[simp] theorem lastFrom_nil : lastFrom p ([] : List α) = p := rfl

@[simp] theorem lastFrom_cons : lastFrom p (a :: as) = lastFrom (some a) as := rfl

@[simp] theorem lastFrom_append_singleton : lastFrom p (as ++ [a]) = some a := by
  induction as generalizing p with
  | nil => rfl
  | cons b as ih => exact ih

variable [DecidableEq α]

/-- **The links of the cells of a list turned round**: the first cell links to
`pre`, every other one to the cell before it. -/
def turn (link : α → Option (Option α)) (pre : Option α) : List α → α → Option (Option α)
  | [] => link
  | a :: as => turn (Function.update link a (some pre)) (some a) as

@[simp] theorem turn_nil : turn link p [] = link := rfl

@[simp] theorem turn_cons :
    turn link p (a :: as) = turn (Function.update link a (some p)) (some a) as := rfl

/-- Only the listed cells are changed. -/
theorem turn_of_notMem (h : b ∉ as) : turn link p as b = link b := by
  induction as generalizing link p with
  | nil => rfl
  | cons a as ih =>
    rw [List.mem_cons, not_or] at h
    rw [turn_cons, ih h.2, Function.update_of_ne h.1]

theorem turn_append : turn link p (as ++ bs) = turn (turn link p as) (lastFrom p as) bs := by
  induction as generalizing link p with
  | nil => rfl
  | cons a as ih => exact ih

/-- **Turned links run backwards**: from the last cell of the list to its first,
and on to `pre`. -/
theorem path_turn (hnd : as.Nodup) : Path (turn link p as) (lastFrom p as) as.reverse p := by
  induction as generalizing link p with
  | nil => rfl
  | cons a as ih =>
    obtain ⟨ha, hnd⟩ := List.nodup_cons.mp hnd
    rw [List.reverse_cons]
    refine (ih hnd).append ⟨rfl, p, ?_, rfl⟩
    rw [turn_of_notMem ha, Function.update_self]

/-- **When the end of a chain is turned round, what is before it leads on to the
first turned cell**, which now ends the chain. -/
theorem Path.turn_end (h : Path link p (as ++ b :: bs) none) :
    Path (turn link none (b :: bs)) p (as ++ [b]) none := by
  have hdis := List.disjoint_of_nodup_append h.nodup
  have hb := (List.nodup_cons.mp h.nodup.of_append_right).1
  obtain ⟨m, has, rfl, -⟩ := path_append.mp h
  have hend : turn link none (b :: bs) b = some none := by
    rw [turn_cons, turn_of_notMem hb, Function.update_self]
  exact Path.append (has.congr fun a ha => turn_of_notMem (hdis ha)) ⟨rfl, none, hend, rfl⟩

omit [DecidableEq α] in
/-- Turning the list of a path round again starts from where the path did. -/
theorem Path.lastFrom_reverse (h : Path link p as q) : lastFrom q as.reverse = p := by
  cases as with
  | nil => exact h.symm
  | cons a as => rw [List.reverse_cons, lastFrom_append_singleton, h.1]

/-- The links left by turning round, from its tail on, a chain that runs into a
cycle: the tail and the cycle are turned first, and then the entry of the cycle
and the tail once more. -/
def turnRho (link : α → Option (Option α)) (ts : List α) (c : α) (cs : List α) :
    α → Option (Option α) :=
  turn (turn link none (ts ++ c :: cs)) (lastFrom none (ts ++ c :: cs)) (c :: ts.reverse)

/-- After the first half of the turn, the entry of the cycle leads back down the
tail. -/
theorem Rho.path_back (h : Rho link p ts c cs) :
    Path (turn link none (ts ++ c :: cs)) (some c) (c :: ts.reverse) none := by
  have hback : Path (turn link none (ts ++ c :: cs)) _ _ none := path_turn h.nodup
  rw [List.reverse_append, List.reverse_cons, List.append_assoc] at hback
  obtain ⟨m, -, hm⟩ := path_append.mp hback
  obtain rfl : m = some c := hm.1
  exact hm

/-- **Turning a chain that runs into a cycle restores its tail and reverses its
cycle.** -/
theorem Rho.turnRho (h : Rho link p ts c cs) :
    Rho (turnRho link ts c cs) p ts c cs.reverse := by
  have hnd : (c :: ts.reverse).Nodup := h.path_back.nodup
  have hcs : ∀ a ∈ cs, a ∉ c :: ts.reverse := by
    intro a ha hmem
    have hdis := List.disjoint_of_nodup_append h.nodup
    have hc := (List.nodup_cons.mp h.nodup.of_append_right).1
    rcases List.mem_cons.mp hmem with rfl | hmem
    · exact hc ha
    · exact hdis (List.mem_reverse.mp hmem) (List.mem_cons_of_mem _ ha)
  -- the second half of the turn: up the tail to `c`, and on to the last cell of the cycle
  have hup : Path (Links.turnRho link ts c cs) _ _ (lastFrom none (ts ++ c :: cs)) :=
    path_turn hnd
  rw [lastFrom_cons, h.tail.lastFrom_reverse, List.reverse_cons, List.reverse_reverse] at hup
  obtain ⟨m, htail, hm⟩ := path_append.mp hup
  obtain rfl : m = some c := hm.1
  -- the rest of the cycle is as the first half of the turn left it
  have hdown : Path (turn link none (ts ++ c :: cs)) _ _ none := path_turn h.nodup
  rw [List.reverse_append, List.reverse_cons, List.append_assoc] at hdown
  obtain ⟨m', hcycle, hm'⟩ := path_append.mp hdown
  obtain rfl : m' = some c := hm'.1
  refine ⟨htail, ?_, ?_⟩
  · obtain ⟨-, m'', hl, hm''⟩ := hm
    obtain rfl : m'' = _ := hm''
    exact ⟨rfl, _, hl, hcycle.congr fun a ha => turn_of_notMem (hcs a (List.mem_reverse.mp ha))⟩
  · have hperm : (ts ++ c :: cs.reverse).Perm (ts ++ c :: cs) :=
      (List.Perm.refl ts).append ((List.reverse_perm cs).cons c)
    exact hperm.nodup_iff.mpr h.nodup

end Links

end DocumentCode
