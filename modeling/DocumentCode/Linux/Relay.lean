import DocumentCode.CLang
import Mathlib.Data.List.Infix

/-!
# Copying from one descriptor to another

A process that reads into a buffer and writes the buffer out again, for ever:
what `fifo_write` and `fifo_read` have in common. A system call is two steps, its
issue and its return, and a `write` may hand over its bytes a few at a time in
between; what the calls return is up to the kernel. The process keeps a log of
the calls it makes.

What is wanted of such a process is stated on the bytes it has read, the bytes it
has written and the log:

* the second are a prefix of the first;
* every `write` is issued with the number of bytes the `read` just before it
  delivered (`DocumentCode.Relay.Counted`);
* nothing is issued after a `read` that returned 0 or -1
  (`DocumentCode.Relay.Quiet`).

The process keeps all three (`DocumentCode.Relay.Proc.Inv`) as long as it issues
its `write` only after a `read` that delivered something, and hands over no byte
after a `write` that returned less than it was given. That much is asked of a step
by `DocumentCode.Relay.Proc.Sound`; the lemmas of this module say that each kind
of step keeps the invariant, the two that need it under that condition. The
second half of it is about what the kernel answers. Which answers bring about the
first depends on the results the process looks at, so that is left to the programs.

Every answer a call may get is among those considered here, and some are that it
gets only rarely: a `write` to a FIFO that waits for room hands over all its bytes
unless it is interrupted.
-/

namespace DocumentCode

namespace Relay

/-! ### Memory -/

section Memory

variable {mem : ℕ → UInt8} {bs : List UInt8} {i m n : ℕ}

/-- The bytes at the addresses `i`, …, `i + k - 1`. -/
def slice (mem : ℕ → UInt8) (i k : ℕ) : List UInt8 := (List.range' i k).map mem

/-- The memory with `bs` stored from the address 0 on. -/
def store (mem : ℕ → UInt8) (bs : List UInt8) (i : ℕ) : UInt8 := bs[i]?.getD (mem i)

@[simp] theorem slice_zero : slice mem i 0 = [] := rfl

theorem slice_add : slice mem i (m + n) = slice mem i m ++ slice mem (i + m) n := by
  rw [slice, ← List.range'_append_1, List.map_append, slice, slice]

/-- What has been stored is read back. -/
theorem slice_store : slice (store mem bs) 0 bs.length = bs := by
  refine List.ext_getElem (by simp [slice]) fun i hi hi' => ?_
  simp [slice, store, hi']

end Memory

/-! ### Calls -/

/-- An entry of the log of a process. -/
inductive Call
  /-- A `read` is issued. -/
  | read
  /-- It returns. -/
  | got (r : ℤ)
  /-- A `write` of `n` bytes is issued. -/
  | write (n : ℕ)
  deriving DecidableEq, Repr

/-- Every `write` is of the number of bytes the `read` just before it delivered. -/
def Counted (log : List Call) : Prop :=
  ∀ (pre : List Call) (n : ℕ) (post : List Call), log = pre ++ .write n :: post →
    ∃ pre' r, pre = pre' ++ [.got r] ∧ (n : ℤ) = r

/-- Nothing is issued after a `read` that returned 0 or -1. -/
def Quiet (log : List Call) : Prop :=
  ∀ pre r post, log = pre ++ .got r :: post → r ≤ 0 → post = []

/-- Every `read` that has returned has delivered something. -/
def Positive (log : List Call) : Prop := ∀ r, .got r ∈ log → 0 < r

section Log

variable {log pre post : List Call} {c d : Call}

theorem append_singleton_eq_append_cons (h : log ++ [c] = pre ++ d :: post) :
    (log = pre ∧ c = d ∧ post = []) ∨ ∃ post', post = post' ++ [c] ∧ log = pre ++ d :: post' := by
  rcases List.eq_nil_or_concat post with rfl | ⟨post', e, rfl⟩
  · obtain ⟨hlog, hc⟩ := List.append_inj' h rfl
    exact Or.inl ⟨hlog, List.singleton_inj.mp hc, rfl⟩
  · rw [List.concat_eq_append, ← List.cons_append, ← List.append_assoc] at h
    obtain ⟨hlog, hc⟩ := List.append_inj' h rfl
    obtain rfl := List.singleton_inj.mp hc
    exact Or.inr ⟨post', List.concat_eq_append, hlog⟩

theorem counted_nil : Counted [] := fun pre n post h => by simp at h

theorem quiet_nil : Quiet [] := fun pre r post h => by simp at h

/-- A call that is no `write` does not need a `read` before it. -/
theorem Counted.append_singleton (h : Counted log) (hc : ∀ n, c ≠ .write n) :
    Counted (log ++ [c]) := by
  intro pre n post heq
  rcases append_singleton_eq_append_cons heq with ⟨-, rfl, -⟩ | ⟨post', -, heq'⟩
  · exact absurd rfl (hc n)
  · exact h pre n post' heq'

theorem Counted.append_write {r : ℤ} {n : ℕ} (h : Counted (log ++ [.got r])) (hn : (n : ℤ) = r) :
    Counted (log ++ [.got r] ++ [.write n]) := by
  intro pre m post heq
  rcases append_singleton_eq_append_cons heq with ⟨rfl, hm, -⟩ | ⟨post', -, heq'⟩
  · obtain rfl : n = m := Call.write.inj hm
    exact ⟨log, r, rfl, hn⟩
  · exact h pre m post' heq'

/-- **Any call may follow reads that have delivered something.** -/
theorem Positive.quiet_append (h : Positive log) (c : Call) : Quiet (log ++ [c]) := by
  intro pre r post heq hr
  rcases append_singleton_eq_append_cons heq with ⟨-, -, rfl⟩ | ⟨post', -, rfl⟩
  · rfl
  · exact absurd (h r (by simp)) (by omega)

theorem Positive.append_singleton (h : Positive log) (hc : ∀ r, c = .got r → 0 < r) :
    Positive (log ++ [c]) := by
  intro r hr
  rcases List.mem_append.mp hr with hr | hr
  · exact h r hr
  · exact hc r (List.mem_singleton.mp hr).symm

end Log

/-! ### A process -/

/-- `BUFSIZ` of `<stdio.h>`. -/
def BUFSIZ : ℕ := 8192

/-- The next thing a process does. -/
inductive PC
  /-- `access` -/
  | access
  /-- `mkfifo` -/
  | mkfifo
  /-- Issue `open`. -/
  | open
  /-- `open` returns. -/
  | opening
  /-- Issue `read`. -/
  | read
  /-- `read` returns. -/
  | reading
  /-- Issue `write`. -/
  | write
  /-- `write` hands over bytes, or returns. -/
  | writing
  /-- The process is gone. -/
  | exited
  deriving DecidableEq, Repr

structure Proc where
  pc : PC
  pipefd : ℤ
  /-- The memory from the start of `buf` on. -/
  mem : ℕ → UInt8
  read_bytes : ℤ
  /-- The number of bytes the `write` under way is to hand over. -/
  count : ℕ
  /-- The number of bytes it has handed over. -/
  sent : ℕ
  /-- A `write` has returned less than it was given. -/
  short : Bool
  /-- What was handed to `printf`. -/
  printed : List String
  log : List Call

/-- What the kernel answers. -/
inductive Answer
  /-- The call returns -1. -/
  | fail
  /-- The call succeeds; `read` returns 0. -/
  | ok
  /-- The number of a descriptor, or of bytes. -/
  | num (k : ℕ)
  /-- The bytes typed in. -/
  | bytes (bs : List UInt8)
  /-- `SIGPIPE` -/
  | killed
  deriving DecidableEq, Repr

/-- The answer is a number. -/
def Answer.isNum : Answer → Bool
  | .num _ => true
  | _ => false

namespace Proc

/-- `printf(line)` -/
def say (p : Proc) (line : String) : Proc := { p with printed := p.printed ++ [line] }

def goto (p : Proc) (pc : PC) : Proc := { p with pc }

/-- `pipefd = fd`, `char buf[BUFSIZ] = {0}`, and on to the loop. -/
def enter (p : Proc) (fd : ℤ) : Proc :=
  { p with pc := .read, pipefd := fd, mem := fun i => if i < BUFSIZ then 0 else p.mem i }

/-- `read(fd, buf, BUFSIZ)` -/
def issueRead (p : Proc) : Proc := { p with pc := .reading, log := p.log ++ [.read] }

/-- `read_bytes = r`, with `bs` in the buffer, and on to `pc`. -/
def got (p : Proc) (r : ℤ) (bs : List UInt8) (pc : PC) : Proc :=
  { p with pc, mem := store p.mem bs, read_bytes := r, log := p.log ++ [.got r] }

/-- `write(fd, buf, read_bytes)` -/
def issueWrite (p : Proc) : Proc :=
  { p with
    pc := .writing, count := toSize p.read_bytes, sent := 0
    log := p.log ++ [.write (toSize p.read_bytes)] }

/-- The next `k` bytes the `write` under way hands over. -/
def chunk (p : Proc) (k : ℕ) : List UInt8 := slice p.mem p.sent k

def transfer (p : Proc) (k : ℕ) : Proc := { p with sent := p.sent + k }

/-- The `write` under way can hand over `k` bytes more. -/
def CanTransfer (p : Proc) (k : ℕ) : Prop := 1 ≤ k ∧ p.sent + k ≤ p.count

/-- The `write` under way can return the number of bytes handed over. -/
def CanReturn (p : Proc) : Prop := 0 < p.sent ∨ p.count = 0

instance (p : Proc) (k : ℕ) : Decidable (p.CanTransfer k) := inferInstanceAs (Decidable (_ ∧ _))

instance (p : Proc) : Decidable p.CanReturn := inferInstanceAs (Decidable (_ ∨ _))

/-- `write` returns, and its result is not looked at. -/
def endWrite (p : Proc) : Proc :=
  { p with pc := .read, short := p.short || decide (p.sent < p.count) }

/-! ### The invariant -/

/-- What has been read and is still to be written. -/
def rest (p : Proc) : List UInt8 :=
  match p.pc with
  | .write => slice p.mem 0 p.read_bytes.toNat
  | .writing => slice p.mem p.sent (p.count - p.sent)
  | _ => []

/-- The `write` about to be issued is of something the `read` before it delivered. -/
def Ready (p : Proc) : Prop := p.pc = .write → 0 < p.read_bytes

/-- The kernel takes no byte after a `write` that returned less than it was given. -/
def Gapless (p : Proc) (a : Answer) : Prop := p.pc = .writing → a.isNum = true → p.short = false

instance (p : Proc) (a : Answer) : Decidable (p.Gapless a) := inferInstanceAs (Decidable (_ → _))

/-- **What is asked of a step**: a `write` is issued only after a `read` that
delivered something, and no byte is handed over after a `write` that returned
less than it was given. -/
def Sound (p : Proc) (a : Answer) : Prop := p.Ready ∧ p.Gapless a

/-- The kernel takes all the bytes a `write` gives it before the `write` returns. -/
def Whole (p : Proc) (a : Answer) : Prop :=
  p.pc = .writing → a ≠ .fail ∧ (a = .ok → p.sent = p.count)

/-- **The invariant of a process that has read `inp` and written `out`.** -/
structure Inv (p : Proc) (inp out : List UInt8) : Prop where
  counted : Counted p.log
  quiet : Quiet p.log
  /-- In the loop every `read` has delivered something, -/
  positive : p.pc ≠ .write → p.pc ≠ .exited → Positive p.log
  /-- but for the last one before a `write`. -/
  last : p.pc = .write → ∃ log, p.log = log ++ [.got p.read_bytes] ∧ Positive log
  le : p.read_bytes ≤ BUFSIZ
  relayed : out <+: inp
  /-- As long as no `write` has been short, nothing is missing. -/
  rest_eq : p.short = false → p.pc ≠ .exited → out ++ p.rest = inp

section Inv

variable {p : Proc} {inp out bs : List UInt8} {r : ℤ} {k : ℕ} {pc : PC}

theorem Inv.say (h : p.Inv inp out) (line : String) : (p.say line).Inv inp out :=
  ⟨h.counted, h.quiet, h.positive, h.last, h.le, h.relayed, h.rest_eq⟩

/-- A process may be gone at any time. -/
theorem Inv.exit (h : p.Inv inp out) : (p.goto .exited).Inv inp out where
  counted := h.counted
  quiet := h.quiet
  positive _ hpc := absurd rfl hpc
  last hpc := by cases hpc
  le := h.le
  relayed := h.relayed
  rest_eq _ hpc := absurd rfl hpc

/-- The steps before the loop. -/
theorem Inv.goto (h : p.Inv inp out) (hpc : p.pc = .access ∨ p.pc = .mkfifo ∨ p.pc = .open)
    (hpc' : pc = .mkfifo ∨ pc = .open ∨ pc = .opening) : (p.goto pc).Inv inp out where
  counted := h.counted
  quiet := h.quiet
  positive _ _ := h.positive (by rcases hpc with hpc | hpc | hpc <;> simp [hpc])
    (by rcases hpc with hpc | hpc | hpc <;> simp [hpc])
  last hpc := by
    obtain rfl : pc = .write := hpc
    simp at hpc'
  le := h.le
  relayed := h.relayed
  rest_eq hshort _ := by
    rcases hpc with hpc | hpc | hpc <;> rcases hpc' with rfl | rfl | rfl <;>
      simpa [rest, hpc, Proc.goto] using h.rest_eq hshort (by simp [hpc])

/-- **The loop is entered**: nothing is underway. -/
theorem Inv.enter (h : p.Inv inp out) (hpc : p.pc = .opening) (fd : ℤ) :
    (p.enter fd).Inv inp out where
  counted := h.counted
  quiet := h.quiet
  positive _ _ := h.positive (by simp [hpc]) (by simp [hpc])
  last hpc := by cases hpc
  le := h.le
  relayed := h.relayed
  rest_eq hshort _ := by simpa [rest, hpc, Proc.enter] using h.rest_eq hshort (by simp [hpc])

theorem Inv.issueRead (h : p.Inv inp out) (hpc : p.pc = .read) : p.issueRead.Inv inp out where
  counted := h.counted.append_singleton (by simp)
  quiet := (h.positive (by simp [hpc]) (by simp [hpc])).quiet_append _
  positive _ _ := (h.positive (by simp [hpc]) (by simp [hpc])).append_singleton (by simp)
  last hpc := by cases hpc
  le := h.le
  relayed := h.relayed
  rest_eq hshort _ := by simpa [rest, hpc, Proc.issueRead] using h.rest_eq hshort (by simp [hpc])

/-- **A `read` returns**, having delivered as many bytes as it says, or -1. -/
theorem Inv.got (h : p.Inv inp out) (hpc : p.pc = .reading) (hr : r.toNat = bs.length)
    (hle : bs.length ≤ BUFSIZ) (hpc' : pc = .write ∨ pc = .exited) :
    (p.got r bs pc).Inv (inp ++ bs) out where
  counted := h.counted.append_singleton (by simp)
  quiet := (h.positive (by simp [hpc]) (by simp [hpc])).quiet_append _
  positive hw he := by
    rcases hpc' with rfl | rfl
    · exact absurd rfl hw
    · exact absurd rfl he
  last _ := ⟨p.log, rfl, h.positive (by simp [hpc]) (by simp [hpc])⟩
  le := by
    have : (p.got r bs pc).read_bytes = r := rfl
    omega
  relayed := h.relayed.trans (List.prefix_append _ _)
  rest_eq hshort he := by
    obtain rfl : pc = .write := hpc'.resolve_right he
    have hout := h.rest_eq hshort (by simp [hpc])
    simp only [rest, hpc, List.append_nil] at hout
    simp only [rest, Proc.got, hr, slice_store, hout]

/-- A `read` returns 0 or -1. -/
theorem Inv.got_nothing (h : p.Inv inp out) (hpc : p.pc = .reading) (hr : r ≤ 0)
    (hpc' : pc = .write ∨ pc = .exited) : (p.got r [] pc).Inv inp out := by
  have hgot : (p.got r [] pc).Inv (inp ++ []) out :=
    h.got hpc (Int.toNat_of_nonpos hr) (Nat.zero_le _) hpc'
  rwa [List.append_nil] at hgot

/-- **A `write` is issued**, after a `read` that delivered something. -/
theorem Inv.issueWrite (h : p.Inv inp out) (hpc : p.pc = .write) (hpos : 0 < p.read_bytes) :
    p.issueWrite.Inv inp out := by
  obtain ⟨log, hlog, hlogpos⟩ := h.last hpc
  have hle := h.le
  have hsize : toSize p.read_bytes = p.read_bytes.toNat :=
    toSize_of_nonneg (by omega) (by simp only [BUFSIZ] at hle; omega)
  -- the last `read` has delivered something too
  have hall : Positive p.log := by
    rw [hlog]
    refine hlogpos.append_singleton fun r hr => ?_
    obtain rfl := Call.got.inj hr
    exact hpos
  constructor
  · have hcounted := h.counted
    rw [hlog] at hcounted
    have hwrite : p.issueWrite.log = log ++ [.got p.read_bytes] ++ [.write p.read_bytes.toNat] := by
      rw [Proc.issueWrite, hsize, ← hlog]
    rw [hwrite]
    exact hcounted.append_write (by omega)
  · exact hall.quiet_append _
  · exact fun _ _ => hall.append_singleton (by simp)
  · rintro ⟨⟩
  · exact hle
  · exact h.relayed
  · intro hshort _
    have hout := h.rest_eq hshort (by simp [hpc])
    simp only [rest, hpc] at hout
    simpa only [rest, Proc.issueWrite, hsize, Nat.sub_zero] using hout

/-- A `write` issued after a `read` that delivered nothing is one call too many. -/
theorem Inv.not_quiet_issueWrite (h : p.Inv inp out) (hpc : p.pc = .write)
    (hle : p.read_bytes ≤ 0) : ¬Quiet p.issueWrite.log := by
  obtain ⟨log, hlog, -⟩ := h.last hpc
  intro hquiet
  have hsplit : p.issueWrite.log = log ++ .got p.read_bytes :: [.write (toSize p.read_bytes)] := by
    rw [Proc.issueWrite, hlog, List.append_assoc, List.singleton_append]
  exact absurd (hquiet _ _ _ hsplit hle) (by simp)

/-- **A `write` hands over bytes**, none before having been lost. -/
theorem Inv.transfer (h : p.Inv inp out) (hpc : p.pc = .writing) (hk : p.CanTransfer k)
    (hshort : p.short = false) : (p.transfer k).Inv inp (out ++ p.chunk k) := by
  have hrest := h.rest_eq hshort (by simp [hpc])
  have hsplit : p.rest = p.chunk k ++ (p.transfer k).rest := by
    have hle := hk.2
    have heq : p.count - p.sent = k + (p.count - (p.sent + k)) := by omega
    simp only [rest, hpc, Proc.transfer, chunk]
    rw [heq, slice_add]
  rw [hsplit, ← List.append_assoc] at hrest
  refine ⟨h.counted, h.quiet, h.positive, h.last, h.le, ?_, fun _ _ => hrest⟩
  exact hrest ▸ List.prefix_append _ _

/-- **A `write` returns.** If it has handed over all its bytes, nothing is left. -/
theorem Inv.endWrite (h : p.Inv inp out) (hpc : p.pc = .writing) : p.endWrite.Inv inp out where
  counted := h.counted
  quiet := h.quiet
  positive _ _ := h.positive (by simp [hpc]) (by simp [hpc])
  last hpc := by cases hpc
  le := h.le
  relayed := h.relayed
  rest_eq hshort _ := by
    obtain ⟨hshort, hall⟩ : p.short = false ∧ p.count ≤ p.sent := by
      simpa [Proc.endWrite] using hshort
    have hrest := h.rest_eq hshort (by simp [hpc])
    simp only [rest, hpc, Nat.sub_eq_zero_of_le hall, slice_zero] at hrest
    simpa only [rest, Proc.endWrite] using hrest

end Inv

end Proc

end Relay

end DocumentCode
