import DocumentCode.Linux.Relay
import DocumentCode.Transition

/-!
# Two programs and a FIFO

`fifo_write` copies its standard input to a FIFO and `fifo_read` the FIFO to its
standard output. Here the two run side by side, each step of either being
followed by any step of either, and the kernel answers their calls in every way
it may.

The programs differ in what they look at. After a `read`, `fifo_write` tests for
-1 only and `fifo_read` for 0 only; `fifo_write` stores the result of its `write`
without looking at it, and `fifo_read` does not store it. So each has a case the
other one handles and it does not:

* at the end of its input `fifo_write` goes on, writing nothing and reading again;
* when its `read` fails, be it because `open` failed, `fifo_read` asks `write` for
  as many bytes as a `size_t` can count;
* what a short `write` leaves over is lost, and the bytes read next follow the gap.

Where the kernel answers so that none of this happens (`DocumentCode.Fifo.Answers`)
the relay is faithful (`DocumentCode.Fifo.faithful_of_answers`): whenever a process
is about to write, its `read` has delivered something, so both keep
`DocumentCode.Relay.Proc.Inv`, what `fifo_read` has read and what is in the FIFO
being together what `fifo_write` has written. In each of the three cases it is not
(`DocumentCode.Fifo.not_faithful`), and after an answer of the first two kinds the
next `write` makes it so whatever came before (`DocumentCode.Fifo.not_faithful_of_write`).

What is said of the bytes written concerns `write`. The lines given to `printf`
are kept apart, and those of `perror` left out.
-/

namespace DocumentCode

namespace Fifo

open Relay

/-- The two processes and what is between and around them. -/
structure State where
  /-- `fifo_write` -/
  writer : Proc
  /-- `fifo_read` -/
  reader : Proc
  /-- The bytes in the FIFO. -/
  fifo : List UInt8
  /-- `fifo_write` has issued its `open`. -/
  writerCame : Bool
  /-- `fifo_read` has issued its `open`. -/
  readerCame : Bool
  /-- The FIFO is open for writing. -/
  writerOpen : Bool
  /-- The FIFO is open for reading. -/
  readerOpen : Bool
  /-- All bytes `fifo_write` has read from its standard input. -/
  input : List UInt8
  /-- All bytes it has written to the FIFO. -/
  piped : List UInt8
  /-- All bytes `fifo_read` has read from the FIFO. -/
  received : List UInt8
  /-- All bytes it has written to its standard output. -/
  output : List UInt8

/-! ### The programs -/

/-- A step of `fifo_write`. An `open` of one end waits for one of the other, and
`SIGPIPE` ends a process that writes to a FIFO nobody reads. -/
def fifoWrite (s : State) (a : Answer) : Option State :=
  match s.writer.pc, a with
  | .access, .fail => some { s with writer := s.writer.goto .mkfifo }
  | .access, .ok => some { s with writer := s.writer.goto .open }
  | .mkfifo, .fail => some { s with writer := s.writer.goto .exited }
  | .mkfifo, .ok => some { s with writer := s.writer.goto .open }
  | .open, .ok => some { s with
      writer := s.writer.goto .opening, writerCame := true, writerOpen := true }
  -- the line is printed before the result is tested
  | .opening, .fail => some { s with
      writer := (s.writer.say "write open success\n").goto .exited, writerOpen := false }
  | .opening, .num fd =>
    if s.readerCame then
      some { s with writer := (s.writer.say "write open success\n").enter fd }
    else none
  | .read, .ok => some { s with writer := s.writer.issueRead }
  | .reading, .bytes bs =>
    if 1 ≤ bs.length ∧ bs.length ≤ BUFSIZ then
      some { s with writer := s.writer.got bs.length bs .write, input := s.input ++ bs }
    else none
  -- the end of the input is not tested for
  | .reading, .ok => some { s with writer := s.writer.got 0 [] .write }
  | .reading, .fail => some { s with
      writer := s.writer.got (-1) [] .exited, writerOpen := false }
  | .write, .ok => some { s with writer := s.writer.issueWrite }
  -- nor is what `write` returns, be it a part of the bytes or -1
  | .writing, .num k =>
    if s.writer.CanTransfer k ∧ s.readerOpen then
      some { s with
        writer := s.writer.transfer k
        fifo := s.fifo ++ s.writer.chunk k, piped := s.piped ++ s.writer.chunk k }
    else none
  | .writing, .ok =>
    if s.writer.CanReturn then some { s with writer := s.writer.endWrite } else none
  | .writing, .fail =>
    if s.writer.sent = 0 then some { s with writer := s.writer.endWrite } else none
  | .writing, .killed =>
    if s.readerOpen then none
    else some { s with writer := s.writer.goto .exited, writerOpen := false }
  | _, _ => none

/-- A step of `fifo_read`. Its `read` finds the end of the FIFO where that is
empty and nobody writes to it. -/
def fifoRead (s : State) (a : Answer) : Option State :=
  match s.reader.pc, a with
  | .open, .ok => some { s with
      reader := s.reader.goto .opening, readerCame := true, readerOpen := true }
  -- the result of `open` is not tested
  | .opening, .fail => some { s with
      reader := (s.reader.say "read open success\n").enter (-1), readerOpen := false }
  | .opening, .num fd =>
    if s.writerCame then
      some { s with reader := (s.reader.say "read open success\n").enter fd }
    else none
  | .read, .ok => some { s with reader := s.reader.issueRead }
  | .reading, .num k =>
    if s.readerOpen ∧ 1 ≤ k ∧ k ≤ BUFSIZ ∧ k ≤ s.fifo.length then
      some { s with
        reader := (s.reader.say s!"read bytes = {k}\n").got k (s.fifo.take k) .write
        fifo := s.fifo.drop k, received := s.received ++ s.fifo.take k }
    else none
  | .reading, .ok =>
    if s.readerOpen ∧ s.fifo = [] ∧ ¬s.writerOpen then
      some { s with
        reader := ((s.reader.say "read bytes = 0\n").say "write peer close fd\n").got 0 [] .exited
        readerOpen := false }
    else none
  -- an error is not tested for
  | .reading, .fail => some { s with
      reader := (s.reader.say "read bytes = -1\n").got (-1) [] .write }
  | .write, .ok => some { s with reader := s.reader.issueWrite }
  | .writing, .num k =>
    if s.reader.CanTransfer k then
      some { s with
        reader := s.reader.transfer k, output := s.output ++ s.reader.chunk k }
    else none
  | .writing, .ok =>
    if s.reader.CanReturn then some { s with reader := s.reader.endWrite } else none
  | .writing, .fail =>
    if s.reader.sent = 0 then some { s with reader := s.reader.endWrite } else none
  | .writing, .killed => some { s with reader := s.reader.goto .exited, readerOpen := false }
  | _, _ => none

/-- A process takes a step. -/
inductive Event
  | writer (a : Answer)
  | reader (a : Answer)
  deriving DecidableEq, Repr

/-- A process that has just been started, at `pc`. -/
def Proc.Started (p : Proc) (pc : PC) : Prop :=
  p.pc = pc ∧ p.short = false ∧ p.read_bytes = 0 ∧ p.log = []

/-- The two programs, started side by side. -/
def system : System State Event where
  Init s := Proc.Started s.writer .access ∧ Proc.Started s.reader .open ∧ s.fifo = [] ∧
    s.writerCame = false ∧ s.readerCame = false ∧ s.writerOpen = false ∧ s.readerOpen = false ∧
    s.input = [] ∧ s.piped = [] ∧ s.received = [] ∧ s.output = []
  step s
    | .writer a => fifoWrite s a
    | .reader a => fifoRead s a

/-! ### A faithful relay -/

/-- **What is wanted of the two programs.** -/
structure Faithful (s : State) : Prop where
  /-- What is written is the beginning of what is read. -/
  relayed : s.output <+: s.input
  /-- A `write` is of the number of bytes just read. -/
  counted : Counted s.writer.log ∧ Counted s.reader.log
  /-- Nothing is issued after the end of the input or an error. -/
  quiet : Quiet s.writer.log ∧ Quiet s.reader.log

/-- **What is asked of the kernel**: no `read` of `fifo_write` returns 0, none of
`fifo_read` returns -1, and a process of which a `write` has returned less than it
was given hands over no byte any more. -/
def Answers (s : State) : Event → Prop
  | .writer a => (s.writer.pc = .reading → a ≠ .ok) ∧ s.writer.Gapless a
  | .reader a => (s.reader.pc = .reading → a ≠ .fail) ∧ s.reader.Gapless a

instance (s : State) : (e : Event) → Decidable (Answers s e)
  | .writer _ => inferInstanceAs (Decidable (_ ∧ _))
  | .reader _ => inferInstanceAs (Decidable (_ ∧ _))

/-- No `read` of `fifo_write` returns 0, none of `fifo_read` returns -1, and every
`write` returns the number of bytes it was given. -/
def WholeAnswers (s : State) : Event → Prop
  | .writer a => (s.writer.pc = .reading → a ≠ .ok) ∧ s.writer.Whole a
  | .reader a => (s.reader.pc = .reading → a ≠ .fail) ∧ s.reader.Whole a

/-- What the invariant needs of a step. -/
def Sound (s : State) : Event → Prop
  | .writer a => s.writer.Sound a
  | .reader a => s.reader.Sound a

/-- **The invariant.** -/
structure Inv (s : State) : Prop where
  writer : s.writer.Inv s.input s.piped
  reader : s.reader.Inv s.received s.output
  fifo : s.received ++ s.fifo = s.piped

section Invariant

variable {s s' : State} {a : Answer} {e : Event}

theorem inv_of_started {p : Proc} {pc : PC} (h : Proc.Started p pc)
    (hpc : pc = .access ∨ pc = .open) : p.Inv [] [] := by
  obtain ⟨rfl, -, hread, hlog⟩ := h
  constructor
  · exact hlog ▸ counted_nil
  · exact hlog ▸ quiet_nil
  · intro _ _ r hr
    simp [hlog] at hr
  · intro hw
    simp [hw] at hpc
  · omega
  · exact List.prefix_rfl
  · intro _ _
    rcases hpc with hpc | hpc <;> simp [Proc.rest, hpc]

theorem inv_init (h : system.Init s) : Inv s := by
  obtain ⟨hw, hr, hfifo, -, -, -, -, hinput, hpiped, hreceived, houtput⟩ := h
  refine ⟨?_, ?_, ?_⟩
  · rw [hinput, hpiped]
    exact inv_of_started hw (Or.inl rfl)
  · rw [hreceived, houtput]
    exact inv_of_started hr (Or.inr rfl)
  · rw [hreceived, hfifo, hpiped]
    rfl

/-- **The steps of `fifo_write` keep the invariant.** -/
theorem inv_fifoWrite (h : Inv s) (hok : s.writer.Sound a) (hs : fifoWrite s a = some s') :
    Inv s' := by
  obtain ⟨hw, hr, hfifo⟩ := h
  unfold fifoWrite at hs
  -- one case for each line of the definition
  split at hs
  next hpc =>
    obtain rfl := Option.some.inj hs
    exact ⟨hw.goto (Or.inl hpc) (Or.inl rfl), hr, hfifo⟩
  next hpc =>
    obtain rfl := Option.some.inj hs
    exact ⟨hw.goto (Or.inl hpc) (Or.inr (Or.inl rfl)), hr, hfifo⟩
  next =>
    obtain rfl := Option.some.inj hs
    exact ⟨hw.exit, hr, hfifo⟩
  next hpc =>
    obtain rfl := Option.some.inj hs
    exact ⟨hw.goto (Or.inr (Or.inl hpc)) (Or.inr (Or.inl rfl)), hr, hfifo⟩
  next hpc =>
    obtain rfl := Option.some.inj hs
    exact ⟨hw.goto (Or.inr (Or.inr hpc)) (Or.inr (Or.inr rfl)), hr, hfifo⟩
  next =>
    obtain rfl := Option.some.inj hs
    exact ⟨(hw.say _).exit, hr, hfifo⟩
  next fd hpc =>
    split at hs
    · obtain rfl := Option.some.inj hs
      exact ⟨(hw.say _).enter hpc _, hr, hfifo⟩
    · cases hs
  next hpc =>
    obtain rfl := Option.some.inj hs
    exact ⟨hw.issueRead hpc, hr, hfifo⟩
  next bs hpc =>
    split at hs
    next hlen =>
      obtain rfl := Option.some.inj hs
      exact ⟨hw.got hpc (Int.toNat_natCast _) hlen.2 (Or.inl rfl), hr, hfifo⟩
    next => cases hs
  next hpc =>
    obtain rfl := Option.some.inj hs
    exact ⟨hw.got_nothing hpc le_rfl (Or.inl rfl), hr, hfifo⟩
  next hpc =>
    obtain rfl := Option.some.inj hs
    exact ⟨hw.got_nothing hpc (by decide) (Or.inr rfl), hr, hfifo⟩
  next hpc =>
    obtain rfl := Option.some.inj hs
    exact ⟨hw.issueWrite hpc (hok.1 hpc), hr, hfifo⟩
  next k hpc =>
    split at hs
    next hk =>
      obtain rfl := Option.some.inj hs
      -- what is handed over is put into the FIFO
      refine ⟨hw.transfer hpc hk.1 (hok.2 hpc rfl), hr, ?_⟩
      rw [← List.append_assoc, hfifo]
    next => cases hs
  next hpc =>
    split at hs
    · obtain rfl := Option.some.inj hs
      exact ⟨hw.endWrite hpc, hr, hfifo⟩
    · cases hs
  next hpc =>
    split at hs
    · obtain rfl := Option.some.inj hs
      exact ⟨hw.endWrite hpc, hr, hfifo⟩
    · cases hs
  next =>
    split at hs
    · cases hs
    · obtain rfl := Option.some.inj hs
      exact ⟨hw.exit, hr, hfifo⟩
  next => cases hs

/-- **The steps of `fifo_read` keep the invariant.** -/
theorem inv_fifoRead (h : Inv s) (hok : s.reader.Sound a) (hs : fifoRead s a = some s') :
    Inv s' := by
  obtain ⟨hw, hr, hfifo⟩ := h
  unfold fifoRead at hs
  -- one case for each line of the definition
  split at hs
  next hpc =>
    obtain rfl := Option.some.inj hs
    exact ⟨hw, hr.goto (Or.inr (Or.inr hpc)) (Or.inr (Or.inr rfl)), hfifo⟩
  next hpc =>
    obtain rfl := Option.some.inj hs
    exact ⟨hw, (hr.say _).enter hpc _, hfifo⟩
  next fd hpc =>
    split at hs
    · obtain rfl := Option.some.inj hs
      exact ⟨hw, (hr.say _).enter hpc _, hfifo⟩
    · cases hs
  next hpc =>
    obtain rfl := Option.some.inj hs
    exact ⟨hw, hr.issueRead hpc, hfifo⟩
  next k hpc =>
    split at hs
    next hk =>
      obtain ⟨-, -, hk, hkfifo⟩ := hk
      obtain rfl := Option.some.inj hs
      -- what is read is taken off the front of the FIFO
      have hlen : (s.fifo.take k).length = k := by
        rw [List.length_take]
        omega
      refine ⟨hw, (hr.say _).got hpc (by rw [hlen]; rfl) (by rw [hlen]; exact hk) (Or.inl rfl), ?_⟩
      rw [List.append_assoc, List.take_append_drop, hfifo]
    next => cases hs
  next hpc =>
    split at hs
    · obtain rfl := Option.some.inj hs
      exact ⟨hw, ((hr.say _).say _).got_nothing hpc le_rfl (Or.inr rfl), hfifo⟩
    · cases hs
  next hpc =>
    obtain rfl := Option.some.inj hs
    exact ⟨hw, (hr.say _).got_nothing hpc (by decide) (Or.inl rfl), hfifo⟩
  next hpc =>
    obtain rfl := Option.some.inj hs
    exact ⟨hw, hr.issueWrite hpc (hok.1 hpc), hfifo⟩
  next k hpc =>
    split at hs
    next hk =>
      obtain rfl := Option.some.inj hs
      exact ⟨hw, hr.transfer hpc hk (hok.2 hpc rfl), hfifo⟩
    next => cases hs
  next hpc =>
    split at hs
    · obtain rfl := Option.some.inj hs
      exact ⟨hw, hr.endWrite hpc, hfifo⟩
    · cases hs
  next hpc =>
    split at hs
    · obtain rfl := Option.some.inj hs
      exact ⟨hw, hr.endWrite hpc, hfifo⟩
    · cases hs
  next =>
    obtain rfl := Option.some.inj hs
    exact ⟨hw, hr.exit, hfifo⟩
  next => cases hs

theorem inv_of_reachableVia (h : system.ReachableVia Sound s) : Inv s := by
  refine h.invariant (fun s => inv_init) fun s e s' hs hok he => ?_
  cases e with
  | writer a => exact inv_fifoWrite hs hok he
  | reader a => exact inv_fifoRead hs hok he

theorem Inv.faithful (h : Inv s) : Faithful s where
  relayed := (h.reader.relayed.trans ⟨_, h.fifo⟩).trans h.writer.relayed
  counted := ⟨h.writer.counted, h.reader.counted⟩
  quiet := ⟨h.writer.quiet, h.reader.quiet⟩

/-! ### The answers of the kernel -/

/-- **`fifo_write` comes to its `write` with what its `read` has returned**: a
number of bytes, or 0. -/
theorem fifoWrite_write (hs : fifoWrite s a = some s') (hpc : s'.writer.pc = .write) :
    s.writer.pc = .reading ∧ (a = .ok ∨ 0 < s'.writer.read_bytes) := by
  unfold fifoWrite at hs
  split at hs <;> (try split at hs) <;> cases hs <;>
    simp_all [Proc.goto, Proc.say, Proc.enter, Proc.issueRead, Proc.got, Proc.issueWrite,
      Proc.transfer, Proc.endWrite]
  omega

/-- **`fifo_read` comes to its `write` with what its `read` has returned**: a
number of bytes, or -1. -/
theorem fifoRead_write (hs : fifoRead s a = some s') (hpc : s'.reader.pc = .write) :
    s.reader.pc = .reading ∧ (a = .fail ∨ 0 < s'.reader.read_bytes) := by
  unfold fifoRead at hs
  split at hs <;> (try split at hs) <;> cases hs <;>
    simp_all [Proc.goto, Proc.say, Proc.enter, Proc.issueRead, Proc.got, Proc.issueWrite,
      Proc.transfer, Proc.endWrite]
  omega

theorem fifoWrite_reader (hs : fifoWrite s a = some s') : s'.reader = s.reader := by
  unfold fifoWrite at hs
  split at hs <;> (try split at hs) <;> cases hs <;> rfl

theorem fifoRead_writer (hs : fifoRead s a = some s') : s'.writer = s.writer := by
  unfold fifoRead at hs
  split at hs <;> (try split at hs) <;> cases hs <;> rfl

/-- Only a `write` that returns less than it was given is short. -/
theorem fifoWrite_short (hok : s.writer.Whole a) (hshort : s.writer.short = false)
    (hs : fifoWrite s a = some s') : s'.writer.short = false := by
  unfold fifoWrite at hs
  split at hs <;> (try split at hs) <;> cases hs <;>
    simp_all [Proc.Whole, Proc.goto, Proc.say, Proc.enter, Proc.issueRead, Proc.got,
      Proc.issueWrite, Proc.transfer, Proc.endWrite]

theorem fifoRead_short (hok : s.reader.Whole a) (hshort : s.reader.short = false)
    (hs : fifoRead s a = some s') : s'.reader.short = false := by
  unfold fifoRead at hs
  split at hs <;> (try split at hs) <;> cases hs <;>
    simp_all [Proc.Whole, Proc.goto, Proc.say, Proc.enter, Proc.issueRead, Proc.got,
      Proc.issueWrite, Proc.transfer, Proc.endWrite]

/-- Both processes write only what they have read. -/
def Ready (s : State) : Prop := s.writer.Ready ∧ s.reader.Ready

theorem ready_init (h : system.Init s) : Ready s := by
  obtain ⟨⟨hw, -⟩, ⟨hr, -⟩, -⟩ := h
  exact ⟨fun hpc => by simp [hpc] at hw, fun hpc => by simp [hpc] at hr⟩

/-- **A `write` after a `read` of nothing takes an answer that is ruled out.** -/
theorem Ready.step (h : Ready s) (hok : Answers s e) (hs : system.step s e = some s') :
    Ready s' := by
  cases e with
  | writer a =>
    constructor
    · intro hpc
      obtain ⟨hreading, ha | hpos⟩ := fifoWrite_write hs hpc
      · exact absurd ha (hok.1 hreading)
      · exact hpos
    · rw [fifoWrite_reader hs]
      exact h.2
  | reader a =>
    constructor
    · rw [fifoRead_writer hs]
      exact h.1
    · intro hpc
      obtain ⟨hreading, ha | hpos⟩ := fifoRead_write hs hpc
      · exact absurd ha (hok.1 hreading)
      · exact hpos

theorem sound_of_answers (h : Ready s) (hok : Answers s e) : Sound s e := by
  cases e with
  | writer a => exact ⟨h.1, hok.2⟩
  | reader a => exact ⟨h.2, hok.2⟩

/-- **The answers of the kernel bring about what the invariant needs.** -/
theorem reachableVia_sound (h : system.ReachableVia Answers s) : system.ReachableVia Sound s :=
  h.mono (fun _ => ready_init) (fun _ _ _ => Ready.step) fun _ _ => sound_of_answers

/-- **Where every `write` returns the number of bytes it was given**, no byte
follows a gap. -/
theorem reachableVia_answers (h : system.ReachableVia WholeAnswers s) :
    system.ReachableVia Answers s := by
  refine h.mono (I := fun s => s.writer.short = false ∧ s.reader.short = false)
    (fun s hs => ⟨hs.1.2.1, hs.2.1.2.1⟩) ?_ ?_
  · intro s e s' hshort hok hs
    cases e with
    | writer a => exact ⟨fifoWrite_short hok.2 hshort.1 hs, fifoWrite_reader hs ▸ hshort.2⟩
    | reader a => exact ⟨fifoRead_writer hs ▸ hshort.1, fifoRead_short hok.2 hshort.2 hs⟩
  · intro s e hshort hok
    cases e with
    | writer a => exact ⟨hok.1, fun _ _ => hshort.1⟩
    | reader a => exact ⟨hok.1, fun _ _ => hshort.2⟩

/-- **The first `write` issued after the end of the input or an error makes the
relay unfaithful**, however the kernel has answered since the `read`. -/
theorem not_faithful_of_write (h : system.ReachableVia Sound s) :
    (s.writer.pc = .write → s.writer.read_bytes ≤ 0 →
      ∀ s', fifoWrite s .ok = some s' → ¬Faithful s') ∧
    (s.reader.pc = .write → s.reader.read_bytes ≤ 0 →
      ∀ s', fifoRead s .ok = some s' → ¬Faithful s') := by
  have hinv := inv_of_reachableVia h
  constructor
  · intro hpc hle s' hs hfaithful
    simp only [fifoWrite, hpc] at hs
    obtain rfl := Option.some.inj hs
    exact hinv.writer.not_quiet_issueWrite hpc hle hfaithful.quiet.1
  · intro hpc hle s' hs hfaithful
    simp only [fifoRead, hpc] at hs
    obtain rfl := Option.some.inj hs
    exact hinv.reader.not_quiet_issueWrite hpc hle hfaithful.quiet.2

end Invariant

/-! ### Runs -/

section Runs

/-- A process that has just been started. -/
def idle (pc : PC) : Proc where
  pc := pc
  pipefd := 0
  mem _ := 0
  read_bytes := 0
  count := 0
  sent := 0
  short := false
  printed := []
  log := []

def start : State where
  writer := idle .access
  reader := idle .open
  fifo := []
  writerCame := false
  readerCame := false
  writerOpen := false
  readerOpen := false
  input := []
  piped := []
  received := []
  output := []

theorem init_start : system.Init start :=
  ⟨⟨rfl, rfl, rfl, rfl⟩, ⟨rfl, rfl, rfl, rfl⟩, rfl, rfl, rfl, rfl, rfl, rfl, rfl, rfl, rfl⟩

/-- Both programs open the FIFO. -/
def openBoth : List Event :=
  [.writer .ok, .writer .ok, .reader .ok, .writer (.num 3), .reader (.num 3)]

/-- `fifo_write` reads `bs` and writes the first `k` bytes of it. -/
def pass (bs : List UInt8) (k : ℕ) : List Event :=
  [.writer .ok, .writer (.bytes bs), .writer .ok, .writer (.num k), .writer .ok]

/-- `fifo_read` reads `k` bytes and writes them. -/
def take (k : ℕ) : List Event :=
  [.reader .ok, .reader (.num k), .reader .ok, .reader (.num k), .reader .ok]

/-- **The relay is faithful in every state of every run** in which no `read` of
`fifo_write` returns 0, none of `fifo_read` returns -1 and no byte is handed over
after a `write` of the same process that was short. -/
theorem faithful_of_answers {s : State} (h : system.ReachableVia Answers s) : Faithful s :=
  (inv_of_reachableVia (reachableVia_sound h)).faithful

/-- Two bytes and one more are passed on. -/
theorem faithful_of_answers_passed :
    ∃ s, system.runVia Answers
        (openBoth ++ pass [97, 98] 2 ++ take 1 ++ pass [99] 1 ++ take 2) start = some s ∧
      s.output = [97, 98, 99] ∧ Faithful s := by
  have hout : (system.runVia Answers
      (openBoth ++ pass [97, 98] 2 ++ take 1 ++ pass [99] 1 ++ take 2) start).map State.output =
      some [97, 98, 99] := rfl
  obtain ⟨s, hs, hout⟩ := Option.map_eq_some_iff.mp hout
  exact ⟨s, hs, hout, faithful_of_answers (System.ReachableVia.runVia (.init init_start) hs)⟩

/-- **Three runs in which the relay is not faithful**: `fifo_write` at the end of
its input issues a `write`; `fifo_read`, its `read` having failed, asks for
`2 ^ 64 - 1` bytes to be written; and after a `write` of two bytes that a signal
has interrupted, they are missing before the third. -/
theorem not_faithful : system.Init start ∧
    (∃ s, system.run (openBoth ++ [.writer .ok, .writer .ok, .writer .ok]) start = some s ∧
      ¬Quiet s.writer.log) ∧
    (∃ s, system.run (openBoth ++ [.reader .ok, .reader .fail, .reader .ok]) start = some s ∧
      ¬Counted s.reader.log ∧ ¬Quiet s.reader.log) ∧
    ∃ s, system.run (openBoth ++ [.writer .ok, .writer (.bytes [97, 98]), .writer .ok,
        .writer .fail] ++ pass [99] 1 ++ take 1) start = some s ∧
      ¬s.output <+: s.input := by
  refine ⟨init_start, ?_, ?_, ?_⟩
  · have hlog : (system.run (openBoth ++ [.writer .ok, .writer .ok, .writer .ok]) start).map
        (·.writer.log) = some [.read, .got 0, .write 0] := rfl
    obtain ⟨s, hs, hlog⟩ := Option.map_eq_some_iff.mp hlog
    refine ⟨s, hs, fun hquiet => ?_⟩
    exact absurd (hquiet [.read] 0 [.write 0] hlog le_rfl) (by simp)
  · have hlog : (system.run (openBoth ++ [.reader .ok, .reader .fail, .reader .ok]) start).map
        (·.reader.log) = some [.read, .got (-1), .write (2 ^ 64 - 1)] := rfl
    obtain ⟨s, hs, hlog⟩ := Option.map_eq_some_iff.mp hlog
    refine ⟨s, hs, fun hcounted => ?_, fun hquiet => ?_⟩
    · obtain ⟨pre', r, hpre, hr⟩ := hcounted [.read, .got (-1)] (2 ^ 64 - 1) [] hlog
      have hsplit : [.read] ++ [.got (-1)] = pre' ++ [.got r] := hpre
      obtain ⟨-, hgot⟩ := List.append_inj' hsplit rfl
      simp at hgot
      omega
    · exact absurd (hquiet [.read] (-1) [.write (2 ^ 64 - 1)] hlog (by decide)) (by simp)
  · have hbytes : (system.run (openBoth ++ [.writer .ok, .writer (.bytes [97, 98]), .writer .ok,
        .writer .fail] ++ pass [99] 1 ++ take 1) start).map
        (fun s => (s.output, s.input)) = some ([99], [97, 98, 99]) := rfl
    obtain ⟨s, hs, hbytes⟩ := Option.map_eq_some_iff.mp hbytes
    obtain ⟨hout, hin⟩ := Prod.mk.inj hbytes
    refine ⟨s, hs, ?_⟩
    rw [hout, hin]
    decide

end Runs

end Fifo

end DocumentCode
