import DocumentCode.Transition
import Mathlib.Data.Int.Notation

/-!
# An edge-triggered server

The server of `noblock_epoll` waits for one connection with `EPOLLET` and reads
it without blocking, `MAXLINE/2` bytes at a time, until `read` answers -1. It is
modelled together with the part of the kernel it talks to: a receive queue and
the pending edge of the connection. Bytes may arrive before any step of the
server, be it between two reads or between the last read and `epoll_wait`.

With edges the server must never be caught waiting on bytes no edge is left for.
The invariant is `DocumentCode.Epoll.Inv`: where the server is about to wait, a
byte in the queue comes with a pending edge. It is kept because the server goes
back to waiting only from a `read` that found the queue empty, and because an
arrival from then on sets the flag.

* What was delivered is what was written, then what is in the buffer, then what
  is in the queue; and a server that waits in vain has written everything
  (`DocumentCode.Epoll.server_never_loses_data`).
* Waiting in vain is the only way it can be stuck
  (`DocumentCode.Epoll.exists_server_of_not_blocked`).

The standard output is written to in two ways, with `write` and through the
buffer of `printf`; what is said here of the bytes written concerns the first.
-/

namespace DocumentCode

namespace Epoll

/-! ### The kernel -/

/-- What the kernel knows of the connection. -/
structure Conn where
  /-- The receive queue, the oldest byte first. -/
  queue : List UInt8
  /-- The connection is in the interest list. -/
  registered : Bool
  /-- There is a pending edge. -/
  flag : Bool
  deriving DecidableEq, Repr

namespace Conn

/-- Bytes arrive: an edge, if the connection is in the interest list. -/
def arrive (c : Conn) (bs : List UInt8) : Conn :=
  { c with queue := c.queue ++ bs, flag := c.registered }

/-- `EPOLL_CTL_ADD`: what is in the queue already makes an edge. -/
def add (c : Conn) : Conn :=
  { c with registered := true, flag := !c.queue.isEmpty }

/-- `epoll_wait` returns when there is an edge, and takes it. -/
def wait (c : Conn) : Option Conn := if c.flag then some { c with flag := false } else none

/-- A non-blocking `read` into `buf` of at most `count` bytes, the kernel being
willing to hand out `k`: the value returned, the buffer and the connection. -/
def read (c : Conn) (buf : List UInt8) (count k : ℕ) : Option (ℤ × List UInt8 × Conn) :=
  if c.queue = [] then
    some (-1, buf, c)
  else if 1 ≤ k ∧ k ≤ count ∧ k ≤ c.queue.length then
    some (k, c.queue.take k ++ buf.drop k, { c with queue := c.queue.drop k })
  else
    none

/-- **What `read` can do**: it answers -1 exactly where the queue is empty, and
otherwise takes bytes off the front of the queue. -/
theorem read_cases {c c' : Conn} {buf buf' : List UInt8} {count k : ℕ} {len : ℤ}
    (h : c.read buf count k = some (len, buf', c')) :
    (c.queue = [] ∧ len = -1 ∧ buf' = buf ∧ c' = c) ∨
      ∃ chunk : List UInt8, chunk ≠ [] ∧ chunk.length ≤ count ∧ len = chunk.length ∧
        buf' = chunk ++ buf.drop chunk.length ∧ c.queue = chunk ++ c'.queue ∧
        c'.registered = c.registered := by
  rw [read] at h
  split at h
  next hqueue =>
    obtain ⟨rfl, rfl, rfl⟩ : -1 = len ∧ buf = buf' ∧ c = c' := by simpa using h
    exact Or.inl ⟨hqueue, rfl, rfl, rfl⟩
  next hqueue =>
    split at h
    next hk =>
      obtain ⟨rfl, rfl, rfl⟩ : (k : ℤ) = len ∧ c.queue.take k ++ buf.drop k = buf' ∧
          { c with queue := c.queue.drop k } = c' := by simpa using h
      have hlen : (c.queue.take k).length = k := by rw [List.length_take]; omega
      refine Or.inr ⟨c.queue.take k, ?_, by omega, by rw [hlen], by rw [hlen], ?_, rfl⟩
      · rw [← List.length_pos_iff]
        omega
      · exact (List.take_append_drop k c.queue).symm
    next => cases h

end Conn

/-! ### The server -/

/-- `#define MAXLINE 10` -/
def MAXLINE : ℕ := 10

/-- The next thing the server does. -/
inductive PC
  /-- `connfd = accept(...)`, and the `printf` around it -/
  | accept
  /-- `fcntl(connfd, F_SETFL, flag | O_NONBLOCK)` -/
  | fcntl
  /-- `epoll_ctl(efd, EPOLL_CTL_ADD, connfd, &event)` -/
  | ctlAdd
  /-- `printf("epoll_wait begin\n")` -/
  | waitBegin
  /-- `res = epoll_wait(efd, resevent, 10, -1)` -/
  | wait
  /-- `printf("epoll_wait end res %d\n", res)` -/
  | waitEnd
  /-- `if (resevent[0].data.fd == connfd)` -/
  | test
  /-- `(len = read(connfd, buf, MAXLINE/2)) > 0` -/
  | read
  /-- `write(STDOUT_FILENO, buf, len)` -/
  | write
  deriving DecidableEq, Repr

/-- What `accept` gives: the descriptor, the address and the port. -/
structure Peer where
  connfd : ℤ
  addr : String
  port : ℕ

/-- The connection has been added to the interest list. -/
def PC.armed : PC → Bool
  | accept | fcntl | ctlAdd => false
  | waitBegin | wait | waitEnd | test | read | write => true

structure State where
  pc : PC
  conn : Conn
  /-- `resevent[0].data.fd` -/
  resevent : ℤ
  res : ℤ
  buf : List UInt8
  len : ℤ
  /-- What was handed to `printf`. -/
  printed : List String
  /-- What `write` has written to the standard output. -/
  written : List UInt8
  /-- All bytes that have arrived. -/
  delivered : List UInt8
  deriving DecidableEq, Repr

/-- The next step of the server, the kernel being willing to hand out `k` bytes. -/
def server (peer : Peer) (s : State) (k : ℕ) : Option State :=
  match s.pc with
  | .accept => some { s with
      pc := .fcntl
      printed := s.printed ++ ["Accepting connections ...\n",
        s!"received from {peer.addr} at PORT {peer.port}\n"] }
  | .fcntl => some { s with pc := .ctlAdd }
  | .ctlAdd => some { s with pc := .waitBegin, conn := s.conn.add }
  | .waitBegin => some { s with pc := .wait, printed := s.printed ++ ["epoll_wait begin\n"] }
  | .wait => do
    let conn ← s.conn.wait
    return { s with pc := .waitEnd, conn, resevent := peer.connfd, res := 1 }
  | .waitEnd => some { s with
      pc := .test
      printed := s.printed ++ [s!"epoll_wait end res {s.res}\n"] }
  | .test => some { s with pc := if s.resevent = peer.connfd then .read else .waitBegin }
  | .read => do
    let (len, buf, conn) ← s.conn.read s.buf (MAXLINE / 2) k
    return { s with pc := if 0 < len then .write else .waitBegin, conn, buf, len }
  | .write => some { s with pc := .read, written := s.written ++ s.buf.take s.len.toNat }

/-- What happens next. -/
inductive Event
  /-- Bytes arrive. -/
  | arrive (bs : List UInt8)
  /-- The server takes a step. -/
  | server (k : ℕ)

/-- The server and its connection. At the start its variables hold anything. -/
def system (peer : Peer) : System State Event where
  Init s := s.pc = .accept ∧ s.conn = ⟨[], false, false⟩ ∧ s.buf.length = MAXLINE ∧
    s.written = [] ∧ s.delivered = []
  step s
    | .arrive bs => some { s with conn := s.conn.arrive bs, delivered := s.delivered ++ bs }
    | .server k => server peer s k

/-! ### What holds on the way -/

/-- The chunk that has been read and not yet been written. -/
def State.chunk (s : State) : List UInt8 := if s.pc = .write then s.buf.take s.len.toNat else []

/-- **The invariant.** -/
structure Inv (peer : Peer) (s : State) : Prop where
  /-- The bytes delivered are on their way, in order. -/
  bytes : s.written ++ s.chunk ++ s.conn.queue = s.delivered
  /-- From `epoll_ctl` on, arriving bytes make an edge. -/
  registered : s.pc.armed = true → s.conn.registered = true
  /-- Where the server is about to wait, a byte in the queue comes with an edge. -/
  edge : s.pc = .waitBegin ∨ s.pc = .wait → s.conn.queue ≠ [] → s.conn.flag = true
  /-- What the server was woken for is the connection. -/
  woken : s.pc = .waitEnd ∨ s.pc = .test → s.resevent = peer.connfd
  /-- The buffer keeps its size. -/
  buf_length : s.buf.length = MAXLINE

section Invariant

variable {peer : Peer} {s s' : State} {bs : List UInt8} {k : ℕ} {e : Event}

theorem State.chunk_of_ne_write (h : s.pc ≠ .write) : s.chunk = [] := if_neg h

theorem inv_init (h : (system peer).Init s) : Inv peer s := by
  obtain ⟨hpc, hconn, hbuf, hwritten, hdelivered⟩ := h
  refine ⟨?_, ?_, ?_, ?_, hbuf⟩
  · rw [State.chunk_of_ne_write (by simp [hpc]), hconn, hwritten, hdelivered]
    rfl
  · rw [hpc]
    rintro ⟨⟩
  · rw [hpc]
    rintro (⟨⟨⟩⟩ | ⟨⟨⟩⟩)
  · rw [hpc]
    rintro (⟨⟨⟩⟩ | ⟨⟨⟩⟩)

/-- **Bytes may arrive at any time**: where it matters the connection is
registered, so they bring an edge. -/
theorem inv_arrive (h : Inv peer s) :
    Inv peer { s with conn := s.conn.arrive bs, delivered := s.delivered ++ bs } where
  bytes := by
    rw [← h.bytes]
    simp [State.chunk, Conn.arrive]
  registered := h.registered
  edge hpc _ := h.registered (by rcases hpc with hpc | hpc <;> rw [hpc] <;> rfl)
  woken := h.woken
  buf_length := h.buf_length

/-- A step that goes on to `pc` and touches neither the bytes nor the connection. -/
theorem Inv.goto {pc : PC} {printed : List String} (h : Inv peer s) (hpc : s.pc ≠ .write)
    (hpc' : pc ≠ .write) (harmed : pc.armed = true → s.pc.armed = true)
    (hedge : pc = .waitBegin ∨ pc = .wait → s.conn.queue ≠ [] → s.conn.flag = true)
    (hwoken : pc = .waitEnd ∨ pc = .test → s.resevent = peer.connfd) :
    Inv peer { s with pc, printed } where
  bytes := by
    rw [← h.bytes, State.chunk_of_ne_write hpc, State.chunk_of_ne_write hpc']
  registered hpc := h.registered (harmed hpc)
  edge := hedge
  woken := hwoken
  buf_length := h.buf_length

/-- **The connection is registered**: bytes that came before make an edge. -/
theorem inv_ctlAdd (h : Inv peer s) (hpc : s.pc = .ctlAdd) :
    Inv peer { s with pc := .waitBegin, conn := s.conn.add } where
  bytes := by
    rw [← h.bytes, State.chunk_of_ne_write (by simp [hpc]), State.chunk_of_ne_write (by simp)]
    rfl
  registered _ := rfl
  edge _ hne := by simpa [Conn.add] using hne
  woken := by rintro (⟨⟨⟩⟩ | ⟨⟨⟩⟩)
  buf_length := h.buf_length

/-- **The wait ends**: the edge is taken, and the server is about to look. -/
theorem inv_wait {conn : Conn} (h : Inv peer s) (hpc : s.pc = .wait)
    (hw : s.conn.wait = some conn) :
    Inv peer { s with pc := .waitEnd, conn, resevent := peer.connfd, res := 1 } := by
  obtain rfl : { s.conn with flag := false } = conn := by
    rw [Conn.wait] at hw
    split at hw
    · exact Option.some.inj hw
    · cases hw
  refine ⟨?_, ?_, ?_, fun _ => rfl, h.buf_length⟩
  · rw [← h.bytes, State.chunk_of_ne_write (by simp [hpc]), State.chunk_of_ne_write (by simp)]
  · exact fun _ => h.registered (by rw [hpc]; rfl)
  · rintro (⟨⟨⟩⟩ | ⟨⟨⟩⟩)

/-- **A read** either finds the queue empty, and the server goes back to waiting, or
puts the oldest bytes into the buffer. -/
theorem inv_read {len : ℤ} {buf : List UInt8} {conn : Conn} (h : Inv peer s)
    (hpc : s.pc = .read) (hr : s.conn.read s.buf (MAXLINE / 2) k = some (len, buf, conn)) :
    Inv peer { s with pc := if 0 < len then .write else .waitBegin, conn, buf, len } := by
  have hreg : s.conn.registered = true := h.registered (by rw [hpc]; rfl)
  have hbytes := h.bytes
  rw [State.chunk_of_ne_write (by simp [hpc]), List.append_nil] at hbytes
  rcases Conn.read_cases hr with ⟨hqueue, rfl, rfl, rfl⟩ |
    ⟨chunk, hne, hle, rfl, rfl, hqueue, hreg'⟩
  · -- back to waiting, with nothing left that would need an edge
    refine ⟨?_, fun _ => hreg, fun _ hne => absurd hqueue hne, ?_, h.buf_length⟩
    · rw [State.chunk_of_ne_write (by simp), List.append_nil]
      exact hbytes
    · rintro (⟨⟨⟩⟩ | ⟨⟨⟩⟩)
  · -- on to writing the chunk, where nothing is said of edges
    have hpos : (0 : ℤ) < chunk.length := by simpa [List.length_pos_iff] using hne
    rw [if_pos hpos]
    refine ⟨?_, fun _ => hreg'.trans hreg, ?_, ?_, ?_⟩
    · rw [← hbytes, hqueue, State.chunk, if_pos rfl]
      simp
    · rintro (⟨⟨⟩⟩ | ⟨⟨⟩⟩)
    · rintro (⟨⟨⟩⟩ | ⟨⟨⟩⟩)
    · rw [List.length_append, List.length_drop, h.buf_length]
      simp only [MAXLINE] at hle ⊢
      omega

/-- **A write** empties the buffer. -/
theorem inv_write (h : Inv peer s) (hpc : s.pc = .write) :
    Inv peer { s with pc := .read, written := s.written ++ s.buf.take s.len.toNat } where
  bytes := by
    have hchunk : s.chunk = s.buf.take s.len.toNat := if_pos hpc
    rw [← h.bytes, hchunk, State.chunk_of_ne_write (by simp), List.append_nil]
  registered _ := h.registered (by rw [hpc]; rfl)
  edge := by rintro (⟨⟨⟩⟩ | ⟨⟨⟩⟩)
  woken := by rintro (⟨⟨⟩⟩ | ⟨⟨⟩⟩)
  buf_length := h.buf_length

/-- **Every step of the server keeps the invariant.** -/
theorem inv_server (h : Inv peer s) (hs : server peer s k = some s') : Inv peer s' := by
  cases hpc : s.pc with
  | accept =>
    simp only [server, hpc] at hs
    obtain rfl := Option.some.inj hs
    exact h.goto (by simp [hpc]) (by simp) (by rintro ⟨⟩) (by rintro (⟨⟨⟩⟩ | ⟨⟨⟩⟩))
      (by rintro (⟨⟨⟩⟩ | ⟨⟨⟩⟩))
  | fcntl =>
    simp only [server, hpc] at hs
    obtain rfl := Option.some.inj hs
    exact h.goto (by simp [hpc]) (by simp) (by rintro ⟨⟩) (by rintro (⟨⟨⟩⟩ | ⟨⟨⟩⟩))
      (by rintro (⟨⟨⟩⟩ | ⟨⟨⟩⟩))
  | ctlAdd =>
    simp only [server, hpc] at hs
    obtain rfl := Option.some.inj hs
    exact inv_ctlAdd h hpc
  | waitBegin =>
    simp only [server, hpc] at hs
    obtain rfl := Option.some.inj hs
    exact h.goto (by simp [hpc]) (by simp) (by simp [hpc, PC.armed]) (fun _ => h.edge (Or.inl hpc))
      (by rintro (⟨⟨⟩⟩ | ⟨⟨⟩⟩))
  | wait =>
    simp only [server, hpc] at hs
    obtain ⟨conn, hw, hs⟩ := Option.bind_eq_some_iff.mp hs
    obtain rfl := Option.some.inj hs
    exact inv_wait h hpc hw
  | waitEnd =>
    simp only [server, hpc] at hs
    obtain rfl := Option.some.inj hs
    exact h.goto (by simp [hpc]) (by simp) (by simp [hpc, PC.armed]) (by rintro (⟨⟨⟩⟩ | ⟨⟨⟩⟩))
      (fun _ => h.woken (Or.inl hpc))
  | test =>
    simp only [server, hpc, if_pos (h.woken (Or.inr hpc))] at hs
    obtain rfl := Option.some.inj hs
    exact h.goto (by simp [hpc]) (by simp) (by simp [hpc, PC.armed]) (by rintro (⟨⟨⟩⟩ | ⟨⟨⟩⟩))
      (by rintro (⟨⟨⟩⟩ | ⟨⟨⟩⟩))
  | read =>
    simp only [server, hpc] at hs
    obtain ⟨⟨len, buf, conn⟩, hr, hs⟩ := Option.bind_eq_some_iff.mp hs
    obtain rfl := Option.some.inj hs
    exact inv_read h hpc hr
  | write =>
    simp only [server, hpc] at hs
    obtain rfl := Option.some.inj hs
    exact inv_write h hpc

/-- **The invariant holds in every state of a run.** -/
theorem inv_of_reachable (h : (system peer).Reachable s) : Inv peer s := by
  refine h.invariant (fun s => inv_init) fun s e s' hs _ he => ?_
  cases e with
  | arrive bs =>
    obtain rfl := Option.some.inj he
    exact inv_arrive hs
  | server k => exact inv_server hs he

end Invariant

/-! ### Nothing is lost -/

section Results

variable {peer : Peer} {s : State}

/-- The server is blocked: it waits, and there is no edge to end the wait. -/
def State.Blocked (s : State) : Prop := s.pc = .wait ∧ s.conn.flag = false

/-- **The server is stuck only where it is blocked**: elsewhere the kernel has a
result for its next system call. -/
theorem exists_server_of_not_blocked (h : ¬s.Blocked) : ∃ k, (server peer s k).isSome := by
  cases hpc : s.pc with
  | wait =>
    have hflag : s.conn.flag = true := by simpa [State.Blocked, hpc] using h
    exact ⟨0, by simp [server, hpc, Conn.wait, hflag]⟩
  | read =>
    refine ⟨1, ?_⟩
    rcases hqueue : s.conn.queue with _ | ⟨b, bs⟩ <;>
      simp [server, hpc, Conn.read, hqueue, MAXLINE]
  | _ => exact ⟨0, by simp [server, hpc]⟩

/-- **The server never loses data.** In every state of every run, what was written,
the chunk in the buffer and the queue are together what was delivered; and where
the server is blocked the queue is empty and everything has been written. -/
theorem server_never_loses_data (h : (system peer).Reachable s) :
    s.written ++ s.chunk ++ s.conn.queue = s.delivered ∧
      (s.Blocked → s.conn.queue = [] ∧ s.written = s.delivered) := by
  have hinv := inv_of_reachable h
  refine ⟨hinv.bytes, ?_⟩
  rintro ⟨hpc, hflag⟩
  -- a byte in the queue would come with an edge
  have hqueue : s.conn.queue = [] := by
    by_contra hne
    rw [hinv.edge (Or.inr hpc) hne] at hflag
    cases hflag
  have hbytes := hinv.bytes
  rw [State.chunk_of_ne_write (by simp [hpc]), hqueue, List.append_nil, List.append_nil] at hbytes
  exact ⟨hqueue, hbytes⟩

/-- A server that has just been started. -/
def start : State where
  pc := .accept
  conn := ⟨[], false, false⟩
  resevent := 0
  res := 0
  buf := List.replicate MAXLINE 0
  len := 0
  printed := []
  written := []
  delivered := []

/-- A run in which bytes arrive while the server waits and while it reads. -/
def twoArrivals : List Event :=
  List.replicate 4 (.server 0) ++ [.arrive [97, 97, 10]] ++ List.replicate 3 (.server 0) ++
    [.server 2, .arrive [98, 10], .server 0, .server 3] ++ List.replicate 8 (.server 0)

/-- A client on the same machine. -/
def localhost : Peer := ⟨4, "127.0.0.1", 40000⟩

/-- At the end of that run the server is blocked. -/
theorem server_never_loses_data_twoArrivals :
    ∃ s, (system localhost).run twoArrivals start = some s ∧ s.Blocked ∧
      s.delivered = [97, 97, 10, 98, 10] ∧
      s.written ++ s.chunk ++ s.conn.queue = s.delivered ∧
      (s.Blocked → s.conn.queue = [] ∧ s.written = s.delivered) := by
  have hpc : ((system localhost).run twoArrivals start).map State.pc = some .wait := rfl
  have hflag : ((system localhost).run twoArrivals start).map (·.conn.flag) = some false := rfl
  have hdelivered : ((system localhost).run twoArrivals start).map State.delivered =
      some [97, 97, 10, 98, 10] := rfl
  obtain ⟨s, hs, hpc⟩ := Option.map_eq_some_iff.mp hpc
  rw [hs] at hflag hdelivered
  refine ⟨s, hs, ⟨hpc, Option.some.inj hflag⟩, Option.some.inj hdelivered, ?_⟩
  have hinit : (system localhost).Init start := ⟨rfl, rfl, rfl, rfl, rfl⟩
  exact server_never_loses_data (System.ReachableVia.runVia (.init hinit) hs)

end Results

end Epoll

end DocumentCode
