import Aesd.Server.Command

/-!
# The thread of one connection

`handle_connection` and `write_to_file` as machines: a state says which call
comes next, and the answer of the system takes the machine on. Every answer the
system can give has its own path, with the exits the source takes on failures.
What a thread does between two calls it does in steps of its own, so that a run
shows every interleaving of the threads.
-/
namespace Aesd.Server

/-- Whether `USE_AESD_CHAR_DEVICE` is defined. -/
inductive Build where
  | file | driver
  deriving DecidableEq, Repr

/-- `O_RDWR | O_CREAT | O_APPEND`, `O_RDWR`, `O_RDONLY`, `O_WRONLY | O_CREAT | O_TRUNC` -/
inductive OpenMode where
  | append | readWrite | readOnly | truncate
  deriving DecidableEq, Repr

/-- What `localtime` gives `strftime` to print. -/
structure Tm where
  year : Nat
  mon : Nat
  mday : Nat
  hour : Nat
  min : Nat
  sec : Nat
  deriving DecidableEq, Repr

/-- What a thread does next. `process` marks the packet the handler has completed, and `lock`
names the record or the command for which the mutex is taken; `tau` is no call at all. -/
inductive Call where
  | tau
  | recv
  | realloc (size : Nat)
  | process (packet : List UInt8)
  | lock (packet : List UInt8)
  | unlock
  | openFile (mode : OpenMode)
  | write (fd : Nat) (data : List UInt8)
  | fsync (fd : Nat)
  | closeFile (fd : Nat)
  | ioctl (fd writeCmd writeCmdOffset : Nat)
  | read (fd : Nat)
  | send (data : List UInt8)
  | closeClient (fd : Nat)
  | exit
  | time
  | setup
  | accept
  | createThread
  | join (thread : Nat)
  deriving DecidableEq, Repr

/-- `failed` is the result -1 or NULL, `bytes` a count of bytes with these bytes, `memory` what
happens to lie in memory nobody wrote, and `killed` the end of the process by a signal. -/
inductive Answer where
  | done
  | failed
  | fd (n : Nat)
  | bytes (l : List UInt8)
  | count (n : Nat)
  | memory (l : List UInt8)
  | time (tm : Tm)
  | killed
  deriving DecidableEq, Repr

/-- `sizeof(buf)` -/
def recvSize : Nat := 1024

/-- `FILE_BUF_SIZE` -/
def fileBufSize : Nat := 1024

def newline : UInt8 := 10

/-- The points of `write_to_file`, which has the packet in `data`. -/
inductive WritePc where
  | openFile
  | write (fd : Nat)
  | writeFailed (fd : Nat)
  | fsync (fd : Nat)
  | fsyncFailed (fd : Nat)
  | closeFile (fd : Nat)
  deriving DecidableEq, Repr

def WritePc.call (data : List UInt8) : WritePc → Call
  | .openFile => .openFile .append
  | .write fd => .write fd data
  | .writeFailed fd | .fsyncFailed fd | .closeFile fd => .closeFile fd
  | .fsync fd => .fsync fd

/-- The next point, or whether the function returns 0. Any count but -1 is taken for success. -/
def WritePc.resume : WritePc → Answer → Option (WritePc ⊕ Bool)
  | .openFile, .fd n => some (.inl (.write n))
  | .openFile, .failed => some (.inr false)
  | .write fd, .count _ => some (.inl (.fsync fd))
  | .write fd, .failed => some (.inl (.writeFailed fd))
  | .writeFailed _, .done | .writeFailed _, .failed => some (.inr false)
  | .fsync fd, .done => some (.inl (.closeFile fd))
  | .fsync fd, .failed => some (.inl (.fsyncFailed fd))
  | .fsyncFailed _, .done | .fsyncFailed _, .failed => some (.inr false)
  | .closeFile _, .done => some (.inr true)
  | .closeFile _, .failed => some (.inr false)
  | _, _ => none

/-- The two sections in which the data file is read and sent. -/
inductive Section where
  | seek | data
  deriving DecidableEq, Repr

/-- The points of `handle_connection`. The ones that end in `GiveUp` unlock on an error exit. -/
inductive Pc where
  | recv
  | nextByte
  | grow
  | store
  | dispatch
  | lock (seekto : Option (Nat × Nat))
  | seekOpen (writeCmd writeCmdOffset : Nat)
  | seekIoctl (fd writeCmd writeCmdOffset : Nat)
  | seekGiveUp
  | writing (w : WritePc)
  | writeGiveUp
  | sendOpen
  | sendGiveUp
  | reading (s : Section) (fd : Nat)
  | sending (s : Section) (fd : Nat) (rest : List UInt8)
  | closing (s : Section) (fd : Nat)
  | unlocking (s : Section)
  | sendFailed (s : Section) (fd : Nat)
  | sendFailedUnlock
  | exiting
  | clientDone
  | closeClient
  | returned
  deriving DecidableEq, Repr

/-- The variables of the handler and the field of its `struct thread_data` that it writes.
`buf` is what the `for` loop has not yet gone through, and a block at `packetBuf` is the list
of its bytes. -/
structure Conn where
  pc : Pc
  clientFd : Nat
  buf : List UInt8
  packetBuf : Option (List UInt8)
  packetLen : Nat
  packetSize : Nat
  threadCompleteSuccess : Bool
  deriving DecidableEq, Repr

namespace Conn

def start (clientFd : Nat) : Conn := ⟨.recv, clientFd, [], none, 0, 0, false⟩

/-- The block at `packet_buf`. -/
def memory (c : Conn) : List UInt8 := c.packetBuf.getD []

/-- `packet_buf[0..packet_len)` -/
def packet (c : Conn) : List UInt8 := c.memory.take c.packetLen

/-- `new_size` -/
def newSize (c : Conn) : Nat := if c.packetSize = 0 then 1024 else c.packetSize * 2

def call (c : Conn) : Option Call :=
  match c.pc with
  | .recv => some .recv
  | .nextByte | .store | .clientDone => some .tau
  | .grow => some (.realloc c.newSize)
  | .dispatch => some (.process c.packet)
  | .lock _ => some (.lock c.packet)
  | .seekOpen _ _ => some (.openFile .readWrite)
  | .seekIoctl fd x y => some (.ioctl fd x y)
  | .writing w => some (w.call c.packet)
  | .sendOpen => some (.openFile .readOnly)
  | .reading _ fd => some (.read fd)
  | .sending _ _ rest => some (.send rest)
  | .closing _ fd | .sendFailed _ fd => some (.closeFile fd)
  | .seekGiveUp | .writeGiveUp | .sendGiveUp | .unlocking _ | .sendFailedUnlock => some .unlock
  | .exiting => some .exit
  | .closeClient => some (.closeClient c.clientFd)
  | .returned => none

/-- What follows the answer of `recv`. -/
def received (c : Conn) (l : List UInt8) : Option Conn :=
  if l.length > recvSize then none
  else if l = [] then some { c with pc := .clientDone }
  else some { c with pc := .nextByte, buf := l }

/-- The head of the `for` loop and the test whether the packet still fits. -/
def nextByte (c : Conn) : Conn :=
  if c.buf = [] then { c with pc := .recv }
  else if c.packetLen + 1 > c.packetSize then { c with pc := .grow }
  else { c with pc := .store }

/-- The block `realloc` returns: the old bytes and whatever lies behind them. -/
def grow (c : Conn) (junk : List UInt8) : Option Conn :=
  if (c.memory ++ junk).length = c.newSize then
    some { c with pc := .store, packetBuf := some (c.memory ++ junk), packetSize := c.newSize }
  else none

/-- `packet_buf[packet_len++] = buf[i]`, which cannot be done through NULL. -/
def store (c : Conn) : Option Conn :=
  match c.buf, c.packetBuf with
  | b :: rest, some mem => some { c with
      pc := if b = newline then .dispatch else .nextByte
      buf := rest
      packetBuf := some (mem.set c.packetLen b)
      packetLen := c.packetLen + 1 }
  | _, _ => none

/-- The test for the seek command, which reads memory without regard to `packet_len`. -/
def dispatch (build : Build) (c : Conn) (past : List UInt8) : Conn :=
  match build with
  | .file => { c with pc := .lock none }
  | .driver => { c with pc := .lock (seekCommand (c.memory ++ past)) }

/-- The two loops: `rest` is what `send` has not taken yet. -/
def sent (c : Conn) (s : Section) (fd : Nat) (rest : List UInt8) (n : Nat) : Option Conn :=
  if n > rest.length then none
  else if rest.drop n = [] then some { c with pc := .reading s fd }
  else some { c with pc := .sending s fd (rest.drop n) }

def readBack (c : Conn) (s : Section) (fd : Nat) (l : List UInt8) : Option Conn :=
  if l.length > fileBufSize then none
  else if l = [] then some { c with pc := .closing s fd }
  else some { c with pc := .sending s fd l }

/-- `client_done`: the flag is set only together with the release of a buffer. -/
def finish (c : Conn) : Conn :=
  match c.packetBuf with
  | some _ => { c with
      pc := .closeClient
      packetBuf := none
      packetLen := 0
      packetSize := 0
      threadCompleteSuccess := true }
  | none => { c with pc := .closeClient }

/-- The thread goes on with the answer of its call. -/
def resume (build : Build) (c : Conn) (a : Answer) : Option Conn :=
  match c.pc, a with
  | .recv, .bytes l => c.received l
  | .recv, .failed => some { c with pc := .clientDone }
  | .nextByte, .done => some c.nextByte
  | .grow, .memory junk => c.grow junk
  | .grow, .failed => some { c with pc := .clientDone, packetBuf := none, packetLen := 0 }
  | .store, .done => c.store
  | .dispatch, .memory past => some (c.dispatch build past)
  | .lock (some (x, y)), .done => some { c with pc := .seekOpen x y }
  | .lock none, .done => some { c with pc := .writing .openFile }
  | .seekOpen x y, .fd n => some { c with pc := .seekIoctl n x y }
  | .seekOpen _ _, .failed => some { c with pc := .seekGiveUp }
  | .seekIoctl fd _ _, .done => some { c with pc := .reading .seek fd }
  | .seekIoctl _ _ _, .failed => some { c with pc := .seekGiveUp }
  -- `continue`: the packet is not reset.
  | .seekGiveUp, .done => some { c with pc := .nextByte }
  | .writing w, a => (w.resume a).map fun
    | .inl w => { c with pc := .writing w }
    | .inr true => { c with pc := .sendOpen }
    | .inr false => { c with pc := .writeGiveUp }
  | .writeGiveUp, .done => some { c with pc := .sendOpen }
  | .sendOpen, .fd n => some { c with pc := .reading .data n }
  | .sendOpen, .failed => some { c with pc := .sendGiveUp }
  -- `break`: the rest of `buf` is dropped, and the packet is not reset.
  | .sendGiveUp, .done => some { c with pc := .recv, buf := [] }
  | .reading s fd, .bytes l => c.readBack s fd l
  | .reading s fd, .failed => some { c with pc := .closing s fd }
  | .sending s fd rest, .count n => c.sent s fd rest n
  | .sending s fd _, .failed => some { c with pc := .sendFailed s fd }
  -- The client is gone, and `SIGPIPE` ends the process.
  | .sending _ _ _, .killed => some { c with pc := .exiting }
  | .closing s _, .done | .closing s _, .failed => some { c with pc := .unlocking s }
  | .unlocking _, .done => some { c with pc := .nextByte, packetLen := 0 }
  | .sendFailed .seek _, .done | .sendFailed .seek _, .failed =>
    some { c with pc := .sendFailedUnlock }
  | .sendFailed .data _, .done | .sendFailed .data _, .failed => some { c with pc := .exiting }
  | .sendFailedUnlock, .done => some { c with pc := .exiting }
  | .exiting, .done => some c
  | .clientDone, .done => some c.finish
  | .closeClient, .done | .closeClient, .failed => some { c with pc := .returned }
  | _, _ => none

/-- One call and its answer. -/
def step (build : Build) (c : Conn) (e : Call × Answer) : Option Conn :=
  if c.call = some e.1 then c.resume build e.2 else none

theorem step_eq_some {build : Build} {c t : Conn} {e : Call × Answer} :
    c.step build e = some t ↔ c.call = some e.1 ∧ c.resume build e.2 = some t := by
  unfold step
  split <;> simp_all

end Conn

end Aesd.Server
