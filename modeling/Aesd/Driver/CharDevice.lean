import Aesd.Driver.CircularBuffer
import Aesd.Driver.Kernel

/-!
# The character device

`aesdchar.h` and `main.c`: the operations of the driver on its one device, with
every failure of a kernel service as an input of the operation. A file is known
by its position alone, since `aesd_open` gives every file the same device.
-/
namespace Aesd.CharDevice

open BlockHeap Kernel CircularBuffer

def eFault : Int := 14
def eInval : Int := 22
def eNoMem : Int := 12
def eNoTty : Int := 25
def eRestartSys : Int := 512

/-- `AESD_BUFFER_SIZE` -/
def aesdBufferSize : Nat := 1024

/-- The byte that signals a complete write. -/
def newline : UInt8 := 10

/-- `struct aesd_dev`, as far as an operation reads or writes it; `lock` tells whether the
mutex is held. -/
structure AesdDev where
  buffer : Ptr
  bufferSize : Int
  lock : Bool
  circBuffer : AesdCircularBuffer
  workingEntry : Ptr
  workingSize : Nat

/-- The kernel memory and the device. -/
structure State where
  heap : Memory
  dev : AesdDev

/-- Nonzero when a signal arrives first; the lock is then not taken. -/
def mutexLockInterruptible (interrupted : Bool) (s : State) : Bool × State :=
  if interrupted then (true, s) else (false, { s with dev := { s.dev with lock := true } })

def mutexUnlock (s : State) : State := { s with dev := { s.dev with lock := false } }

/-- A signed 64-bit value (`loff_t`) as `size_t`. -/
def toSizeT (x : Int) : Nat := (x % 2 ^ 64).toNat

/-- The value `loff_t` arithmetic leaves, two's complement. -/
def toLoffT (x : Int) : Int := x.bmod (2 ^ 64)

theorem toSizeT_natCast {n : Nat} (h : n < 2 ^ 64) : toSizeT n = n := by
  unfold toSizeT
  omega

theorem toLoffT_natCast {n : Nat} (h : n < 2 ^ 63) : toLoffT n = n := by
  unfold toLoffT
  rw [Int.bmod_eq_of_le] <;> omega

structure ReadResult where
  retval : Int
  /-- what reached the user's buffer -/
  data : List (Cell UInt8)
  fPos : Int
  state : State

def aesdRead (interrupted copyFails : Bool) (count : Nat) (fPos : Int) (s : State) : ReadResult :=
  match mutexLockInterruptible interrupted s with
  | (true, s) => ⟨-eRestartSys, [], fPos, s⟩
  | (false, s) =>
    match aesdCircularBufferFindEntryOffsetForFpos s.dev.circBuffer (toSizeT fPos) with
    | none => ⟨0, [], fPos, mutexUnlock s⟩
    | some (idx, entryOffset) =>
      let entry := s.dev.circBuffer.entry idx
      let bytesToCopy := min count (entry.size - entryOffset)
      if copyFails = true ∧ bytesToCopy ≠ 0 then ⟨-eFault, [], fPos, mutexUnlock s⟩
      else
        let faults := s.heap.boundsFaults entry.buffptr entryOffset bytesToCopy
        ⟨bytesToCopy, s.heap.load entry.buffptr entryOffset bytesToCopy, fPos + bytesToCopy,
          mutexUnlock { s with heap := s.heap.report faults }⟩

/-- The answers of the kernel during one `aesd_write`. Its loop runs at most once, so that
each allocation site is asked at most once. -/
structure WriteEnv where
  interrupted : Bool
  kbuf : Alloc
  copyFails : Bool
  grow : Alloc
  entry : Alloc
  shrink : Alloc

/-- The variables of the `while (remaining)` loop; `added` records the contents of the entries
passed to `aesd_circular_buffer_add_entry`. -/
structure WriteLoop where
  state : State
  copied : Nat
  remaining : Nat
  retval : Int
  added : List (List (Cell UInt8))

/-- One round of the loop, and whether it jumped to `free_buf`. -/
def writeBody (env : WriteEnv) (kbuf : Ptr) (l : WriteLoop) : WriteLoop × Bool :=
  let dev := l.state.dev
  let chunk := l.remaining
  let (p, h) := krealloc env.grow dev.workingEntry (dev.workingSize + chunk) l.state.heap
  let dev := { dev with workingEntry := p }
  if p = .null then ({ l with state := ⟨h, dev⟩, retval := -eNoMem }, true)
  else
    let h := memcpy dev.workingEntry dev.workingSize kbuf l.copied chunk h
    let dev := { dev with workingSize := dev.workingSize + chunk }
    let l := { l with copied := l.copied + chunk, remaining := l.remaining - chunk }
    let (found, h) := memchr dev.workingEntry newline dev.workingSize h
    match found with
    | none => ({ l with state := ⟨h, dev⟩ }, false)
    | some i =>
      let entrySize := i + 1
      let (entryBuf, h) := kmalloc env.entry entrySize h
      if entryBuf = .null then ({ l with state := ⟨h, dev⟩, retval := -eNoMem }, true)
      else
        let h := memcpy entryBuf 0 dev.workingEntry 0 entrySize h
        let added := h.load entryBuf 0 entrySize
        let dev := { dev with
          circBuffer := aesdCircularBufferAddEntry dev.circBuffer ⟨entryBuf, entrySize⟩ }
        let leftover := dev.workingSize - entrySize
        let h := memmove dev.workingEntry 0 dev.workingEntry entrySize leftover h
        let dev := { dev with workingSize := leftover }
        let (p, h) := krealloc env.shrink dev.workingEntry dev.workingSize h
        let dev := { dev with workingEntry := p }
        ({ l with state := ⟨h, dev⟩, added := l.added ++ [added] }, false)

/-- `while (remaining)`. Every round takes at least one byte off `remaining`, so as many rounds
as there are bytes are enough. -/
def writeLoop (env : WriteEnv) (kbuf : Ptr) : Nat → WriteLoop → WriteLoop
  | 0, l => l
  | fuel + 1, l =>
    if l.remaining = 0 then l
    else
      match writeBody env kbuf l with
      | (l, true) => l
      | (l, false) => writeLoop env kbuf fuel l

structure WriteResult where
  retval : Int
  state : State
  added : List (List (Cell UInt8))

def aesdWrite (env : WriteEnv) (buf : List UInt8) (s : State) : WriteResult :=
  let count := buf.length
  match mutexLockInterruptible env.interrupted s with
  | (true, s) => ⟨-eRestartSys, s, []⟩
  | (false, s) =>
    match kmalloc env.kbuf count s.heap with
    | (kbuf, h) =>
      if kbuf = .null then ⟨-eNoMem, mutexUnlock { s with heap := h }, []⟩
      else
        match copyFromUser env.copyFails kbuf buf h with
        | (true, h) => ⟨-eFault, mutexUnlock { s with heap := kfree kbuf h }, []⟩
        | (false, h) =>
          let l := writeLoop env kbuf count ⟨{ s with heap := h }, 0, count, count, []⟩
          ⟨l.retval, mutexUnlock { l.state with heap := kfree kbuf l.state.heap }, l.added⟩

/-- `while (idx != in_offs)` of `aesd_llseek`; `none` when the rounds do not reach `in_offs`. -/
def totalSizeLoop (b : AesdCircularBuffer) : Nat → Nat → Nat → Option Nat
  | 0, _, _ => none
  | fuel + 1, idx, totalSize =>
    if idx = b.inOffs then some totalSize
    else totalSizeLoop b fuel ((idx + 1) % maxWriteOperationsSupported)
      (totalSize + (b.entry idx).size)

/-- `total_size` of `aesd_llseek`. -/
def totalSize (b : AesdCircularBuffer) : Option Nat :=
  if b.full then
    some ((List.range maxWriteOperationsSupported).map fun i => (b.entry i).size).sum
  else totalSizeLoop b (maxWriteOperationsSupported + 1) b.outOffs 0

structure SeekResult where
  retval : Int
  fPos : Int
  state : State

/-- `none` when the walk over the entries does not end. -/
def aesdLlseek (interrupted : Bool) (off whence fPos : Int) (s : State) : Option SeekResult :=
  match mutexLockInterruptible interrupted s with
  | (true, s) => some ⟨-eRestartSys, fPos, s⟩
  | (false, s) =>
    (totalSize s.dev.circBuffer).map fun total =>
      let s := mutexUnlock s
      let finish (newpos : Int) : SeekResult :=
        if newpos < 0 then ⟨-eInval, fPos, s⟩ else ⟨newpos, newpos, s⟩
      if whence = 0 then finish (toLoffT off)
      else if whence = 1 then finish (toLoffT (fPos + off))
      else if whence = 2 then finish (toLoffT (total + off))
      else ⟨-eInval, fPos, s⟩

/-- `_IOWR(AESD_IOC_MAGIC, 1, struct aesd_seekto)` -/
def aesdcharIocSeekTo : Nat := 0xC0081601

/-- The `for` loop over the older entries: the slot reached and the bytes passed. -/
def seekLoop (b : AesdCircularBuffer) : Nat → Nat → Nat → Nat × Nat
  | 0, bufIndex, totalBytes => (bufIndex, totalBytes)
  | n + 1, bufIndex, totalBytes =>
    seekLoop b n ((bufIndex + 1) % maxWriteOperationsSupported)
      (totalBytes + (b.entry bufIndex).size)

/-- `writeCmd` and `writeCmdOffset` are the two 32-bit fields of the user's `struct aesd_seekto`. -/
def aesdIoctl (copyFails interrupted : Bool) (cmd writeCmd writeCmdOffset : Nat) (fPos : Int)
    (s : State) : SeekResult :=
  if cmd = aesdcharIocSeekTo then
    if copyFails then ⟨-eFault, fPos, s⟩
    else if writeCmd ≥ maxWriteOperationsSupported then ⟨-eInval, fPos, s⟩
    else
      match mutexLockInterruptible interrupted s with
      | (true, s) => ⟨-eRestartSys, fPos, s⟩
      | (false, s) =>
        let (bufIndex, totalBytes) := seekLoop s.dev.circBuffer writeCmd s.dev.circBuffer.outOffs 0
        if writeCmdOffset ≥ (s.dev.circBuffer.entry bufIndex).size then
          ⟨-eInval, fPos, mutexUnlock s⟩
        else
          let totalBytes := totalBytes + writeCmdOffset
          match aesdCircularBufferFindEntryOffsetForFpos s.dev.circBuffer totalBytes with
          | none => ⟨-eInval, fPos, mutexUnlock s⟩
          | some _ => ⟨0, toLoffT totalBytes, mutexUnlock s⟩
  else ⟨-eNoTty, fPos, s⟩

/-- `memset(&aesd_device, 0, sizeof(struct aesd_dev))` -/
def clearDevice (s : State) : State :=
  { s with dev := ⟨.null, 0, false, ⟨fun _ => zeroEntry, 0, 0, false⟩, .null, 0⟩ }

/-- `mutex_init(&aesd_device.lock)` -/
def initLock (s : State) : State := { s with dev := { s.dev with lock := false } }

/-- The result of this allocation is not checked. -/
def initBuffer (a : Alloc) (s : State) : State :=
  let (p, h) := kmalloc a aesdBufferSize s.heap
  ⟨h, { s.dev with buffer := p, bufferSize := 0 }⟩

def initCircBuffer (s : State) : State :=
  { s with dev := { s.dev with circBuffer := aesdCircularBufferInit s.dev.circBuffer } }

def initWorkingEntry (s : State) : State :=
  { s with dev := { s.dev with workingEntry := .null, workingSize := 0 } }

/-- `region` and `cdevAdd` are the results of `alloc_chrdev_region` and `aesd_setup_cdev`. -/
def aesdInitModule (region cdevAdd : Int) (buffer : Alloc) (s : State) : Int × State :=
  if region < 0 then (region, s)
  else if cdevAdd ≠ 0 then (cdevAdd, clearDevice s)
  else (cdevAdd, initWorkingEntry (initCircBuffer (initBuffer buffer (initLock (clearDevice s)))))

/-- The body of `AESD_CIRCULAR_BUFFER_FOREACH` in the clean-up. -/
def cleanupEntry (s : State) (index : Nat) : State :=
  let entry := s.dev.circBuffer.entry index
  if entry.buffptr = .null then s
  else
    ⟨kfree entry.buffptr s.heap, { s.dev with circBuffer := { s.dev.circBuffer with
      entry := Function.update s.dev.circBuffer.entry index zeroEntry } }⟩

def aesdCleanupModule (s : State) : State :=
  let s := (List.range maxWriteOperationsSupported).foldl cleanupEntry s
  if s.dev.workingEntry = .null then s
  else ⟨kfree s.dev.workingEntry s.heap, { s.dev with workingEntry := .null, workingSize := 0 }⟩

/-- The calls user programs make, each on one of the open files. -/
inductive Op where
  | write (file : Nat) (env : WriteEnv) (buf : List UInt8)
  | read (file : Nat) (interrupted copyFails : Bool) (count : Nat)
  | llseek (file : Nat) (interrupted : Bool) (off whence : Int)
  | ioctl (file : Nat) (copyFails interrupted : Bool) (cmd writeCmd writeCmdOffset : Nat)

/-- The device and the positions of the open files. -/
structure Session where
  state : State
  fPos : Nat → Int

/-- One call, the driver running it under its lock. -/
def Session.apply (x : Session) : Op → Session
  | .write _ env buf => { x with state := (aesdWrite env buf x.state).state }
  | .read file interrupted copyFails count =>
    let r := aesdRead interrupted copyFails count (x.fPos file) x.state
    ⟨r.state, Function.update x.fPos file r.fPos⟩
  | .llseek file interrupted off whence =>
    match aesdLlseek interrupted off whence (x.fPos file) x.state with
    | none => x
    | some r => ⟨r.state, Function.update x.fPos file r.fPos⟩
  | .ioctl file copyFails interrupted cmd writeCmd writeCmdOffset =>
    let r := aesdIoctl copyFails interrupted cmd writeCmd writeCmdOffset (x.fPos file) x.state
    ⟨r.state, Function.update x.fPos file r.fPos⟩

/-- The bytes a call delivers to its caller. -/
def Session.delivered (x : Session) : Op → List (Cell UInt8)
  | .read file interrupted copyFails count =>
    (aesdRead interrupted copyFails count (x.fPos file) x.state).data
  | _ => []

/-- The contents of the entries a call passes to `aesd_circular_buffer_add_entry`. -/
def Session.added (x : Session) : Op → List (List (Cell UInt8))
  | .write _ env buf => (aesdWrite env buf x.state).added
  | _ => []

/-- The bytes of a write that returns their count. -/
def Session.accepted (x : Session) : Op → List UInt8
  | .write _ env buf => if (aesdWrite env buf x.state).retval = buf.length then buf else []
  | _ => []

def Session.run (x : Session) (ops : List Op) : Session := ops.foldl Session.apply x

/-- What the calls of a run show, one after the other. -/
def Session.observe {β : Type} (f : Session → Op → List β) (x : Session) : List Op → List β
  | [] => []
  | op :: ops => f x op ++ (x.apply op).observe f ops

/-- The device after a successful `aesd_init_module`, in whatever memory it was; a file opens
at position 0. -/
def Session.start (buffer : Alloc) (dev : AesdDev) : Session :=
  ⟨(aesdInitModule 0 0 buffer ⟨Heap.empty, dev⟩).2, fun _ => 0⟩

@[simp] theorem Session.run_nil (x : Session) : x.run [] = x := rfl

@[simp] theorem Session.run_concat (x : Session) (ops : List Op) (op : Op) :
    x.run (ops ++ [op]) = (x.run ops).apply op := by
  simp [Session.run]

@[simp] theorem Session.observe_nil {β : Type} (f : Session → Op → List β) (x : Session) :
    x.observe f [] = [] := rfl

@[simp] theorem Session.observe_concat {β : Type} (f : Session → Op → List β) (x : Session)
    (ops : List Op) (op : Op) : x.observe f (ops ++ [op]) = x.observe f ops ++ f (x.run ops) op := by
  induction ops generalizing x with
  | nil => simp [observe]
  | cons first ops ih =>
    rw [List.cons_append, observe, ih, observe, List.append_assoc]
    rfl

end Aesd.CharDevice
