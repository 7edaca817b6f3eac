import Yalnix.Ipc

/-!
# Terminals

A received line is given to the first blocked reader or queued. A reader that
takes only part of a line leaves the rest in the single slot of the terminal.
Writes are cut into chunks; the completion trap of one chunk starts the next.
-/

namespace Yalnix.Terminals

open Framework FrameTable KernelState Scheduling Ipc

/-- Whether a terminal number is valid. -/
def ttyValid (M : Machine) (ttyId : ℤ) : Bool := decide (0≤ttyId ∧ ttyId<M.numTerminals)

/-- The line a reader without a line of its own gets, and the terminal
without it. -/
def ttyNextLine (tty : TtyState) : Option TtyLine × TtyState :=
  match tty.line with
  | some line => (some line,{tty with line := none})
  | none =>
    match tty.inputQueue with
    | [] => (none,tty)
    | line::rest => (some line,{tty with inputQueue := rest})

/-- The bytes of a line that a read of len bytes gets. -/
def lineCount (line : TtyLine) (len : ℕ) : ℕ :=
  if len<line.len-line.pos then len else line.len-line.pos

/-- The unread rest that goes back to the terminal, if any. -/
def lineRest (line : TtyLine) (count : ℕ) : Option TtyLine :=
  if line.pos+count<line.len then some {line with pos := line.pos+count} else none

/-- Copy from a line to the reader and leave the rest in the slot. -/
def ttyTakeBytes (t : ℕ) (line : TtyLine) (tty : TtyState) (s : Kernel) : Kernel :=
  {s with
    tty := Function.update s.tty s.currentProcess
      {s.tty s.currentProcess with readLine := none}
    terminals := Function.update s.terminals t
      (match lineRest line (lineCount line (s.tty s.currentProcess).readLen) with
        | some rest => {tty with line := some rest}
        | none => tty)
    log := s.log++[.stored s.currentProcess (s.tty s.currentProcess).readBuf
        (lineCount line (s.tty s.currentProcess).readLen),
      .ttyReturned s.currentProcess t line.stamp line.pos
        (lineCount line (s.tty s.currentProcess).readLen)]}

/-- The loop of SysTtyRead: copy from the line at hand or block. -/
def ttyReadLoop (M : Machine) (env : Env) (caller : PcbPtr) (t : ℕ) (uctxt : UserContext)
    (s : Kernel) : Flow :=
  match (s.tty s.currentProcess).readLine with
  | some line =>
    .returns (ttyTakeBytes t line (s.terminals t) s) uctxt
      (lineCount line (s.tty s.currentProcess).readLen)
  | none =>
    match ttyNextLine (s.terminals t) with
    | (some line,tty) =>
      .returns (ttyTakeBytes t line tty s) uctxt
        (lineCount line (s.tty s.currentProcess).readLen)
    | (none,_) =>
      .leaves (blockOnQueue M env (.readQueue t) ⟨caller,.ttyRead t⟩ uctxt s)

/-- SysTtyRead: take bytes of a line or wait for one. -/
def sysTtyRead (M : Machine) (env : Env) (caller : PcbPtr) (ttyId : ℤ) (buf : ℕ) (len : ℤ)
    (uctxt : UserContext) (s : Kernel) : Flow :=
  if ttyValid M ttyId=false ∨ len<0 ∨ (buf=0 ∧ 0<len) then .returns s uctxt ERROR
  else if len=0 then .returns s uctxt 0
  else if s.currentProcess=0 ∨ s.currentProcess=s.idleProcess then .returns s uctxt ERROR
  else ttyReadLoop M env caller ttyId.toNat uctxt
    (s.setTty s.currentProcess {s.tty s.currentProcess with
      ttyId := ttyId.toNat, readBuf := buf, readLen := len.toNat})

/-- Make the first queued writer the writer of an idle terminal. -/
def nextWriter (t : ℕ) (w : PcbPtr) (rest : List PcbPtr) (s : Kernel) : Kernel :=
  {s with
    terminals := Function.update s.terminals t {s.terminals t with writer := w}
    queue := Function.update s.queue (.writeQueue t) rest
    blockQueue := Function.update s.blockQueue w none
    log := s.log++[.woken w (.pop (.writeQueue t))]}

/-- Let a writer without bytes left go. -/
def finishWriter (t : ℕ) (s : Kernel) : Kernel :=
  processMakeReady {s with
    terminals := Function.update s.terminals t {s.terminals t with writer := 0}
    log := s.log++[.woken (s.terminals t).writer (.written t)]} (s.terminals t).writer

/-- The length of the next chunk of a write. -/
def chunkLen (M : Machine) (r : TtyRequest) : ℕ :=
  if M.terminalMaxLine< r.writeLen-r.writeOffset then M.terminalMaxLine
  else r.writeLen-r.writeOffset

/-- Pass the next chunk of the writer to the hardware. -/
def ttyTransmit (M : Machine) (t : ℕ) (s : Kernel) : Kernel :=
  {s with
    terminals := Function.update s.terminals t {s.terminals t with busy := true}
    tty := Function.update s.tty (s.terminals t).writer
      {s.tty (s.terminals t).writer with
        writeOffset := (s.tty (s.terminals t).writer).writeOffset+
          chunkLen M (s.tty (s.terminals t).writer)}
    log := s.log++[.ttyTransmitted t (s.terminals t).writer
      (ByteCopy.segment (s.tty (s.terminals t).writer).writeBuf
        (s.tty (s.terminals t).writer).writeOffset (chunkLen M (s.tty (s.terminals t).writer)))]}

/-- Start the next chunk of a terminal, going on to the next writer when the
present one has nothing left. Each restart removes a queued writer, so the
length of the write queue bounds the recursion. -/
def startWriteFrom (M : Machine) (t : ℕ) : ℕ → Kernel → Kernel
  | 0,s => s
  | fuel+1,s =>
    if (s.terminals t).busy=true then s
    else if (s.terminals t).writer=0 then
      match s.queue (.writeQueue t) with
      | [] => s
      | w::rest =>
        if (s.tty w).writeLen≤(s.tty w).writeOffset then
          startWriteFrom M t fuel (finishWriter t (nextWriter t w rest s))
        else ttyTransmit M t (nextWriter t w rest s)
    else if (s.tty (s.terminals t).writer).writeLen≤(s.tty (s.terminals t).writer).writeOffset then
      startWriteFrom M t fuel (finishWriter t s)
    else ttyTransmit M t s

/-- Start the next transmission of a terminal if there is one. -/
def ttyStartWrite (M : Machine) (t : ℕ) (s : Kernel) : Kernel :=
  startWriteFrom M t ((s.queue (.writeQueue t)).length+2) s

/-- Mark the current process blocked in a write of len bytes at buf. -/
def prepareWrite (env : Env) (k : KernelContext) (t : ℕ) (buf : ℕ) (len : ℤ)
    (uctxt : UserContext) (s : Kernel) : Kernel :=
  {s with
    tty := Function.update s.tty s.currentProcess {s.tty s.currentProcess with
      ttyId := t, writeBuf := fun i => env.mem (buf+i), writeLen := len.toNat, writeOffset := 0}
    userContext := Function.update s.userContext s.currentProcess (uctxt.setResult len)
    kernelContext := Function.update s.kernelContext s.currentProcess k
    state := Function.update s.state s.currentProcess .blocked
    log := s.log++[.loaded s.currentProcess buf len.toNat,
      .ttyWrote t s.currentProcess (ByteCopy.segment env.mem buf len.toNat)]}

/-- Make the prepared process the writer of an idle terminal. -/
def becomeWriter (t : ℕ) (s : Kernel) : Kernel :=
  {s with
    terminals := Function.update s.terminals t
      {s.terminals t with writer := s.currentProcess}}

/-- Queue the prepared process behind the other writers. -/
def queueWriter (t : ℕ) (s : Kernel) : Kernel :=
  {s with
    blockQueue := Function.update s.blockQueue s.currentProcess (some (.writeQueue t))
    queue := Function.update s.queue (.writeQueue t)
      (s.queue (.writeQueue t)++[s.currentProcess])}

/-- SysTtyWrite: start the first chunk or queue behind other writers. -/
def sysTtyWrite (M : Machine) (env : Env) (caller : PcbPtr) (ttyId : ℤ) (buf : ℕ) (len : ℤ)
    (uctxt : UserContext) (s : Kernel) : Flow :=
  if ttyValid M ttyId=false ∨ len<0 ∨ (buf=0 ∧ 0<len) then .returns s uctxt ERROR
  else if len=0 then .returns s uctxt 0
  else if s.currentProcess=0 ∨ s.currentProcess=s.idleProcess then .returns s uctxt ERROR
  else if env.malloc 0=false then .returns s uctxt ERROR
  else if (s.terminals ttyId.toNat).writer=0 ∧ (s.terminals ttyId.toNat).busy=false then
    .leaves (processSchedule M env (ttyStartWrite M ttyId.toNat (becomeWriter ttyId.toNat
      (prepareWrite env ⟨caller,.ttyWrite ttyId.toNat len⟩ ttyId.toNat buf len uctxt s))))
  else
    .leaves (processSchedule M env (queueWriter ttyId.toNat
      (prepareWrite env ⟨caller,.ttyWrite ttyId.toNat len⟩ ttyId.toNat buf len uctxt s)))

/-- SysTtyWrite behind ProcessSchedule: free the copy and return the length. -/
def ttyWriteResume (t : ℕ) (len : ℤ) (uctxt : UserContext) (s : Kernel) : Flow :=
  .returns ((s.setTty s.currentProcess {s.tty s.currentProcess with
    writeBuf := fun _ => 0, writeLen := 0, writeOffset := 0}).emit
      (.ttyWriteReturned t s.currentProcess len)) uctxt len

/-- Give a received line to the first blocked reader. -/
def deliverLine (t : ℕ) (line : TtyLine) (reader : PcbPtr) (rest : List PcbPtr)
    (s : Kernel) : Kernel :=
  processMakeReady {s with
    queue := Function.update s.queue (.readQueue t) rest
    blockQueue := Function.update s.blockQueue reader none
    tty := Function.update s.tty reader {s.tty reader with readLine := some line}
    stamp := s.stamp+1
    log := s.log++[.ttyReceived t line.stamp line.len line.data,
      .woken reader (.pop (.readQueue t))]} reader

/-- Queue a received line that nobody waits for. -/
def enqueueLine (t : ℕ) (line : TtyLine) (s : Kernel) : Kernel :=
  {s with
    terminals := Function.update s.terminals t
      {s.terminals t with inputQueue := (s.terminals t).inputQueue++[line]}
    stamp := s.stamp+1
    log := s.log++[.ttyReceived t line.stamp line.len line.data]}

/-- TrapTtyReceive: a line has arrived and is handed over or queued. -/
def trapTtyReceive (M : Machine) (env : Env) (uctxt : UserContext) (s : Kernel) : Kernel :=
  if ttyValid M uctxt.code=false then s
  else if env.malloc 0=false then s
  else if env.ttyReceive<0 then s
  else match s.queue (.readQueue uctxt.code.toNat) with
    | reader::rest =>
      deliverLine uctxt.code.toNat ⟨s.stamp,env.ttyReceive.toNat,0,env.ttyData⟩ reader rest s
    | [] => enqueueLine uctxt.code.toNat ⟨s.stamp,env.ttyReceive.toNat,0,env.ttyData⟩ s

/-- Clear the busy flag of a terminal. -/
def transmitDone (t : ℕ) (s : Kernel) : Kernel :=
  {s with
    terminals := Function.update s.terminals t {s.terminals t with busy := false}
    log := s.log++[.ttyCompleted t]}

/-- Completion of a write: the result and the wake-up of the writer. -/
def completeWriter (t : ℕ) (s : Kernel) : Kernel :=
  finishWriter t (s.setUserContext (s.terminals t).writer
    ((s.userContext (s.terminals t).writer).setResult (s.tty (s.terminals t).writer).writeLen))

/-- TrapTtyTransmit: a transmission has completed and the next one starts. -/
def trapTtyTransmit (M : Machine) (uctxt : UserContext) (s : Kernel) : Kernel :=
  if ttyValid M uctxt.code=false then s
  else if (s.terminals uctxt.code.toNat).writer=0 then
    ttyStartWrite M uctxt.code.toNat (transmitDone uctxt.code.toNat s)
  else if (s.tty (s.terminals uctxt.code.toNat).writer).writeLen≤
      (s.tty (s.terminals uctxt.code.toNat).writer).writeOffset then
    ttyStartWrite M uctxt.code.toNat
      (completeWriter uctxt.code.toNat (transmitDone uctxt.code.toNat s))
  else ttyStartWrite M uctxt.code.toNat (transmitDone uctxt.code.toNat s)

end Yalnix.Terminals
