import Yalnix.Traces

/-!
# Blocked terminal readers

A process is to be blocked in TtyRead only while its terminal has no input
that nobody has been given. A receive trap looks at the blocked readers, but a
reader that leaves part of its line behind does not. In runs in which no
reader leaves part of a handed line behind while others are blocked, no
wake-up is missed.
-/

namespace Yalnix.TerminalReaders

open Framework FrameTable KernelState Scheduling Ipc Terminals ProcessLifetime ProgramLoading
open Syscalls Traps KernelStart Coherence Operations OperationCoherence CallOperations
open RunInvariants Traces

variable {M : Machine} {allow : Label → Prop} {s t : Kernel} {queue : QueueAddr → List PcbPtr}
  {terminals : ℕ → TtyState} {q : QueueAddr} {l : List PcbPtr} {i : ℕ} {v : TtyState}

/-- A terminal with blocked readers has neither a partly read nor a queued line. -/
def ReadersServed (queue : QueueAddr → List PcbPtr) (terminals : ℕ → TtyState) : Prop :=
  ∀ i,queue (.readQueue i)≠[] → (terminals i).line=none ∧ (terminals i).inputQueue=[]

/-- A queue changes that is empty now, belongs to something else or to a
terminal without input. -/
theorem ReadersServed.setQueue (h : ReadersServed queue terminals)
    (hq : ∀ i,q=.readQueue i → l≠[] →
      (terminals i).line=none ∧ (terminals i).inputQueue=[]) :
    ReadersServed (Function.update queue q l) terminals := by
  intro i hne
  by_cases he : QueueAddr.readQueue i=q
  · rw [he,Function.update_self] at hne
    exact hq i he.symm hne
  · rw [Function.update_of_ne he] at hne
    exact h i hne

/-- A terminal that loses no reader keeps its readers served. -/
theorem ReadersServed.setTerminal (h : ReadersServed queue terminals)
    (hv : queue (.readQueue i)≠[] → v.line=none ∧ v.inputQueue=[]) :
    ReadersServed queue (Function.update terminals i v) := by
  intro j hne
  by_cases he : j=i
  · rw [he] at hne ⊢
    rw [Function.update_self]
    exact hv hne
  · rw [Function.update_of_ne he]
    exact h j hne

/-- A terminal changes in other respects. -/
theorem ReadersServed.keepInput (h : ReadersServed queue terminals)
    (hl : v.line=(terminals i).line) (hi : v.inputQueue=(terminals i).inputQueue) :
    ReadersServed queue (Function.update terminals i v) :=
  h.setTerminal (fun hne => by rw [hl,hi]; exact h i hne)

/-- A reader leaves something behind exactly when it asks for less than is unread. -/
theorem lineRest_none {line : TtyLine} {n : ℕ} (h : ¬n<line.len-line.pos) :
    lineRest line (lineCount line n)=none := by
  unfold lineRest lineCount
  rw [if_neg h]
  have hc : ¬line.pos+(line.len-line.pos)<line.len ∨ line.len<line.pos := by omega
  rcases hc with hc|hc
  · rw [if_neg hc]
  · rw [if_neg (by omega)]

/-- A line was there to be taken. -/
theorem ttyNextLine_input {v' : TtyState} {line : TtyLine} (h : ttyNextLine v=(some line,v')) :
    ¬(v.line=none ∧ v.inputQueue=[]) := by
  rintro ⟨hl,hi⟩
  unfold ttyNextLine at h
  rw [hl,hi] at h
  cases h

/-- A handed line whose reader asks for all that is unread, or behind which
nobody is blocked. -/
def Complete : Label → Prop
  | .handed line len _ readers => ¬(len<line.len-line.pos ∧ readers≠[])
  | _ => True

/-- Every such operation keeps blocked readers without input. -/
theorem op_readersServed {b : Bool} (hallow : ∀ x,allow x → Complete x) (hc : Coherent M s)
    (h : ReadersServed s.queue s.terminals) (hop : Op M allow b s t) :
    ReadersServed t.queue t.terminals := by
  cases hop with
  | dispatch env hs =>
    have he := dispatchNext_eq hc hs
    rw [he]
    exact h
  | forkUndone env c pfns pt m₁ m u ha hcp =>
    obtain ⟨h0,hl⟩ := callocPcb_fresh hcp
    rw [destroyed_child hc h0 hl]
    exact h
  | collect statusPtr c ha hch hz =>
    rw [collectChild_eq hc ha statusPtr hch hz]
    exact h
  | handOff i l w rest u => exact h.setQueue (by simp)
  | blockPipe id buf len pipe k u => exact h.setQueue (by simp)
  | blockLock id l k u => exact h.setQueue (by simp)
  | blockCvar id lockId cvar lockOpened k u => exact h.setQueue (by simp)
  | blockRead i k u hk hb ht hr hl hi =>
    refine h.setQueue (fun j hj _ => ?_)
    injection hj with hj
    rw [←hj]
    exact ⟨hl,hi⟩
  | startWrite env i buf len k u =>
    exact (h.keepInput (i := i) (v := {s.terminals i with writer := s.currentProcess}) rfl
      rfl).keepInput rfl rfl
  | queueWrite env i buf len k u => exact h.setQueue (by simp)
  | wake q w rest u hn hq =>
    refine h.setQueue (fun j hj => ?_)
    rcases hn with ⟨_,rfl⟩|⟨_,rfl⟩
    · cases hj
    · cases hj
  | openPipe env i hi hf => exact h.setQueue (by simp)
  | openLock i hi hf => exact h.setQueue (by simp)
  | openCvar i hi hf => exact h.setQueue (by simp)
  | takeHanded i line hk hl ho =>
    refine h.setTerminal (fun hne => ?_)
    have hall := hallow _ ho
    have hn : ¬(s.tty s.currentProcess).readLen<line.len-line.pos := fun hlt => hall ⟨hlt,hne⟩
    split
    · rename_i rest hrest
      cases hrest.symm.trans (lineRest_none hn)
    · exact h i hne
  | takeLine i line v ha hn =>
    exact h.setTerminal (fun hne => absurd (h i hne) (ttyNextLine_input hn))
  | deliver i line r rest hl hq =>
    refine h.setQueue (fun j hj _ => h j ?_)
    injection hj with hj
    rw [←hj,hq]
    simp
  | enqueue i line hl hq => exact h.setTerminal (fun hne => absurd hq hne)
  | transmitSpurious i => exact h.keepInput rfl rfl
  | transmitMore i =>
    exact (h.keepInput (i := i) (v := {s.terminals i with busy := false}) rfl rfl).keepInput rfl rfl
  | transmitLast i u => exact h.keepInput rfl rfl
  | transmitNext i u w rest =>
    have h₁ := h.keepInput (i := i) (v := {s.terminals i with busy := false, writer := 0}) rfl rfl
    exact ((h₁.setQueue (q := .writeQueue i) (by simp)).keepInput (i := i)
      (v := {(releaseWriter i u s).terminals i with writer := w}) rfl rfl).keepInput rfl rfl
  | _ => exact h

/-- A reader resumes with a handed line, asks for less than is unread, and
others are blocked behind it. -/
def LeavesRest (s : Kernel) : Input → Prop
  | .trap _ => False
  | .resume => ∃ i line,(s.kernelContext s.currentProcess).point=.ttyRead i ∧
      (s.tty s.currentProcess).readLine=some line ∧
      (s.tty s.currentProcess).readLen<line.len-line.pos ∧ s.queue (.readQueue i)≠[]

/-- In every run in which no reader leaves part of a handed line behind while
others are blocked, blocked readers have no input to take. -/
theorem run_readersServed (h : Run M (fun _ => True)
    (fun s env input => env.switchOk=true ∧ ¬LeavesRest s input) s) :
    ∀ i,s.queue (.readQueue i)≠[] →
      (s.terminals i).line=none ∧ (s.terminals i).inputQueue=[] := by
  have hok : ∀ s env input,env.switchOk=true ∧ ¬LeavesRest s input →
      env.switchOk=true ∧ StepAllowed M Complete s env input := by
    rintro s env input ⟨hsw,hn⟩
    refine ⟨hsw,fun x hx => ?_⟩
    cases hx with
    | handed i line hk hl => exact fun hboth => hn ⟨i,line,hk,hl,hboth.1,hboth.2⟩
    | _ => trivial
  exact (run_invariant (P := fun s => ReadersServed s.queue s.terminals) hok
    (fun b p q pfn pfns m₁ m₂ m v u _ _ i hne => absurd rfl hne)
    (fun c s t hc hp hop => op_readersServed (fun _ hx => hx) hc hp hop) h).2

/-- A test that a reader that resumes with a line asks for all of it. -/
def wholeTest (s : Kernel) (env : Env) : Input → Bool
  | .trap _ => env.switchOk
  | .resume => env.switchOk && (s.tty s.currentProcess).readLine.all
      (fun line => decide (line.len-line.pos≤(s.tty s.currentProcess).readLen))

/-- A step that passes the test reads a line in full. -/
theorem wholeTest_sound (s : Kernel) (env : Env) (input : Input)
    (h : wholeTest s env input=true) : env.switchOk=true ∧ ¬LeavesRest s input := by
  cases input with
  | trap u => exact ⟨h,fun hn => hn⟩
  | resume =>
    obtain ⟨hsw,hall⟩ := Bool.and_eq_true_iff.1 h
    refine ⟨hsw,?_⟩
    rintro ⟨i,line,_,hl,hlt,_⟩
    rw [hl] at hall
    have hle := of_decide_eq_true hall
    omega

/-- Two readers are blocked, a line arrives, and the first takes all of it: the
other one is blocked on a terminal without input. -/
theorem run_readersServed_blocked : ∃ s,Run sampleMachine (fun _ => True)
      (fun s env input => env.switchOk=true ∧ ¬LeavesRest s input) s ∧
    s.currentProcess=2 ∧ s.uctxt.int 0=5 ∧ s.queue (.readQueue 0)=[3] ∧
    (s.terminals 0).line=none ∧ (s.terminals 0).inputQueue=[] := by
  obtain ⟨s,hr,hq⟩ := replay_exists (fun _ => True) wholeTest_sound trivial sampleBoot_user
    [forkInput 3 2,callInput 8 0 0x105000 8,resumeInput,callInput 8 0 0x105000 8,resumeInput,
      lineInput,tickInput,resumeInput]
    (fun s => s.currentProcess=2 ∧ s.uctxt.int 0=5 ∧ s.queue (.readQueue 0)=[3]) (by decide +kernel)
  simp only [decide_eq_true_eq] at hq
  obtain ⟨hc,hrc,hq⟩ := hq
  exact ⟨s,hr,hc,hrc,hq,run_readersServed hr 0 (by rw [hq]; simp)⟩

/-- Two readers are blocked, a line of five bytes arrives, and the first takes
two of them: the second stays blocked although three bytes are unread. -/
theorem readersServed_fails : ¬∀ (M : Machine) (s : Kernel),Reachable M s →
    ∀ i,s.queue (.readQueue i)≠[] →
      (s.terminals i).line=none ∧ (s.terminals i).inputQueue=[] := by
  intro hall
  obtain ⟨s,hr,hq⟩ := replay_reachable sampleBoot_user
    [forkInput 3 2,callInput 8 0 0x105001 2,resumeInput,callInput 8 0 0x105001 2,resumeInput,
      lineInput,tickInput,resumeInput]
    (fun s => s.cpu=.user ∧ s.queue (.readQueue 0)=[3] ∧ (s.terminals 0).line.isSome=true)
    (by decide +kernel)
  simp only [decide_eq_true_eq] at hq
  have hn := (hall sampleMachine s hr 0 (by rw [hq.2.1]; simp)).1
  rw [hn] at hq
  cases hq.2.2

end Yalnix.TerminalReaders
