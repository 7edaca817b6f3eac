import Yalnix.BlockingReasons
import Yalnix.ProcessIsolation

/-!
# Calls that wait and calls that go on

A blocked process is stopped in the very call that its reason belongs to, with
the number of the object or terminal in whose queue it is. A process that is no
longer blocked finds what it waited for, so that its call ends as soon as it
goes on. Only PipeRead and CvarWait may find that somebody else was faster.
-/

namespace Yalnix.WokenCalls

open Framework FrameTable KernelState Scheduling Ipc Terminals ProcessLifetime ProgramLoading
open Syscalls Traps KernelStart Coherence Operations OperationCoherence StepOperations
open CallOperations RunInvariants Traces BlockingReasons KernelEntries ProcessIsolation

variable {M : Machine} {env : Env} {s t : Kernel} {p q c : PcbPtr} {r r₀ : Reason} {i : ℕ}
  {allow : Label → Prop} {live : PcbPtr → Bool} {saved : PcbPtr → KernelContext}
  {k : KernelContext} {waits waits' : PcbPtr → Reason → Prop} {delayUntil delayUntil' : PcbPtr → ℕ}
  {waiting waiting' : PcbPtr → Bool} {queue queue' : QueueAddr → List PcbPtr}
  {terminals terminals' : ℕ → TtyState} {a : QueueAddr} {w : PcbPtr} {rest : List PcbPtr}

section Reasons

/-- The reason belongs to the call. -/
def Fits : Reason → KernelPoint → Prop
  | .delay,.delay => True
  | .child,.wait _ => True
  | .queue (.readers i),.pipeRead id _ _ _ => id.toNat=i
  | .queue (.lockWaiters i),.acquire id _ => id.toNat=i
  | .queue (.cvarWaiters i),.cvarWait id _ _ _ => id.toNat=i
  | .queue (.readQueue i),.ttyRead j => j=i
  | .queue (.writeQueue i),.ttyWrite j _ => j=i
  | .writer i,.ttyWrite j _ => j=i
  | _,_ => False

/-- All reasons belong to the calls of their processes. -/
def FitsOk (live : PcbPtr → Bool) (saved : PcbPtr → KernelContext)
    (waits : PcbPtr → Reason → Prop) : Prop :=
  ∀ p r,live p=true → waits p r → Fits r (saved p).point

/-- A queued writer becomes the writer in the same call. -/
theorem queued_writer {n : KernelPoint} (h : Fits (.queue (.writeQueue i)) n) :
    Fits (.writer i) n := by
  cases n with
  | ttyWrite j len => exact h
  | _ => exact h.elim

/-- Fewer reasons belong to the calls as well. -/
theorem FitsOk.fewer (h : FitsOk live saved waits)
    (hw : ∀ p r,live p=true → waits' p r → waits p r) : FitsOk live saved waits' :=
  fun p r hl hr => h p r hl (hw p r hl hr)

/-- A process without reasons saves another stack. -/
theorem FitsOk.setSaved (h : FitsOk live saved waits) (hn : ∀ r,¬waits q r) :
    FitsOk live (Function.update saved q k) waits := by
  intro p r hl hr
  by_cases hp : p=q
  · rw [hp] at hr
    exact absurd hr (hn r)
  · rw [Function.update_of_ne hp]
    exact h p r hl hr

/-- A process stops in a call that its new reason belongs to. -/
theorem FitsOk.stop (h : FitsOk live saved waits) (hn : ∀ r,¬waits q r)
    (hk : Fits d k.point) (hw : ∀ p r,live p=true → waits' p r → waits p r ∨ (p=q ∧ r=d)) :
    FitsOk live (Function.update saved q k) waits' := by
  intro p r hl hr
  rcases hw p r hl hr with hold|⟨rfl,rfl⟩
  · exact (h.setSaved hn) p r hl hold
  · rw [Function.update_self]
    exact hk

/-- A process without reasons comes into being. -/
theorem FitsOk.birth (h : FitsOk live saved waits) (hn : ∀ r,¬waits' c r)
    (hw : ∀ p r,p≠c → waits' p r → waits p r) :
    FitsOk (Function.update live c true) (Function.update saved c k) waits' := by
  intro p r hl hr
  by_cases hp : p=c
  · rw [hp] at hr
    exact absurd hr (hn r)
  · rw [Function.update_of_ne hp] at hl ⊢
    exact h p r hl (hw p r hp hr)

/-- A process that is destroyed has no reason to wait. -/
theorem FitsOk.death (h : FitsOk live saved waits) :
    FitsOk (Function.update live c false) saved waits := by
  intro p r hl hr
  by_cases hp : p=c
  · rw [hp,Function.update_self] at hl
    cases hl
  · rw [Function.update_of_ne hp] at hl
    exact h p r hl hr

/-- No field gives a process a new reason. -/
theorem waits_less (hd : delayUntil' p≠0 → delayUntil p≠0) (hw : waiting' p=true → waiting p=true)
    (hq : ∀ a,p∈queue' a → p∈queue a) (ht : ∀ i,(terminals' i).writer=p → (terminals i).writer=p)
    (h : Waits delayUntil' waiting' queue' terminals' p r) :
    Waits delayUntil waiting queue terminals p r := by
  cases r with
  | delay => exact hd h
  | child => exact hw h
  | queue a => exact hq a h
  | writer i => exact ht i h

/-- A process with a deadline has had one before another was cleared. -/
theorem cleared_delay (h : Function.update delayUntil q 0 p≠0) : delayUntil p≠0 := by
  by_cases hp : p=q
  · rw [hp,Function.update_self] at h
    exact absurd rfl h
  · rwa [Function.update_of_ne hp] at h

/-- A process with a flag has had one before another was cleared. -/
theorem cleared_flag (h : Function.update waiting q false p=true) : waiting p=true := by
  by_cases hp : p=q
  · rw [hp,Function.update_self] at h
    cases h
  · rwa [Function.update_of_ne hp] at h

/-- A queue that gets shorter has no new member. -/
theorem shorter_queue (hr : rest⊆queue a) (b : QueueAddr)
    (h : p∈Function.update queue a rest b) : p∈queue b := by
  by_cases hb : b=a
  · rw [hb,Function.update_self] at h
    rw [hb]
    exact hr h
  · rwa [Function.update_of_ne hb] at h

/-- The first process of a queue leaves it. -/
theorem waits_popped (hq : queue a=w::rest)
    (h : Waits delayUntil waiting (Function.update queue a rest) terminals p r) :
    Waits delayUntil waiting queue terminals p r := by
  refine waits_less id id (fun b => shorter_queue (fun x hx => ?_) b) (fun _ => id) h
  rw [hq]
  exact List.mem_cons_of_mem w hx

/-- A process joins a queue. -/
theorem waits_joined (h : Waits delayUntil waiting (Function.update queue a (queue a++[q]))
    terminals p r) : Waits delayUntil waiting queue terminals p r ∨ (p=q ∧ r=.queue a) := by
  cases r with
  | queue b =>
    change p∈Function.update queue a (queue a++[q]) b at h
    by_cases hb : b=a
    · rw [hb,Function.update_self] at h
      rcases List.mem_append.1 h with hm|hm
      · rw [hb]
        exact .inl hm
      · exact .inr ⟨List.mem_singleton.1 hm,by rw [hb]⟩
    · rw [Function.update_of_ne hb] at h
      exact .inl h
  | _ => exact .inl h

/-- A terminal gets a writer. -/
theorem waits_writer {v : TtyState}
    (h : Waits delayUntil waiting queue (Function.update terminals i v) p r) :
    Waits delayUntil waiting queue terminals p r ∨ (p=v.writer ∧ r=.writer i) := by
  cases r with
  | writer j =>
    change (Function.update terminals i v j).writer=p at h
    by_cases hj : j=i
    · rw [hj,Function.update_self] at h
      exact .inr ⟨h.symm,by rw [hj]⟩
    · rw [Function.update_of_ne hj] at h
      exact .inl h
  | _ => exact .inl h

/-- A transmission gives nobody a reason. -/
theorem waits_transmit (h : BlockedBy (ttyTransmit M i s) p r) : BlockedBy s p r := by
  have hw : ∀ j,(s.terminals j).writer=((ttyTransmit M i s).terminals j).writer :=
    fun j => (setTerminal_writer (v := {s.terminals i with busy := true}) rfl j).symm
  exact waits_terminals hw h

/-- The reasons of a state. -/
abbrev Fitting (s : Kernel) : Prop := FitsOk s.live s.kernelContext (BlockedBy s)

/-- A process that has just been created has no reasons. -/
theorem created_waits (hc : Coherent M s) (hl : s.live c=false) (h0 : c≠0) (r : Reason) :
    ¬Waits (Function.update s.delayUntil c 0) (Function.update s.waitingForChild c false) s.queue
      s.terminals c r := by
  intro hr
  cases r with
  | delay => exact hr (Function.update_self ..)
  | child =>
    rw [Waits,Function.update_self] at hr
    cases hr
  | queue a => exact dead_unqueued hc hl a hr
  | writer i =>
    have hw := hc.block.writer_live i (by rw [show (s.terminals i).writer=c from hr]; exact h0)
    rw [show (s.terminals i).writer=c from hr,hl] at hw
    cases hw

/-- The other processes keep theirs. -/
theorem created_others (hp : p≠c)
    (hr : Waits (Function.update s.delayUntil c 0) (Function.update s.waitingForChild c false)
      s.queue s.terminals p r) : BlockedBy s p r := by
  cases r with
  | delay => rwa [Waits,Function.update_of_ne hp] at hr
  | child => rwa [Waits,Function.update_of_ne hp] at hr
  | _ => exact hr

/-- The rest of a queue waits for what it has waited for. -/
theorem Fitting.pop (h : Fitting s) (hq : s.queue a=w::rest) :
    FitsOk s.live s.kernelContext (Waits s.delayUntil s.waitingForChild
      (Function.update s.queue a rest) s.terminals) :=
  h.fewer (fun _ _ _ hr => waits_popped hq hr)

/-- Nobody waits in the queue of a new object. -/
theorem Fitting.opened (h : Fitting s) :
    FitsOk s.live s.kernelContext (Waits s.delayUntil s.waitingForChild
      (Function.update s.queue a []) s.terminals) :=
  h.fewer (fun _ _ _ hr => waits_less id id
    (fun b hm => shorter_queue (List.nil_subset _) b hm) (fun _ => id) hr)

/-- A process that blocks has no other reason to wait. -/
theorem no_reason_current (hc : Coherent M s) (hb : s.state s.currentProcess≠.blocked)
    (r : Reason) :
    ¬BlockedBy s s.currentProcess r :=
  no_reason hc hc.ready.current_live hb r

/-- The current process joins the queue that belongs to its call. -/
theorem Fitting.join (h : Fitting s) (hc : Coherent M s) (hb : MayBlock s)
    (hk : Fits (.queue a) k.point) :
    FitsOk s.live (Function.update s.kernelContext s.currentProcess k) (Waits s.delayUntil
      s.waitingForChild (Function.update s.queue a (s.queue a++[s.currentProcess]))
      s.terminals) :=
  h.stop (no_reason_current hc hb.toRunnable.not_blocked) hk (fun _ _ _ hr => waits_joined hr)

/-- The terminals change and keep their writers. -/
theorem Fitting.setTerminals (h : Fitting s)
    (ht : ∀ j,(terminals j).writer=(s.terminals j).writer) :
    FitsOk s.live s.kernelContext (Waits s.delayUntil s.waitingForChild s.queue terminals) :=
  h.fewer (fun _ _ _ hr => waits_terminals (fun j => (ht j).symm) hr)

/-- The current process stops in Delay and waits for its deadline. -/
theorem Fitting.blockDelay {u : UserContext} {d : ℕ} (h : Fitting s) (hc : Coherent M s)
    (hb : MayBlock s) (hk : k.point=.delay) : Fitting (blockForDelay d k u s) := by
  refine h.stop (d := .delay) (no_reason_current hc hb.toRunnable.not_blocked)
    (by rw [hk]; trivial) ?_
  intro p r _ hr
  by_cases hp : p=s.currentProcess
  · cases r with
    | delay => exact .inr ⟨hp,rfl⟩
    | _ => exact .inl hr
  · refine .inl ?_
    cases r with
    | delay => exact (Function.update_of_ne hp ..).subst (motive := fun d => d≠0) hr
    | _ => exact hr

/-- The current process stops in Wait and waits for a child. -/
theorem Fitting.blockChild {statusPtr : ℕ} {u : UserContext} (h : Fitting s) (hc : Coherent M s)
    (hb : MayBlock s) (hk : k.point=.wait statusPtr) : Fitting (blockForChild k u s) := by
  refine h.stop (d := .child) (no_reason_current hc hb.toRunnable.not_blocked)
    (by rw [hk]; trivial) ?_
  intro p r _ hr
  by_cases hp : p=s.currentProcess
  · cases r with
    | child => exact .inr ⟨hp,rfl⟩
    | _ => exact .inl hr
  · refine .inl ?_
    cases r with
    | child => exact (Function.update_of_ne hp ..).subst (motive := fun d => d=true) hr
    | _ => exact hr

/-- A writer whose last chunk has completed waits no longer. -/
theorem Fitting.release {u : UserContext} (h : Fitting s) (hc : Coherent M s) :
    Fitting (releaseWriter i u s) := by
  intro p r hl hr
  rcases waits_writer hr with hold|⟨hp,_⟩
  · exact h p r hl hold
  · exact absurd hp (hc.ready.ne_null hl)

/-- The first queued writer becomes the writer, which its call waits for as well. -/
theorem Fitting.transmitNext {u : UserContext} (h : Fitting s) (hc : Coherent M s)
    (hq : s.queue (.writeQueue i)=w::rest) :
    Fitting (ttyTransmit M i (nextWriter i w rest (releaseWriter i u s))) := by
  intro p r hl hr
  rcases waits_writer (waits_transmit hr) with hold|⟨rfl,rfl⟩
  · rcases waits_writer hold with hold|⟨hp,_⟩
    · exact h p r hl (waits_popped hq hold)
    · exact absurd hp (hc.ready.ne_null hl)
  · have hmem : BlockedBy s p (.queue (.writeQueue i)) := by
      change p∈s.queue (.writeQueue i)
      rw [hq]
      exact List.mem_cons_self
    exact queued_writer (h p _ hl hmem)

/-- Every operation leaves the reasons with their calls. -/
theorem op_fitting {b : Bool} (hc : Coherent M s) (h : Fitting s) (hop : Op M allow b s t) :
    Fitting t := by
  cases hop with
  | begin hr => exact h.setSaved (no_reason_current hc hr.not_blocked)
  | preempt ha => exact h.setSaved (no_reason_current hc ha.toRunnable.not_blocked)
  | writeDone i len hr => exact h.setSaved (no_reason_current hc hr.not_blocked)
  | lockResume id l hr => exact h.setSaved (no_reason_current hc hr.not_blocked)
  | clearWaiting ha =>
    exact h.fewer (fun _ _ _ hr => waits_less id cleared_flag (fun _ => id) (fun _ => id) hr)
  | sleepOver p =>
    exact h.fewer (fun _ _ _ hr => waits_less cleared_delay id (fun _ => id) (fun _ => id) hr)
  | dispatch env hs =>
    have he := dispatchNext_eq hc hs
    rw [he]
    exact h
  | forkUndone env c pfns pt m₁ m u ha hcp =>
    obtain ⟨h0,hl⟩ := callocPcb_fresh hcp
    rw [destroyed_child hc h0 hl]
    exact FitsOk.death (h.birth (created_waits hc hl h0) (fun _ _ hp hr => created_others hp hr))
  | spawn env caller c pfns pt m₁ m u hb hcp =>
    obtain ⟨h0,hl⟩ := callocPcb_fresh hcp
    rw [spawn_eq]
    exact h.birth (created_waits hc hl h0) (fun _ _ hp hr => created_others hp hr)
  | handOff i l w rest u ha ho how hq => exact h.pop hq
  | zombie status k env m v hk hb =>
    exact h.setSaved (no_reason_current hc hb.toRunnable.not_blocked)
  | zombieWake status k env m v hk hb =>
    exact (h.setSaved (no_reason_current hc hb.toRunnable.not_blocked)).fewer
      (fun _ _ _ hr => waits_less id cleared_flag (fun _ => id) (fun _ => id) hr)
  | collect statusPtr c ha hch hz =>
    rw [collectChild_eq hc ha statusPtr hch hz]
    exact h.death
  | blockDelay ticks k u hk hb => exact h.blockDelay hc hb hk
  | blockChild statusPtr k u hk hb => exact h.blockChild hc hb hk
  | blockPipe id buf len pipe k u hk hb => exact h.join hc hb (by rw [hk]; rfl)
  | blockLock id l k u hk hb => exact h.join hc hb (by rw [hk]; rfl)
  | blockCvar id lockId cvar g k u hk hb => exact h.join hc hb (by rw [hk]; rfl)
  | blockRead i k u hk hb => exact h.join hc hb (by rw [hk]; rfl)
  | startWrite env i buf len k u hk hb =>
    refine h.stop (d := .writer i) (no_reason_current hc hb.toRunnable.not_blocked)
      (by rw [hk]; rfl) ?_
    intro p r _ hr
    exact waits_writer (waits_transmit hr)
  | queueWrite env i buf len k u hk hb => exact h.join hc hb (by rw [hk]; rfl)
  | wake a w rest u hn hq => exact h.pop hq
  | openPipe => exact h.opened
  | openLock => exact h.opened
  | openCvar => exact h.opened
  | takeHanded i line hk hl =>
    have hb : s.state s.currentProcess≠.blocked :=
      (hc.reader.handed _ line hc.ready.current_live hl).2.1
    exact (h.setSaved (no_reason_current hc hb)).fewer
      (fun _ _ _ hr => waits_terminals (fun j => (takeBytes_writer rfl j).symm) hr)
  | takeLine i line v ha hn => exact h.setTerminals (takeBytes_writer (ttyNextLine_writer hn).1)
  | deliver i line w rest hl hq => exact h.pop hq
  | enqueue i line => exact h.setTerminals (setTerminal_writer rfl)
  | transmitSpurious i => exact h.setTerminals (setTerminal_writer rfl)
  | transmitMore i =>
    have hdone : Fitting (transmitDone i s) := h.setTerminals (setTerminal_writer rfl)
    exact hdone.fewer (fun _ _ _ hr => waits_transmit hr)
  | transmitLast i u => exact h.release hc
  | transmitNext i u w rest hwr hf hq => exact h.transmitNext hc hq
  | _ => exact h

/-- Behind the boot nobody waits. -/
theorem booted_fitting {b : Boot M} {p q : PcbPtr} {pfn : ℕ} {pfns : ℕ → ℕ} {m₁ m₂ m : Memory}
    {v : UserSpace} {u : UserContext} (hf : BootFacts M b p q pfn pfns m₁ m₂ m v) :
    Fitting (bootedKernel M b p q pfn pfns m₁ m₂ m v u) := by
  intro x r hx hr
  have hrun : (bootedKernel M b p q pfn pfns m₁ m₂ m v u).state x=.running :=
    booted_running (booted_live.1 hx)
  exact absurd hr (no_reason (booted_settled hf).toCoherent hx (by rw [hrun]; decide) r)

/-- In every reachable state every reason of a process belongs to the call in
which it is stopped, with the number of the object or terminal. -/
theorem reachable_fits (h : Reachable M s) (hl : s.live p=true) (hr : BlockedBy s p r) :
    Fits r (s.kernelContext p).point := by
  obtain ⟨_,hfit⟩ := reachable_invariant (P := Fitting)
    (fun _ _ _ _ _ _ _ _ _ _ hf => booted_fitting hf)
    (fun _ _ _ hc hp hop => op_fitting hc hp hop) h
  exact hfit p r hl hr

/-- A process that waits for a child is stopped in Wait. -/
theorem reachable_fits_wait : ∃ s,Reachable sampleMachine s ∧ BlockedBy s 2 .child ∧
    Fits .child (s.kernelContext 2).point := by
  obtain ⟨s,hr,hq⟩ := replay_reachable sampleBoot_user [forkInput 3 2,callInput 4 0 0 0]
    (fun s => s.live 2=true ∧ s.waitingForChild 2=true) (by decide +kernel)
  simp only [decide_eq_true_eq] at hq
  have hwait : BlockedBy s 2 .child := hq.2
  exact ⟨s,hr,hwait,reachable_fits hr hq.1 hwait⟩

end Reasons

section Finding

/-- What a process that is not blocked finds at the place where it goes on: an
ended child behind Wait, and a line handed to it behind TtyRead. -/
def Finds (s : Kernel) (p : PcbPtr) : KernelPoint → Prop
  | .wait _ => ∃ c∈s.children p,s.state c=.zombie
  | .ttyRead _ => ∃ line,(s.tty p).readLine=some line
  | _ => True

/-- Points at which nothing needs to be found. -/
def Plain : KernelPoint → Prop
  | .wait _ => False
  | .ttyRead _ => False
  | _ => True

/-- Every process that is not blocked finds what it has waited for, and no
child has the identifier that stands for an error. -/
structure WokenOk (s : Kernel) : Prop where
  /-- Every process that is not blocked finds what its call needs. -/
  finds : ∀ p,s.live p=true → s.state p≠.blocked → Finds s p (s.kernelContext p).point
  /-- The identifiers of the children. -/
  pids : ∀ p c,s.live p=true → c∈s.children p → s.pid c≠ERROR

/-- What is found stays where no ended child and no line is lost. -/
theorem Finds.mono {n : KernelPoint} (h : Finds s p n)
    (hc : ∀ c∈s.children p,s.state c=.zombie → c∈t.children p ∧ t.state c=.zombie)
    (hr : (t.tty p).readLine=(s.tty p).readLine) : Finds t p n := by
  cases n with
  | wait a =>
    obtain ⟨c,hm,hz⟩ := h
    exact ⟨c,hc c hm hz⟩
  | ttyRead i =>
    obtain ⟨line,hl⟩ := h
    exact ⟨line,hr.trans hl⟩
  | _ => trivial

/-- At a plain point there is nothing to find. -/
theorem Plain.finds {n : KernelPoint} (h : Plain n) (s : Kernel) (p : PcbPtr) : Finds s p n := by
  cases n with
  | wait a => exact h.elim
  | ttyRead i => exact h.elim
  | _ => trivial

/-- Only the process w is affected, and it finds what it needs. -/
theorem WokenOk.change (h : WokenOk s) (w : PcbPtr)
    (hw : t.live w=true → t.state w≠.blocked → Finds t w (t.kernelContext w).point)
    (ho : ∀ p,p≠w → t.live p=true → t.state p≠.blocked → s.live p=true ∧ s.state p≠.blocked ∧
      t.kernelContext p=s.kernelContext p ∧ (t.tty p).readLine=(s.tty p).readLine)
    (hz : ∀ p c,p≠w → t.live p=true → c∈s.children p → s.state c=.zombie →
      c∈t.children p ∧ t.state c=.zombie)
    (hp : ∀ p c,t.live p=true → c∈t.children p → t.pid c≠ERROR) : WokenOk t := by
  refine ⟨fun p hl hb => ?_,hp⟩
  by_cases hpw : p=w
  · rw [hpw] at hl hb ⊢
    exact hw hl hb
  · obtain ⟨hls,hbs,hk,hr⟩ := ho p hpw hl hb
    rw [hk]
    exact (h.finds p hls hbs).mono (fun c => hz p c hpw hl) hr

/-- A process that is not a zombie is made ready and finds what it needs. -/
theorem WokenOk.wake (h : WokenOk s) (hz : s.state w≠.zombie)
    (hf : s.live w=true → Finds s w (s.kernelContext w).point) : WokenOk (markReady s w) := by
  have hstate : ∀ c,s.state c=.zombie → (markReady s w).state c=.zombie := by
    intro c hc
    have hne : c≠w := by
      rintro rfl
      exact hz hc
    exact (Function.update_of_ne hne ..).trans hc
  refine h.change w (fun hl _ => (hf hl).mono (fun c hm hc => ⟨hm,hstate c hc⟩) rfl)
    (fun p hp hl hb => ⟨hl,?_,rfl,rfl⟩) (fun p c _ _ hm hc => ⟨hm,hstate c hc⟩) h.pids
  dsimp only [markReady] at hb
  rwa [Function.update_of_ne hp] at hb

/-- The current process saves or takes up a stack that looks for nothing. -/
theorem WokenOk.setSaved (h : WokenOk s) (hk : Plain k.point) :
    WokenOk (s.setKernelContext p k) := by
  refine h.change p (fun _ _ => ?_) (fun x hx hl hb => ⟨hl,hb,Function.update_of_ne hx ..,rfl⟩)
    (fun _ _ _ _ hm hc => ⟨hm,hc⟩) h.pids
  dsimp only [Kernel.setKernelContext]
  rw [Function.update_self]
  exact hk.finds _ _

/-- The current process stops, blocked or for ever. -/
theorem WokenOk.stop (h : WokenOk s) {a : ProcState} (hb : a=.blocked ∨ a=.zombie ∧ Plain k.point)
    (hz : s.state s.currentProcess≠.zombie) :
    WokenOk {s with
      state := Function.update s.state s.currentProcess a
      kernelContext := Function.update s.kernelContext s.currentProcess k} := by
  have hstate : ∀ c,s.state c=.zombie →
      Function.update s.state s.currentProcess a c=.zombie := by
    intro c hc
    have hne : c≠s.currentProcess := by
      rintro rfl
      exact hz hc
    exact (Function.update_of_ne hne ..).trans hc
  refine h.change s.currentProcess (fun hl hbl => ?_) (fun p hp hl hbl => ⟨hl,?_,?_,rfl⟩)
    (fun p c _ _ hm hc => ⟨hm,hstate c hc⟩) h.pids
  · dsimp only at hbl ⊢
    rw [Function.update_self] at hbl ⊢
    rcases hb with hb|⟨_,hk⟩
    · exact absurd hb hbl
    · exact hk.finds _ _
  · dsimp only at hbl
    rwa [Function.update_of_ne hp] at hbl
  · exact Function.update_of_ne hp ..

/-- The terminal request of the current process changes and keeps the line. -/
theorem WokenOk.setTty (h : WokenOk s) {v : TtyRequest} (hv : v.readLine=(s.tty p).readLine) :
    WokenOk (s.setTty p v) := by
  have hr : ∀ x,((s.setTty p v).tty x).readLine=(s.tty x).readLine := by
    intro x
    dsimp only [Kernel.setTty]
    by_cases hx : x=p
    · rw [hx,Function.update_self]
      exact hv
    · rw [Function.update_of_ne hx]
  exact ⟨fun x hl hb => (h.finds x hl hb).mono (fun _ hm hc => ⟨hm,hc⟩) (hr x),h.pids⟩

/-- A process that takes a line looks for nothing. -/
theorem WokenOk.clearTty (h : WokenOk s) {v : TtyRequest} (hk : Plain (s.kernelContext p).point) :
    WokenOk (s.setTty p v) := by
  refine h.change p (fun _ _ => hk.finds _ _) (fun x hx hl hb => ⟨hl,hb,rfl,?_⟩)
    (fun _ _ _ _ hm hc => ⟨hm,hc⟩) h.pids
  dsimp only [Kernel.setTty]
  rw [Function.update_of_ne hx]

/-- What a call finds on which nothing else is needed. -/
theorem fits_plain (hf : Fits r k.point) (hc : r≠.child) (hr : ∀ i,r≠.queue (.readQueue i)) :
    Plain k.point := by
  cases r with
  | child => exact absurd rfl hc
  | queue a =>
    cases a with
    | readQueue i => exact absurd rfl (hr i)
    | _ => cases hn : k.point <;> rw [hn] at hf <;> first | exact hf.elim | trivial
  | _ => cases hn : k.point <;> rw [hn] at hf <;> first | exact hf.elim | trivial

/-- The first process of a queue that is not one of readers is woken. -/
theorem woken_queue (hc : Coherent M s) (hfit : Fitting s) (hq : s.queue a=w::rest)
    (ha : ∀ i,a≠.readQueue i) : s.state w≠.zombie ∧ Plain (s.kernelContext w).point := by
  have hm : w∈s.queue a := by
    rw [hq]
    exact List.mem_cons_self
  have hl := hc.block.queue_live a w hm
  have hb : s.state w=.blocked := hc.block.reasons.blocked w (.queue a) hl hm
  have hwait : BlockedBy s w (.queue a) := hm
  refine ⟨by rw [hb]; decide,fits_plain (hfit w _ hl hwait) (by simp) (fun i he => ?_)⟩
  injection he with he
  exact ha i he

/-- The writer of a terminal is woken. -/
theorem woken_writer (hc : Coherent M s) (hfit : Fitting s) (hw : (s.terminals i).writer≠0) :
    s.state (s.terminals i).writer≠.zombie ∧
      Plain (s.kernelContext (s.terminals i).writer).point := by
  have hl := hc.block.writer_live i hw
  have hwait : BlockedBy s (s.terminals i).writer (.writer i) := rfl
  have hb : s.state (s.terminals i).writer=.blocked := hc.block.reasons.blocked _ _ hl hwait
  exact ⟨by rw [hb]; decide,fits_plain (hfit _ _ hl hwait) (by simp) (by simp)⟩

/-- A transmission keeps the lines of all processes. -/
theorem WokenOk.transmit (h : WokenOk s) : WokenOk (ttyTransmit M i s) := by
  have hv : WokenOk (s.setTty (s.terminals i).writer {s.tty (s.terminals i).writer with
      writeOffset := (s.tty (s.terminals i).writer).writeOffset+
        chunkLen M (s.tty (s.terminals i).writer)}) := h.setTty rfl
  exact ⟨hv.finds,hv.pids⟩

/-- A child is created whose stack looks for nothing. -/
theorem WokenOk.birth {n : ℤ} {t : Kernel} (pfns : ℕ → ℕ) (pt : PageTable) (m : Memory)
    (h : WokenOk s) (hc : Coherent M s) (hl : s.live c=false) (hn : n≠ERROR)
    (hk : Plain (t.kernelContext c).point)
    (ho : ∀ p,p≠c → t.kernelContext p=s.kernelContext p)
    (hlive : t.live=Function.update s.live c true)
    (hst : t.state=(enterChild M s.currentProcess c n pfns pt m s).state)
    (hch : t.children=(enterChild M s.currentProcess c n pfns pt m s).children)
    (hpid : t.pid=(enterChild M s.currentProcess c n pfns pt m s).pid)
    (htty : t.tty=(enterChild M s.currentProcess c n pfns pt m s).tty) : WokenOk t := by
  have hcur := dead_ne_current hc hl
  have hmem : ∀ {p x},s.live p=true → x∈s.children p → x≠c := by
    rintro p x hp hx rfl
    obtain ⟨hxl,_⟩ := hc.family.child_parent p x hp hx
    rw [hl] at hxl
    cases hxl
  have hkids : ∀ p,p≠c → ∀ x,x∈t.children p ↔ x∈s.children p ∨ (p=s.currentProcess ∧ x=c) := by
    intro p hp x
    rw [hch]
    dsimp only [enterChild]
    by_cases hpc : p=s.currentProcess
    · rw [hpc,Function.update_self,List.mem_append,List.mem_singleton]
      simp
    · rw [Function.update_of_ne hpc,Function.update_of_ne hp]
      simp [hpc]
  have hnone : t.children c=[] := by
    rw [hch]
    dsimp only [enterChild]
    rw [Function.update_of_ne hcur,Function.update_self]
  refine h.change c (fun _ _ => hk.finds _ _) (fun p hp hlp hb => ?_) (fun p x hp hlp hx hz => ?_)
    (fun p x hlp hx => ?_)
  · rw [hlive,Function.update_of_ne hp] at hlp
    rw [hst] at hb
    dsimp only [enterChild] at hb
    rw [Function.update_of_ne hp] at hb
    refine ⟨hlp,hb,ho p hp,?_⟩
    rw [htty]
    dsimp only [enterChild]
    rw [Function.update_of_ne hp]
  · rw [hlive,Function.update_of_ne hp] at hlp
    refine ⟨(hkids p hp x).2 (.inl hx),?_⟩
    rw [hst]
    dsimp only [enterChild]
    rw [Function.update_of_ne (hmem hlp hx)]
    exact hz
  · by_cases hp : p=c
    · rw [hp,hnone] at hx
      cases hx
    · rw [hlive,Function.update_of_ne hp] at hlp
      rw [hpid]
      dsimp only [enterChild]
      rcases (hkids p hp x).1 hx with hold|⟨_,rfl⟩
      · rw [Function.update_of_ne (hmem hlp hold)]
        exact h.pids p x hlp hold
      · rw [Function.update_self]
        exact hn

/-- The next process is neither blocked nor ended, and nobody else is affected by
the dispatch. -/
theorem WokenOk.dispatch (h : WokenOk s) (hc : Coherent M s) (hs : env.switchOk=true) :
    WokenOk (dispatchNext M env s) := by
  have he := dispatchNext_eq hc hs
  rw [he]
  have hnext : s.state (nextProcess s)≠.zombie ∧ s.state (nextProcess s)≠.blocked := by
    rcases nextProcess_cases hc with ⟨_,hn⟩|⟨rest,hq⟩
    · rw [hn,hc.ready.idle_running]
      decide
    · rw [(hc.ready.mem (nextProcess s) (by rw [hq]; exact List.mem_cons_self)).2.2]
      decide
  have hstate : ∀ c,s.state c=.zombie → (if nextProcess s=s.currentProcess then s.state
      else Function.update s.state (nextProcess s) .running) c=.zombie := by
    intro c hz
    have hne : c≠nextProcess s := by
      rintro rfl
      exact hnext.1 hz
    split
    · exact hz
    · rwa [Function.update_of_ne hne]
  refine h.change (nextProcess s) (fun hl _ => (h.finds _ hl hnext.2).mono
      (fun c hm hz => ⟨hm,hstate c hz⟩) rfl) (fun p hp hl hb => ⟨hl,?_,rfl,rfl⟩)
    (fun p c _ _ hm hz => ⟨hm,hstate c hz⟩) h.pids
  dsimp only at hb
  split at hb
  · exact hb
  · rwa [Function.update_of_ne hp] at hb

/-- A child that is destroyed before it has run leaves everything as it was. -/
theorem WokenOk.forkUndone {n : ℤ} {pfns : ℕ → ℕ} {pt : PageTable} {m : Memory} {u : UserContext}
    (h : WokenOk s) (hc : Coherent M s) (hcp : callocPcb env s=some c) :
    WokenOk (processDestroy M c
      ((enterChild M s.currentProcess c n pfns pt m s).setUserContext c u)) := by
  have hcl := hc.ready.current_live
  obtain ⟨h0,hl⟩ := callocPcb_fresh hcp
  have hcur := dead_ne_current hc hl
  have hmem : ∀ {p x},s.live p=true → x∈s.children p → x≠c := by
    rintro p x hp hx rfl
    obtain ⟨hxl,_⟩ := hc.family.child_parent p x hp hx
    rw [hl] at hxl
    cases hxl
  have hnot : c∉s.children s.currentProcess := fun hm => hmem hcl hm rfl
  rw [destroyed_child hc h0 hl]
  dsimp only [releaseProcess,Kernel.setUserContext,enterChild]
  have hkids : ∀ p,p≠c → Function.update (Function.update (Function.update s.children c [])
      s.currentProcess (s.children s.currentProcess++[c])) s.currentProcess
      ((Function.update (Function.update s.children c []) s.currentProcess
        (s.children s.currentProcess++[c]) s.currentProcess).erase c) p=s.children p := by
    intro p hp
    by_cases hpc : p=s.currentProcess
    · rw [hpc,Function.update_self,Function.update_self,List.erase_append_right _ hnot,
        List.erase_cons_head,List.append_nil]
    · rw [Function.update_of_ne hpc,Function.update_of_ne hpc,Function.update_of_ne hp]
  have hlive : ∀ {p},Function.update (Function.update s.live c true) c false p=true →
      p≠c ∧ s.live p=true := by
    intro p hp
    by_cases hpc : p=c
    · rw [hpc,Function.update_self] at hp
      cases hp
    · rw [Function.update_of_ne hpc,Function.update_of_ne hpc] at hp
      exact ⟨hpc,hp⟩
  refine h.change c (fun hl _ => absurd rfl (hlive hl).1) (fun p hp hl hb => ?_)
    (fun p x hp hl hm hz => ?_) (fun p x hl hm => ?_)
  · dsimp only at hb
    rw [Function.update_of_ne hp] at hb
    refine ⟨(hlive hl).2,hb,Function.update_of_ne hp ..,?_⟩
    dsimp only
    rw [Function.update_of_ne hp]
  · dsimp only
    rw [hkids p hp,Function.update_of_ne (hmem (hlive hl).2 hm)]
    exact ⟨hm,hz⟩
  · dsimp only at hm ⊢
    rw [hkids p (hlive hl).1] at hm
    rw [Function.update_of_ne (hmem (hlive hl).2 hm)]
    exact h.pids p x (hlive hl).2 hm

/-- A new child looks for nothing, and its identifier is not the one of an error. -/
theorem WokenOk.spawn {caller : PcbPtr} {n : ℤ} {pfns : ℕ → ℕ} {pt : PageTable} {m : Memory}
    {u : UserContext} (h : WokenOk s) (hc : Coherent M s) (hcp : callocPcb env s=some c)
    (hn : n≠ERROR) :
    WokenOk (markReady ((kcCopy M c ⟨caller,.fork c⟩
      ((enterChild M s.currentProcess c n pfns pt m s).setUserContext c u)).emit
        (.forked (s.birth s.currentProcess) s.stamp n)) c) := by
  obtain ⟨_,hl⟩ := callocPcb_fresh hcp
  rw [spawn_eq]
  refine .birth pfns pt m h hc hl hn ?_
    (fun p hp => Function.update_of_ne hp ..) rfl rfl rfl rfl rfl
  dsimp only
  rw [Function.update_self]
  trivial

/-- The running process looks for nothing when it orphans its first child. -/
theorem WokenOk.orphan (h : WokenOk s) (ha : Active s)
    (hch : s.children s.currentProcess=c::l) :
    WokenOk {s with
      children := Function.update s.children s.currentProcess l
      parent := Function.update s.parent c 0} := by
  refine h.change s.currentProcess (fun _ _ => ?_) (fun p hp hl hb => ⟨hl,hb,rfl,rfl⟩)
    (fun p x hp _ hm hz => ⟨?_,hz⟩) (fun p x hl hm => ?_)
  · dsimp only
    rw [ha.executing]
    trivial
  · dsimp only
    rwa [Function.update_of_ne hp]
  · dsimp only at hm
    by_cases hp : p=s.currentProcess
    · rw [hp,Function.update_self] at hm
      refine h.pids p x hl ?_
      rw [hp,hch]
      exact List.mem_cons_of_mem c hm
    · rw [Function.update_of_ne hp] at hm
      exact h.pids p x hl hm

/-- A child that is reported leaves the list of its parent, which runs. -/
theorem WokenOk.collect (h : WokenOk s) (hc : Coherent M s) (ha : Active s)
    (hch : c∈s.children s.currentProcess) (hz : s.state c=.zombie) (statusPtr : ℕ) :
    WokenOk (collectChild M statusPtr c s) := by
  rw [collectChild_eq hc ha statusPtr hch hz]
  have hkid : ∀ {p x},s.live p=true → x∈s.children p → p≠s.currentProcess → x≠c := by
    rintro p x hl hm hp rfl
    obtain ⟨_,h₁⟩ := hc.family.child_parent p x hl hm
    obtain ⟨_,h₂⟩ := hc.family.child_parent _ x hc.ready.current_live hch
    exact hp (h₁.symm.trans h₂)
  have hlive : ∀ {p},Function.update s.live c false p=true → s.live p=true := by
    intro p hl
    by_cases hp : p=c
    · rw [hp,Function.update_self] at hl
      cases hl
    · rwa [Function.update_of_ne hp] at hl
  refine h.change s.currentProcess (fun _ _ => ?_)
    (fun p hp hl hb => ⟨hlive hl,hb,rfl,rfl⟩) (fun p x hp _ hm hzx => ⟨?_,hzx⟩)
    (fun p x hl hm => ?_)
  · dsimp only [releaseProcess]
    rw [ha.executing]
    trivial
  · dsimp only [releaseProcess]
    rwa [Function.update_of_ne hp]
  · dsimp only [releaseProcess] at hm
    by_cases hp : p=s.currentProcess
    · rw [hp,Function.update_self] at hm
      exact h.pids p x (hlive hl) (hp ▸ List.mem_of_mem_erase hm)
    · rw [Function.update_of_ne hp] at hm
      exact h.pids p x (hlive hl) hm

/-- The parent that is woken by the end of its child finds this child. -/
theorem WokenOk.zombieWake (h : WokenOk s) (hc : Coherent M s) (hfit : Fitting s)
    (hk : k.point=.exited) (hb : MayBlock s) (hp : s.parent s.currentProcess≠0)
    (hw : s.waitingForChild (s.parent s.currentProcess)=true) :
    WokenOk (markReady {s with
      state := Function.update s.state s.currentProcess .zombie
      kernelContext := Function.update s.kernelContext s.currentProcess k}
      (s.parent s.currentProcess)) := by
  have hcl := hc.ready.current_live
  have hs := h.stop (k := k) (.inr ⟨rfl,by rw [hk]; trivial⟩) hb.toRunnable.not_zombie
  obtain ⟨hpl,hmem⟩ := hc.family.parent_child _ hcl hp
  have hne : s.parent s.currentProcess≠s.currentProcess := by
    intro he
    rw [he] at hmem
    exact hc.family.irrefl _ hcl hmem
  have hpb : s.state (s.parent s.currentProcess)=.blocked :=
    hc.block.reasons.blocked _ .child hpl hw
  have hfits := hfit _ .child hpl hw
  have hz : (Function.update s.state s.currentProcess .zombie) (s.parent s.currentProcess)≠
      .zombie := by
    rw [Function.update_of_ne hne,hpb]
    decide
  exact hs.wake (w := s.parent s.currentProcess) hz (fun _ => by
    dsimp only
    rw [Function.update_of_ne hne]
    cases hn : (s.kernelContext (s.parent s.currentProcess)).point with
    | wait a => exact ⟨s.currentProcess,hmem,Function.update_self ..⟩
    | ttyRead i =>
      rw [hn] at hfits
      exact hfits.elim
    | _ => trivial)

/-- The reader to which a line is handed finds this line. -/
theorem WokenOk.deliver (h : WokenOk s) (hc : Coherent M s) (hfit : Fitting s)
    (line : TtyLine) (hq : s.queue (.readQueue i)=w::rest) :
    WokenOk (markReady (s.setTty w {s.tty w with readLine := some line}) w) := by
  have hm : w∈s.queue (.readQueue i) := by
    rw [hq]
    exact List.mem_cons_self
  have hlw := hc.block.queue_live _ w hm
  have hb : s.state w=.blocked := hc.block.reasons.blocked w (.queue (.readQueue i)) hlw hm
  have hgiven : WokenOk (s.setTty w {s.tty w with readLine := some line}) := by
    refine h.change w (fun _ hn => absurd hb hn) (fun p hp hl hnb => ⟨hl,hnb,rfl,?_⟩)
      (fun _ _ _ _ hm hz => ⟨hm,hz⟩) h.pids
    dsimp only [Kernel.setTty]
    rw [Function.update_of_ne hp]
  have hfits := hfit w (.queue (.readQueue i)) hlw hm
  exact hgiven.wake (w := w) (by
    change s.state w≠.zombie
    rw [hb]
    decide) (fun _ => by
      dsimp only [Kernel.setTty]
      cases hn : (s.kernelContext w).point with
      | wait a =>
        rw [hn] at hfits
        exact hfits.elim
      | ttyRead j =>
        refine ⟨line,?_⟩
        dsimp only
        rw [Function.update_self]
      | _ => trivial)

/-- A process that blocks looks for nothing. -/
theorem WokenOk.block (h : WokenOk s) (hb : MayBlock s) : WokenOk {s with
    state := Function.update s.state s.currentProcess .blocked
    kernelContext := Function.update s.kernelContext s.currentProcess k} :=
  h.stop (.inl rfl) hb.toRunnable.not_zombie

/-- A writer blocks with its bytes copied, which are not what a reader looks for. -/
theorem WokenOk.prepare (h : WokenOk s) (hb : MayBlock s) (env : Env) (k : KernelContext)
    (i buf : ℕ) (len : ℤ) (u : UserContext) : WokenOk (prepareWrite env k i buf len u s) := by
  have hs := (h.block (k := k) hb).setTty (p := s.currentProcess)
    (v := {s.tty s.currentProcess with
      ttyId := i, writeBuf := fun j => env.mem (buf+j), writeLen := len.toNat
      writeOffset := 0}) rfl
  exact ⟨hs.finds,hs.pids⟩

/-- The line that a reader takes up after it has waited is what it has found. -/
theorem WokenOk.takeHanded {line : TtyLine} {tty : TtyState} (h : WokenOk s) :
    WokenOk (ttyTakeBytes i line tty
      (s.setKernelContext s.currentProcess ⟨s.currentProcess,.executing⟩)) := by
  have hs := (h.setSaved (p := s.currentProcess) (k := ⟨s.currentProcess,.executing⟩)
    trivial).clearTty (p := s.currentProcess) (v := {s.tty s.currentProcess with
      readLine := none}) (by
        dsimp only [Kernel.setKernelContext]
        rw [Function.update_self]
        trivial)
  exact ⟨hs.finds,hs.pids⟩

/-- Every operation keeps what processes find. -/
theorem op_wokenOk {b : Bool} (hc : Coherent M s) (hfit : Fitting s) (h : WokenOk s)
    (hop : Op M allow b s t) : WokenOk t := by
  cases hop with
  | begin hr hl hn => exact h.setSaved trivial
  | preempt ha => exact h.setSaved trivial
  | readRequest i buf len => exact h.setTty rfl
  | writeDone i len hr hk =>
    have hs := (h.setSaved (p := s.currentProcess) (k := ⟨s.currentProcess,.executing⟩)
      trivial).setTty (p := s.currentProcess) (v := {s.tty s.currentProcess with
        writeBuf := fun _ => 0, writeLen := 0, writeOffset := 0}) rfl
    exact ⟨hs.finds,hs.pids⟩
  | sleepOver p hl ho =>
    have hplain := fits_plain (hfit p .delay hl ho.2.2.1) (by simp) (by simp)
    have hw := h.wake (w := p) (by rw [ho.2.1]; decide) (fun _ => hplain.finds _ _)
    exact ⟨hw.finds,hw.pids⟩
  | requeue hi hst =>
    exact h.wake (by rw [hst]; decide) (fun hl => h.finds _ hl (by rw [hst]; decide))
  | dispatch env hs => exact h.dispatch hc hs
  | forkUndone env c pfns pt m₁ m u ha hcp => exact h.forkUndone hc hcp
  | spawn env caller c pfns pt m₁ m u hb hcp hk hn => exact h.spawn hc hcp hn
  | orphan c rest ha hch => exact h.orphan ha hch
  | handOff i l w rest u ha ho how hq =>
    obtain ⟨hz,hk⟩ := woken_queue hc hfit hq (by simp)
    have hw := h.wake hz (fun _ => hk.finds _ _)
    exact ⟨hw.finds,hw.pids⟩
  | zombie status k env m v hk hb =>
    have hs := h.stop (k := k) (.inr ⟨rfl,by rw [hk]; trivial⟩) hb.toRunnable.not_zombie
    exact ⟨hs.finds,hs.pids⟩
  | zombieWake status k env m v hk hb hch hl hp hw =>
    have hwake := h.zombieWake hc hfit hk hb hp hw
    exact ⟨hwake.finds,hwake.pids⟩
  | collect statusPtr c ha hch hz => exact h.collect hc ha hch hz statusPtr
  | blockDelay ticks k u hk hb =>
    have hs := h.block (k := k) hb
    exact ⟨hs.finds,hs.pids⟩
  | blockChild statusPtr k u hk hb =>
    have hs := h.block (k := k) hb
    exact ⟨hs.finds,hs.pids⟩
  | blockPipe id buf len pipe k u hk hb =>
    have hs := h.block (k := k) hb
    exact ⟨hs.finds,hs.pids⟩
  | blockLock id l k u hk hb =>
    have hs := h.block (k := k) hb
    exact ⟨hs.finds,hs.pids⟩
  | blockCvar id lockId cvar g k u hk hb =>
    have hs := h.block (k := k) hb
    exact ⟨hs.finds,hs.pids⟩
  | blockRead i k u hk hb =>
    have hs := h.block (k := k) hb
    exact ⟨hs.finds,hs.pids⟩
  | startWrite env i buf len k u hk hb =>
    have hp := h.prepare hb env k i buf len u
    have ht : WokenOk (becomeWriter i (prepareWrite env k i buf len u s)) := ⟨hp.finds,hp.pids⟩
    exact ht.transmit
  | queueWrite env i buf len k u hk hb =>
    have hp := h.prepare hb env k i buf len u
    exact ⟨hp.finds,hp.pids⟩
  | wake a w rest u hn hq =>
    have ha : ∀ i,a≠.readQueue i := by
      intro i he
      subst he
      rcases hn with ⟨j,hj⟩|⟨j,hj⟩ <;> cases hj
    obtain ⟨hz,hk⟩ := woken_queue hc hfit hq ha
    have hw := h.wake hz (fun _ => hk.finds _ _)
    exact ⟨hw.finds,hw.pids⟩
  | lockResume id l hr hk =>
    have hs := h.setSaved (p := s.currentProcess) (k := ⟨s.currentProcess,.executing⟩) trivial
    exact ⟨hs.finds,hs.pids⟩
  | takeHanded i line hk hl => exact h.takeHanded
  | takeLine i line v ha hn =>
    have hs := h.clearTty (p := s.currentProcess) (v := {s.tty s.currentProcess with
        readLine := none}) (by
          rw [ha.executing]
          trivial)
    exact ⟨hs.finds,hs.pids⟩
  | deliver i line w rest hl hq =>
    have hw := h.deliver hc hfit line hq
    exact ⟨hw.finds,hw.pids⟩
  | transmitMore i =>
    have hdone : WokenOk (transmitDone i s) := ⟨h.finds,h.pids⟩
    exact hdone.transmit
  | transmitLast i u hw =>
    obtain ⟨hz,hk⟩ := woken_writer hc hfit hw
    have hwake := h.wake hz (fun _ => hk.finds _ _)
    exact ⟨hwake.finds,hwake.pids⟩
  | transmitNext i u w rest hwr hf hq =>
    obtain ⟨hz,hk⟩ := woken_writer hc hfit hwr
    have hwake := h.wake hz (fun _ => hk.finds _ _)
    have hnext : WokenOk (nextWriter i w rest (releaseWriter i u s)) := ⟨hwake.finds,hwake.pids⟩
    exact hnext.transmit
  | _ => exact ⟨h.finds,h.pids⟩

/-- Behind the boot nobody looks for anything. -/
theorem booted_wokenOk {b : Boot M} {p q : PcbPtr} {pfn : ℕ} {pfns : ℕ → ℕ} {m₁ m₂ m : Memory}
    {v : UserSpace} {u : UserContext} (hf : BootFacts M b p q pfn pfns m₁ m₂ m v) :
    WokenOk (bootedKernel M b p q pfn pfns m₁ m₂ m v u) := by
  refine ⟨fun x hx _ => Plain.finds ?_ _ _,fun x c _ hm => by cases hm⟩
  rcases booted_live.1 hx with rfl|rfl
  · rw [booted_executing]
    trivial
  · rw [booted_idle hf.ne]
    trivial

/-- In every reachable state calls find what they have waited for. -/
theorem reachable_wokenOk (h : Reachable M s) : Settled M s ∧ Fitting s ∧ WokenOk s :=
  reachable_invariant (P := fun s => Fitting s ∧ WokenOk s)
    (fun _ _ _ _ _ _ _ _ _ _ hf => ⟨booted_fitting hf,booted_wokenOk hf⟩)
    (fun _ _ _ hc hp hop => ⟨op_fitting hc hp.1 hop,op_wokenOk hc hp.1 hp.2 hop⟩) h

/-- What a call returns when it goes on, by the place where it stopped. -/
def Returns (s : Kernel) : KernelPoint → Option ℤ → Prop
  | .boot,rc => rc=none
  | .clock,rc => rc=none
  | .fork _,rc => rc=some 0
  | .wait _,rc => ∃ c∈s.children s.currentProcess,s.state c=.zombie ∧ s.pid c≠ERROR ∧
      rc=some (s.pid c)
  | .delay,rc => rc=some SUCCESS
  | .ttyRead _,rc => ∃ line,(s.tty s.currentProcess).readLine=some line ∧
      rc=some (lineCount line (s.tty s.currentProcess).readLen : ℤ)
  | .ttyWrite _ len,rc => rc=some len
  | .acquire _ _,rc => rc=some SUCCESS
  | _,_ => True

/-- Points of calls in which somebody else can be faster. -/
def Contended : KernelPoint → Prop
  | .pipeRead _ _ _ _ => True
  | .cvarWait _ _ _ _ => True
  | _ => False

/-- The current process takes up its saved stack. -/
def started (s : Kernel) : Kernel :=
  s.setKernelContext s.currentProcess ⟨s.currentProcess,.executing⟩

/-- The current process goes on in Wait. -/
def waited (s : Kernel) : Kernel :=
  {started s with waitingForChild := Function.update s.waitingForChild s.currentProcess false}

/-- A stack that is stopped outside a call goes back to user mode. -/
theorem resume_user (M : Machine) (env : Env)
    (hn : (s.kernelContext s.currentProcess).point=.boot ∨
      (s.kernelContext s.currentProcess).point=.clock) :
    kernelStep M env s .resume=returnToUser (savedContext (started s)) (started s) ∧
      returnValue M env s .resume=none := by
  change resume M env s=_ ∧ _
  unfold resume continueAt returnValue stepFlow resumeFlow
  rcases hn with hn|hn
  · rw [hn]
    exact ⟨rfl,rfl⟩
  · rw [hn]
    exact ⟨rfl,rfl⟩

/-- A Wait that finds an ended child collects the first one. -/
theorem resumed_wait {a : ℕ} (hn : (s.kernelContext s.currentProcess).point=.wait a)
    (h : ∃ c∈s.children s.currentProcess,s.state c=.zombie) :
    ∃ c∈s.children s.currentProcess,s.state c=.zombie ∧
      stepFlow M env s .resume=.returns (collectChild M a c (waited s))
        (savedContext (started s)) (s.pid c) := by
  obtain ⟨c₀,hm₀,hz₀⟩ := h
  have hzombie : (zombieChild s s.currentProcess).isSome :=
    List.find?_isSome.2 ⟨c₀,hm₀,by simp [hz₀]⟩
  obtain ⟨c,hfind⟩ := Option.isSome_iff_exists.1 hzombie
  refine ⟨c,List.mem_of_find?_eq_some hfind,by simpa using List.find?_some hfind,?_⟩
  have hsame : zombieChild (waited s) s.currentProcess=some c := hfind
  unfold stepFlow resumeFlow
  rw [hn]
  dsimp only
  unfold waitLoop
  dsimp only [waited,started,Kernel.setKernelContext] at hsame ⊢
  rw [hsame]

/-- A TtyRead that has been handed a line takes bytes from it. -/
theorem resumed_read {line : TtyLine} (hn : (s.kernelContext s.currentProcess).point=.ttyRead i)
    (hl : (s.tty s.currentProcess).readLine=some line) :
    stepFlow M env s .resume=.returns (ttyTakeBytes i line (s.terminals i) (started s))
      (savedContext (started s)) (lineCount line (s.tty s.currentProcess).readLen) := by
  unfold stepFlow resumeFlow
  rw [hn]
  dsimp only
  unfold ttyReadLoop
  dsimp only [started,Kernel.setKernelContext]
  rw [hl]

/-- An Acquire that goes on owns its lock. -/
theorem resumed_acquire (hc : Coherent M s) (hr : Runnable s) {id : ℤ} {g : ℕ}
    (hn : (s.kernelContext s.currentProcess).point=.acquire id g) :
    ∃ l : LockState,stepFlow M env s .resume=.returns
      ((started s).emit (.lockResumed l.opened s.currentProcess))
      (savedContext (started s)) SUCCESS := by
  obtain ⟨l,ho,_,hown⟩ := lockAcquireResume_eq hc hr hn
  have ho' : getObject (started s) id=.lock l := ho
  refine ⟨l,?_⟩
  unfold stepFlow resumeFlow
  rw [hn]
  dsimp only
  unfold lockAcquireResume
  dsimp only [started] at ho' ⊢
  rw [ho']
  exact if_pos hown

/-- In every run a call that goes on, except PipeRead and CvarWait, returns what
it waited for. -/
theorem resumed_returns (env : Env) (h : Reachable M s) (hk : s.cpu=.kernel)
    (hp : ¬Contended (s.kernelContext s.currentProcess).point)
    (hn : ¬((s.kernelContext s.currentProcess).point=.boot ∨
      (s.kernelContext s.currentProcess).point=.clock)) :
    ∃ v u rc,stepFlow M env s .resume=.returns v u rc ∧ v.currentProcess=s.currentProcess ∧
      Returns s (s.kernelContext s.currentProcess).point (some rc) := by
  obtain ⟨hset,_,hwoken⟩ := reachable_wokenOk h
  have hc := hset.toCoherent
  obtain ⟨hr,hne⟩ := hset.kernel hk
  have hcl := hc.ready.current_live
  have hfinds := hwoken.finds _ hcl hr.not_blocked
  have hpoint := hc.saved.point _ hcl
  cases hx : (s.kernelContext s.currentProcess).point with
  | executing => exact absurd hx hne
  | boot => exact absurd (.inl hx) hn
  | clock => exact absurd (.inr hx) hn
  | fork c =>
    rw [hx] at hpoint
    refine ⟨started s,savedContext (started s),0,?_,rfl,rfl⟩
    unfold stepFlow resumeFlow
    rw [hx]
    exact if_pos hpoint.symm
  | wait a =>
    rw [hx] at hfinds
    obtain ⟨c,hm,hz,hflow⟩ := resumed_wait hx hfinds
    exact ⟨_,_,_,hflow,(processDestroy_quiet (p := s.currentProcess) c _).current,
      c,hm,hz,hwoken.pids _ c hcl hm,rfl⟩
  | delay =>
    refine ⟨started s,savedContext (started s),SUCCESS,?_,rfl,rfl⟩
    unfold stepFlow resumeFlow
    rw [hx]
    rfl
  | ttyRead i =>
    rw [hx] at hfinds
    obtain ⟨line,hl⟩ := hfinds
    exact ⟨_,_,_,resumed_read hx hl,rfl,line,hl,rfl⟩
  | ttyWrite i len =>
    have hflow : stepFlow M env s .resume=
        ttyWriteResume i len (savedContext (started s)) (started s) := by
      unfold stepFlow resumeFlow
      rw [hx]
      rfl
    exact ⟨_,_,_,hflow,rfl,rfl⟩
  | pipeRead id buf len g =>
    rw [hx] at hp
    exact absurd trivial hp
  | acquire id g =>
    obtain ⟨l,hflow⟩ := resumed_acquire hc hr hx
    exact ⟨_,_,_,hflow,rfl,rfl⟩
  | cvarWait id lockId g g' =>
    rw [hx] at hp
    exact absurd trivial hp
  | exited => exact absurd (hc.saved.exited _ hcl hx) hr.not_zombie

/-- In every run a process that goes on in the kernel, except in PipeRead and
CvarWait, is back in user mode behind that step: it does not block again, and
its call returns what it waited for. -/
theorem woken_call_returns (h : Reachable M s) (hk : s.cpu=.kernel)
    (hp : ¬Contended (s.kernelContext s.currentProcess).point) :
    (kernelStep M env s .resume).cpu=.user ∧
      (kernelStep M env s .resume).currentProcess=s.currentProcess ∧
      Returns s (s.kernelContext s.currentProcess).point (returnValue M env s .resume) := by
  by_cases hn : (s.kernelContext s.currentProcess).point=.boot ∨
      (s.kernelContext s.currentProcess).point=.clock
  · obtain ⟨hstep,hvalue⟩ := resume_user M env hn
    rw [hstep,hvalue]
    refine ⟨rfl,rfl,?_⟩
    rcases hn with hn|hn
    · rw [hn]
      rfl
    · rw [hn]
      rfl
  · obtain ⟨v,u,rc,hflow,hv,hret⟩ := resumed_returns env h hk hp hn
    have hvalue : returnValue M env s .resume=some rc := by
      unfold returnValue
      rw [hflow]
      rfl
    rw [hvalue,resume_step,hflow]
    obtain ⟨x,y,hx⟩ := finish_returns (s := v) (s.kernelContext s.currentProcess).caller u rc
    rw [hx]
    exact ⟨rfl,hv,hret⟩

/-- A parent that waits gets the identifier of its child. -/
theorem woken_call_returns_wait : ∃ s,Reachable sampleMachine s ∧
    (s.kernelContext s.currentProcess).point=.wait 0 ∧
    (kernelStep sampleMachine (sampleEnv 0 0) s .resume).cpu=.user ∧
    ∃ c∈s.children s.currentProcess,s.state c=.zombie ∧
      returnValue sampleMachine (sampleEnv 0 0) s .resume=some (s.pid c) := by
  obtain ⟨s,hr,hq⟩ := replay_reachable sampleBoot_user
    [forkInput 3 2,callInput 4 0 0 0,resumeInput,callInput 3 7 0 0]
    (fun s => s.cpu=.kernel ∧ (s.kernelContext s.currentProcess).point=.wait 0)
    (by decide +kernel)
  simp only [decide_eq_true_eq] at hq
  obtain ⟨hk,hn⟩ := hq
  have hfree : ¬Contended (s.kernelContext s.currentProcess).point := by
    rw [hn]
    exact id
  have hw : _ ∧ _ ∧ Returns s _ (returnValue sampleMachine (sampleEnv 0 0) s .resume) :=
    woken_call_returns hr hk hfree
  obtain ⟨hu,_,hret⟩ := hw
  rw [hn] at hret
  obtain ⟨c,hm,hz,_,hv⟩ := hret
  exact ⟨s,hr,hn,hu,c,hm,hz,hv⟩

end Finding

end Yalnix.WokenCalls
