import Mathlib.Data.List.Nodup
import Yalnix.History
import Yalnix.Traces

/-!
# One reason per blocked process

A process is blocked exactly when it has one reason to be, and each reason
is lost only through an event of its own: the end of a delay, the exit of a
child, the removal from a queue, or the completion of a terminal write.
-/

namespace Yalnix.BlockingReasons

open Framework FrameTable KernelState Scheduling Ipc Terminals ProcessLifetime ProgramLoading
open Syscalls Traps KernelStart BlockingDiscipline Coherence Operations OperationCoherence
open StepOperations CallOperations RunInvariants History Traces

variable {M : Machine} {allow : Label → Prop} {s t : Kernel} {state : PcbPtr → ProcState}
  {delayUntil : PcbPtr → ℕ} {waiting : PcbPtr → Bool} {queue : QueueAddr → List PcbPtr}
  {terminals terminals' : ℕ → TtyState} {p w x : PcbPtr} {r : Reason} {q : QueueAddr}
  {rest : List PcbPtr} {i d : ℕ} {log l : List Event}

section Waits

/-- Another process gets a deadline. -/
theorem waits_setDelay (hx : x≠p) (h : Waits delayUntil waiting queue terminals x r) :
    Waits (Function.update delayUntil p d) waiting queue terminals x r := by
  cases r with
  | delay => rwa [Waits,Function.update_of_ne hx]
  | _ => exact h

/-- The flag of another process changes. -/
theorem waits_setWaiting {a : Bool} (hx : x≠p)
    (h : Waits delayUntil waiting queue terminals x r) :
    Waits delayUntil (Function.update waiting p a) queue terminals x r := by
  cases r with
  | child => rwa [Waits,Function.update_of_ne hx]
  | _ => exact h

/-- A process that waits in a queue still waits when the queue grows. -/
theorem waits_grow (hl : queue q⊆rest) (h : Waits delayUntil waiting queue terminals x r) :
    Waits delayUntil waiting (Function.update queue q rest) terminals x r := by
  cases r with
  | queue q' =>
    change x∈queue q' at h
    change x∈Function.update queue q rest q'
    by_cases he : q'=q
    · subst he
      rw [Function.update_self]
      exact hl h
    · rwa [Function.update_of_ne he]
  | _ => exact h

/-- The first process leaves a queue. -/
theorem waits_pop (hq : queue q=w::rest) (hx : ¬(x=w ∧ r=.queue q))
    (h : Waits delayUntil waiting queue terminals x r) :
    Waits delayUntil waiting (Function.update queue q rest) terminals x r := by
  cases r with
  | queue q' =>
    change x∈queue q' at h
    change x∈Function.update queue q rest q'
    by_cases he : q'=q
    · subst he
      rw [hq] at h
      rw [Function.update_self]
      rcases List.mem_cons.1 h with hw|hm
      · exact absurd ⟨hw,rfl⟩ hx
      · exact hm
    · rwa [Function.update_of_ne he]
  | _ => exact h

/-- Terminals change and keep the writers. -/
theorem waits_terminals (hw : ∀ i,(terminals' i).writer=(terminals i).writer)
    (h : Waits delayUntil waiting queue terminals x r) :
    Waits delayUntil waiting queue terminals' x r := by
  cases r with
  | writer i =>
    exact (congrArg (·=x) (hw i)).mpr h
  | _ => exact h

/-- A terminal gets another writer. -/
theorem waits_setTerminal {v : TtyState} (hx : r≠.writer i)
    (h : Waits delayUntil waiting queue terminals x r) :
    Waits delayUntil waiting queue (Function.update terminals i v) x r := by
  cases r with
  | writer j =>
    have hj : j≠i := fun he => hx (by rw [he])
    change (Function.update terminals i v j).writer=x
    rw [Function.update_of_ne hj]
    exact h
  | _ => exact h

end Waits

/-- A terminal is replaced by one with the same writer. -/
theorem setTerminal_writer {v : TtyState} (hv : v.writer=(terminals i).writer) (j : ℕ) :
    (Function.update terminals i v j).writer=(terminals j).writer := by
  by_cases he : j=i
  · rw [he,Function.update_self]
    exact hv
  · rw [Function.update_of_ne he]

/-- Taking bytes of a line keeps the writers. -/
theorem takeBytes_writer {v : TtyState} {line : TtyLine} (hv : v.writer=(s.terminals i).writer)
    (j : ℕ) : ((ttyTakeBytes i line v s).terminals j).writer=(s.terminals j).writer := by
  refine setTerminal_writer ?_ j
  split
  · exact hv
  · exact hv

/-- The events by which a process with the given deadline loses a reason. -/
def LeftBy (deadline : ℕ) (p : PcbPtr) (l : List Event) : Reason → Prop
  | .delay => ∃ now,.woken p (.delay deadline now)∈l
  | .child => ∃ c birth status,.exited c birth p status∈l ∧ .woken p (.child c)∈l
  | .queue q => .woken p (.pop q)∈l
  | .writer i => .woken p (.written i)∈l

/-- Later events do not matter. -/
theorem LeftBy.mono {l' : List Event} (h : LeftBy d p l r) (hl : l⊆l') : LeftBy d p l' r := by
  cases r with
  | delay =>
    obtain ⟨now,hn⟩ := h
    exact ⟨now,hl hn⟩
  | child =>
    obtain ⟨c,birth,status,he,hw⟩ := h
    exact ⟨c,birth,status,hl he,hl hw⟩
  | queue q => exact hl h
  | writer i => exact hl h

/-- A process keeps a reason, or events are logged by which it loses it. -/
def Keeps (s t : Kernel) (l : List Event) (x : PcbPtr) (r : Reason) : Prop :=
  (t.live x=true ∧ t.delayUntil x=s.delayUntil x ∧ BlockedBy t x r) ∨
    LeftBy (s.delayUntil x) x l r

/-- The log grows, and reasons are lost only through their events. -/
def Goes (s t : Kernel) : Prop :=
  ∃ l,t.log=s.log++l ∧ ∀ x r,s.live x=true → BlockedBy s x r → Keeps s t l x r

/-- One change after the other. -/
theorem Goes.trans {t' : Kernel} (h : Goes s t) (h' : Goes t t') : Goes s t' := by
  obtain ⟨l,hl,hk⟩ := h
  obtain ⟨l',hl',hk'⟩ := h'
  refine ⟨l++l',by rw [hl',hl,List.append_assoc],fun x r hx hw => ?_⟩
  rcases hk x r hx hw with ⟨hx',hd,hw'⟩|hg
  · rcases hk' x r hx' hw' with ⟨hx'',hd',hw''⟩|hg
    · exact .inl ⟨hx'',hd'.trans hd,hw''⟩
    · rw [hd] at hg
      exact .inr (hg.mono (List.subset_append_right ..))
  · exact .inr (hg.mono (List.subset_append_left ..))

/-- A blocked process is not the current one. -/
theorem ne_current (h : Coherent M s) (ha : Runnable s) (hx : s.live x=true)
    (hw : BlockedBy s x r) : x≠s.currentProcess := by
  rintro rfl
  exact ha.not_blocked (h.block.reasons.blocked _ r hx hw)

/-- The queue of an unused object is empty. -/
theorem free_queue (h : Coherent M s) (hf : s.objects i=.free) :
    s.queue (.readers i)=[] ∧ s.queue (.lockWaiters i)=[] ∧ s.queue (.cvarWaiters i)=[] :=
  ⟨h.home.no_readers (by simp [hf]),h.home.no_lockWaiters (by simp [hf]),
    h.home.no_cvarWaiters (by simp [hf])⟩

/-- Only the first process leaves when a queue is popped. -/
theorem pop_goes (hq : s.queue q=w::rest) (ht : t.queue=Function.update s.queue q rest)
    (hl : t.live=s.live) (hd : t.delayUntil=s.delayUntil)
    (hc : t.waitingForChild=s.waitingForChild)
    (hv : ∀ i,(t.terminals i).writer=(s.terminals i).writer)
    (hlog : t.log=s.log++l) (he : .woken w (.pop q)∈l) : Goes s t := by
  refine ⟨l,hlog,fun x r hx hw => ?_⟩
  by_cases hxw : x=w ∧ r=.queue q
  · obtain ⟨rfl,rfl⟩ := hxw
    exact .inr he
  · refine .inl ⟨by rw [hl]; exact hx,by rw [hd],?_⟩
    have h₁ := waits_terminals hv (waits_pop hq hxw hw)
    rw [BlockedBy,hd,hc,ht]
    exact h₁

/-- The other processes stay when a writer is released. -/
theorem release_goes (u : UserContext) : Goes s (releaseWriter i u s) := by
  refine ⟨[.ttyCompleted i,.woken (s.terminals i).writer (.written i),
    .linked (s.terminals i).writer],by simp [releaseWriter,markReady],fun x r hx hw => ?_⟩
  by_cases hr : r=.writer i
  · subst hr
    have he : (s.terminals i).writer=x := hw
    exact .inr (by rw [he]; exact List.mem_cons_of_mem _ List.mem_cons_self)
  · exact .inl ⟨hx,rfl,waits_setTerminal hr hw⟩

/-- The first queued writer becomes the writer of a terminal without one. -/
theorem next_goes (h0 : s.live 0=false) (hw : (s.terminals i).writer=0)
    (hq : s.queue (.writeQueue i)=w::rest) : Goes s (ttyTransmit M i (nextWriter i w rest s)) := by
  refine ⟨_,List.append_assoc ..,fun x r hx hr => ?_⟩
  by_cases hxw : x=w ∧ r=.queue (.writeQueue i)
  · obtain ⟨rfl,rfl⟩ := hxw
    exact .inr (List.mem_append_left _ List.mem_cons_self)
  · have hri : r≠.writer i := by
      rintro rfl
      have hx0 : x=0 := Eq.symm (hw.symm.trans hr)
      rw [hx0,h0] at hx
      cases hx
    exact .inl ⟨hx,rfl,waits_setTerminal hri (waits_setTerminal hri (waits_pop hq hxw hr))⟩

/-- A process whose delay is over is woken by the clock, and nobody else. -/
theorem sleepOver_goes {p : PcbPtr} (hc : Coherent M s) (ho : DelayOver s p) :
    Goes s (markReady {s with
      delayUntil := Function.update s.delayUntil p 0
      log := s.log++[.woken p (.delay (s.delayUntil p) s.clockTicks)]} p) := by
  refine ⟨[.woken p (.delay (s.delayUntil p) s.clockTicks),.linked p],by simp [markReady],
    fun x r hx hw => ?_⟩
  by_cases hxp : x=p
  · subst hxp
    have hr := hc.block.reasons.unique x r .delay hx hw ho.2.2.1
    subst hr
    exact .inr ⟨s.clockTicks,List.mem_cons_self⟩
  · exact .inl ⟨hx,Function.update_of_ne hxp ..,waits_setDelay hxp hw⟩

/-- A child that is destroyed before it has run wakes nobody. -/
theorem undone_goes {c : PcbPtr} {env : Env} {n : ℤ} {pfns : ℕ → ℕ} {pt : PageTable}
    {m : Memory} {u : UserContext} (hc : Coherent M s)
    (hcp : callocPcb env s=some c) : Goes s (processDestroy M c
      ((enterChild M s.currentProcess c n pfns pt m s).setUserContext c u)) := by
  obtain ⟨h0,hl⟩ := callocPcb_fresh hcp
  rw [destroyed_child hc h0 hl]
  refine ⟨[],(List.append_nil _).symm,fun x r hx hw => ?_⟩
  have hxc : x≠c := fun he => by rw [he,hl] at hx; cases hx
  refine .inl ⟨?_,Function.update_of_ne hxc ..,waits_setDelay hxc (waits_setWaiting hxc hw)⟩
  simp [releaseProcess,Kernel.setUserContext,enterChild,Function.update_of_ne hxc,hx]

/-- A new child wakes nobody. -/
theorem spawn_goes {c caller : PcbPtr} {env : Env} {n : ℤ} {pfns : ℕ → ℕ} {pt : PageTable}
    {m : Memory} {u : UserContext} (hcp : callocPcb env s=some c) :
    Goes s (markReady ((kcCopy M c ⟨caller,.fork c⟩
      ((enterChild M s.currentProcess c n pfns pt m s).setUserContext c u)).emit
        (.forked (s.birth s.currentProcess) s.stamp n)) c) := by
  obtain ⟨h0,hl⟩ := callocPcb_fresh hcp
  rw [spawn_eq]
  refine ⟨[.forked (s.birth s.currentProcess) s.stamp n,.linked c],by simp,
    fun x r hx hw => ?_⟩
  have hxc : x≠c := fun he => by rw [he,hl] at hx; cases hx
  refine .inl ⟨?_,Function.update_of_ne hxc ..,waits_setDelay hxc (waits_setWaiting hxc hw)⟩
  simp [enterChild,Function.update_of_ne hxc,hx]

/-- The end of a child wakes the parent that waits for it, and nobody else. -/
theorem zombieWake_goes {status : ℤ} {k : KernelContext} {m : Memory} {v : UserSpace}
    (hc : Coherent M s) (hwp : s.waitingForChild (s.parent s.currentProcess)=true) :
    Goes s (markReady {s with
      exitStatus := Function.update s.exitStatus s.currentProcess status
      state := Function.update s.state s.currentProcess .zombie
      kernelContext := Function.update s.kernelContext s.currentProcess k
      waitingForChild := Function.update s.waitingForChild (s.parent s.currentProcess) false
      memory := m
      space := Function.update s.space s.currentProcess v
      log := s.log++[.exited s.currentProcess (s.birth s.currentProcess)
          (s.parent s.currentProcess) status,
        .woken (s.parent s.currentProcess) (.child s.currentProcess)]}
      (s.parent s.currentProcess)) := by
  refine ⟨[.exited s.currentProcess (s.birth s.currentProcess) (s.parent s.currentProcess) status,
    .woken (s.parent s.currentProcess) (.child s.currentProcess),
    .linked (s.parent s.currentProcess)],by simp [markReady],fun x r hx hw => ?_⟩
  by_cases hxp : x=s.parent s.currentProcess
  · have hr := hc.block.reasons.unique x r .child hx hw (by rw [hxp]; exact hwp)
    subst hr
    rw [←hxp]
    exact .inr ⟨s.currentProcess,s.birth s.currentProcess,status,by simp,by simp⟩
  · exact .inl ⟨hx,rfl,waits_setWaiting hxp hw⟩

/-- A reported child was not blocked. -/
theorem collect_goes {statusPtr : ℕ} {c : PcbPtr} (hc : Coherent M s) (ha : Active s)
    (hch : c∈s.children s.currentProcess) (hz : s.state c=.zombie) :
    Goes s (collectChild M statusPtr c s) := by
  rw [collectChild_eq hc ha statusPtr hch hz]
  refine ⟨_,List.append_assoc s.log _ _,fun x r hx hw => .inl ⟨?_,rfl,hw⟩⟩
  have hxc : x≠c := by
    rintro rfl
    have := hc.block.reasons.blocked _ r hx hw
    rw [hz] at this
    cases this
  simp [releaseProcess,Function.update_of_ne hxc,hx]

/-- Every operation takes a reason away only through its own event. -/
theorem op_goes {b : Bool} (hc : Coherent M s) (hop : Op M allow b s t) : Goes s t := by
  have hcur : MayBlock s → ∀ x r,s.live x=true → BlockedBy s x r → x≠s.currentProcess :=
    fun hb x r hx hw => ne_current hc hb.toRunnable hx hw
  cases hop with
  | note e hn => exact ⟨_,rfl,fun x r hx hw => .inl ⟨hx,rfl,hw⟩⟩
  | tick => exact ⟨_,rfl,fun x r hx hw => .inl ⟨hx,rfl,hw⟩⟩
  | writeDone i len => exact ⟨_,rfl,fun x r hx hw => .inl ⟨hx,rfl,hw⟩⟩
  | clearWaiting ha =>
    exact ⟨[],(List.append_nil _).symm,fun x r hx hw => .inl ⟨hx,rfl,
      waits_setWaiting (ne_current hc ha.toRunnable hx hw) hw⟩⟩
  | sleepOver p hl ho => exact sleepOver_goes hc ho
  | requeue hi hs => exact ⟨[.linked s.currentProcess],rfl,fun x r hx hw => .inl ⟨hx,rfl,hw⟩⟩
  | dispatch env hs =>
    have he := dispatchNext_eq hc hs
    rw [he]
    exact ⟨_,rfl,fun x r hx hw => .inl ⟨hx,rfl,hw⟩⟩
  | forkUndone env c pfns pt m₁ m u ha hcp => exact undone_goes hc hcp
  | spawn env caller c pfns pt m₁ m u hb hcp => exact spawn_goes hcp
  | unlock i l => exact ⟨_,rfl,fun x r hx hw => .inl ⟨hx,rfl,hw⟩⟩
  | handOff i l w rest u ha ho how hq =>
    exact pop_goes (l := [.lockReleased l.opened l.owner,.woken w (.pop (.lockWaiters i)),
      .linked w,.lockGranted l.opened w]) hq rfl rfl rfl rfl (fun _ => rfl)
      (by simp [grantLock,markReady]) (by simp)
  | zombie status k => exact ⟨_,rfl,fun x r hx hw => .inl ⟨hx,rfl,hw⟩⟩
  | zombieWake status k env m v hk hb hch hl hp hwp => exact zombieWake_goes hc hwp
  | collect statusPtr c ha hch hz => exact collect_goes hc ha hch hz
  | blockDelay ticks k u hk hb =>
    exact ⟨[],(List.append_nil _).symm,fun x r hx hw =>
      .inl ⟨hx,Function.update_of_ne (hcur hb x r hx hw) ..,waits_setDelay (hcur hb x r hx hw) hw⟩⟩
  | blockChild statusPtr k u hk hb =>
    exact ⟨[],(List.append_nil _).symm,fun x r hx hw =>
      .inl ⟨hx,rfl,waits_setWaiting (hcur hb x r hx hw) hw⟩⟩
  | blockPipe id buf len pipe k u hk hb =>
    exact ⟨[],(List.append_nil _).symm,fun x r hx hw =>
      .inl ⟨hx,rfl,waits_grow (List.subset_append_left ..) hw⟩⟩
  | blockLock id l k u hk hb =>
    exact ⟨[.lockBlocked l.opened s.currentProcess],rfl,fun x r hx hw =>
      .inl ⟨hx,rfl,waits_grow (List.subset_append_left ..) hw⟩⟩
  | blockCvar id lockId cvar lockOpened k u hk hb =>
    exact ⟨[.cvarBlocked id.toNat s.currentProcess],rfl,fun x r hx hw =>
      .inl ⟨hx,rfl,waits_grow (List.subset_append_left ..) hw⟩⟩
  | blockRead i k u hk hb =>
    exact ⟨[],(List.append_nil _).symm,fun x r hx hw =>
      .inl ⟨hx,rfl,waits_grow (List.subset_append_left ..) hw⟩⟩
  | startWrite env i buf len k u hk hb ht hl hwr hbusy =>
    refine ⟨_,List.append_assoc s.log _ _,fun x r hx hw => ?_⟩
    have hr : r≠.writer i := by
      rintro rfl
      exact hc.ready.ne_null hx (Eq.symm (hwr.symm.trans hw))
    exact .inl ⟨hx,rfl,waits_setTerminal hr (waits_setTerminal hr hw)⟩
  | queueWrite env i buf len k u hk hb =>
    exact ⟨_,rfl,fun x r hx hw => .inl ⟨hx,rfl,waits_grow (List.subset_append_left ..) hw⟩⟩
  | wake q w rest u hn hq =>
    exact pop_goes (l := [.woken w (.pop q),.linked w]) hq rfl rfl rfl rfl (fun _ => rfl)
      (by simp [markReady]) (by simp)
  | openPipe env i hi hf =>
    exact ⟨[],(List.append_nil _).symm,fun x r hx hw => .inl ⟨hx,rfl,
      waits_grow (by rw [(free_queue hc hf).1]; simp) hw⟩⟩
  | openLock i hi hf =>
    exact ⟨[],(List.append_nil _).symm,fun x r hx hw => .inl ⟨hx,rfl,
      waits_grow (by rw [(free_queue hc hf).2.1]; simp) hw⟩⟩
  | openCvar i hi hf =>
    exact ⟨[],(List.append_nil _).symm,fun x r hx hw => .inl ⟨hx,rfl,
      waits_grow (by rw [(free_queue hc hf).2.2]; simp) hw⟩⟩
  | takeBytes i pipe len => exact ⟨_,rfl,fun x r hx hw => .inl ⟨hx,rfl,hw⟩⟩
  | putBytes env i pipe grown buf len => exact ⟨_,rfl,fun x r hx hw => .inl ⟨hx,rfl,hw⟩⟩
  | lockTake i l => exact ⟨_,rfl,fun x r hx hw => .inl ⟨hx,rfl,hw⟩⟩
  | lockResume id l => exact ⟨_,rfl,fun x r hx hw => .inl ⟨hx,rfl,hw⟩⟩
  | takeHanded i line =>
    exact ⟨_,rfl,fun x r hx hw => .inl ⟨hx,rfl,waits_terminals (takeBytes_writer rfl) hw⟩⟩
  | takeLine i line v ha hn =>
    exact ⟨_,rfl,fun x r hx hw =>
      .inl ⟨hx,rfl,waits_terminals (takeBytes_writer (ttyNextLine_writer hn).1) hw⟩⟩
  | deliver i line r rest hl hq =>
    exact pop_goes (l := [.ttyReceived i line.stamp line.len line.data,
      .woken r (.pop (.readQueue i)),.linked r]) hq rfl rfl rfl rfl (fun _ => rfl)
      (by simp [markReady]) (by simp)
  | enqueue i line =>
    exact ⟨_,rfl,fun x r hx hw => .inl ⟨hx,rfl,waits_terminals (setTerminal_writer rfl) hw⟩⟩
  | transmitSpurious i =>
    exact ⟨_,rfl,fun x r hx hw =>
      .inl ⟨hx,rfl,waits_terminals (setTerminal_writer rfl) hw⟩⟩
  | transmitMore i =>
    exact ⟨_,List.append_assoc ..,fun x r hx hw =>
      .inl ⟨hx,rfl,waits_terminals (setTerminal_writer rfl)
      (waits_terminals (setTerminal_writer rfl) hw)⟩⟩
  | transmitLast i u => exact release_goes u
  | transmitNext i u w rest hwr hf hq =>
    exact (release_goes u).trans (next_goes hc.ready.null
      (by simp [releaseWriter,markReady]) hq)
  | _ => exact ⟨[],(List.append_nil _).symm,fun x r hx hw => .inl ⟨hx,rfl,hw⟩⟩

/-- Every sequence of operations does so. -/
theorem ops_goes (hc : Coherent M s) (hops : Ops M allow s t) : Goes s t := by
  induction hops with
  | refl => exact ⟨[],(List.append_nil _).symm,fun x r hx hw => .inl ⟨hx,rfl,hw⟩⟩
  | tail hops hop ih =>
    obtain ⟨b,hop⟩ := hop
    exact ih.trans (op_goes (ops_coherent hc hops) hop)

/-- Every blocked process has a reason. -/
abbrev AllMotivated (s : Kernel) : Prop :=
  Motivated (fun p => s.live p=true) (fun p => s.state p=.blocked) (BlockedBy s)

/-- Only one process loses reasons, and it is no longer blocked. -/
theorem motivated_free (h : AllMotivated s) (hl : ∀ x,t.live x=true → s.live x=true)
    (hs : ∀ x,x≠w → t.state x=.blocked → s.state x=.blocked) (hn : t.state w≠.blocked)
    (hw : ∀ x r,x≠w → s.live x=true → BlockedBy s x r → BlockedBy t x r) : AllMotivated t :=
  Motivated.change (w := w) h (fun x hx hxl hxs => ⟨hl x hxl,hs x hx hxs⟩) hw
    (fun _ hb => absurd hb hn)

/-- The current process blocks for a reason. -/
theorem motivated_block (h : AllMotivated s) (hl : t.live=s.live)
    (hs : ∀ x,x≠w → t.state x=.blocked → s.state x=.blocked)
    (hw : ∀ x r,x≠w → s.live x=true → BlockedBy s x r → BlockedBy t x r) (hr : BlockedBy t w r) :
    AllMotivated t :=
  Motivated.change (w := w) h (fun x hx hxl hxs => ⟨by rw [←hl]; exact hxl,hs x hx hxs⟩) hw
    (fun _ _ => ⟨r,hr⟩)

/-- The state of one process changes. -/
theorem blocked_of_update {a : ProcState} {y : PcbPtr} (hx : y≠w)
    (h : Function.update state w a y=.blocked) : state y=.blocked := by
  rwa [Function.update_of_ne hx] at h

/-- A process leaves a queue and is made ready. -/
theorem motivated_pop (h : AllMotivated s) (hq : s.queue q=w::rest)
    (ht : t.queue=Function.update s.queue q rest) (hl : t.live=s.live)
    (hs : t.state=Function.update s.state w .ready) (hd : t.delayUntil=s.delayUntil)
    (hc : t.waitingForChild=s.waitingForChild) (hv : t.terminals=s.terminals) :
    AllMotivated t := by
  refine motivated_free (w := w) h (fun x hx => by rw [←hl]; exact hx)
    (fun x hx hb => blocked_of_update hx (by rw [←hs]; exact hb))
    (by rw [hs,Function.update_self]; decide) (fun x r hx hxl hr => ?_)
  rw [BlockedBy,hd,hc,ht,hv]
  exact waits_pop hq (fun hxw => hx hxw.1) hr

/-- A process joins a queue. -/
theorem motivated_push (h : AllMotivated s)
    (ht : t.queue=Function.update s.queue q (s.queue q++[w])) (hl : t.live=s.live)
    (hs : t.state=Function.update s.state w .blocked) (hd : t.delayUntil=s.delayUntil)
    (hc : t.waitingForChild=s.waitingForChild) (hv : t.terminals=s.terminals) :
    AllMotivated t := by
  refine motivated_block (w := w) (r := .queue q) h hl
    (fun x hx hb => blocked_of_update hx (by rw [←hs]; exact hb)) (fun x r hx hxl hr => ?_) ?_
  · rw [BlockedBy,hd,hc,ht,hv]
    exact waits_grow (List.subset_append_left ..) hr
  · change w∈t.queue q
    rw [ht,Function.update_self]
    simp

/-- A writer that is released is ready, and nobody else loses a reason. -/
theorem motivated_release (h : AllMotivated s) (u : UserContext) :
    AllMotivated (releaseWriter i u s) := by
  refine motivated_free (w := (s.terminals i).writer) h (fun x hx => hx)
    (fun x hx hb => blocked_of_update hx hb) (by simp [releaseWriter,markReady])
    (fun x r hx hxl hr => waits_setTerminal ?_ hr)
  rintro rfl
  exact hx (Eq.symm hr)

/-- The deadline of a delay is not zero before the clock wraps around. -/
theorem delayDeadline_pos {ticks : ℤ} (hk : s.clockTicks<2^31) (ht : 0<ticks) (ht' : ticks<2^31) :
    delayDeadline s ticks≠0 := by
  unfold delayDeadline
  omega

/-- The process that is picked is not blocked. -/
theorem dispatch_motivated {env : Env} (hc : Coherent M s) (hs : env.switchOk=true)
    (h : AllMotivated s) : AllMotivated (dispatchNext M env s) := by
  have he := dispatchNext_eq hc hs
  rw [he]
  refine Motivated.mono h (fun x hx hb => ⟨hx,?_⟩) (fun x r hr => hr)
  dsimp only at hb
  split at hb
  · exact hb
  · by_cases hxn : x=nextProcess s
    · rw [hxn,Function.update_self] at hb
      cases hb
    · exact blocked_of_update hxn hb

/-- A child that is destroyed before it has run is not left blocked. -/
theorem undone_motivated {c : PcbPtr} {env : Env} {n : ℤ} {pfns : ℕ → ℕ} {pt : PageTable}
    {m : Memory} {u : UserContext} (hc : Coherent M s)
    (h : AllMotivated s) (hcp : callocPcb env s=some c) : AllMotivated (processDestroy M c
      ((enterChild M s.currentProcess c n pfns pt m s).setUserContext c u)) := by
  obtain ⟨h0,hl⟩ := callocPcb_fresh hcp
  rw [destroyed_child hc h0 hl]
  refine Motivated.change (w := c) h (fun x hx hxl hb => ⟨?_,blocked_of_update hx hb⟩)
    (fun x r hx hxl hr => waits_setDelay hx (waits_setWaiting hx hr)) (fun hcl => ?_)
  · simpa [releaseProcess,Kernel.setUserContext,enterChild,Function.update_of_ne hx] using hxl
  · simp [releaseProcess] at hcl

/-- A new child is ready. -/
theorem spawn_motivated {c caller : PcbPtr} {n : ℤ} {pfns : ℕ → ℕ} {pt : PageTable} {m : Memory}
    {u : UserContext} (h : AllMotivated s) : AllMotivated (markReady ((kcCopy M c ⟨caller,.fork c⟩
      ((enterChild M s.currentProcess c n pfns pt m s).setUserContext c u)).emit
        (.forked (s.birth s.currentProcess) s.stamp n)) c) := by
  rw [spawn_eq]
  refine Motivated.change (w := c) h (fun x hx hxl hb => ⟨?_,blocked_of_update hx hb⟩)
    (fun x r hx hxl hr => waits_setDelay hx (waits_setWaiting hx hr)) (fun _ hcb => ?_)
  · simpa [enterChild,Function.update_of_ne hx] using hxl
  · simp [enterChild] at hcb

/-- The ended process is a zombie and its parent is ready. -/
theorem zombieWake_motivated {status : ℤ} {k : KernelContext} {m : Memory} {v : UserSpace}
    (h : AllMotivated s) : AllMotivated (markReady {s with
      exitStatus := Function.update s.exitStatus s.currentProcess status
      state := Function.update s.state s.currentProcess .zombie
      kernelContext := Function.update s.kernelContext s.currentProcess k
      waitingForChild := Function.update s.waitingForChild (s.parent s.currentProcess) false
      memory := m
      space := Function.update s.space s.currentProcess v
      log := s.log++[.exited s.currentProcess (s.birth s.currentProcess)
          (s.parent s.currentProcess) status,
        .woken (s.parent s.currentProcess) (.child s.currentProcess)]}
      (s.parent s.currentProcess)) := by
  refine motivated_free (w := s.parent s.currentProcess) h (fun x hx => hx)
    (fun x hx hb => ?_) (by simp [markReady]) (fun x r hx hxl hr => waits_setWaiting hx hr)
  have hxz := blocked_of_update hx hb
  dsimp only at hxz
  by_cases hxc : x=s.currentProcess
  · rw [hxc,Function.update_self] at hxz
    cases hxz
  · exact blocked_of_update hxc hxz

/-- A reported child is gone, and nobody waited for it alone. -/
theorem collect_motivated {statusPtr : ℕ} {c : PcbPtr} (hc : Coherent M s) (ha : Active s)
    (h : AllMotivated s) (hch : c∈s.children s.currentProcess) (hz : s.state c=.zombie) :
    AllMotivated (collectChild M statusPtr c s) := by
  rw [collectChild_eq hc ha statusPtr hch hz]
  refine Motivated.change (w := c) h (fun x hx hxl hb => ⟨?_,hb⟩) (fun x r hx hxl hr => hr)
    (fun hcl => ?_)
  · simpa [releaseProcess,Function.update_of_ne hx] using hxl
  · simp [releaseProcess] at hcl

/-- A process that blocks in Delay has a deadline. -/
theorem blockDelay_motivated {ticks : ℤ} {k : KernelContext} {u : UserContext}
    (hk : s.clockTicks<2^31) (h : AllMotivated s) (ht : 0<ticks) (ht' : ticks<2^31) :
    AllMotivated (blockForDelay (delayDeadline s ticks) k u s) := by
  refine motivated_block (w := s.currentProcess) (r := .delay) h rfl
    (fun x hx hb => blocked_of_update hx hb) (fun x r hx hxl hr => waits_setDelay hx hr) ?_
  change (blockForDelay (delayDeadline s ticks) k u s).delayUntil s.currentProcess≠0
  unfold blockForDelay
  dsimp only
  rw [Function.update_self]
  exact delayDeadline_pos hk ht ht'

/-- A process that begins to write is the writer of its terminal. -/
theorem startWrite_motivated {env : Env} {buf : ℕ} {len : ℤ} {k : KernelContext}
    {u : UserContext} (hc : Coherent M s) (h : AllMotivated s) (hwr : (s.terminals i).writer=0) :
    AllMotivated (ttyTransmit M i (becomeWriter i (prepareWrite env k i buf len u s))) := by
  refine motivated_block (w := s.currentProcess) (r := .writer i) h rfl
    (fun x hx hb => blocked_of_update hx hb) (fun x r hx hxl hr => ?_) ?_
  · have hri : r≠.writer i := by
      rintro rfl
      exact hc.ready.ne_null hxl (Eq.symm (hwr.symm.trans hr))
    exact waits_setTerminal hri (waits_setTerminal hri hr)
  · simp [BlockedBy,Waits,ttyTransmit,becomeWriter,prepareWrite]

/-- The next writer leaves the queue and becomes the writer of the terminal. -/
theorem transmitNext_motivated {w : PcbPtr} {rest : List PcbPtr} (hc : Coherent M s)
    (h : AllMotivated s) (u : UserContext) (hq : s.queue (.writeQueue i)=w::rest) :
    AllMotivated (ttyTransmit M i (nextWriter i w rest (releaseWriter i u s))) := by
  refine motivated_block (w := w) (r := .writer i) (motivated_release (i := i) h u) rfl
    (fun x hx hb => hb) (fun x r hx hxl hr => ?_) ?_
  · have hri : r≠.writer i := by
      rintro rfl
      refine hc.ready.ne_null hxl (Eq.symm ?_)
      simpa [BlockedBy,Waits,releaseWriter,markReady] using hr
    exact waits_setTerminal hri (waits_setTerminal hri
      (waits_pop hq (fun hxw => hx hxw.1) hr))
  · simp [BlockedBy,Waits,ttyTransmit,nextWriter]

/-- Before the clock wraps around every operation gives the processes it
blocks a reason. -/
theorem op_motivated {b : Bool} (hc : Coherent M s) (hk : s.clockTicks<2^31)
    (h : AllMotivated s) (hop : Op M allow b s t) : AllMotivated t := by
  cases hop with
  | clearWaiting ha =>
    exact motivated_free (w := s.currentProcess) h (fun x hx => hx) (fun x hx hb => hb)
      ha.toRunnable.not_blocked (fun x r hx hxl hr => waits_setWaiting hx hr)
  | sleepOver p hl ho =>
    exact motivated_free (w := p) h (fun x hx => hx) (fun x hx hb => blocked_of_update hx hb)
      (by simp [markReady]) (fun x r hx hxl hr => waits_setDelay hx hr)
  | requeue hi hs =>
    exact motivated_free (w := s.currentProcess) h (fun x hx => hx)
      (fun x hx hb => blocked_of_update hx hb) (by simp [markReady]) (fun x r hx hxl hr => hr)
  | dispatch env hs => exact dispatch_motivated hc hs h
  | forkUndone env c pfns pt m₁ m u ha hcp => exact undone_motivated hc h hcp
  | spawn env caller c pfns pt m₁ m u => exact spawn_motivated h
  | handOff i l w rest u ha ho how hq => exact motivated_pop h hq rfl rfl rfl rfl rfl rfl
  | zombie status k =>
    exact motivated_free (w := s.currentProcess) h (fun x hx => hx)
      (fun x hx hb => blocked_of_update hx hb) (by simp) (fun x r hx hxl hr => hr)
  | zombieWake status k env m v hk hb hch hl hp hw => exact zombieWake_motivated h
  | collect statusPtr c ha hch hz => exact collect_motivated hc ha h hch hz
  | blockDelay ticks k u hpt hb ht ht' => exact blockDelay_motivated hk h ht ht'
  | blockChild statusPtr k u hpt hb =>
    exact motivated_block (w := s.currentProcess) (r := .child) h rfl
      (fun x hx hb => blocked_of_update hx hb) (fun x r hx hxl hr => waits_setWaiting hx hr)
      (Function.update_self ..)
  | blockPipe id buf len pipe k u => exact motivated_push h rfl rfl rfl rfl rfl rfl
  | blockLock id l k u => exact motivated_push h rfl rfl rfl rfl rfl rfl
  | blockCvar id lockId cvar lockOpened k u => exact motivated_push h rfl rfl rfl rfl rfl rfl
  | blockRead i k u => exact motivated_push h rfl rfl rfl rfl rfl rfl
  | startWrite env i buf len k u hpt hb ht hl hwr hbusy => exact startWrite_motivated hc h hwr
  | queueWrite env i buf len k u => exact motivated_push h rfl rfl rfl rfl rfl rfl
  | wake q w rest u hn hq => exact motivated_pop h hq rfl rfl rfl rfl rfl rfl
  | openPipe env i hi hf =>
    exact Motivated.mono h (fun x hx hb => ⟨hx,hb⟩)
      (fun x r hr => waits_grow (by rw [(free_queue hc hf).1]; simp) hr)
  | openLock i hi hf =>
    exact Motivated.mono h (fun x hx hb => ⟨hx,hb⟩)
      (fun x r hr => waits_grow (by rw [(free_queue hc hf).2.1]; simp) hr)
  | openCvar i hi hf =>
    exact Motivated.mono h (fun x hx hb => ⟨hx,hb⟩)
      (fun x r hr => waits_grow (by rw [(free_queue hc hf).2.2]; simp) hr)
  | takeHanded i line =>
    exact Motivated.mono h (fun x hx hb => ⟨hx,hb⟩)
      (fun x r hr => waits_terminals (takeBytes_writer rfl) hr)
  | takeLine i line v ha hn =>
    exact Motivated.mono h (fun x hx hb => ⟨hx,hb⟩)
      (fun x r hr => waits_terminals (takeBytes_writer (ttyNextLine_writer hn).1) hr)
  | deliver i line r rest hl hq => exact motivated_pop h hq rfl rfl rfl rfl rfl rfl
  | enqueue i line =>
    exact Motivated.mono h (fun x hx hb => ⟨hx,hb⟩)
      (fun x r hr => waits_terminals (setTerminal_writer rfl) hr)
  | transmitSpurious i =>
    exact Motivated.mono h (fun x hx hb => ⟨hx,hb⟩)
      (fun x r hr => waits_terminals (setTerminal_writer rfl) hr)
  | transmitMore i =>
    exact Motivated.mono h (fun x hx hb => ⟨hx,hb⟩)
      (fun x r hr => waits_terminals (setTerminal_writer rfl)
        (waits_terminals (setTerminal_writer rfl) hr))
  | transmitLast i u => exact motivated_release h u
  | transmitNext i u w rest hwr hf hq => exact transmitNext_motivated hc h u hq
  | _ => exact h

/-- Whether an event is a clock tick. -/
def isTick : Event → Bool
  | .tick => true
  | _ => false

/-- The ticks of a log. -/
def tickCount (log : List Event) : ℕ := log.countP isTick

/-- A delay is ended at a tick that is not before the deadline. -/
def Due (past : List Event) : Event → Prop
  | .woken _ (.delay deadline now) => deadline≤now ∧ now=tickCount past%2^32
  | _ => True

/-- Events that neither count nor read the clock. -/
def Timeless : Event → Prop
  | .tick => False
  | .woken _ (.delay _ _) => False
  | _ => True

/-- The clock counts the ticks, and delays end by the clock. -/
structure ClockOk (clock : ℕ) (log : List Event) : Prop where
  /-- The clock is the number of ticks, modulo 2^32. -/
  count : clock=tickCount log%2^32
  /-- No delay has ended early. -/
  due : Grounded Due log

/-- Events that record no time leave the clock as it is. -/
theorem ClockOk.other {clock : ℕ} (h : ClockOk clock log) (hl : ∀ e∈l,Timeless e) :
    ClockOk clock (log++l) where
  count := by
    have hz : l.countP isTick=0 := by
      refine List.countP_eq_zero.2 (fun e he => ?_)
      have ht := hl e he
      cases e with
      | tick => exact ht.elim
      | _ => simp [isTick]
    rw [tickCount,List.countP_append,hz]
    exact h.count
  due := h.due.other (fun e he past => by
    have ht := hl e he
    cases e with
    | woken p waker =>
      cases waker with
      | delay deadline now => exact ht.elim
      | _ => trivial
    | _ => trivial)

/-- A tick is recorded with the new value of the clock. -/
theorem clockOk_tick (h : ClockOk s.clockTicks s.log) :
    ClockOk (tickClock s).clockTicks (tickClock s).log where
  count := by
    have hn : tickCount (s.log++[.tick])=tickCount s.log+1 := by
      simp [tickCount,List.countP_append,isTick]
    have hc := h.count
    unfold tickClock
    dsimp only
    rw [hn]
    omega
  due := h.due.other (by simp [Due])

/-- A delay that ends is recorded behind the tick of its deadline. -/
theorem clockOk_sleepOver (h : ClockOk s.clockTicks s.log) (hd : DelayOver s p) :
    ClockOk s.clockTicks (s.log++[.woken p (.delay (s.delayUntil p) s.clockTicks)]) where
  count := by
    have hn : tickCount (s.log++[.woken p (.delay (s.delayUntil p) s.clockTicks)])=
        tickCount s.log := by
      simp [tickCount,List.countP_append,isTick]
    rw [hn]
    exact h.count
  due := h.due.record ⟨hd.2.2.2,h.count⟩

/-- Every operation keeps the clock. -/
theorem op_clockOk {b : Bool} (hc : Coherent M s) (h : ClockOk s.clockTicks s.log)
    (hop : Op M allow b s t) : ClockOk t.clockTicks t.log := by
  cases hop with
  | note e hn =>
    refine h.other (fun e' he => ?_)
    rw [List.mem_singleton.1 he]
    cases e with
    | stored p addr count => trivial
    | loaded p addr count => trivial
    | execLedger opened closed allocated freed => trivial
    | _ => exact hn.elim
  | tick => exact clockOk_tick h
  | writeDone i len => exact h.other (by simp [Timeless])
  | sleepOver p hl ho => exact (clockOk_sleepOver h ho).other (by simp [Timeless])
  | requeue hi hs => exact h.other (by simp [Timeless])
  | dispatch env hs =>
    have he := dispatchNext_eq hc hs
    rw [he]
    exact h.other (by simp [Timeless])
  | forkUndone env c pfns pt m₁ m u ha hcp =>
    obtain ⟨h0,hl⟩ := callocPcb_fresh hcp
    rw [destroyed_child hc h0 hl]
    exact h
  | spawn env caller c =>
    exact (h.other (l := [_]) (by simp [Timeless])).other (by simp [Timeless])
  | unlock i l => exact h.other (by simp [Timeless])
  | handOff i l w rest u =>
    exact ((h.other (l := [_,_]) (by simp [Timeless])).other (l := [_]) (by simp [Timeless])).other
      (by simp [Timeless])
  | zombie status k => exact h.other (by simp [Timeless])
  | zombieWake status k =>
    exact (h.other (l := [_,_]) (by simp [Timeless])).other (by simp [Timeless])
  | collect statusPtr c ha hch hz =>
    rw [collectChild_eq hc ha statusPtr hch hz]
    have h₁ := h.other (l := if statusPtr=0 then []
      else [.stored s.currentProcess statusPtr 4]) (by split <;> simp [Timeless])
    exact h₁.other (by simp [Timeless])
  | blockLock id l k u => exact h.other (by simp [Timeless])
  | blockCvar id lockId cvar lockOpened k u => exact h.other (by simp [Timeless])
  | startWrite env i buf len k u =>
    exact (h.other (l := [_,_]) (by simp [Timeless])).other (by simp [Timeless])
  | queueWrite env i buf len k u => exact h.other (by simp [Timeless])
  | wake q w rest u =>
    exact (h.other (l := [_]) (by simp [Timeless])).other (by simp [Timeless])
  | takeBytes i pipe len => exact h.other (by simp [Timeless])
  | putBytes env i pipe grown buf len => exact h.other (by simp [Timeless])
  | lockTake i l => exact h.other (by simp [Timeless])
  | lockResume id l => exact h.other (by simp [Timeless])
  | takeHanded i line => exact h.other (by simp [Timeless])
  | takeLine i line v => exact h.other (by simp [Timeless])
  | deliver i line r rest =>
    exact (h.other (l := [_,_]) (by simp [Timeless])).other (by simp [Timeless])
  | enqueue i line => exact h.other (by simp [Timeless])
  | transmitSpurious i => exact h.other (by simp [Timeless])
  | transmitMore i => exact (h.other (l := [_]) (by simp [Timeless])).other (by simp [Timeless])
  | transmitLast i u =>
    exact (h.other (l := [_,_]) (by simp [Timeless])).other (by simp [Timeless])
  | transmitNext i u w rest =>
    have h₁ := (h.other (l := [.ttyCompleted i,.woken (s.terminals i).writer (.written i)])
      (by simp [Timeless])).other (l := [.linked (s.terminals i).writer]) (by simp [Timeless])
    exact (h₁.other (l := [_]) (by simp [Timeless])).other (by simp [Timeless])
  | _ => exact h

/-- What the clock and the reasons of a state have in common. -/
structure ReasonOk (s : Kernel) : Prop where
  /-- The recorded ticks and delays agree with the clock. -/
  clock : ClockOk s.clockTicks s.log
  /-- Before the clock wraps around every blocked process has a reason. -/
  motivated : tickCount s.log<2^31 → AllMotivated s

/-- Every operation keeps the reasons of the blocked processes. -/
theorem op_reasonOk {b : Bool} (hc : Coherent M s) (h : ReasonOk s) (hop : Op M allow b s t) :
    ReasonOk t := by
  refine ⟨op_clockOk hc h.clock hop,fun ht => ?_⟩
  obtain ⟨l,hl,_⟩ := op_goes hc hop
  have hle : tickCount s.log<2^31 := by
    rw [hl,tickCount,List.countP_append] at ht
    unfold tickCount
    omega
  have hk : s.clockTicks<2^31 := by
    have := h.clock.count
    omega
  exact op_motivated hc hk (h.motivated hle) hop

/-- No process is blocked behind the boot. -/
theorem booted_reasonOk {b : Boot M} {p q : PcbPtr} {pfn : ℕ} {pfns : ℕ → ℕ} {m₁ m₂ m : Memory}
    {v : UserSpace} {u : UserContext} : ReasonOk (bootedKernel M b p q pfn pfns m₁ m₂ m v u) := by
  refine ⟨⟨rfl,Grounded.empty _⟩,fun _ x hx hb => ?_⟩
  dsimp only at hb
  rw [booted_running (booted_live.1 hx)] at hb
  cases hb

/-- In every state of every run of fewer than 2^31 ticks a process is blocked
exactly when it has one reason: a deadline, the flag of Wait, one queue, which
is its own and belongs to an existing object or a terminal, or the place of a
writer. A reason is lost only through its own event: the end of the delay at a
tick not before the deadline, the exit of a child, the removal from the queue,
or the completion of the write. -/
theorem reachable_reasons (h : Reachable M s) (ht : tickCount s.log<2^31) :
    (∀ p,s.live p=true → (s.state p=.blocked ↔ ∃! r,BlockedBy s p r) ∧
        (s.state p≠.blocked → ∀ r,¬BlockedBy s p r)) ∧
      (∀ q,∀ p∈s.queue q,s.live p=true ∧ (s.queue q).count p=1 ∧ s.blockQueue p=some q ∧
        QueueHome M s.objects q) ∧
      (∀ env input,input.Enabled s → env.switchOk=true →
        ∃ l,(kernelStep M env s input).log=s.log++l ∧ ∀ p r,s.live p=true → BlockedBy s p r →
          ¬BlockedBy (kernelStep M env s input) p r → LeftBy (s.delayUntil p) p l r) ∧
      ∀ past p deadline now,past++[.woken p (.delay deadline now)]<+:s.log →
        deadline≤now ∧ now=tickCount past%2^32 := by
  obtain ⟨hs,hr⟩ := reachable_invariant (P := ReasonOk)
    (fun b p q pfn pfns m₁ m₂ m v u hf => booted_reasonOk)
    (fun c s t hc hp hop => op_reasonOk hc hp hop) h
  have hm := hr.motivated ht
  refine ⟨fun p hp => ⟨hm.blocked_iff hs.block.reasons hp,?_⟩,fun q p hp => ?_,
    fun env input he hsw => ?_,fun past p deadline now hpre => hr.clock.due _ _ hpre⟩
  · exact fun hb r => hs.block.reasons.none hp hb r
  · exact ⟨hs.block.queue_live q p hp,List.count_eq_one_of_mem (hs.block.queue_nodup q) hp,
      hs.block.queue_link q p hp,hs.home q (List.ne_nil_of_mem hp)⟩
  · have hall : StepAllowed M (fun _ => True) s env input := fun _ _ => trivial
    obtain ⟨hops,_⟩ := kernelStep_done hs hsw he hall
    obtain ⟨l,hl,hk⟩ := ops_goes hs.toCoherent hops
    refine ⟨l,hl,fun p r hp hw hn => ?_⟩
    rcases hk p r hp hw with ⟨_,_,hb⟩|hg
    · exact absurd hb hn
    · exact hg

/-- A process sleeps for two ticks; behind the first it has one reason. -/
theorem reachable_reasons_delay : ∃ s,Reachable sampleMachine s ∧ s.state 2=.blocked ∧
    ∃! r,BlockedBy s 2 r := by
  obtain ⟨s,hr,hq⟩ := replay_reachable sampleBoot_user [callInput 7 2 0 0,resumeInput,tickInput]
    (fun s => s.live 2 && s.state 2=.blocked && tickCount s.log=1) (by decide +kernel)
  simp only [Bool.and_eq_true,decide_eq_true_eq] at hq
  obtain ⟨⟨hl,hb⟩,hticks⟩ := hq
  have hiff := ((reachable_reasons hr (by omega)).1 2 hl).1
  exact ⟨s,hr,hb,hiff.1 hb⟩

end Yalnix.BlockingReasons
