import Yalnix.Traces

/-!
# Kernel entries

A run is watched together with the last kernel entry of each process: the
registers of its trap and the object table it found. A process created by a
trap starts with the entry of its parent. What a call returns is the result of
its function, be it in the step of the trap or in the step in which the saved
kernel stack continues.
-/

namespace Yalnix.KernelEntries

open Framework FrameTable KernelState Scheduling Ipc Terminals ProcessLifetime ProgramLoading
open Syscalls Traps KernelStart Traces

/-- What a process entered the kernel with. -/
structure Entry where
  /-- The registers at the trap. -/
  context : UserContext
  /-- The object table at the trap. -/
  objects : ℕ → IpcObject

/-- The entries behind a step. A trap is an entry of the current process and
of the process it creates, which did not exist before. -/
def entered (s : Kernel) (g : PcbPtr → Option Entry) : Input → PcbPtr → Option Entry
  | .trap u,p => if p=s.currentProcess ∨ s.live p=false then some ⟨u,s.objects⟩ else g p
  | .resume,p => g p

/-- Runs with the last entry of each process, none before its first trap. -/
inductive EntryRun (M : Machine) (ok : Kernel → Env → Input → Prop) :
    Kernel → (PcbPtr → Option Entry) → Prop
  /-- The state behind KernelStart. -/
  | boot (b : Boot M) (hu : (kernelStart M b).cpu=.user) :
      EntryRun M ok (kernelStart M b) (fun _ => none)
  /-- A run of entries goes on with one more step. -/
  | step {s : Kernel} {g : PcbPtr → Option Entry} (env : Env) (input : Input)
      (hr : EntryRun M ok s g) (he : input.Enabled s) (h : ok s env input) :
      EntryRun M ok (kernelStep M env s input) (entered s g input)

variable {M : Machine} {ok : Kernel → Env → Input → Prop} {s : Kernel}
  {g : PcbPtr → Option Entry}

/-- A watched run is a run. -/
theorem EntryRun.run (h : EntryRun M ok s g) : Run M (fun _ => True) ok s := by
  induction h with
  | boot b hu => exact .boot b trivial hu
  | step env input _ he hok ih => exact .step env input ih he hok

/-- Every run can be watched. -/
theorem entryRun_exists (h : Run M (fun _ => True) ok s) : ∃ g,EntryRun M ok s g := by
  induction h with
  | boot b _ hu => exact ⟨_,.boot b hu⟩
  | step env input _ he hok ih =>
    obtain ⟨g,hg⟩ := ih
    exact ⟨_,.step env input hg he hok⟩

/-- Replay inputs together with the entries. -/
def replayEntries (M : Machine) (test : Kernel → Env → Input → Bool) : List (Env × Input) →
    Kernel → (PcbPtr → Option Entry) → Option (Kernel × (PcbPtr → Option Entry))
  | [],s,g => some (s,g)
  | (env,input)::rest,s,g =>
    if input.Enabled s ∧ test s env input=true then
      replayEntries M test rest (kernelStep M env s input) (entered s g input)
    else none

/-- A replay from a state of a watched run ends in a state of the run. -/
theorem replayEntries_run {test : Kernel → Env → Input → Bool}
    (ht : ∀ s env input,test s env input=true → ok s env input) {l : List (Env × Input)}
    {r : Kernel × (PcbPtr → Option Entry)} (hs : EntryRun M ok s g)
    (hr : replayEntries M test l s g=some r) : EntryRun M ok r.1 r.2 := by
  induction l generalizing s g with
  | nil =>
    injection hr with hr
    subst hr
    exact hs
  | cons x rest ih =>
    obtain ⟨env,input⟩ := x
    unfold replayEntries at hr
    split at hr
    · rename_i hc
      exact ih (.step env input hs hc.1 (ht _ _ _ hc.2)) hr
    · cases hr

/-- A replay with a decided property gives a state of a watched run that has it. -/
theorem replayEntries_exists {test : Kernel → Env → Input → Bool}
    (ht : ∀ s env input,test s env input=true → ok s env input) (hs : EntryRun M ok s g)
    (l : List (Env × Input)) (P : Kernel → (PcbPtr → Option Entry) → Bool)
    (hp : (replayEntries M test l s g).any (fun r => P r.1 r.2)=true) :
    ∃ s g,EntryRun M ok s g ∧ P s g=true := by
  cases hr : replayEntries M test l s g with
  | none => rw [hr] at hp; cases hp
  | some r =>
    rw [hr] at hp
    exact ⟨r.1,r.2,replayEntries_run ht hs hr,hp⟩

/-- What the function of a call does with the registers of its trap. -/
def callFlow (M : Machine) (env : Env) (caller : PcbPtr) (u : UserContext) (s : Kernel) : Flow :=
  match M.syscallOf u.code with
  | .fork => sysFork M env caller u s
  | .exec => sysExec M env (u.ptr 0) (u.ptr 1) u s
  | .exit => .leaves (processExitCurrent M env (u.int 0) s)
  | .wait => sysWait M env caller (u.ptr 0) u s
  | .getPid => sysGetPid u s
  | .brk => sysBrk M (u.ptr 0) u s
  | .delay => sysDelay M env caller (u.int 0) u s
  | .ttyRead => sysTtyRead M env caller (u.int 0) (u.ptr 1) (u.int 2) u s
  | .ttyWrite => sysTtyWrite M env caller (u.int 0) (u.ptr 1) (u.int 2) u s
  | .pipeInit => sysPipeInit M env (u.ptr 0) u s
  | .pipeRead => sysPipeRead M env caller (u.int 0) (u.ptr 1) (u.int 2) u s
  | .pipeWrite => sysPipeWrite env (u.int 0) (u.ptr 1) (u.int 2) u s
  | .lockInit => sysLockInit (u.ptr 0) u s
  | .acquire => lockAcquire M env caller (u.int 0) u s
  | .release => sysRelease (u.int 0) u s
  | .cvarInit => sysCvarInit (u.ptr 0) u s
  | .cvarSignal => sysCvarSignal (u.int 0) u s
  | .cvarBroadcast => sysCvarBroadcast (u.int 0) u s
  | .cvarWait => sysCvarWait M env caller (u.int 0) (u.int 1) u s
  | .reclaim => sysReclaim (u.int 0) u s
  | .unsupported => .returns s u ERROR

/-- What the function of a stopped call does when it continues. Stacks that
are stopped outside a call leave no result. -/
def resumeFlow (M : Machine) (env : Env) (k : KernelContext) (s : Kernel) : Flow :=
  match k.point with
  | .fork child => sysForkReturn child (savedContext s) s
  | .wait statusPtr =>
    waitLoop M env k.caller statusPtr (savedContext s)
      {s with waitingForChild := Function.update s.waitingForChild s.currentProcess false}
  | .delay => .returns s (savedContext s) SUCCESS
  | .ttyRead t => ttyReadLoop M env k.caller t (savedContext s) s
  | .ttyWrite t len => ttyWriteResume t len (savedContext s) s
  | .pipeRead pipeId buf len _ => pipeReadLoop M env k.caller pipeId buf len (savedContext s) s
  | .acquire lockId _ => lockAcquireResume M env k.caller lockId (savedContext s) s
  | .cvarWait cvarId lockId _ _ => cvarWaitResume M env k.caller cvarId lockId (savedContext s) s
  | .executing => .leaves (continueAt M env k s)
  | .boot => .leaves (continueAt M env k s)
  | .clock => .leaves (continueAt M env k s)
  | .exited => .leaves (continueAt M env k s)

/-- The dispatcher puts the result of every call but Exec into the registers. -/
theorem syscallDispatch_finish (env : Env) (caller : PcbPtr) (u : UserContext)
    (h : M.syscallOf u.code≠.exec) :
    syscallDispatch M env caller u s=finish caller (callFlow M env caller u s) := by
  unfold syscallDispatch callFlow
  cases hc : M.syscallOf u.code with
  | exec => exact absurd hc h
  | _ => rfl

/-- A continued call puts its result into the registers. -/
theorem continueAt_finish (env : Env) (k : KernelContext) :
    continueAt M env k s=finish k.caller (resumeFlow M env k s) := by
  obtain ⟨caller,point⟩ := k
  cases point <;> rfl

/-- The value a call returns. -/
def flowResult : Flow → Option ℤ
  | .returns _ _ rc => some rc
  | .leaves _ => none

/-- The flow of the call that the current process makes or continues in a step. -/
def stepFlow (M : Machine) (env : Env) (s : Kernel) : Input → Flow
  | .trap u => callFlow M env s.currentProcess u (saveContext u s)
  | .resume => resumeFlow M env (s.kernelContext s.currentProcess)
      (s.setKernelContext s.currentProcess ⟨s.currentProcess,.executing⟩)

/-- The value that a call returns in a step, if it does. -/
def returnValue (M : Machine) (env : Env) (s : Kernel) (input : Input) : Option ℤ :=
  flowResult (stepFlow M env s input)

/-- A call returns in the step of its trap. -/
theorem trap_step {u : UserContext} (env : Env) (hv : u.vector=.kernel)
    (hx : M.syscallOf u.code≠.exec) :
    kernelStep M env s (.trap u)=finish s.currentProcess (stepFlow M env s (.trap u)) := by
  dsimp only [kernelStep,trap,stepFlow]
  rw [hv]
  exact syscallDispatch_finish env _ u hx

/-- A call returns in the step in which it continues. -/
theorem resume_step (env : Env) : kernelStep M env s .resume=
    finish (s.kernelContext s.currentProcess).caller (stepFlow M env s .resume) :=
  continueAt_finish env _

/-- Returning from a call changes registers only. -/
theorem finish_returns (caller : PcbPtr) (u : UserContext) (rc : ℤ) :
    ∃ c v,finish caller (.returns s u rc)={s with userContext := c, cpu := .user, uctxt := v} := by
  dsimp only [finish,trapKernelReturn]
  split
  · exact ⟨_,_,rfl⟩
  · split
    · exact ⟨_,_,rfl⟩
    · exact ⟨_,_,rfl⟩

/-- The objects that a stopped call has looked up by number are those of a
table, with the stamps it has kept. -/
def Denoted (objects : ℕ → IpcObject) : KernelPoint → Prop
  | .pipeRead id _ _ g => ∃ pipe,objects id.toNat=.pipe pipe ∧ pipe.opened=g
  | .acquire id g => ∃ l,objects id.toNat=.lock l ∧ l.opened=g
  | .cvarWait id lockId g g' => (∃ c,objects id.toNat=.cvar c ∧ c.opened=g) ∧
    ∃ l,objects lockId.toNat=.lock l ∧ l.opened=g'
  | _ => True

/-- The object of a table that an identifier denotes. -/
def lookup (objects : ℕ → IpcObject) (id : ℤ) : IpcObject :=
  if id<0 ∨ (IPC_MAX_OBJECTS : ℤ)≤ id then .free else objects id.toNat

/-- An identifier in the table. -/
theorem lookup_eq {objects : ℕ → IpcObject} {id : ℤ} (h0 : 0≤ id) (hm : id<IPC_MAX_OBJECTS) :
    lookup objects id=objects id.toNat := if_neg (by omega)

/-- Saving registers changes those of the current process. -/
theorem saveContext_current (u : UserContext) (h0 : s.currentProcess≠0) :
    saveContext u s=s.setUserContext s.currentProcess u := by
  unfold saveContext
  rw [if_pos h0]

end Yalnix.KernelEntries
