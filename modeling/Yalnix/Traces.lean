import Yalnix.RunInvariants

/-!
# Replayed runs

A list of inputs with the answers from outside is replayed from a state,
checking before each step that it can occur and meets a condition. The end of
a replay is a state of a run. A small machine with a boot and the inputs of
its processes makes such runs concrete.
-/

namespace Yalnix.Traces

open Framework FrameTable KernelState Scheduling Ipc Terminals ProcessLifetime ProgramLoading
open Syscalls Traps KernelStart

instance (s : Kernel) (input : Input) : Decidable (input.Enabled s) :=
  match input with
  | .trap _ => inferInstanceAs (Decidable (s.cpu=.user))
  | .resume => inferInstanceAs (Decidable (s.cpu=.kernel))

/-- Replay inputs whose steps can occur and pass a test. -/
def replay (M : Machine) (test : Kernel → Env → Input → Bool) :
    List (Env × Input) → Kernel → Option Kernel
  | [],s => some s
  | (env,input)::rest,s =>
    if input.Enabled s ∧ test s env input=true then replay M test rest (kernelStep M env s input)
    else none

/-- A replay from a state of a run ends in a state of the run. -/
theorem replay_run {M : Machine} {okBoot : Boot M → Prop} {ok : Kernel → Env → Input → Prop}
    {test : Kernel → Env → Input → Bool} (ht : ∀ s env input,test s env input=true → ok s env input)
    {l : List (Env × Input)} {s t : Kernel} (hs : Run M okBoot ok s)
    (hr : replay M test l s=some t) : Run M okBoot ok t := by
  induction l generalizing s with
  | nil =>
    injection hr with hr
    subst hr
    exact hs
  | cons x rest ih =>
    obtain ⟨env,input⟩ := x
    unfold replay at hr
    split at hr
    · rename_i hc
      exact ih (.step env input hs hc.1 (ht _ _ _ hc.2)) hr
    · cases hr

/-- The test that switching succeeds. -/
def switchTest (_ : Kernel) (env : Env) (_ : Input) : Bool := env.switchOk

/-- A replay with a decided property gives a state of a run that has it. -/
theorem replay_exists {M : Machine} (okBoot : Boot M → Prop) {ok : Kernel → Env → Input → Prop}
    {test : Kernel → Env → Input → Bool} (ht : ∀ s env input,test s env input=true → ok s env input)
    {b : Boot M} (hb : okBoot b) (hu : (kernelStart M b).cpu=.user) (l : List (Env × Input))
    (P : Kernel → Bool) (hp : (replay M test l (kernelStart M b)).any P=true) :
    ∃ s,Run M okBoot ok s ∧ P s=true := by
  cases hr : replay M test l (kernelStart M b) with
  | none => rw [hr] at hp; cases hp
  | some t =>
    rw [hr] at hp
    exact ⟨t,replay_run ht (.boot b hb hu) hr,hp⟩

/-- A replay in which every switch succeeds. -/
theorem replay_reachable {M : Machine} {b : Boot M} (hu : (kernelStart M b).cpu=.user)
    (l : List (Env × Input)) (P : Kernel → Bool)
    (hp : (replay M switchTest l (kernelStart M b)).any P=true) :
    ∃ s,Reachable M s ∧ P s=true :=
  replay_exists (fun _ => True) (fun _ _ _ h => h) trivial hu l P hp

/-- A machine with small pages and tables. -/
def sampleMachine : Machine where
  pageShift := 13
  maxPtLen := 128
  vmem1Base := 0x100000
  kernelStackBasePage := 126
  kernelStackPages := 2
  maxFrames := 2048
  maxProcs := 16
  numTerminals := 4
  terminalMaxLine := 1024
  pipeBufferLen := 256
  firstKernelTextPage := 0
  firstKernelDataPage := 20
  origKernelBrkPage := 40
  initialStackFrameSize := 64
  postArgvNullSpace := 1
  doIdle := 0x1000
  syscallOf := fun code =>
    if code=1 then .fork else if code=2 then .exec else if code=3 then .exit
    else if code=4 then .wait else if code=5 then .getPid else if code=6 then .brk
    else if code=7 then .delay else if code=8 then .ttyRead else if code=9 then .ttyWrite
    else if code=10 then .pipeInit else if code=11 then .pipeRead else if code=12 then .pipeWrite
    else if code=13 then .lockInit else if code=14 then .acquire else if code=15 then .release
    else .unsupported
  pageShift_word := by decide
  vmem1Limit_int := by decide
  vmem1Base_aligned := by decide
  vmem1Base_pos := by decide
  maxPtLen_pos := by decide
  terminalMaxLine_pos := by decide
  pipeBufferLen_pos := by decide
  origKernelBrkPage_pos := by decide

/-- The page counts of the sample files fit in a C int. -/
theorem sample_counts : ∀ c∈[(2 : ℤ),1,1],-2^31≤ c ∧ c<2^31 := by
  decide

/-- An executable with two text pages and two data pages. -/
def sampleImage : LoadInfo :=
  ⟨0x100000,0x100000,0,2,0x104000,0x4000,1,1,0x105000,0x108000,sample_counts,by decide⟩

/-- Answers that never fail, with the next block address and identifier. -/
def sampleEnv (pcbAddr : PcbPtr) (pid : ℤ) : Env where
  malloc := fun _ => true
  pcbAddr := pcbAddr
  junk := fun _ => 0
  newPid := pid
  cloneOk := true
  switchOk := true
  mem := fun i => UInt8.ofNat i
  cString := fun _ => []
  ptrArray := fun _ => []
  ttyReceive := 5
  ttyData := fun i => UInt8.ofNat (65+i)
  fileOpen := true
  loadInfo := some sampleImage
  fileRead := fun _ _ => some (fun _ => 0)

/-- Registers of a trap with up to three arguments. -/
def sampleContext (vector : TrapVector) (code : ℤ) (a b c : BitVec 32) : UserContext where
  vector := vector
  code := code
  addr := 0
  pc := 0
  sp := 0
  regs := fun i => if i=0 then a else if i=1 then b else if i=2 then c else 0

/-- Idle at address one, the initial process at address two. -/
def sampleBoot : Boot sampleMachine where
  uctxt := sampleContext .other 0 0 0 0
  frames := 256
  brkAtInit := 40
  brkAfterTable := 41
  brkAtBuild := 41
  idleEnv := sampleEnv 1 0
  initEnv := sampleEnv 2 1
  args := [[105]]
  contents := fun _ _ => 0
  brk_image := by decide
  brk_grows := by decide
  brk_grows_again := by decide

/-- The input of a clock trap. -/
def tickInput : Env × Input := (sampleEnv 0 0,.trap (sampleContext .clock 0 0 0 0))

/-- The input by which a saved kernel stack goes on. -/
def resumeInput : Env × Input := (sampleEnv 0 0,.resume)

/-- A fork that gets the given address and identifier. -/
def forkInput (pcbAddr : PcbPtr) (pid : ℤ) : Env × Input :=
  (sampleEnv pcbAddr pid,.trap (sampleContext .kernel 1 0 0 0))

/-- The input of a system call with its arguments. -/
def callInput (code : ℤ) (a b c : BitVec 32) : Env × Input :=
  (sampleEnv 0 0,.trap (sampleContext .kernel code a b c))

/-- A line of five bytes from terminal zero. -/
def lineInput : Env × Input := (sampleEnv 0 0,.trap (sampleContext .ttyReceive 0 0 0 0))

/-- The sample machine boots to user mode. -/
theorem sampleBoot_user : (kernelStart sampleMachine sampleBoot).cpu=.user := by decide +kernel

/-- The same machine with calls for condition variables and Reclaim. -/
def objectMachine : Machine := {sampleMachine with
  syscallOf := fun code =>
    if code=16 then .cvarInit else if code=17 then .cvarSignal else if code=18 then .cvarBroadcast
    else if code=19 then .cvarWait else if code=20 then .reclaim else sampleMachine.syscallOf code}

/-- It boots like the other. -/
def objectBoot : Boot objectMachine := {sampleBoot with
  brk_image := sampleBoot.brk_image
  brk_grows := sampleBoot.brk_grows
  brk_grows_again := sampleBoot.brk_grows_again}

/-- The machine with the small object table boots to user mode. -/
theorem objectBoot_user : (kernelStart objectMachine objectBoot).cpu=.user := by decide +kernel

end Yalnix.Traces
