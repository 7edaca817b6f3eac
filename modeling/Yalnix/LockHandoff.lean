import Yalnix.History
import Yalnix.Traces

/-!
# Lock mutual exclusion and direct hand-off

Locks are named by the stamp of their creation. A process holds a lock from
the return of Acquire or CvarWait until its release or exit, which the log
records. Ownership runs ahead of this: a lock handed over belongs to a process
that has not yet returned. The history of every lock agrees with its owner,
its waiters and the saved kernel stack of the owner.
-/

namespace Yalnix.LockHandoff

open Framework FrameTable KernelState Scheduling Ipc Terminals ProcessLifetime ProgramLoading
open Syscalls Traps KernelStart Coherence Operations OperationCoherence CallOperations
open RunInvariants History Traces

variable {M : Machine} {allow : Label → Prop} {s t : Kernel} {saved : PcbPtr → KernelContext}
  {queue : QueueAddr → List PcbPtr} {objects : ℕ → IpcObject} {stamp stamp' : ℕ}
  {log l : List Event} {waiters : List PcbPtr} {lock : LockState} {p w : PcbPtr} {g i : ℕ}
  {k : KernelContext} {e : Event}

/-- The acquirer of a lock that an event records as blocked. -/
def blockedOn (g : ℕ) : Event → List PcbPtr
  | .lockBlocked opened p => if opened=g then [p] else []
  | _ => []

/-- The waiter that an event hands a lock to. -/
def grantedOn (g : ℕ) : Event → List PcbPtr
  | .lockGranted opened p => if opened=g then [p] else []
  | _ => []

/-- The acquirer that returns with a lock after having waited. -/
def resumedOn (g : ℕ) : Event → List PcbPtr
  | .lockResumed opened p => if opened=g then [p] else []
  | _ => []

/-- How an event changes the holders of a lock. -/
def holdersStep (g : ℕ) (holders : List PcbPtr) : Event → List PcbPtr
  | .lockTaken opened p => if opened=g then holders++[p] else holders
  | .lockResumed opened p => if opened=g then holders++[p] else holders
  | .lockReleased opened p => if opened=g then holders.filter (·≠p) else holders
  | .exited p _ _ _ => holders.filter (·≠p)
  | _ => holders

/-- The processes that hold a lock: they have returned with it and have
neither given it back nor exited. -/
def holders (g : ℕ) (log : List Event) : List PcbPtr := log.foldl (holdersStep g) []

/-- Whether a kernel stack is stopped in the acquisition of a lock. -/
def acquiring (k : KernelContext) (g : ℕ) : Bool :=
  match k.point with
  | .acquire _ opened => opened=g
  | _ => false

/-- The owner of a lock that has not yet returned with it. -/
def pending (saved : PcbPtr → KernelContext) (lock : LockState) : List PcbPtr :=
  if lock.owner≠0 ∧ acquiring (saved lock.owner) lock.opened=true then [lock.owner] else []

/-- The owner of a lock that has returned with it. -/
def holder (saved : PcbPtr → KernelContext) (lock : LockState) : List PcbPtr :=
  if lock.owner≠0 ∧ acquiring (saved lock.owner) lock.opened=false then [lock.owner] else []

/-- The history of a lock agrees with its waiters and its owner. -/
structure LockSeen (saved : PcbPtr → KernelContext) (waiters : List PcbPtr) (lock : LockState)
    (log : List Event) : Prop where
  /-- Blocked acquirers are granted the lock in order. -/
  waiting : InOrder (blockedOn lock.opened) (grantedOn lock.opened) log waiters
  /-- Granted acquirers return in order. -/
  granted : InOrder (grantedOn lock.opened) (resumedOn lock.opened) log (pending saved lock)
  /-- The holder is an owner that has returned. -/
  held : holders lock.opened log=holder saved lock

/-- Events that say nothing about a lock. -/
def Foreign (g : ℕ) : Event → Prop
  | .lockBlocked opened _ => opened≠g
  | .lockGranted opened _ => opened≠g
  | .lockTaken opened _ => opened≠g
  | .lockResumed opened _ => opened≠g
  | .lockReleased opened _ => opened≠g
  | .exited _ _ _ _ => False
  | _ => True

/-- The holders of a lock behind one more event. -/
theorem holders_append (g : ℕ) (log : List Event) (e : Event) :
    holders g (log++[e])=holdersStep g (holders g log) e := by
  unfold holders
  rw [List.foldl_append]
  rfl

/-- An event of another lock adds nothing to the history of this one. -/
theorem foreign_step (h : Foreign g e) : blockedOn g e=[] ∧ grantedOn g e=[] ∧ resumedOn g e=[] ∧
    ∀ hs,holdersStep g hs e=hs := by
  cases e with
  | exited p b r st => exact h.elim
  | lockBlocked opened p => simp [blockedOn,grantedOn,resumedOn,holdersStep,show opened≠g from h]
  | lockGranted opened p => simp [blockedOn,grantedOn,resumedOn,holdersStep,show opened≠g from h]
  | lockTaken opened p => simp [blockedOn,grantedOn,resumedOn,holdersStep,show opened≠g from h]
  | lockResumed opened p => simp [blockedOn,grantedOn,resumedOn,holdersStep,show opened≠g from h]
  | lockReleased opened p => simp [blockedOn,grantedOn,resumedOn,holdersStep,show opened≠g from h]
  | _ => exact ⟨rfl,rfl,rfl,fun _ => rfl⟩

/-- A foreign event leaves the history of a lock alone. -/
theorem LockSeen.foreign (h : LockSeen saved waiters lock log) (he : Foreign lock.opened e) :
    LockSeen saved waiters lock (log++[e]) := by
  obtain ⟨hb,hg,hr,hs⟩ := foreign_step he
  refine ⟨h.waiting.other (by simp [hb]) (by simp [hg]),h.granted.other (by simp [hg])
    (by simp [hr]),
    ?_⟩
  rw [holders_append,hs]
  exact h.held

/-- A stack is saved that matters neither before nor after. -/
theorem LockSeen.setSaved (h : LockSeen saved waiters lock log)
    (hp : lock.owner=p → acquiring (saved p) lock.opened=acquiring k lock.opened) :
    LockSeen (Function.update saved p k) waiters lock log := by
  have he : acquiring (Function.update saved p k lock.owner) lock.opened=
      acquiring (saved lock.owner) lock.opened := by
    by_cases ho : lock.owner=p
    · rw [ho,Function.update_self,hp ho]
    · rw [Function.update_of_ne ho]
  refine ⟨h.waiting,?_,?_⟩
  · rw [pending,he]
    exact h.granted
  · rw [holder,he]
    exact h.held

/-- An exit of a process that does not own the lock. -/
theorem LockSeen.exit {b : ℕ} {r : PcbPtr} {n : ℤ} (h : LockSeen saved waiters lock log)
    (hp : lock.owner≠p) : LockSeen saved waiters lock (log++[.exited p b r n]) := by
  refine ⟨h.waiting.other rfl rfl,h.granted.other rfl rfl,?_⟩
  rw [holders_append,h.held]
  change (holder saved lock).filter (·≠p)=holder saved lock
  unfold holder
  split
  · simp [hp]
  · rfl

/-- A lock without owner has no holder and hands over nothing. -/
theorem pending_free (saved : PcbPtr → KernelContext) (h : lock.owner=0) :
    pending saved lock=[] ∧ holder saved lock=[] := by
  simp [pending,holder,h]

/-- An owner that has returned. -/
theorem pending_held (h0 : lock.owner≠0) (ha : acquiring (saved lock.owner) lock.opened=false) :
    pending saved lock=[] ∧ holder saved lock=[lock.owner] := by
  simp [pending,holder,h0,ha]

/-- An owner that has not returned. -/
theorem pending_granted (h0 : lock.owner≠0) (ha : acquiring (saved lock.owner) lock.opened=true) :
    pending saved lock=[lock.owner] ∧ holder saved lock=[] := by
  simp [pending,holder,h0,ha]

/-- An acquirer that blocks is the last of the waiters. -/
theorem LockSeen.block (h : LockSeen saved waiters lock log) :
    LockSeen saved (waiters++[p]) lock (log++[.lockBlocked lock.opened p]) := by
  refine ⟨h.waiting.push (by simp [blockedOn]) rfl,h.granted.other rfl rfl,?_⟩
  rw [holders_append]
  exact h.held

/-- A free lock is taken. -/
theorem LockSeen.take (h : LockSeen saved waiters lock log) (h0 : lock.owner=0) (hp : p≠0)
    (ha : acquiring (saved p) lock.opened=false) :
    LockSeen saved waiters {lock with owner := p} (log++[.lockTaken lock.opened p]) := by
  have hf := pending_free saved h0
  have hh : pending saved {lock with owner := p}=[] ∧ holder saved {lock with owner := p}=[p] :=
    pending_held hp ha
  refine ⟨h.waiting.other rfl rfl,?_,?_⟩
  · rw [hh.1,←hf.1]
    exact h.granted.other rfl rfl
  · rw [hh.2,holders_append,h.held,hf.2]
    simp [holdersStep]

/-- The owner gives the lock up. -/
theorem LockSeen.release (h : LockSeen saved waiters lock log) (h0 : lock.owner≠0)
    (ha : acquiring (saved lock.owner) lock.opened=false) :
    LockSeen saved waiters {lock with owner := 0}
      (log++[.lockReleased lock.opened lock.owner]) := by
  have hf : pending saved {lock with owner := 0}=[] ∧ holder saved {lock with owner := 0}=[] :=
    pending_free saved rfl
  have hh := pending_held h0 ha
  refine ⟨h.waiting.other rfl rfl,?_,?_⟩
  · rw [hf.1,←hh.1]
    exact h.granted.other rfl rfl
  · rw [hf.2,holders_append,h.held,hh.2]
    simp [holdersStep]

/-- A free lock is handed to its first waiter. -/
theorem LockSeen.grant (h : LockSeen saved (w::waiters) lock log) (h0 : lock.owner=0) (hw : w≠0)
    (ha : acquiring (saved w) lock.opened=true) :
    LockSeen saved waiters {lock with owner := w} (log++[.lockGranted lock.opened w]) := by
  have hf := pending_free saved h0
  have hh : pending saved {lock with owner := w}=[w] ∧ holder saved {lock with owner := w}=[] :=
    pending_granted hw ha
  refine ⟨InOrder.pop (l := [w]) h.waiting rfl (by simp [grantedOn]),?_,?_⟩
  · have hg := h.granted
    rw [hf.1] at hg
    rw [hh.1]
    exact hg.push (by simp [grantedOn]) rfl
  · rw [hh.2,holders_append]
    exact h.held.trans hf.2

/-- The owner returns with the lock. -/
theorem LockSeen.resume (h : LockSeen saved waiters lock log) (h0 : lock.owner≠0)
    (ha : acquiring (saved lock.owner) lock.opened=true) (hk : acquiring k lock.opened=false) :
    LockSeen (Function.update saved lock.owner k) waiters lock
      (log++[.lockResumed lock.opened lock.owner]) := by
  have hb := pending_granted h0 ha
  have hh : pending (Function.update saved lock.owner k) lock=[] ∧
      holder (Function.update saved lock.owner k) lock=[lock.owner] :=
    pending_held h0 (by rw [Function.update_self]; exact hk)
  refine ⟨h.waiting.other rfl rfl,?_,?_⟩
  · have hg := h.granted
    rw [hb.1] at hg
    rw [hh.1]
    exact InOrder.pop (l := [lock.owner]) hg rfl (by simp [resumedOn])
  · rw [hh.2,holders_append,h.held,hb.2]
    simp [holdersStep]

/-- A lock is taken without waiting only when every waiter has returned. -/
def Fair (past : List Event) : Event → Prop
  | .lockTaken g _ => past.flatMap (blockedOn g)=past.flatMap (resumedOn g)
  | _ => True

/-- No lock has two holders behind an event. -/
def Exclusive (past : List Event) (e : Event) : Prop := ∀ g,(holders g (past++[e])).length≤1

/-- The history of all locks. -/
structure LockLogOk (saved : PcbPtr → KernelContext) (queue : QueueAddr → List PcbPtr)
    (objects : ℕ → IpcObject) (stamp : ℕ) (log : List Event) : Prop where
  /-- Creation stamps have been used. -/
  opened : ∀ i lock,objects i=.lock lock → lock.opened< stamp
  /-- Locks have different creation stamps. -/
  distinct : ∀ i j lock lock',objects i=.lock lock → objects j=.lock lock' →
    lock.opened=lock'.opened → i=j
  /-- The history of every lock in the table agrees with its state. -/
  seen : ∀ i lock,objects i=.lock lock → LockSeen saved (queue (.lockWaiters i)) lock log
  /-- Locks that do not exist have neither waiters nor holders. -/
  closed : ∀ g,(∀ i lock,objects i=.lock lock → lock.opened≠g) → LockSeen saved [] ⟨0,g⟩ log
  /-- Nobody overtakes a waiter. -/
  fair : Grounded Fair log
  /-- A lock is granted only when nobody holds it. -/
  exclusive : Grounded Exclusive log

/-- A lock has at most one holder. -/
theorem holders_le
    (hs : ∀ i lock,objects i=.lock lock → LockSeen saved (queue (.lockWaiters i)) lock log)
    (hc : ∀ g,(∀ i lock,objects i=.lock lock → lock.opened≠g) → LockSeen saved [] ⟨0,g⟩ log)
    (g : ℕ) : (holders g log).length≤1 := by
  have hle : ∀ lock,(holder saved lock).length≤1 := by
    intro lock
    unfold holder
    split
    · exact Nat.le_refl 1
    · exact Nat.zero_le 1
  by_cases hg : ∃ i lock,objects i=.lock lock ∧ lock.opened=g
  · obtain ⟨i,lock,ho,rfl⟩ := hg
    rw [(hs i lock ho).held]
    exact hle lock
  · have hcl := (hc g (fun i lock ho he => hg ⟨i,lock,ho,he⟩)).held
    rw [hcl]
    exact hle _

/-- An event that says nothing about any lock. -/
theorem LockLogOk.note (h : LockLogOk saved queue objects stamp log) (he : ∀ g,Foreign g e) :
    LockLogOk saved queue objects stamp (log++[e]) := by
  have hs : ∀ i lock,objects i=.lock lock →
      LockSeen saved (queue (.lockWaiters i)) lock (log++[e]) :=
    fun i lock ho => (h.seen i lock ho).foreign (he _)
  have hc : ∀ g,(∀ i lock,objects i=.lock lock → lock.opened≠g) →
      LockSeen saved [] ⟨0,g⟩ (log++[e]) := fun g hg => (h.closed g hg).foreign (he g)
  refine ⟨h.opened,h.distinct,hs,hc,h.fair.record ?_,h.exclusive.record (holders_le hs hc)⟩
  cases e with
  | lockTaken opened p => exact absurd rfl (he opened)
  | _ => trivial

/-- Events that say nothing about any lock. -/
theorem LockLogOk.other (h : LockLogOk saved queue objects stamp log)
    (hl : ∀ e∈l,∀ g,Foreign g e) : LockLogOk saved queue objects stamp (log++l) := by
  induction l generalizing log with
  | nil => rwa [List.append_nil]
  | cons e rest ih =>
    have h₁ := ih (h.note (hl e List.mem_cons_self))
      (fun e' he => hl e' (List.mem_cons_of_mem e he))
    rwa [List.append_assoc] at h₁

/-- A process that owns no lock exits. -/
theorem LockLogOk.exit {b : ℕ} {r : PcbPtr} {n : ℤ} (h : LockLogOk saved queue objects stamp log)
    (h0 : p≠0) (hp : ∀ i lock,objects i=.lock lock → lock.owner≠p) :
    LockLogOk saved queue objects stamp (log++[.exited p b r n]) := by
  have hs : ∀ i lock,objects i=.lock lock →
      LockSeen saved (queue (.lockWaiters i)) lock (log++[.exited p b r n]) :=
    fun i lock ho => (h.seen i lock ho).exit (hp i lock ho)
  have hc : ∀ g,(∀ i lock,objects i=.lock lock → lock.opened≠g) →
      LockSeen saved [] ⟨0,g⟩ (log++[.exited p b r n]) :=
    fun g hg => (h.closed g hg).exit h0.symm
  exact ⟨h.opened,h.distinct,hs,hc,h.fair.record trivial,h.exclusive.record (holders_le hs hc)⟩

/-- A process saves a stack that matters neither before nor after. -/
theorem LockLogOk.setSaved (h : LockLogOk saved queue objects stamp log) (h0 : p≠0)
    (hp : ∀ i lock,objects i=.lock lock → lock.owner=p →
      acquiring (saved p) lock.opened=acquiring k lock.opened) :
    LockLogOk (Function.update saved p k) queue objects stamp log :=
  {h with
    seen := fun i lock ho => (h.seen i lock ho).setSaved (hp i lock ho)
    closed := fun g hg => (h.closed g hg).setSaved (fun he => absurd he.symm h0)}

/-- A queue of something else changes. -/
theorem LockLogOk.setQueue {q : QueueAddr} (h : LockLogOk saved queue objects stamp log)
    (hq : ∀ i,.lockWaiters i≠q) :
    LockLogOk saved (Function.update queue q waiters) objects stamp log :=
  {h with
    seen := fun i lock ho => by
      rw [Function.update_of_ne (hq i)]
      exact h.seen i lock ho}

/-- A stamp is used for something else. -/
theorem LockLogOk.setStamp (h : LockLogOk saved queue objects stamp log) (hs : stamp≤ stamp') :
    LockLogOk saved queue objects stamp' log :=
  {h with opened := fun i lock ho => lt_of_lt_of_le (h.opened i lock ho) hs}

/-- Something else than a lock is replaced by something else. -/
theorem LockLogOk.setObject {o : IpcObject} (h : LockLogOk saved queue objects stamp log)
    (hi : ∀ lock,objects i≠.lock lock) (hn : ∀ lock,o≠.lock lock) :
    LockLogOk saved queue (Function.update objects i o) stamp log := by
  have hu : ∀ j lock,Function.update objects i o j=.lock lock ↔ objects j=.lock lock := by
    intro j lock
    by_cases he : j=i
    · subst he
      rw [Function.update_self]
      exact ⟨fun ho => absurd ho (hn lock),fun ho => absurd ho (hi lock)⟩
    · rw [Function.update_of_ne he]
  exact {h with
    opened := fun j lock ho => h.opened j lock ((hu j lock).1 ho)
    distinct := fun j j' lock lock' ho ho' =>
      h.distinct j j' lock lock' ((hu j lock).1 ho) ((hu j' lock').1 ho')
    seen := fun j lock ho => h.seen j lock ((hu j lock).1 ho)
    closed := fun g hg => h.closed g (fun j lock ho => hg j lock ((hu j lock).2 ho))}

/-- A new lock has an empty history under its stamp. -/
theorem LockLogOk.create (h : LockLogOk saved queue objects stamp log)
    (hi : ∀ lock,objects i≠.lock lock) :
    LockLogOk saved (Function.update queue (.lockWaiters i) [])
      (Function.update objects i (.lock ⟨0,stamp⟩)) (stamp+1) log := by
  have hu : ∀ j lock,Function.update objects i (.lock ⟨0,stamp⟩) j=.lock lock →
      (j=i ∧ lock=⟨0,stamp⟩) ∨ (j≠i ∧ objects j=.lock lock) := by
    intro j lock ho
    by_cases he : j=i
    · rw [he,Function.update_self] at ho
      injection ho with ho
      exact .inl ⟨he,ho.symm⟩
    · rw [Function.update_of_ne he] at ho
      exact .inr ⟨he,ho⟩
  exact {h with
    opened := fun j lock ho => by
      rcases hu j lock ho with ⟨_,rfl⟩|⟨_,ho⟩
      · exact Nat.lt_succ_self stamp
      · exact Nat.lt_succ_of_lt (h.opened j lock ho)
    distinct := fun j j' lock lock' ho ho' he => by
      rcases hu j lock ho with ⟨hj,rfl⟩|⟨_,ho⟩
      · rcases hu j' lock' ho' with ⟨hj',_⟩|⟨_,ho'⟩
        · rw [hj,hj']
        · exact absurd he (Nat.ne_of_gt (h.opened j' lock' ho'))
      · rcases hu j' lock' ho' with ⟨_,rfl⟩|⟨_,ho'⟩
        · exact absurd he (Nat.ne_of_lt (h.opened j lock ho))
        · exact h.distinct j j' lock lock' ho ho' he
    seen := fun j lock ho => by
      rcases hu j lock ho with ⟨rfl,rfl⟩|⟨hj,ho⟩
      · rw [Function.update_self]
        exact h.closed stamp (fun j lock ho => Nat.ne_of_lt (h.opened j lock ho))
      · rw [Function.update_of_ne (by simpa using hj)]
        exact h.seen j lock ho
    closed := fun g hg => by
      refine h.closed g (fun j lock ho => hg j lock ?_)
      have hj : j≠i := by
        rintro rfl
        exact hi lock ho
      rw [Function.update_of_ne hj]
      exact ho}

/-- A lock without owner and waiters is destroyed. -/
theorem LockLogOk.destroy (h : LockLogOk saved queue objects stamp log)
    (ho : objects i=.lock lock) (h0 : lock.owner=0) (hq : queue (.lockWaiters i)=[]) :
    LockLogOk saved queue (Function.update objects i .free) stamp log := by
  have hu : ∀ j lock,Function.update objects i .free j=.lock lock → objects j=.lock lock := by
    intro j lock hj
    by_cases he : j=i
    · rw [he,Function.update_self] at hj
      cases hj
    · rwa [Function.update_of_ne he] at hj
  exact {h with
    opened := fun j lock' hj => h.opened j lock' (hu j lock' hj)
    distinct := fun j j' lock₁ lock₂ hj hj' =>
      h.distinct j j' lock₁ lock₂ (hu j lock₁ hj) (hu j' lock₂ hj')
    seen := fun j lock' hj => h.seen j lock' (hu j lock' hj)
    closed := fun g hg => by
      by_cases he : lock.opened=g
      · have hs := h.seen i lock ho
        rw [hq] at hs
        subst he
        rw [←h0]
        exact hs
      · refine h.closed g (fun j lock' hj hjg => ?_)
        by_cases hji : j=i
        · rw [hji,ho] at hj
          injection hj with hj
          rw [←hj] at hjg
          exact he hjg
        · exact hg j lock' (by rw [Function.update_of_ne hji]; exact hj) hjg}

/-- One lock changes with an event of its own. -/
theorem LockLogOk.change {saved' : PcbPtr → KernelContext}
    (h : LockLogOk saved queue objects stamp log) (ho : objects i=.lock lock) (lock' : LockState)
    (hn : lock'.opened=lock.opened) (hs : LockSeen saved' waiters lock' (log++[e]))
    (he : ∀ g,g≠lock.opened → Foreign g e)
    (hk : ∀ lock₁ waiters,lock₁.opened≠lock.opened → LockSeen saved waiters lock₁ log →
      LockSeen saved' waiters lock₁ log)
    (hf : Fair log e) :
    LockLogOk saved' (Function.update queue (.lockWaiters i) waiters)
      (Function.update objects i (.lock lock')) stamp (log++[e]) := by
  have hu : ∀ j lock₁,Function.update objects i (.lock lock') j=.lock lock₁ →
      (j=i ∧ lock₁=lock') ∨ (j≠i ∧ objects j=.lock lock₁) := by
    intro j lock₁ hj
    by_cases hji : j=i
    · rw [hji,Function.update_self] at hj
      injection hj with hj
      exact .inl ⟨hji,hj.symm⟩
    · rw [Function.update_of_ne hji] at hj
      exact .inr ⟨hji,hj⟩
  have hseen : ∀ j lock₁,Function.update objects i (.lock lock') j=.lock lock₁ →
      LockSeen saved' (Function.update queue (.lockWaiters i) waiters (.lockWaiters j)) lock₁
        (log++[e]) := by
    intro j lock₁ hj
    rcases hu j lock₁ hj with ⟨rfl,rfl⟩|⟨hji,hj⟩
    · rw [Function.update_self]
      exact hs
    · have hne : lock₁.opened≠lock.opened := fun hop => hji (h.distinct j i lock₁ lock hj ho hop)
      rw [Function.update_of_ne (by simpa using hji)]
      exact (hk lock₁ _ hne (h.seen j lock₁ hj)).foreign (he _ hne)
  have hclosed : ∀ g,(∀ j lock₁,Function.update objects i (.lock lock') j=.lock lock₁ →
      lock₁.opened≠g) → LockSeen saved' [] ⟨0,g⟩ (log++[e]) := by
    intro g hg
    have hne : g≠lock.opened := by
      rintro rfl
      exact hg i lock' (Function.update_self ..) hn
    refine LockSeen.foreign (hk _ _ hne (h.closed g (fun j lock₁ hj hjg => ?_))) (he g hne)
    by_cases hji : j=i
    · rw [hji,ho] at hj
      injection hj with hj
      rw [←hj] at hjg
      exact hne hjg.symm
    · exact hg j lock₁ (by rw [Function.update_of_ne hji]; exact hj) hjg
  refine ⟨fun j lock₁ hj => ?_,fun j j' lock₁ lock₂ hj hj' hop => ?_,hseen,hclosed,
    h.fair.record hf,h.exclusive.record (holders_le hseen hclosed)⟩
  · rcases hu j lock₁ hj with ⟨_,rfl⟩|⟨_,hj⟩
    · rw [hn]
      exact h.opened i lock ho
    · exact h.opened j lock₁ hj
  · rcases hu j lock₁ hj with ⟨hji,hl⟩|⟨_,hj⟩
    · rw [hl] at hop
      rcases hu j' lock₂ hj' with ⟨hji',_⟩|⟨_,hj'⟩
      · rw [hji,hji']
      · rw [hji]
        exact h.distinct _ _ lock lock₂ ho hj' (hn.symm.trans hop)
    · rcases hu j' lock₂ hj' with ⟨hji',hl⟩|⟨_,hj'⟩
      · rw [hl] at hop
        rw [hji']
        exact h.distinct _ _ lock₁ lock hj ho (hop.trans hn)
      · exact h.distinct j j' lock₁ lock₂ hj hj' hop

/-- The history of the locks of a state. -/
abbrev LockLog (s : Kernel) : Prop :=
  LockLogOk s.kernelContext s.queue s.objects s.stamp s.log

/-- A stack that is not stopped in Acquire acquires nothing. -/
theorem acquiring_false (h : ∀ id g,k.point≠.acquire id g) (g : ℕ) : acquiring k g=false := by
  unfold acquiring
  cases hk : k.point with
  | acquire id opened => exact absurd hk (h id opened)
  | _ => rfl

/-- The current process saves a stack that is not stopped in Acquire. -/
theorem lockLog_save (hc : Coherent M s) (h : LockLog s)
    (ha : ∀ id g,(s.kernelContext s.currentProcess).point≠.acquire id g)
    (hk : ∀ id g,k.point≠.acquire id g) :
    LockLogOk (Function.update s.kernelContext s.currentProcess k) s.queue s.objects s.stamp
      s.log :=
  h.setSaved (hc.ready.ne_null hc.ready.current_live)
    (fun _ _ _ _ => (acquiring_false ha _).trans (acquiring_false hk _).symm)

/-- The stack of a block that is not in use does not matter. -/
theorem lockLog_unused (hc : Coherent M s) (h : LockLog s) (hl : s.live p=false) (h0 : p≠0) :
    LockLogOk (Function.update s.kernelContext p k) s.queue s.objects s.stamp s.log := by
  refine h.setSaved h0 (fun i lock ho hp => ?_)
  have hlive := (hc.owner.owner i lock ho (by rw [hp]; exact h0)).1
  rw [hp,hl] at hlive
  cases hlive

/-- LockAcquire that blocks keeps the histories of all locks. -/
theorem lockLog_blockOnLock (hc : Coherent M s) (h : LockLog s) (ha : Active s) {id : ℤ}
    (ho : s.objects i=.lock lock) (hn : lock.owner≠s.currentProcess)
    (hk : k.point=.acquire id lock.opened) (u : UserContext) :
    LockLog (blockOnLock i lock k u s) := by
  have hsaved : LockLogOk (Function.update s.kernelContext s.currentProcess k) s.queue s.objects
      s.stamp s.log := by
    refine h.setSaved (hc.ready.ne_null hc.ready.current_live) (fun j lock' hj hp => ?_)
    rw [acquiring_false ha.not_acquire]
    have hne : lock.opened≠lock'.opened := by
      intro he
      have hij := h.distinct i j lock lock' ho hj he
      rw [←hij,ho] at hj
      injection hj with hj
      rw [←hj] at hp
      exact hn hp
    simp [acquiring,hk,hne]
  have hch := hsaved.change ho lock rfl ((hsaved.seen i lock ho).block
    (p := s.currentProcess)) (fun g hg => hg.symm) (fun _ _ _ hs => hs) trivial
  have hsame : Function.update s.objects i (.lock lock)=s.objects := by
    rw [←ho]
    exact Function.update_eq_self ..
  rw [hsame] at hch
  exact hch

/-- The owner gives a lock up. -/
theorem lockLog_release (hc : Coherent M s) (h : LockLog s) (ha : Active s)
    (ho : s.objects i=.lock lock) (how : lock.owner=s.currentProcess) :
    LockLog (clearOwner i lock s) := by
  have h0 : lock.owner≠0 := by
    rw [how]
    exact hc.ready.ne_null hc.ready.current_live
  have hch := h.change ho {lock with owner := 0} rfl
    ((h.seen i lock ho).release h0 (by rw [how]; exact acquiring_false ha.not_acquire _))
    (fun g hg => hg.symm) (fun _ _ _ hs => hs) trivial
  rw [Function.update_eq_self] at hch
  exact hch

/-- A lock is handed to its first waiter. -/
theorem lockLog_handOff (hc : Coherent M s) (h : LockLog s) (ha : Active s) {rest : List PcbPtr}
    (u : UserContext) (ho : s.objects i=.lock lock) (how : lock.owner=s.currentProcess)
    (hq : s.queue (.lockWaiters i)=w::rest) :
    LockLog (grantLock i lock w (markReady {clearOwner i lock s with
      queue := Function.update s.queue (.lockWaiters i) rest
      blockQueue := Function.update s.blockQueue w none
      userContext := Function.update s.userContext w u
      log := s.log++[.lockReleased lock.opened lock.owner,
        .woken w (.pop (.lockWaiters i))]} w)) := by
  have hw : w∈s.queue (.lockWaiters i) := by
    rw [hq]
    exact List.mem_cons_self
  have hlive := hc.block.queue_live _ w hw
  have hacq : acquiring (s.kernelContext w) lock.opened=true := by
    obtain ⟨id,g,hk,hid⟩ := hc.lock.queued i w hw
    obtain ⟨_,_,lock',ho',hg,_⟩ := hc.lock.acquirer w id g hlive hk
    rw [hid,ho] at ho'
    injection ho' with ho'
    rw [←ho'] at hg
    simp [acquiring,hk,hg]
  have h₁ := (lockLog_release hc h ha ho how).other (l := [.woken w (.pop (.lockWaiters i)),
    .linked w]) (by simp [Foreign])
  have hseen := h₁.seen i {lock with owner := 0} (Function.update_self ..)
  have hqc : (clearOwner i lock s).queue (.lockWaiters i)=w::rest := hq
  rw [hqc] at hseen
  have h₂ := h₁.change (Function.update_self ..) {lock with owner := w} rfl
    (hseen.grant rfl (hc.ready.ne_null hlive) hacq) (fun g hg => hg.symm) (fun _ _ _ hs => hs)
    trivial
  have hlog : (clearOwner i lock s).log++[.woken w (.pop (.lockWaiters i)),.linked w]++
      [.lockGranted lock.opened w]=s.log++[.lockReleased lock.opened lock.owner,
        .woken w (.pop (.lockWaiters i))]++[.linked w]++[.lockGranted lock.opened w] := by
    simp [clearOwner]
  rw [hlog] at h₂
  exact h₂

/-- A free lock is taken. -/
theorem lockLog_takeLock (hc : Coherent M s) (h : LockLog s) (ha : Active s)
    (ho : s.objects i=.lock lock) (h0 : lock.owner=0) : LockLog (takeLock i lock s) := by
  have hq : s.queue (.lockWaiters i)=[] := by
    by_contra hne
    exact hc.lock.owned i lock ho hne h0
  have hseen := h.seen i lock ho
  have hf : Fair s.log (.lockTaken lock.opened s.currentProcess) := by
    have hw := hseen.waiting
    have hg := hseen.granted
    rw [hq] at hw
    rw [(pending_free _ h0).1] at hg
    unfold InOrder at hw hg
    rw [List.append_nil] at hw hg
    exact hw.trans hg
  have hch := h.change ho {lock with owner := s.currentProcess} rfl
    (hseen.take h0 (hc.ready.ne_null hc.ready.current_live) (acquiring_false ha.not_acquire _))
    (fun g hg => hg.symm) (fun _ _ _ hs => hs) hf
  rw [Function.update_eq_self] at hch
  exact hch

/-- An acquirer returns with the lock that was handed to it. -/
theorem lockLog_resume (hc : Coherent M s) (h : LockLog s) {id : ℤ}
    (hk : (s.kernelContext s.currentProcess).point=.acquire id lock.opened)
    (ho : s.objects i=.lock lock) (how : lock.owner=s.currentProcess) :
    LockLog ((s.setKernelContext s.currentProcess ⟨s.currentProcess,.executing⟩).emit
      (.lockResumed lock.opened s.currentProcess)) := by
  have h0 := hc.ready.ne_null hc.ready.current_live
  have hacq : ∀ g,acquiring (s.kernelContext s.currentProcess) g=decide (lock.opened=g) := by
    intro g
    simp [acquiring,hk]
  have hs := (h.seen i lock ho).resume (k := ⟨s.currentProcess,.executing⟩)
    (by rw [how]; exact h0) (by rw [how,hacq]; simp) rfl
  rw [how] at hs
  have hch := h.change ho lock rfl hs (fun g hg => hg.symm) (fun lock₁ waiters hne h₁ => ?_) trivial
  · have hsame : Function.update s.objects i (.lock lock)=s.objects := by
      rw [←ho]
      exact Function.update_eq_self ..
    rw [hsame,Function.update_eq_self] at hch
    exact hch
  · refine h₁.setSaved (fun _ => ?_)
    rw [hacq]
    simp [acquiring,hne.symm]

/-- Every operation keeps the history of the locks. -/
theorem op_lockLog {b : Bool} (hc : Coherent M s) (h : LockLog s) (hop : Op M allow b s t) :
    LockLog t := by
  have hsave : ∀ {k : KernelContext},Active s → (∀ id g,k.point≠.acquire id g) →
      LockLogOk (Function.update s.kernelContext s.currentProcess k) s.queue s.objects s.stamp
        s.log := fun ha hk => lockLog_save hc h ha.not_acquire hk
  cases hop with
  | note e hn =>
    refine h.note (fun g => ?_)
    cases e with
    | stored p addr count => trivial
    | loaded p addr count => trivial
    | execLedger opened closed allocated freed => trivial
    | _ => exact hn.elim
  | tick => exact h.note (by simp [Foreign])
  | begin hr hl hn => exact lockLog_save hc h hl (by simp)
  | preempt ha => exact hsave ha (by simp)
  | writeDone i len hr hk =>
    exact (lockLog_save (k := ⟨s.currentProcess,.executing⟩) hc h (by simp [hk]) (by simp)).note
      (by simp [Foreign])
  | sleepOver p hl ho => exact (h.other (l := [_]) (by simp [Foreign])).note (by simp [Foreign])
  | requeue hi hs => exact h.note (by simp [Foreign])
  | dispatch env hs =>
    have he := dispatchNext_eq hc hs
    rw [he]
    exact h.note (by simp [Foreign])
  | forkUndone env c pfns pt m₁ m u ha hcp =>
    obtain ⟨h0,hl⟩ := callocPcb_fresh hcp
    rw [destroyed_child hc h0 hl]
    exact (lockLog_unused hc h hl h0).setStamp (Nat.le_succ s.stamp)
  | spawn env caller c pfns pt m₁ m u hb hcp =>
    obtain ⟨h0,hl⟩ := callocPcb_fresh hcp
    rw [spawn_eq]
    exact (((lockLog_unused hc h hl h0).setStamp (Nat.le_succ s.stamp)).other (l := [_])
      (by simp [Foreign])).note (by simp [Foreign])
  | unlock i l ha ho how => exact lockLog_release hc h ha ho how
  | handOff i l w rest u ha ho how hq => exact lockLog_handOff hc h ha u ho how hq
  | zombie status k env m v hk hb hch hl =>
    exact (hsave hb.toActive (by simp [hk])).exit (hc.ready.ne_null hc.ready.current_live) hl
  | zombieWake status k env m v hk hb hch hl hp hw =>
    have h₁ := ((hsave hb.toActive (k := k) (by simp [hk])).exit (b := s.birth s.currentProcess)
      (r := s.parent s.currentProcess) (n := status)
      (hc.ready.ne_null hc.ready.current_live) hl).other
        (l := [.woken (s.parent s.currentProcess) (.child s.currentProcess)]) (by simp [Foreign])
    rw [List.append_assoc] at h₁
    exact h₁.note (by simp [Foreign])
  | collect statusPtr c ha hch hz =>
    rw [collectChild_eq hc ha statusPtr hch hz]
    have h₁ := h.other (l := if statusPtr=0 then []
      else [.stored s.currentProcess statusPtr 4]) (by split <;> simp [Foreign])
    exact h₁.note (by simp [Foreign])
  | blockDelay ticks k u hk hb => exact hsave hb.toActive (by simp [hk])
  | blockChild statusPtr k u hk hb => exact hsave hb.toActive (by simp [hk])
  | blockPipe id buf len pipe k u hk hb =>
    exact (hsave hb.toActive (by simp [hk])).setQueue (by simp)
  | blockLock id l k u hk hb ho hl hn =>
    exact lockLog_blockOnLock hc h hb.toActive (objects_of_getObject ho (by simp)) hn hk u
  | blockCvar id lockId cvar lockOpened k u hk hb =>
    exact ((hsave hb.toActive (by simp [hk])).setQueue (by simp)).note (by simp [Foreign])
  | blockRead i k u hk hb => exact (hsave hb.toActive (by simp [hk])).setQueue (by simp)
  | startWrite env i buf len k u hk hb =>
    exact ((hsave hb.toActive (by simp [hk])).other (l := [_,_]) (by simp [Foreign])).note
      (by simp [Foreign])
  | queueWrite env i buf len k u hk hb =>
    exact ((hsave hb.toActive (by simp [hk])).setQueue (by simp)).other (l := [_,_])
      (by simp [Foreign])
  | wake q w rest u hn hq =>
    refine ((h.setQueue ?_).other (l := [_]) (by simp [Foreign])).note (by simp [Foreign])
    rcases hn with ⟨_,rfl⟩|⟨_,rfl⟩
    · simp
    · simp
  | openPipe env i hi hf =>
    exact ((h.setQueue (by simp)).setObject (by simp [hf]) (by simp)).setStamp (Nat.le_succ s.stamp)
  | openLock i hi hf => exact h.create (by simp [hf])
  | openCvar i hi hf =>
    exact ((h.setQueue (by simp)).setObject (by simp [hf]) (by simp)).setStamp (Nat.le_succ s.stamp)
  | takeBytes i pipe len ho =>
    exact (h.setObject (by simp [ho]) (by simp)).note (by simp [Foreign])
  | putBytes env i pipe grown buf len ho =>
    exact (h.setObject (by simp [ho]) (by simp)).note (by simp [Foreign])
  | lockTake i l hb ho hl => exact lockLog_takeLock hc h hb.toActive ho hl
  | lockResume id l hr hk ho hl =>
    exact lockLog_resume hc h hk (objects_of_getObject ho (by simp)) hl
  | reclaim i hu =>
    cases ho : s.objects i with
    | lock l =>
      rw [ho] at hu
      have hfree : l.owner=0 ∧ s.queue (.lockWaiters i)=[] := by simpa [inUse] using hu
      exact h.destroy ho hfree.1 hfree.2
    | _ => exact h.setObject (by simp [ho]) (by simp)
  | takeHanded i line hk =>
    exact (lockLog_save (k := ⟨s.currentProcess,.executing⟩) hc h (by simp [hk]) (by simp)).other
      (l := [_,_]) (by simp [Foreign])
  | takeLine i line v => exact h.other (l := [_,_]) (by simp [Foreign])
  | deliver i line r rest =>
    exact (((h.setQueue (by simp)).setStamp (Nat.le_succ s.stamp)).other (l := [_,_])
      (by simp [Foreign])).note (by simp [Foreign])
  | enqueue i line => exact (h.setStamp (Nat.le_succ s.stamp)).note (by simp [Foreign])
  | transmitSpurious i => exact h.note (by simp [Foreign])
  | transmitMore i => exact (h.note (by simp [Foreign])).note (by simp [Foreign])
  | transmitLast i u =>
    exact (h.other (l := [_,_]) (by simp [Foreign])).note (by simp [Foreign])
  | transmitNext i u w rest =>
    have h₁ := (h.other (l := [.ttyCompleted i,.woken (s.terminals i).writer (.written i)])
      (by simp [Foreign])).note (e := .linked (s.terminals i).writer) (by simp [Foreign])
    exact ((h₁.setQueue (by simp)).note (by simp [Foreign])).note (by simp [Foreign])
  | _ => exact h

/-- A resumed Acquire returns SUCCESS. -/
theorem resume_acquire (hc : Coherent M s) (hr : Runnable s) {id : ℤ} (env : Env)
    (hk : (s.kernelContext s.currentProcess).point=.acquire id g) :
    ∃ lock,getObject s id=.lock lock ∧ lock.opened=g ∧ lock.owner=s.currentProcess ∧
      kernelStep M env s .resume=finish (s.kernelContext s.currentProcess).caller
        (.returns ((s.setKernelContext s.currentProcess ⟨s.currentProcess,.executing⟩).emit
          (.lockResumed g s.currentProcess)) (savedContext s) SUCCESS) := by
  obtain ⟨lock,ho,hg,how⟩ := lockAcquireResume_eq hc hr hk
  refine ⟨lock,ho,hg,how,?_⟩
  have ho' : getObject (s.setKernelContext s.currentProcess ⟨s.currentProcess,.executing⟩) id=
      .lock lock := ho
  have how' : lock.owner=(s.setKernelContext s.currentProcess
      ⟨s.currentProcess,.executing⟩).currentProcess := how
  simp only [kernelStep,resume,continueAt,hk,lockAcquireResume,ho']
  rw [if_pos how',hg]
  rfl

/-- The history of the locks behind the boot is empty. -/
theorem booted_lockLog {b : Boot M} {p q : PcbPtr} {pfn : ℕ} {pfns : ℕ → ℕ} {m₁ m₂ m : Memory}
    {v : UserSpace} {u : UserContext} : LockLog (bootedKernel M b p q pfn pfns m₁ m₂ m v u) := by
  refine ⟨fun i lock ho => (by cases ho),fun i j lock lock' ho => (by cases ho),
    fun i lock ho => (by cases ho),fun g _ => ⟨InOrder.empty _ _,?_,?_⟩,Grounded.empty _,
    Grounded.empty _⟩
  · rw [(pending_free _ rfl).1]
    exact InOrder.empty _ _
  · rw [(pending_free _ rfl).2]
    rfl

/-- At every moment of every run at most one process holds a lock, and it is
the owner; an Acquire that blocked finds its caller the owner of the same lock
when it is resumed, and returns SUCCESS; blocked acquirers are granted a lock
in the order in which they blocked; and a lock is taken without waiting only
when everybody who blocked on it has returned. -/
theorem reachable_locks (h : Reachable M s) :
    (∀ past,past<+:s.log → ∀ g,(holders g past).length≤1) ∧
      (∀ g,∀ p∈holders g s.log,
        ∃ i lock,s.objects i=.lock lock ∧ lock.opened=g ∧ lock.owner=p) ∧
      (∀ id g env,s.cpu=.kernel → (s.kernelContext s.currentProcess).point=.acquire id g →
        ∃ lock,getObject s id=.lock lock ∧ lock.opened=g ∧ lock.owner=s.currentProcess ∧
          kernelStep M env s .resume=finish (s.kernelContext s.currentProcess).caller
            (.returns ((s.setKernelContext s.currentProcess ⟨s.currentProcess,.executing⟩).emit
              (.lockResumed g s.currentProcess)) (savedContext s) SUCCESS)) ∧
      (∀ i lock,s.objects i=.lock lock → s.log.flatMap (blockedOn lock.opened)=
        s.log.flatMap (grantedOn lock.opened)++s.queue (.lockWaiters i)) ∧
      (∀ g,(∀ i lock,s.objects i=.lock lock → lock.opened≠g) →
        s.log.flatMap (blockedOn g)=s.log.flatMap (grantedOn g)) ∧
      ∀ past g p,past++[.lockTaken g p]<+:s.log →
        past.flatMap (blockedOn g)=past.flatMap (resumedOn g) := by
  obtain ⟨hs,hl⟩ := reachable_invariant (P := LockLog)
    (fun b p q pfn pfns m₁ m₂ m v u _ => booted_lockLog)
    (fun c s t hc hp hop => op_lockLog hc hp hop) h
  refine ⟨fun past hp g => ?_,fun g p hm => ?_,fun id g env hcpu hk =>
    resume_acquire hs.toCoherent (hs.kernel hcpu).1 env hk,
    fun i lock ho => (hl.seen i lock ho).waiting,fun g hg => ?_,
    fun past g p hp => hl.fair past _ hp⟩
  · rcases List.eq_nil_or_concat past with rfl|⟨past',e,rfl⟩
    · exact Nat.zero_le 1
    · rw [List.concat_eq_append] at hp ⊢
      exact hl.exclusive past' e hp g
  · by_cases hg : ∃ i lock,s.objects i=.lock lock ∧ lock.opened=g
    · obtain ⟨i,lock,ho,rfl⟩ := hg
      rw [(hl.seen i lock ho).held] at hm
      refine ⟨i,lock,ho,rfl,?_⟩
      unfold holder at hm
      split at hm
      · exact (List.mem_singleton.1 hm).symm
      · cases hm
    · have hc := (hl.closed g (fun i lock ho he => hg ⟨i,lock,ho,he⟩)).held
      rw [(pending_free _ rfl).2] at hc
      rw [show holders g s.log=[] from hc] at hm
      cases hm
  · have hw := (hl.closed g hg).waiting
    unfold InOrder at hw
    rwa [List.append_nil] at hw

/-- A lock is handed from a parent to its child, which then holds it. -/
theorem reachable_locks_child : ∃ s,Reachable sampleMachine s ∧ holders 2 s.log=[3] ∧
    ∃ i lock,s.objects i=.lock lock ∧ lock.opened=2 ∧ lock.owner=3 := by
  obtain ⟨s,hr,hq⟩ := replay_reachable sampleBoot_user
    [callInput 13 0x105000 0 0,callInput 14 0 0 0,forkInput 3 2,tickInput,resumeInput,
      callInput 14 0 0 0,resumeInput,callInput 15 0 0 0,tickInput,resumeInput]
    (fun s => holders 2 s.log=[3]) (by decide +kernel)
  simp only [decide_eq_true_eq] at hq
  exact ⟨s,hr,hq,(reachable_locks hr).2.1 2 3 (by rw [hq]; exact List.mem_cons_self)⟩

end Yalnix.LockHandoff
