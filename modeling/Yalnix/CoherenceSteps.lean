import Yalnix.Coherence

/-!
# Single assignments and the groups of the invariant

Each group of the invariant is followed through the assignments that the
operations make: a new state, a link or an unlink, a reason that comes or
goes, a process that is born or destroyed. Operations combine these lemmas.
-/

namespace Yalnix.Coherence

open Framework FrameTable KernelState ProcessLifetime BlockingDiscipline

variable {M : Machine} {live : PcbPtr → Bool} {state : PcbPtr → ProcState}
variable {idle current p c w : PcbPtr} {ready rest : List PcbPtr} {a : ProcState}
variable {delayUntil : PcbPtr → ℕ} {waiting : PcbPtr → Bool} {queue : QueueAddr → List PcbPtr}
variable {link : PcbPtr → Option QueueAddr} {terminals terminals' : ℕ → TtyState}
variable {objects objects' : ℕ → IpcObject} {saved : PcbPtr → KernelContext}
variable {tty tty' : PcbPtr → TtyRequest} {parent : PcbPtr → PcbPtr}
variable {children : PcbPtr → List PcbPtr} {k : KernelContext} {q : QueueAddr} {t i : ℕ}
variable {pid : PcbPtr → ℤ} {table : ℕ → PcbPtr} {l : List PcbPtr} {o : IpcObject}

section Ready

/-- A process in another state is not linked. -/
theorem ReadyOk.unlinked (h : ReadyOk live state idle current ready) (hp : state p≠.ready) :
    p∉ready := fun hm => hp (h.mem p hm).2.2

/-- A living process is not the null pointer. -/
theorem ReadyOk.ne_null (h : ReadyOk live state idle current ready) (hp : live p=true) : p≠0 := by
  rintro rfl
  rw [h.null] at hp
  cases hp

/-- A process in another state than running is not idle. -/
theorem ReadyOk.ne_idle (h : ReadyOk live state idle current ready) (hp : state p≠.running) :
    p≠idle := by
  rintro rfl
  exact hp h.idle_running

/-- A new state of an unlinked process. -/
theorem ReadyOk.setState (h : ReadyOk live state idle current ready) (hi : p≠idle)
    (hr : p∉ready) : ReadyOk live (Function.update state p a) idle current ready where
  null := h.null
  idle_live := h.idle_live
  idle_running := by rw [Function.update_of_ne hi.symm]; exact h.idle_running
  current_live := h.current_live
  nodup := h.nodup
  mem x hx := by
    rw [Function.update_of_ne (by rintro rfl; exact hr hx)]
    exact h.mem x hx

/-- A process is made ready and linked. -/
theorem ReadyOk.markReady (h : ReadyOk live state idle current ready) (hl : live p=true)
    (hi : p≠idle) (hr : p∉ready) :
    ReadyOk live (Function.update state p .ready) idle current (ready++[p]) where
  null := h.null
  idle_live := h.idle_live
  idle_running := by rw [Function.update_of_ne hi.symm]; exact h.idle_running
  current_live := h.current_live
  nodup := by
    rw [List.nodup_append]
    refine ⟨h.nodup,by simp,?_⟩
    simp only [List.mem_singleton,forall_eq]
    rintro x hx rfl
    exact hr hx
  mem x hx := by
    by_cases hxp : x=p
    · subst hxp
      exact ⟨hl,hi,Function.update_self ..⟩
    · rw [Function.update_of_ne hxp]
      exact h.mem x (by simpa [hxp] using hx)

/-- The picked process leaves the queue and runs. -/
theorem ReadyOk.pick (h : ReadyOk live state idle current (p::rest)) :
    ReadyOk live (Function.update state p .running) idle p rest where
  null := h.null
  idle_live := h.idle_live
  idle_running := by
    rw [Function.update_of_ne (h.mem p (by simp)).2.1.symm]
    exact h.idle_running
  current_live := (h.mem p (by simp)).1
  nodup := (List.nodup_cons.1 h.nodup).2
  mem x hx := by
    rw [Function.update_of_ne (by rintro rfl; exact (List.nodup_cons.1 h.nodup).1 hx)]
    exact h.mem x (List.mem_cons_of_mem _ hx)

/-- The picked process leaves the queue. -/
theorem ReadyOk.tail (h : ReadyOk live state idle current (p::rest)) :
    ReadyOk live state idle current rest where
  null := h.null
  idle_live := h.idle_live
  idle_running := h.idle_running
  current_live := h.current_live
  nodup := (List.nodup_cons.1 h.nodup).2
  mem x hx := h.mem x (List.mem_cons_of_mem _ hx)

/-- Another process becomes current and the ready queue is kept. -/
theorem ReadyOk.setCurrent (h : ReadyOk live state idle current ready) (hp : live p=true) :
    ReadyOk live state idle p ready := {h with current_live := hp}

/-- A new process is not ready yet. -/
theorem ReadyOk.birth (h : ReadyOk live state idle current ready) (hc : live c=false)
    (h0 : c≠0) : ReadyOk (Function.update live c true) (Function.update state c a) idle current
      ready := by
  have hne : ∀ {x},live x=true → x≠c := by rintro x hx rfl; simp [hx] at hc
  refine ⟨?_,?_,?_,?_,h.nodup,?_⟩
  · rw [Function.update_of_ne h0.symm]; exact h.null
  · rw [Function.update_of_ne (hne h.idle_live)]; exact h.idle_live
  · rw [Function.update_of_ne (hne h.idle_live)]; exact h.idle_running
  · rw [Function.update_of_ne (hne h.current_live)]; exact h.current_live
  · intro x hx
    rw [Function.update_of_ne (hne (h.mem x hx).1),Function.update_of_ne (hne (h.mem x hx).1)]
    exact h.mem x hx

/-- A process other than idle and the current one is destroyed. -/
theorem ReadyOk.death (h : ReadyOk live state idle current ready) (hi : c≠idle) (hc : c≠current)
    (hr : c∉ready) : ReadyOk (Function.update live c false) state idle current ready := by
  refine ⟨?_,?_,h.idle_running,?_,h.nodup,?_⟩
  · by_cases h0 : 0=c
    · subst h0; exact Function.update_self ..
    · rw [Function.update_of_ne h0]; exact h.null
  · rw [Function.update_of_ne hi.symm]; exact h.idle_live
  · rw [Function.update_of_ne hc.symm]; exact h.current_live
  · intro x hx
    rw [Function.update_of_ne (by rintro rfl; exact hr hx)]
    exact h.mem x hx

end Ready

section Block

/-- A queued process that exists is blocked. -/
theorem BlockOk.blocked (h : BlockOk live state delayUntil waiting queue link terminals)
    (hp : p∈queue q) : state p=.blocked :=
  h.reasons.blocked p (.queue q) (h.queue_live q p hp) hp

/-- A process that is not blocked is not queued. -/
theorem BlockOk.unqueued (h : BlockOk live state delayUntil waiting queue link terminals)
    (hp : state p≠.blocked) (q : QueueAddr) : p∉queue q := fun hm => hp (h.blocked hm)

/-- A queued process has no other reason. -/
theorem BlockOk.only_queue (h : BlockOk live state delayUntil waiting queue link terminals)
    (hp : p∈queue q) {r : Reason} (hr : Waits delayUntil waiting queue terminals p r) :
    r=.queue q := h.reasons.unique p r (.queue q) (h.queue_live q p hp) hr hp

/-- A new state of a process that is blocked or without reasons. -/
theorem BlockOk.setState (h : BlockOk live state delayUntil waiting queue link terminals)
    (hs : a=.blocked ∨ (live p=true → ∀ r,¬Waits delayUntil waiting queue terminals p r)) :
    BlockOk live (Function.update state p a) delayUntil waiting queue link terminals where
  reasons := by
    refine h.reasons.remark (fun x r hx hr => ?_)
    by_cases hxp : x=p
    · subst hxp
      rw [Function.update_self]
      rcases hs with rfl|hs
      · rfl
      · exact absurd hr (hs hx r)
    · rw [Function.update_of_ne hxp]
      exact h.reasons.blocked x r hx hr
  queue_live := h.queue_live
  queue_nodup := h.queue_nodup
  queue_link := h.queue_link
  writer_live := h.writer_live

/-- A popped queue still holds its other processes only. -/
theorem BlockOk.pop_subset (h : BlockOk live state delayUntil waiting queue link terminals)
    (hq : queue q=w::rest) {q' : QueueAddr} (hp : p∈Function.update queue q rest q') :
    p∈queue q' ∧ p≠w := by
  have hw : w∈queue q := by rw [hq]; exact List.mem_cons_self
  by_cases he : q'=q
  · subst he
    rw [Function.update_self] at hp
    have hn := h.queue_nodup q'
    rw [hq,List.nodup_cons] at hn
    refine ⟨by rw [hq]; exact List.mem_cons_of_mem _ hp,?_⟩
    rintro rfl
    exact hn.1 hp
  · rw [Function.update_of_ne he] at hp
    refine ⟨hp,?_⟩
    rintro rfl
    have := h.only_queue hw (r := .queue q') hp
    exact he (by injection this)

/-- The first process of a queue is unlinked. -/
theorem BlockOk.pop (h : BlockOk live state delayUntil waiting queue link terminals)
    (hq : queue q=w::rest) :
    BlockOk live state delayUntil waiting (Function.update queue q rest)
      (Function.update link w none) terminals where
  reasons := by
    have hsub : ∀ x r,Waits delayUntil waiting (Function.update queue q rest) terminals x r →
        Waits delayUntil waiting queue terminals x r := by
      intro x r hr
      cases r with
      | delay => exact hr
      | child => exact hr
      | queue q' => exact (h.pop_subset hq hr).1
      | writer t => exact hr
    exact h.reasons.population (fun x r hx hr => ⟨hx,hsub x r hr⟩) (fun _ _ _ hb => hb)
  queue_live q' x hx := h.queue_live q' x (h.pop_subset hq hx).1
  queue_nodup q' := by
    by_cases he : q'=q
    · subst he
      rw [Function.update_self]
      have hn := h.queue_nodup q'
      rw [hq,List.nodup_cons] at hn
      exact hn.2
    · rw [Function.update_of_ne he]
      exact h.queue_nodup q'
  queue_link q' x hx := by
    rw [Function.update_of_ne (h.pop_subset hq hx).2]
    exact h.queue_link q' x (h.pop_subset hq hx).1
  writer_live := h.writer_live

/-- The popped process has lost its only reason. -/
theorem BlockOk.pop_free (h : BlockOk live state delayUntil waiting queue link terminals)
    (hq : queue q=w::rest) (r : Reason) :
    ¬Waits delayUntil waiting (Function.update queue q rest) terminals w r := by
  have hw : w∈queue q := by rw [hq]; exact List.mem_cons_self
  intro hr
  cases r with
  | delay => cases h.only_queue hw (r := .delay) hr
  | child => cases h.only_queue hw (r := .child) hr
  | queue q' => exact (h.pop_subset hq hr).2 rfl
  | writer t => cases h.only_queue hw (r := .writer t) hr

/-- A process is linked on a queue as its only reason. -/
theorem BlockOk.push (h : BlockOk live state delayUntil waiting queue link terminals)
    (hp : live p=true) (hb : state p=.blocked)
    (hn : ∀ r,¬Waits delayUntil waiting queue terminals p r) :
    BlockOk live state delayUntil waiting (Function.update queue q (queue q++[p]))
      (Function.update link p (some q)) terminals := by
  have hsub : ∀ {q' x},x∈Function.update queue q (queue q++[p]) q' →
      x∈queue q' ∨ (x=p ∧ q'=q) := by
    intro q' x hx
    by_cases he : q'=q
    · subst he
      rw [Function.update_self,List.mem_append,List.mem_singleton] at hx
      exact hx.imp_right (fun hx => ⟨hx,rfl⟩)
    · rw [Function.update_of_ne he] at hx
      exact .inl hx
  refine ⟨?_,?_,?_,?_,h.writer_live⟩
  · have hr : ∀ x r,Waits delayUntil waiting (Function.update queue q (queue q++[p])) terminals
        x r → Waits delayUntil waiting queue terminals x r ∨ (x=p ∧ r=.queue q) := by
      intro x r hr
      cases r with
      | delay => exact .inl hr
      | child => exact .inl hr
      | queue q' => exact (hsub hr).imp_right (fun hx => ⟨hx.1,by rw [hx.2]⟩)
      | writer t => exact .inl hr
    exact h.reasons.adopt hb hn (fun x r _ hw => hr x r hw)
  · intro q' x hx
    rcases hsub hx with hx|⟨rfl,_⟩
    · exact h.queue_live q' x hx
    · exact hp
  · intro q'
    by_cases he : q'=q
    · subst he
      rw [Function.update_self,List.nodup_append]
      refine ⟨h.queue_nodup q',by simp,?_⟩
      simp only [List.mem_singleton,forall_eq]
      rintro x hx rfl
      exact hn (.queue q') hx
    · rw [Function.update_of_ne he]
      exact h.queue_nodup q'
  · intro q' x hx
    rcases hsub hx with hm|⟨rfl,rfl⟩
    · rw [Function.update_of_ne (by rintro rfl; exact hn (.queue q') hm)]
      exact h.queue_link q' x hm
    · exact Function.update_self ..

/-- Fewer delays, flags and writers. -/
theorem BlockOk.shrink {delayUntil' : PcbPtr → ℕ} {waiting' : PcbPtr → Bool}
    (h : BlockOk live state delayUntil waiting queue link terminals)
    (hd : ∀ x,delayUntil' x≠0 → delayUntil x≠0) (hw : ∀ x,waiting' x=true → waiting x=true)
    (ht : ∀ t,(terminals' t).writer≠0 → (terminals' t).writer=(terminals t).writer)
    (h0 : live 0=false) :
    BlockOk live state delayUntil' waiting' queue link terminals' where
  reasons := by
    refine h.reasons.population (fun x r hx hr => ⟨hx,?_⟩) (fun _ _ _ hb => hb)
    cases r with
    | delay => exact hd x hr
    | child => exact hw x hr
    | queue q' => exact hr
    | writer t =>
      have hne : (terminals' t).writer≠0 := by
        intro he
        rw [show x=0 from hr.symm.trans he,h0] at hx
        cases hx
      exact (ht t hne).symm.trans hr
  queue_live := h.queue_live
  queue_nodup := h.queue_nodup
  queue_link := h.queue_link
  writer_live t hne := by
    rw [ht t hne]
    exact h.writer_live t (by rw [← ht t hne]; exact hne)

/-- A blocked process without reasons gets one that is not a queue. -/
theorem BlockOk.grow {delayUntil' : PcbPtr → ℕ} {waiting' : PcbPtr → Bool} {e : Reason}
    (h : BlockOk live state delayUntil waiting queue link terminals) (hb : state p=.blocked)
    (hn : ∀ r,¬Waits delayUntil waiting queue terminals p r)
    (hr : ∀ x r,live x=true → Waits delayUntil' waiting' queue terminals' x r →
      Waits delayUntil waiting queue terminals x r ∨ (x=p ∧ r=e))
    (ht : ∀ t,(terminals' t).writer≠0 → live (terminals' t).writer=true) :
    BlockOk live state delayUntil' waiting' queue link terminals' where
  reasons := h.reasons.adopt hb hn hr
  queue_live := h.queue_live
  queue_nodup := h.queue_nodup
  queue_link := h.queue_link
  writer_live := ht

/-- A process is born without reasons. -/
theorem BlockOk.birth (h : BlockOk live state delayUntil waiting queue link terminals)
    (hc : live c=false) (h0 : c≠0) :
    BlockOk (Function.update live c true) (Function.update state c a)
      (Function.update delayUntil c 0) (Function.update waiting c false) queue
      (Function.update link c none) terminals := by
  have hne : ∀ {x},live x=true → x≠c := by rintro x hx rfl; simp [hx] at hc
  have hq : ∀ {q x},x∈queue q → x≠c := fun {q x} hx => hne (h.queue_live q x hx)
  have hn : ∀ r,¬Waits (Function.update delayUntil c 0) (Function.update waiting c false) queue
      terminals c r := by
    intro r hr
    cases r with
    | delay => exact hr (Function.update_self ..)
    | child => rw [Waits,Function.update_self] at hr; cases hr
    | queue q => exact hq hr rfl
    | writer t =>
      have hw := h.writer_live t (by rw [show (terminals t).writer=c from hr]; exact h0)
      exact hne hw hr
  refine ⟨h.reasons.population (fun x r hx hr => ?_) (fun x hx _ hb => ?_),?_,h.queue_nodup,?_,?_⟩
  · have hxc : x≠c := by rintro rfl; exact hn r hr
    rw [Function.update_of_ne hxc] at hx
    refine ⟨hx,?_⟩
    cases r with
    | delay => rwa [Waits,Function.update_of_ne hxc] at hr
    | child => rwa [Waits,Function.update_of_ne hxc] at hr
    | queue q => exact hr
    | writer t => exact hr
  · rw [Function.update_of_ne (hne hx)]
    exact hb
  · intro q x hx
    rw [Function.update_of_ne (hq hx)]
    exact h.queue_live q x hx
  · intro q x hx
    rw [Function.update_of_ne (hq hx)]
    exact h.queue_link q x hx
  · intro t hw
    rw [Function.update_of_ne (hne (h.writer_live t hw))]
    exact h.writer_live t hw

/-- A process without reasons is destroyed. -/
theorem BlockOk.death (h : BlockOk live state delayUntil waiting queue link terminals)
    (hn : ∀ r,¬Waits delayUntil waiting queue terminals c r) :
    BlockOk (Function.update live c false) state delayUntil waiting queue link terminals := by
  have hlive : ∀ {x},Function.update live c false x=true → live x=true := by
    intro x hx
    by_cases hxc : x=c
    · subst hxc; rw [Function.update_self] at hx; cases hx
    · rwa [Function.update_of_ne hxc] at hx
  refine ⟨h.reasons.population (fun x r hx hr => ⟨hlive hx,hr⟩) (fun _ _ _ hb => hb),?_,
    h.queue_nodup,h.queue_link,?_⟩
  · intro q x hx
    rw [Function.update_of_ne (by rintro rfl; exact hn (.queue q) hx)]
    exact h.queue_live q x hx
  · intro t hw
    rw [Function.update_of_ne (fun he => hn (.writer t) he)]
    exact h.writer_live t hw

end Block

section Homes

/-- A queue with a home gets another list. -/
theorem HomeOk.setQueue (h : HomeOk M queue objects)
    (hq : QueueHome M objects q) : HomeOk M (Function.update queue q l) objects := by
  intro q' hne
  by_cases he : q'=q
  · rw [he]; exact hq
  · rw [Function.update_of_ne he] at hne
    exact h q' hne

/-- A queue with processes gets another list. -/
theorem HomeOk.pop (h : HomeOk M queue objects) (hq : queue q=w::rest) :
    HomeOk M (Function.update queue q l) objects :=
  h.setQueue (h q (by rw [hq]; simp))

/-- The queues of a home that changes its kind are empty. -/
theorem HomeOk.setObject (h : HomeOk M queue objects)
    (hp : queue (.readers i)≠[] → ∃ pipe,o=.pipe pipe)
    (hl : queue (.lockWaiters i)≠[] → ∃ lock,o=.lock lock)
    (hc : queue (.cvarWaiters i)≠[] → ∃ cvar,o=.cvar cvar) :
    HomeOk M queue (Function.update objects i o) := by
  intro q hne
  have hq := h q hne
  cases q with
  | readers j =>
    by_cases he : j=i
    · subst he; rw [QueueHome,Function.update_self]; exact hp hne
    · rw [QueueHome,Function.update_of_ne he]; exact hq
  | lockWaiters j =>
    by_cases he : j=i
    · subst he; rw [QueueHome,Function.update_self]; exact hl hne
    · rw [QueueHome,Function.update_of_ne he]; exact hq
  | cvarWaiters j =>
    by_cases he : j=i
    · subst he; rw [QueueHome,Function.update_self]; exact hc hne
    · rw [QueueHome,Function.update_of_ne he]; exact hq
  | readQueue t => exact hq
  | writeQueue t => exact hq

/-- Nobody waits for a pipe at an entry that is no pipe. -/
theorem HomeOk.no_readers (h : HomeOk M queue objects) (ho : ∀ pipe,objects i≠.pipe pipe) :
    queue (.readers i)=[] := by
  by_contra hne
  obtain ⟨pipe,he⟩ := h (.readers i) hne
  exact ho pipe he

/-- Nobody waits for a lock at an entry that is no lock. -/
theorem HomeOk.no_lockWaiters (h : HomeOk M queue objects)
    (ho : ∀ lock,objects i≠.lock lock) : queue (.lockWaiters i)=[] := by
  by_contra hne
  obtain ⟨lock,he⟩ := h (.lockWaiters i) hne
  exact ho lock he

/-- Nobody waits for a condition variable at an entry that is none. -/
theorem HomeOk.no_cvarWaiters (h : HomeOk M queue objects)
    (ho : ∀ cvar,objects i≠.cvar cvar) : queue (.cvarWaiters i)=[] := by
  by_contra hne
  obtain ⟨cvar,he⟩ := h (.cvarWaiters i) hne
  exact ho cvar he

end Homes

section Owners

/-- A new state of a process that does not end or owns nothing. -/
theorem OwnerOk.setState (h : OwnerOk live state idle objects)
    (hs : a≠.zombie ∨ ∀ i lock,objects i=.lock lock → lock.owner≠p) :
    OwnerOk live (Function.update state p a) idle objects where
  owner i lock ho hne := by
    obtain ⟨hl,hi,hz⟩ := h.owner i lock ho hne
    refine ⟨hl,hi,?_⟩
    by_cases he : lock.owner=p
    · rw [he,Function.update_self]
      exact hs.resolve_right (fun hs => hs i lock ho he)
    · rwa [Function.update_of_ne he]
  bound := h.bound

/-- An entry of the table is replaced. -/
theorem OwnerOk.setObject (h : OwnerOk live state idle objects)
    (hi : i<IPC_MAX_OBJECTS) (ho : ∀ lock,o=.lock lock → lock.owner≠0 →
      live lock.owner=true ∧ lock.owner≠idle ∧ state lock.owner≠.zombie) :
    OwnerOk live state idle (Function.update objects i o) where
  owner j lock hj hne := by
    by_cases he : j=i
    · subst he
      rw [Function.update_self] at hj
      exact ho lock hj hne
    · rw [Function.update_of_ne he] at hj
      exact h.owner j lock hj hne
  bound j hj := by
    rw [Function.update_of_ne (by omega)]
    exact h.bound j hj

/-- An entry in use is inside the table. -/
theorem OwnerOk.lt (h : OwnerOk live state idle objects) (ho : objects i≠.free) :
    i<IPC_MAX_OBJECTS := by
  by_contra hlt
  exact ho (h.bound i (by omega))

/-- A new process owns no lock. -/
theorem OwnerOk.birth (h : OwnerOk live state idle objects) (hc : live c=false) :
    OwnerOk (Function.update live c true) (Function.update state c a) idle objects where
  owner i lock ho hne := by
    obtain ⟨hl,hi,hz⟩ := h.owner i lock ho hne
    have he : lock.owner≠c := by rintro he; rw [he,hc] at hl; cases hl
    rw [Function.update_of_ne he,Function.update_of_ne he]
    exact ⟨hl,hi,hz⟩
  bound := h.bound

/-- A zombie that is destroyed owns no lock. -/
theorem OwnerOk.death (h : OwnerOk live state idle objects) (hz : state c=.zombie) :
    OwnerOk (Function.update live c false) state idle objects where
  owner i lock ho hne := by
    obtain ⟨hl,hi,hs⟩ := h.owner i lock ho hne
    rw [Function.update_of_ne (by rintro he; rw [he] at hs; exact hs hz)]
    exact ⟨hl,hi,hs⟩
  bound := h.bound

end Owners

section Families

/-- A new state of a process that does not end or has no children. -/
theorem FamilyOk.setState (h : FamilyOk live state parent children)
    (hs : a≠.zombie ∨ children p=[]) :
    FamilyOk live (Function.update state p a) parent children where
  parent_child := h.parent_child
  child_parent := h.child_parent
  nodup := h.nodup
  irrefl := h.irrefl
  zombie x hx hz := by
    by_cases he : x=p
    · subst he
      rw [Function.update_self] at hz
      exact hs.resolve_left (fun hs => hs hz)
    · rw [Function.update_of_ne he] at hz
      exact h.zombie x hx hz

/-- The first child of a living process is orphaned. -/
theorem FamilyOk.orphan (h : FamilyOk live state parent children) (hp : live p=true)
    (hc : children p=c::rest) :
    FamilyOk live state (Function.update parent c 0) (Function.update children p rest) := by
  obtain ⟨h1,h2,h3,h4,h5⟩ := h
  constructor <;> grind

/-- A new child is the last one of its parent. -/
theorem FamilyOk.birth (h : FamilyOk live state parent children) (hp : live p=true)
    (hc : live c=false) (hz : state p≠.zombie) (hs : a≠.zombie) :
    FamilyOk (Function.update live c true) (Function.update state c a)
      (Function.update parent c p)
      (Function.update (Function.update children c []) p (children p++[c])) := by
  have hne : ∀ {x},live x=true → x≠c := by rintro x hx rfl; simp [hx] at hc
  have hlive : ∀ {x},Function.update live c true x=true → x=c ∨ live x=true := by
    intro x hx
    by_cases hxc : x=c
    · exact .inl hxc
    · rw [Function.update_of_ne hxc] at hx; exact .inr hx
  have hcc : Function.update (Function.update children c []) p (children p++[c]) c=[] := by
    rw [Function.update_of_ne (hne hp).symm,Function.update_self]
  have hold : ∀ {x},live x=true → x≠p →
      Function.update (Function.update children c []) p (children p++[c]) x=children x := by
    intro x hx hxp
    rw [Function.update_of_ne hxp,Function.update_of_ne (hne hx)]
  have hnew : ∀ {x y},live x=true →
      y∈Function.update (Function.update children c []) p (children p++[c]) x →
      y∈children x ∨ (x=p ∧ y=c) := by
    intro x y hx hy
    by_cases hxp : x=p
    · subst hxp
      rw [Function.update_self,List.mem_append,List.mem_singleton] at hy
      exact hy.imp_right (fun hy => ⟨rfl,hy⟩)
    · rw [hold hx hxp] at hy; exact .inl hy
  refine ⟨?_,?_,?_,?_,?_⟩
  · intro x hx hpx
    by_cases hxc : x=c
    · subst hxc
      rw [Function.update_self,Function.update_of_ne (hne hp),Function.update_self]
      exact ⟨hp,by simp⟩
    · rw [Function.update_of_ne hxc] at hx hpx ⊢
      obtain ⟨h₁,h₂⟩ := h.parent_child x hx hpx
      rw [Function.update_of_ne (hne h₁)]
      refine ⟨h₁,?_⟩
      by_cases hpp : parent x=p
      · rw [hpp,Function.update_self,List.mem_append]
        rw [hpp] at h₂
        exact .inl h₂
      · rw [hold h₁ hpp]; exact h₂
  · intro x y hx hy
    rcases hlive hx with rfl|hx
    · rw [hcc] at hy; cases hy
    · rcases hnew hx hy with hy|⟨rfl,rfl⟩
      · obtain ⟨h₁,h₂⟩ := h.child_parent x y hx hy
        rw [Function.update_of_ne (hne h₁),Function.update_of_ne (hne h₁)]
        exact ⟨h₁,h₂⟩
      · rw [Function.update_self,Function.update_self]; exact ⟨rfl,rfl⟩
  · intro x hx
    rcases hlive hx with rfl|hx
    · rw [hcc]; exact List.nodup_nil
    · by_cases hxp : x=p
      · subst hxp
        rw [Function.update_self,List.nodup_append]
        refine ⟨h.nodup x hx,by simp,?_⟩
        simp only [List.mem_singleton,forall_eq]
        exact fun y hy => hne (h.child_parent x y hx hy).1
      · rw [hold hx hxp]; exact h.nodup x hx
  · intro x hx hzx
    rcases hlive hx with rfl|hx
    · rw [Function.update_self] at hzx; exact absurd hzx hs
    · rw [Function.update_of_ne (hne hx)] at hzx
      rw [hold hx (by rintro rfl; exact hz hzx)]
      exact h.zombie x hx hzx
  · intro x hx hxx
    rcases hlive hx with rfl|hx
    · rw [hcc] at hxx; cases hxx
    · rcases hnew hx hxx with hxx|⟨_,hxc⟩
      · exact h.irrefl x hx hxx
      · exact hne hx hxc

/-- A childless process is taken off the list of its parent and destroyed. -/
theorem FamilyOk.death (h : FamilyOk live state parent children) (hp : live p=true)
    (hc : c∈children p) (hn : children c=[]) :
    FamilyOk (Function.update live c false) state parent
      (Function.update children p ((children p).erase c)) := by
  have hlive : ∀ {x},Function.update live c false x=true → live x=true ∧ x≠c := by
    intro x hx
    by_cases hxc : x=c
    · subst hxc; rw [Function.update_self] at hx; cases hx
    · rw [Function.update_of_ne hxc] at hx; exact ⟨hx,hxc⟩
  have hsub : ∀ {x y},live x=true → y∈Function.update children p ((children p).erase c) x →
      y∈children x ∧ y≠c := by
    intro x y hx hy
    by_cases hxp : x=p
    · subst hxp
      rw [Function.update_self,(h.nodup x hx).mem_erase_iff] at hy
      exact ⟨hy.2,hy.1⟩
    · rw [Function.update_of_ne hxp] at hy
      refine ⟨hy,?_⟩
      rintro rfl
      exact hxp ((h.child_parent x y hx hy).2.symm.trans (h.child_parent p y hp hc).2)
  refine ⟨?_,?_,?_,?_,?_⟩
  · intro x hx hpx
    obtain ⟨hx,hxc⟩ := hlive hx
    obtain ⟨h₁,h₂⟩ := h.parent_child x hx hpx
    have hpc : parent x≠c := by intro he; rw [he,hn] at h₂; cases h₂
    rw [Function.update_of_ne hpc]
    refine ⟨h₁,?_⟩
    by_cases hpp : parent x=p
    · rw [hpp] at h₂ ⊢
      rw [Function.update_self,(h.nodup p hp).mem_erase_iff]
      exact ⟨hxc,h₂⟩
    · rw [Function.update_of_ne hpp]; exact h₂
  · intro x y hx hy
    obtain ⟨hx,hxc⟩ := hlive hx
    obtain ⟨hy,hyc⟩ := hsub hx hy
    rw [Function.update_of_ne hyc]
    exact h.child_parent x y hx hy
  · intro x hx
    obtain ⟨hx,_⟩ := hlive hx
    by_cases hxp : x=p
    · subst hxp; rw [Function.update_self]; exact (h.nodup x hx).erase c
    · rw [Function.update_of_ne hxp]; exact h.nodup x hx
  · intro x hx hz
    obtain ⟨hx,hxc⟩ := hlive hx
    by_cases hxp : x=p
    · subst hxp; rw [h.zombie x hx hz] at hc; cases hc
    · rw [Function.update_of_ne hxp]; exact h.zombie x hx hz
  · intro x hx hxx
    obtain ⟨hx,_⟩ := hlive hx
    exact h.irrefl x hx (hsub hx hxx).1

end Families

section Table

/-- A process is born and entered in the table when its identifier fits. -/
theorem TableOk.birth {n : ℤ} (h : TableOk M live pid table) (hc : live c=false) :
    TableOk M (Function.update live c true) (Function.update pid c n)
      (processRegister M c n table) := by
  have hold : ∀ j,table j≠0 → Function.update live c true (table j)=true ∧
      Function.update pid c n (table j)=j ∧ j<M.maxProcs := by
    intro j hj
    have hne : table j≠c := by intro he; rw [← he,(h j hj).1] at hc; cases hc
    rw [Function.update_of_ne hne,Function.update_of_ne hne]
    exact h j hj
  intro j hj
  unfold processRegister at hj ⊢
  split at hj
  · rename_i hn
    rw [if_pos hn]
    by_cases he : j=n.toNat
    · subst he
      rw [Function.update_self,Function.update_self,Function.update_self]
      exact ⟨rfl,by omega,by omega⟩
    · rw [Function.update_of_ne he] at hj ⊢
      exact hold j hj
  · rename_i hn
    rw [if_neg hn]
    exact hold j hj

/-- A process is removed from the table and destroyed. -/
theorem TableOk.death (h : TableOk M live pid table) :
    TableOk M (Function.update live c false) pid
      (if 0≤pid c ∧ pid c<M.maxProcs ∧ table (pid c).toNat=c then
        Function.update table (pid c).toNat 0 else table) := by
  have hold : ∀ j,table j≠0 → table j≠c →
      Function.update live c false (table j)=true ∧ pid (table j)=j ∧ j<M.maxProcs := by
    intro j hj hjc
    rw [Function.update_of_ne hjc]
    exact h j hj
  intro j hj
  split at hj
  · rename_i hn
    rw [if_pos hn]
    by_cases he : j=(pid c).toNat
    · subst he
      rw [Function.update_self] at hj
      exact absurd rfl hj
    · rw [Function.update_of_ne he] at hj ⊢
      refine hold j hj ?_
      intro hjc
      have := (h j hj).2.1
      rw [hjc] at this
      omega
  · rename_i hn
    rw [if_neg hn]
    refine hold j hj ?_
    intro hjc
    have hj := h j hj
    rw [hjc] at hj
    exact hn ⟨by omega,by omega,by rw [hj.2.1]; exact hjc⟩

end Table

section Locks

/-- A new state of a process that is no acquirer or stays unblocked. -/
theorem LockOk.setState (h : LockOk live state saved queue objects)
    (hs : (∀ id g,(saved p).point≠.acquire id g) ∨ (state p≠.blocked ∧ a≠.blocked)) :
    LockOk live (Function.update state p a) saved queue objects where
  acquirer x id g hx hk := by
    obtain ⟨h₁,h₂,lock,h₃,h₄,h₅,h₆⟩ := h.acquirer x id g hx hk
    refine ⟨h₁,h₂,lock,h₃,h₄,?_,?_⟩
    · intro hb
      by_cases he : x=p
      · subst he
        rw [Function.update_self] at hb
        rcases hs with hs|hs
        · exact absurd hk (hs id g)
        · exact absurd hb hs.2
      · rw [Function.update_of_ne he] at hb
        exact h₅ hb
    · intro hb
      by_cases he : x=p
      · subst he
        rcases hs with hs|hs
        · exact absurd hk (hs id g)
        · exact h₆ hs.1
      · rw [Function.update_of_ne he] at hb
        exact h₆ hb
  queued := h.queued
  owned := h.owned

/-- A process that waits for no lock saves another point. -/
theorem LockOk.setSaved (h : LockOk live state saved queue objects)
    (hq : ∀ j,p∉queue (.lockWaiters j)) (hn : ∀ id g,k.point≠.acquire id g) :
    LockOk live state (Function.update saved p k) queue objects where
  acquirer x id g hx hk := by
    by_cases he : x=p
    · subst he
      rw [Function.update_self] at hk
      exact absurd hk (hn id g)
    · rw [Function.update_of_ne he] at hk
      exact h.acquirer x id g hx hk
  queued j x hx := by
    obtain ⟨id,g,hk,hj⟩ := h.queued j x hx
    rw [Function.update_of_ne (by rintro rfl; exact hq j hx)]
    exact ⟨id,g,hk,hj⟩
  owned := h.owned

/-- A queue that is not one of a lock gets another list. -/
theorem LockOk.setQueue (h : LockOk live state saved queue objects)
    (hq : ∀ j,.lockWaiters j≠q) :
    LockOk live state saved (Function.update queue q l) objects where
  acquirer x id g hx hk := by
    rw [Function.update_of_ne (hq _)]
    exact h.acquirer x id g hx hk
  queued j := by
    rw [Function.update_of_ne (hq _)]
    exact h.queued j
  owned j := by
    rw [Function.update_of_ne (hq _)]
    exact h.owned j

/-- An entry without acquirers is replaced. -/
theorem LockOk.setObject (h : LockOk live state saved queue objects)
    (hn : ∀ x id g,live x=true → (saved x).point=.acquire id g → id.toNat≠i)
    (hq : queue (.lockWaiters i)=[]) :
    LockOk live state saved queue (Function.update objects i o) where
  acquirer x id g hx hk := by
    rw [Function.update_of_ne (hn x id g hx hk)]
    exact h.acquirer x id g hx hk
  queued := h.queued
  owned j lock hj hne := by
    have he : j≠i := by rintro rfl; exact hne hq
    rw [Function.update_of_ne he] at hj
    exact h.owned j lock hj hne

/-- An entry that is no lock has no acquirers. -/
theorem LockOk.no_acquirer (h : LockOk live state saved queue objects)
    (ho : ∀ lock,objects i≠.lock lock) (x : PcbPtr) (id : ℤ) (g : ℕ) (hx : live x=true)
    (hk : (saved x).point=.acquire id g) : id.toNat≠i := by
  rintro rfl
  obtain ⟨_,_,lock,hl,_⟩ := h.acquirer x id g hx hk
  exact ho lock hl

/-- A lock without waiters has at most its owner as an acquirer. -/
theorem LockOk.only_owner {lock : LockState} (h : LockOk live state saved queue objects)
    (ho : objects i=.lock lock) (hq : queue (.lockWaiters i)=[])
    (hn : live lock.owner=true → ∀ id g,(saved lock.owner).point≠.acquire id g)
    (x : PcbPtr) (id : ℤ) (g : ℕ) (hx : live x=true) (hk : (saved x).point=.acquire id g) :
    id.toNat≠i := by
  rintro rfl
  obtain ⟨_,_,lock',hl,_,hb,hu⟩ := h.acquirer x id g hx hk
  rw [ho] at hl
  injection hl with hl
  subst hl
  by_cases hs : state x=.blocked
  · have := hb hs
    rw [hq] at this
    cases this
  · have he := hu hs
    rw [he] at hn
    exact hn hx id g hk

/-- A process blocks behind the owner of a lock. -/
theorem LockOk.block {id : ℤ} {lock : LockState} (h : LockOk live state saved queue objects)
    (ha : (saved p).point=.executing) (hk : k.point=.acquire id lock.opened)
    (h0 : 0≤ id) (hlt : id<IPC_MAX_OBJECTS) (ho : objects id.toNat=.lock lock)
    (hl : lock.owner≠0) :
    LockOk live (Function.update state p .blocked) (Function.update saved p k)
      (Function.update queue (.lockWaiters id.toNat) (queue (.lockWaiters id.toNat)++[p]))
      objects where
  acquirer x id' g hx hx' := by
    by_cases he : x=p
    · subst he
      rw [Function.update_self,hk] at hx'
      injection hx' with hid hg
      subst hid hg
      refine ⟨h0,hlt,lock,ho,rfl,fun _ => by simp,fun hb => absurd (Function.update_self ..) hb⟩
    · rw [Function.update_of_ne he] at hx' ⊢
      obtain ⟨h₁,h₂,lock',h₃,h₄,h₅,h₆⟩ := h.acquirer x id' g hx hx'
      refine ⟨h₁,h₂,lock',h₃,h₄,?_,h₆⟩
      intro hb
      by_cases hi : id'.toNat=id.toNat
      · rw [hi,Function.update_self,List.mem_append]
        exact .inl (hi ▸ h₅ hb)
      · rw [Function.update_of_ne (by simpa using hi)]
        exact h₅ hb
  queued j x hx := by
    have hm : x∈queue (.lockWaiters j) ∨ (x=p ∧ j=id.toNat) := by
      by_cases hj : j=id.toNat
      · subst hj
        rw [Function.update_self,List.mem_append,List.mem_singleton] at hx
        exact hx.imp_right (fun hx => ⟨hx,rfl⟩)
      · rw [Function.update_of_ne (by simpa using hj)] at hx
        exact .inl hx
    rcases hm with hm|⟨rfl,rfl⟩
    · obtain ⟨id',g,hx',hj⟩ := h.queued j x hm
      rw [Function.update_of_ne (by rintro rfl; rw [ha] at hx'; cases hx')]
      exact ⟨id',g,hx',hj⟩
    · rw [Function.update_self]
      exact ⟨id,lock.opened,hk,rfl⟩
  owned j lock' hj hne := by
    by_cases he : j=id.toNat
    · subst he
      rw [ho] at hj
      injection hj with hj
      rwa [← hj]
    · rw [Function.update_of_ne (by simpa using he)] at hne
      exact h.owned j lock' hj hne

/-- The first waiter of a lock becomes its owner and ready. -/
theorem LockOk.handOff {lock : LockState} (h : LockOk live state saved queue objects)
    (ho : objects i=.lock lock) (hq : queue (.lockWaiters i)=w::rest)
    (hx : ∀ id g,(saved lock.owner).point≠.acquire id g) (hw : w≠0) :
    LockOk live (Function.update state w .ready) saved
      (Function.update queue (.lockWaiters i) rest)
      (Function.update objects i (.lock {lock with owner := w})) where
  acquirer x id g hl hk := by
    obtain ⟨h₁,h₂,lock',h₃,h₄,h₅,h₆⟩ := h.acquirer x id g hl hk
    obtain ⟨id',g',hk',hi'⟩ := h.queued i w (by rw [hq]; simp)
    refine ⟨h₁,h₂,?_⟩
    by_cases hi : id.toNat=i
    · subst hi
      rw [ho] at h₃
      injection h₃ with h₃
      subst h₃
      refine ⟨_,Function.update_self ..,h₄,?_,?_⟩
      · intro hb
        rw [Function.update_self]
        by_cases he : x=w
        · subst he; rw [Function.update_self] at hb; cases hb
        · rw [Function.update_of_ne he] at hb
          have := h₅ hb
          rw [hq] at this
          simpa [he] using this
      · intro hb
        by_cases he : x=w
        · exact he.symm
        · rw [Function.update_of_ne he] at hb
          have := h₆ hb
          rw [this] at hx
          exact absurd hk (hx id g)
    · have hne : QueueAddr.lockWaiters id.toNat≠.lockWaiters i := by simpa using hi
      have he : x≠w := by
        rintro rfl
        rw [hk] at hk'
        injection hk' with hid
        subst hid
        exact hi hi'
      rw [Function.update_of_ne hi,Function.update_of_ne hne,Function.update_of_ne he]
      exact ⟨lock',h₃,h₄,h₅,h₆⟩
  queued j x hm := by
    by_cases hj : j=i
    · subst hj
      rw [Function.update_self] at hm
      exact h.queued j x (by rw [hq]; exact List.mem_cons_of_mem _ hm)
    · rw [Function.update_of_ne (by simpa using hj)] at hm
      exact h.queued j x hm
  owned j lock' hj hne := by
    by_cases he : j=i
    · subst he
      rw [Function.update_self] at hj
      injection hj with hj
      rw [← hj]
      exact hw
    · rw [Function.update_of_ne he] at hj
      rw [Function.update_of_ne (by simpa using he)] at hne
      exact h.owned j lock' hj hne

/-- A process is born that is no acquirer. -/
theorem LockOk.birth (h : LockOk live state saved queue objects)
    (hq : ∀ j,c∉queue (.lockWaiters j)) (hk : ∀ id g,k.point≠.acquire id g) :
    LockOk (Function.update live c true) (Function.update state c a)
      (Function.update saved c k) queue objects where
  acquirer x id g hx hk' := by
    by_cases he : x=c
    · subst he
      rw [Function.update_self] at hk'
      exact absurd hk' (hk id g)
    · rw [Function.update_of_ne he] at hx hk' ⊢
      exact h.acquirer x id g hx hk'
  queued j x hx := by
    rw [Function.update_of_ne (by rintro rfl; exact hq j hx)]
    exact h.queued j x hx
  owned := h.owned

/-- A process that is destroyed waits for no lock. -/
theorem LockOk.death (h : LockOk live state saved queue objects) :
    LockOk (Function.update live c false) state saved queue objects where
  acquirer x id g hx hk := by
    by_cases he : x=c
    · subst he
      rw [Function.update_self] at hx
      cases hx
    · rw [Function.update_of_ne he] at hx
      exact h.acquirer x id g hx hk
  queued := h.queued
  owned := h.owned

end Locks

section Saved

/-- A new state that agrees with the saved point. -/
theorem SavedOk.setState (h : SavedOk M live state saved idle current)
    (hs : a=.zombie ∨ state p≠.zombie) :
    SavedOk M live (Function.update state p a) saved idle current where
  other := h.other
  point := h.point
  idle := h.idle
  exited x hx hk := by
    have hz := h.exited x hx hk
    by_cases he : x=p
    · subst he
      rw [Function.update_self]
      exact hs.resolve_right (fun hs => hs hz)
    · rwa [Function.update_of_ne he]

/-- Another point is saved for a process. -/
theorem SavedOk.setSaved (h : SavedOk M live state saved idle current)
    (he : k.point=.executing → p=current) (hx : k.point=.exited → state p=.zombie)
    (hp : PointOk M p k.point)
    (hi : p=idle → k.point=.executing ∨ k.point=.boot ∨ k.point=.clock) :
    SavedOk M live state (Function.update saved p k) idle current where
  other x hl hc := by
    by_cases hxp : x=p
    · subst hxp
      rw [Function.update_self]
      exact fun hk => hc (he hk)
    · rw [Function.update_of_ne hxp]
      exact h.other x hl hc
  exited x hl hk := by
    by_cases hxp : x=p
    · subst hxp
      rw [Function.update_self] at hk
      exact hx hk
    · rw [Function.update_of_ne hxp] at hk
      exact h.exited x hl hk
  point x hl := by
    by_cases hxp : x=p
    · subst hxp
      rw [Function.update_self]
      exact hp
    · rw [Function.update_of_ne hxp]
      exact h.point x hl
  idle := by
    by_cases hxp : idle=p
    · subst hxp
      rw [Function.update_self]
      exact hi rfl
    · rw [Function.update_of_ne hxp]
      exact h.idle

/-- Another process becomes current and takes up its saved stack. -/
theorem SavedOk.setCurrent (h : SavedOk M live state saved idle current)
    (hk : (saved current).point≠.executing) : SavedOk M live state saved idle p where
  other x hl _ := by
    by_cases hxc : x=current
    · rwa [hxc]
    · exact h.other x hl hxc
  exited := h.exited
  point := h.point
  idle := h.idle

/-- A process other than idle is born. -/
theorem SavedOk.birth (h : SavedOk M live state saved idle current) (hc : c≠idle)
    (he : k.point≠.executing) (hx : k.point≠.exited) (hp : PointOk M c k.point) :
    SavedOk M (Function.update live c true) (Function.update state c a)
      (Function.update saved c k) idle current where
  other x hl hc := by
    by_cases hxc : x=c
    · subst hxc
      rwa [Function.update_self]
    · rw [Function.update_of_ne hxc] at hl ⊢
      exact h.other x hl hc
  exited x hl hk := by
    by_cases hxc : x=c
    · subst hxc
      rw [Function.update_self] at hk
      exact absurd hk hx
    · rw [Function.update_of_ne hxc] at hl hk ⊢
      exact h.exited x hl hk
  point x hl := by
    by_cases hxc : x=c
    · subst hxc
      rw [Function.update_self]
      exact hp
    · rw [Function.update_of_ne hxc] at hl ⊢
      exact h.point x hl
  idle := by
    rw [Function.update_of_ne hc.symm]
    exact h.idle

/-- A process that is destroyed has no saved stack to fit. -/
theorem SavedOk.death (h : SavedOk M live state saved idle current) :
    SavedOk M (Function.update live c false) state saved idle current := by
  have hlive : ∀ {x},Function.update live c false x=true → live x=true := by
    intro x hx
    by_cases hxc : x=c
    · subst hxc; rw [Function.update_self] at hx; cases hx
    · rwa [Function.update_of_ne hxc] at hx
  exact ⟨fun x hl => h.other x (hlive hl),fun x hl => h.exited x (hlive hl),
    fun x hl => h.point x (hlive hl),h.idle⟩

/-- Assignments to a process that does not exist. -/
theorem SavedOk.dead (h : SavedOk M live state saved idle current) (hc : live c=false)
    (hi : c≠idle) :
    SavedOk M live (Function.update state c a) (Function.update saved c k) idle current := by
  have hne : ∀ {x},live x=true → x≠c := by rintro x hx rfl; simp [hx] at hc
  refine ⟨fun x hx hxc => ?_,fun x hx hk => ?_,fun x hx => ?_,?_⟩
  · rw [Function.update_of_ne (hne hx)]
    exact h.other x hx hxc
  · rw [Function.update_of_ne (hne hx)] at hk ⊢
    exact h.exited x hx hk
  · rw [Function.update_of_ne (hne hx)]
    exact h.point x hx
  · rw [Function.update_of_ne hi.symm]
    exact h.idle

end Saved

section Readers

/-- A new state of a process that goes on or has no handed line. -/
theorem ReaderOk.setState (h : ReaderOk live state saved queue tty)
    (hs : a≠.blocked ∧ a≠.zombie ∨ (tty p).readLine=none) :
    ReaderOk live (Function.update state p a) saved queue tty where
  reading := h.reading
  handed x line hx hl := by
    obtain ⟨hk,hb⟩ := h.handed x line hx hl
    refine ⟨hk,?_⟩
    by_cases he : x=p
    · subst he
      rw [Function.update_self]
      refine hs.resolve_right (fun hs => ?_)
      rw [hs] at hl
      cases hl
    · rwa [Function.update_of_ne he]

/-- A process that is no reader saves another point. -/
theorem ReaderOk.setSaved (h : ReaderOk live state saved queue tty)
    (hq : ∀ t,p∉queue (.readQueue t)) (hl : (tty p).readLine=none) :
    ReaderOk live state (Function.update saved p k) queue tty where
  reading t x hx := by
    rw [Function.update_of_ne (by rintro rfl; exact hq t hx)]
    exact h.reading t x hx
  handed x line hx hr := by
    rw [Function.update_of_ne (by rintro rfl; rw [hl] at hr; cases hr)]
    exact h.handed x line hx hr

/-- A queue that is not one of readers gets another list. -/
theorem ReaderOk.setQueue (h : ReaderOk live state saved queue tty)
    (hq : ∀ t,.readQueue t≠q) : ReaderOk live state saved (Function.update queue q l) tty where
  reading t := by
    rw [Function.update_of_ne (hq t)]
    exact h.reading t
  handed := h.handed

/-- Some processes of a queue stay on it. -/
theorem ReaderOk.subqueue (h : ReaderOk live state saved queue tty) (hl : l⊆queue q) :
    ReaderOk live state saved (Function.update queue q l) tty where
  reading t x hx := by
    by_cases he : .readQueue t=q
    · rw [he,Function.update_self] at hx
      exact h.reading t x (by rw [he]; exact hl hx)
    · rw [Function.update_of_ne he] at hx
      exact h.reading t x hx
  handed := h.handed

/-- Another request without a line. -/
theorem ReaderOk.setTty {r : TtyRequest} (h : ReaderOk live state saved queue tty)
    (hr : r.readLine=none ∨ r.readLine=(tty p).readLine) :
    ReaderOk live state saved queue (Function.update tty p r) where
  reading := h.reading
  handed x line hx hl := by
    by_cases he : x=p
    · subst he
      rw [Function.update_self] at hl
      rcases hr with hr|hr
      · rw [hr] at hl; cases hl
      · exact h.handed x line hx (by rw [← hr]; exact hl)
    · rw [Function.update_of_ne he] at hl
      exact h.handed x line hx hl

/-- Requests with the same lines. -/
theorem ReaderOk.keepLines (h : ReaderOk live state saved queue tty)
    (hl : ∀ x,(tty' x).readLine=(tty x).readLine) : ReaderOk live state saved queue tty' where
  reading := h.reading
  handed x line hx he := h.handed x line hx (by rw [← hl]; exact he)

/-- A stopped reader that has been woken gets a line. -/
theorem ReaderOk.hand {r : TtyRequest} (h : ReaderOk live state saved queue tty)
    (hk : (saved p).point=.ttyRead t) (hs : state p≠.blocked ∧ state p≠.zombie) :
    ReaderOk live state saved queue (Function.update tty p r) where
  reading := h.reading
  handed x line hx hl := by
    by_cases he : x=p
    · subst he
      exact ⟨⟨t,hk⟩,hs⟩
    · rw [Function.update_of_ne he] at hl
      exact h.handed x line hx hl

/-- A process is born without a line. -/
theorem ReaderOk.birth {r : TtyRequest} (h : ReaderOk live state saved queue tty)
    (hq : ∀ t,c∉queue (.readQueue t)) (hr : r.readLine=none) :
    ReaderOk (Function.update live c true) (Function.update state c a)
      (Function.update saved c k) queue (Function.update tty c r) where
  reading t x hx := by
    rw [Function.update_of_ne (by rintro rfl; exact hq t hx)]
    exact h.reading t x hx
  handed x line hx hl := by
    by_cases he : x=c
    · subst he
      rw [Function.update_self,hr] at hl
      cases hl
    · rw [Function.update_of_ne he] at hx hl ⊢
      rw [Function.update_of_ne he]
      exact h.handed x line hx hl

/-- A process that is destroyed has no handed line. -/
theorem ReaderOk.death (h : ReaderOk live state saved queue tty) :
    ReaderOk (Function.update live c false) state saved queue tty where
  reading := h.reading
  handed x line hx hl := by
    by_cases he : x=c
    · subst he; rw [Function.update_self] at hx; cases hx
    · rw [Function.update_of_ne he] at hx
      exact h.handed x line hx hl

end Readers

section Writers

/-- A queue that is not one of writers gets another list. -/
theorem WriterOk.setQueue (h : WriterOk queue terminals tty) (hq : ∀ t,.writeQueue t≠q) :
    WriterOk (Function.update queue q l) terminals tty where
  busy := h.busy
  queued t := by
    rw [Function.update_of_ne (hq t)]
    exact h.queued t
  pending t := by
    rw [Function.update_of_ne (hq t)]
    exact h.pending t

/-- Another request of a process that is no queued writer or keeps its write. -/
theorem WriterOk.setTty {r : TtyRequest} (h : WriterOk queue terminals tty)
    (hr : (∀ t,p∉queue (.writeQueue t)) ∨ r.writeOffset< r.writeLen) :
    WriterOk queue terminals (Function.update tty p r) where
  busy := h.busy
  queued := h.queued
  pending t x hx := by
    by_cases he : x=p
    · subst he
      rw [Function.update_self]
      exact hr.resolve_left (fun hr => hr t hx)
    · rw [Function.update_of_ne he]
      exact h.pending t x hx

/-- Another request of a process with the same write. -/
theorem WriterOk.keepWrite {r : TtyRequest} (h : WriterOk queue terminals tty)
    (hl : r.writeLen=(tty p).writeLen) (ho : r.writeOffset=(tty p).writeOffset) :
    WriterOk queue terminals (Function.update tty p r) where
  busy := h.busy
  queued := h.queued
  pending t x hx := by
    by_cases he : x=p
    · subst he
      rw [Function.update_self,hl,ho]
      exact h.pending t x hx
    · rw [Function.update_of_ne he]
      exact h.pending t x hx

/-- A terminal with the same writer and the same outstanding transmission. -/
theorem WriterOk.setTerminal {v : TtyState} (h : WriterOk queue terminals tty)
    (hb : v.busy=true ↔ v.writer≠0) (hq : queue (.writeQueue t)≠[] → v.writer≠0) :
    WriterOk queue (Function.update terminals t v) tty where
  busy t' := by
    by_cases he : t'=t
    · subst he; rw [Function.update_self]; exact hb
    · rw [Function.update_of_ne he]; exact h.busy t'
  queued t' hne := by
    by_cases he : t'=t
    · subst he; rw [Function.update_self]; exact hq hne
    · rw [Function.update_of_ne he]; exact h.queued t' hne
  pending := h.pending

/-- Terminals with the same writers and transmissions. -/
theorem WriterOk.keepTerminals (h : WriterOk queue terminals tty)
    (hw : ∀ t,(terminals' t).writer=(terminals t).writer)
    (hb : ∀ t,(terminals' t).busy=(terminals t).busy) : WriterOk queue terminals' tty where
  busy t := by rw [hw,hb]; exact h.busy t
  queued t := by rw [hw]; exact h.queued t
  pending := h.pending

/-- A write queue behind a writer gets another list of pending writers. -/
theorem WriterOk.setWriteQueue (h : WriterOk queue terminals tty)
    (hw : l≠[] → (terminals t).writer≠0) (hp : ∀ x∈l,(tty x).writeOffset<(tty x).writeLen) :
    WriterOk (Function.update queue (.writeQueue t) l) terminals tty where
  busy := h.busy
  queued t' hne := by
    by_cases he : t'=t
    · subst he; rw [Function.update_self] at hne; exact hw hne
    · rw [Function.update_of_ne (by simpa using he)] at hne; exact h.queued t' hne
  pending t' x hx := by
    by_cases he : t'=t
    · subst he; rw [Function.update_self] at hx; exact hp x hx
    · rw [Function.update_of_ne (by simpa using he)] at hx; exact h.pending t' x hx

end Writers

section Current

variable {s : Kernel}

/-- A running or ready process is not blocked. -/
theorem Runnable.not_blocked (h : Runnable s) : s.state s.currentProcess≠.blocked := by
  rcases h.state with he|he <;> rw [he] <;> decide

/-- A running or ready process is no zombie. -/
theorem Runnable.not_zombie (h : Runnable s) : s.state s.currentProcess≠.zombie := by
  rcases h.state with he|he <;> rw [he] <;> decide

/-- An executing process is no acquirer. -/
theorem Active.not_acquire (h : Active s) (id : ℤ) (g : ℕ) :
    (s.kernelContext s.currentProcess).point≠.acquire id g := by
  rw [h.executing]
  simp

end Current

end Yalnix.Coherence
