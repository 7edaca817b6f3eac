import Yalnix.Rings
import Mathlib.Data.Int.Basic

/-!
# Intrusive queues

A queue is a ring of entries around a head entry, which is the first member of
the queue and shares its address. All entries and heads of the kernel live in
one heap; an entry is in no queue when its links are null. Whatever queues are
initialised and whatever entries move through them, each queue is a list and an
operation changes the list of its own queue only.
-/

namespace Yalnix.IntrusiveQueues

open Rings

/-- Addresses of entries and queues; zero is the null pointer. -/
abbrev Addr := ℕ

/-- The fields of entries and queues. An entry takes twelve bytes of a 32-bit
memory, so that a length is a C int without overflow. -/
structure Heap where
  /-- The link to the entry before. -/
  prev : Addr → Addr
  /-- The link to the entry behind. -/
  next : Addr → Addr
  /-- The object that an entry belongs to. -/
  owner : Addr → Addr
  /-- The length of a queue. -/
  length : Addr → ℤ

/-- Store the link to the previous cell. -/
def Heap.setPrev (h : Heap) (a v : Addr) : Heap := {h with prev := Function.update h.prev a v}

/-- Store the link to the next cell. -/
def Heap.setNext (h : Heap) (a v : Addr) : Heap := {h with next := Function.update h.next a v}

/-- Store the owner of an entry. -/
def Heap.setOwner (h : Heap) (a v : Addr) : Heap := {h with owner := Function.update h.owner a v}

/-- Store the length of a queue. -/
def Heap.setLength (h : Heap) (a : Addr) (v : ℤ) : Heap :=
  {h with length := Function.update h.length a v}

/-- QueueInit: the head and the tail are null and the length is zero. -/
def queueInit (queue : Addr) (h : Heap) : Heap :=
  (((h.setPrev queue queue).setNext queue queue).setOwner queue 0).setLength queue 0

/-- Make an entry of an object. -/
def queueEntryInit (entry owner : Addr) (h : Heap) : Heap :=
  ((h.setPrev entry 0).setNext entry 0).setOwner entry owner

/-- Whether the length is zero. -/
def queueIsEmpty (queue : Addr) (h : Heap) : Bool := decide (h.length queue=0)

/-- Link an entry in before the head. -/
def queuePushBack (queue entry : Addr) (h : Heap) : Heap :=
  let h := h.setPrev entry (h.prev queue)
  let h := h.setNext entry queue
  let h := h.setNext (h.prev queue) entry
  let h := h.setPrev queue entry
  h.setLength queue (h.length queue+1)

/-- Unlink an entry, ignored when one of its links is null. -/
def queueRemove (queue entry : Addr) (h : Heap) : Heap :=
  if h.prev entry=0 ∨ h.next entry=0 then h
  else
    let h := h.setNext (h.prev entry) (h.next entry)
    let h := h.setPrev (h.next entry) (h.prev entry)
    let h := h.setPrev entry 0
    let h := h.setNext entry 0
    h.setLength queue (h.length queue-1)

/-- Unlink and return the first entry, null if the queue is empty. -/
def queuePopFront (queue : Addr) (h : Heap) : Heap × Addr :=
  if queueIsEmpty queue h=true then (h,0) else (queueRemove queue (h.next queue) h,h.next queue)

section Runs

/-- What the memory holds entries and queues at. -/
structure Layout where
  /-- The addresses that are entries. -/
  entry : Addr → Prop
  /-- The addresses that are queues. -/
  queue : Addr → Prop
  /-- No entry is at the null pointer. -/
  entry_pos : ∀ a,entry a → a≠0
  /-- No queue is at the null pointer. -/
  queue_pos : ∀ a,queue a → a≠0
  /-- The head of a queue is not an entry of an object. -/
  apart : ∀ a,entry a → ¬queue a

/-- The heap and the queues that QueueInit has been called for. -/
structure State where
  /-- The fields of all entries and queues. -/
  heap : Heap
  /-- The queues in use. -/
  ready : Addr → Bool

/-- The operations of the queues. -/
inductive Op where
  /-- QueueInit makes a queue empty. -/
  | init (queue : Addr)
  /-- QueueEntryInit makes an entry of the given owner. -/
  | entryInit (entry owner : Addr)
  /-- QueuePushBack links an entry at the end of a queue. -/
  | pushBack (queue entry : Addr)
  /-- QueuePopFront unlinks the first entry of a queue. -/
  | popFront (queue : Addr)
  /-- QueueRemove unlinks an entry of a queue. -/
  | remove (queue entry : Addr)

/-- An operation and the entry it returns. -/
def step (s : State) : Op → State × Addr
  | .init queue => (⟨queueInit queue s.heap,Function.update s.ready queue true⟩,0)
  | .entryInit entry owner => ({s with heap := queueEntryInit entry owner s.heap},0)
  | .pushBack queue entry => ({s with heap := queuePushBack queue entry s.heap},0)
  | .popFront queue =>
    ({s with heap := (queuePopFront queue s.heap).1},(queuePopFront queue s.heap).2)
  | .remove queue entry => ({s with heap := queueRemove queue entry s.heap},0)

/-- The entry is met on the way from the head of a queue back to the head. -/
def InQueue (s : State) (queue entry : Addr) : Prop :=
  s.ready queue=true ∧ ∃ l,Follows s.heap.next queue l queue ∧ queue∉l ∧ entry∈l

/-- How the kernel may call the operations. -/
def Legal (L : Layout) (s : State) : Op → Prop
  | .init queue => L.queue queue ∧ ∀ entry,¬InQueue s queue entry
  | .entryInit entry _ => L.entry entry ∧ ∀ queue,¬InQueue s queue entry
  | .pushBack queue entry => s.ready queue=true ∧ L.entry entry ∧
      s.heap.prev entry=0 ∧ s.heap.next entry=0
  | .popFront queue => s.ready queue=true
  | .remove queue entry => s.ready queue=true ∧ L.entry entry ∧
      (InQueue s queue entry ∨ ∀ queue,¬InQueue s queue entry)

/-- The states of all sequences of operations from entries with null links. -/
inductive Reachable (L : Layout) : State → Prop
  /-- No queue is in use. -/
  | start (h : Heap) (hn : ∀ a,L.entry a → h.prev a=0 ∧ h.next a=0) :
      Reachable L ⟨h,fun _ => false⟩
  /-- A legal operation follows on a reachable state. -/
  | step {s : State} (op : Op) (hs : Reachable L s) (h : Legal L s op) :
      Reachable L (step s op).1

end Runs

section Lists

variable {L : Layout} {s : State} {items items' : Addr → List Addr} {queue entry a : Addr}

/-- The operations on lists and the entry they return. -/
def listStep (items : Addr → List Addr) : Op → (Addr → List Addr) × Addr
  | .init queue => (Function.update items queue [],0)
  | .entryInit _ _ => (items,0)
  | .pushBack queue entry => (Function.update items queue (items queue++[entry]),0)
  | .popFront queue => (Function.update items queue (items queue).tail,(items queue).headD 0)
  | .remove queue entry => (Function.update items queue ((items queue).erase entry),0)

/-- The queues in use are lists. -/
structure Lists (L : Layout) (s : State) (items : Addr → List Addr) : Prop where
  /-- Following next from the head gives the list and returns to the head. -/
  forward : ∀ queue,s.ready queue=true → Follows s.heap.next queue (items queue) queue
  /-- Following prev gives the reverse. -/
  backward : ∀ queue,s.ready queue=true → Follows s.heap.prev queue (items queue).reverse queue
  /-- No entry repeats, and the way does not pass the head. -/
  nodup : ∀ queue,s.ready queue=true → (queue::items queue).Nodup
  /-- The length of the queue is that of the list. -/
  length : ∀ queue,s.ready queue=true → s.heap.length queue=(items queue).length
  /-- No entry is in two queues. -/
  one : ∀ queue queue' entry,s.ready queue=true → s.ready queue'=true → entry∈items queue →
    entry∈items queue' → queue=queue'
  /-- The lists are of entries with links. -/
  linked : ∀ queue entry,s.ready queue=true → entry∈items queue →
    L.entry entry ∧ s.heap.prev entry≠0 ∧ s.heap.next entry≠0
  /-- Entries in no queue have null links. -/
  unlinked : ∀ entry,L.entry entry → (∀ queue,s.ready queue=true → entry∉items queue) →
    s.heap.prev entry=0 ∧ s.heap.next entry=0

/-- The rings behind the lists. -/
structure QueueRings (L : Layout) (s : State) (items : Addr → List Addr) : Prop where
  /-- Each queue is a ring. -/
  ring : ∀ queue,s.ready queue=true →
    Linked s.heap.next s.heap.prev queue (items queue) queue
  /-- Queues in use are queues. -/
  queue : ∀ queue,s.ready queue=true → L.queue queue
  /-- Their members are entries. -/
  entry : ∀ queue entry,s.ready queue=true → entry∈items queue → L.entry entry
  /-- No entry stands twice in a queue. -/
  nodup : ∀ queue,s.ready queue=true → (items queue).Nodup
  /-- The length of the queue is that of the list. -/
  length : ∀ queue,s.ready queue=true → s.heap.length queue=(items queue).length
  /-- No entry is in two queues. -/
  one : ∀ queue queue' entry,s.ready queue=true → s.ready queue'=true → entry∈items queue →
    entry∈items queue' → queue=queue'
  /-- Entries in no queue have null links. -/
  unlinked : ∀ entry,L.entry entry → (∀ queue,s.ready queue=true → entry∉items queue) →
    s.heap.prev entry=0 ∧ s.heap.next entry=0

/-- A head is not an entry of its queue. -/
theorem QueueRings.head (h : QueueRings L s items) (hq : s.ready queue=true) (ha : s.ready a=true) :
    a∉items queue :=
  fun hm => L.apart a (h.entry queue a hq hm) (h.queue a ha)

/-- A ring and its head do not repeat. -/
theorem QueueRings.cells (h : QueueRings L s items) (hq : s.ready queue=true) :
    (queue::items queue).Nodup :=
  List.nodup_cons.2 ⟨h.head hq hq,h.nodup queue hq⟩

/-- Rings of two queues have no cell in common. -/
theorem QueueRings.apart (h : QueueRings L s items) (hq : s.ready queue=true) (ha : s.ready a=true)
    (hne : a≠queue) {x : Addr} (hx : x∈a::items a) : x∉queue::items queue := by
  intro hm
  rcases List.mem_cons.1 hx with hxa|hxa
  · subst hxa
    rcases List.mem_cons.1 hm with hm|hm
    · exact hne hm
    · exact h.head hq ha hm
  · rcases List.mem_cons.1 hm with hm|hm
    · subst hm
      exact h.head ha hq hxa
    · exact hne (h.one _ _ x ha hq hxa hm)

/-- Links of members are not null. -/
theorem QueueRings.links (h : QueueRings L s items) (hq : s.ready queue=true)
    (he : entry∈items queue) :
    s.heap.prev entry∈queue::items queue ∧ s.heap.next entry∈queue::items queue := by
  obtain ⟨l₁,l₂,hl⟩ := List.append_of_mem he
  have hring := h.ring queue hq
  rw [hl] at hring ⊢
  obtain ⟨h₁,h₂⟩ := linked_append.1 hring
  refine ⟨?_,?_⟩
  · rcases List.mem_cons.1 h₁.prev_mem with hm|hm
    · rw [hm]
      exact List.mem_cons_self
    · exact List.mem_cons_of_mem _ (List.mem_append.2 (.inl hm))
  · rcases List.mem_append.1 h₂.next_mem with hm|hm
    · exact List.mem_cons_of_mem _ (List.mem_append.2 (.inr (List.mem_cons_of_mem _ hm)))
    · rw [List.mem_singleton.1 hm]
      exact List.mem_cons_self

/-- No cell of a ring is at the null pointer. -/
theorem QueueRings.cell_pos (h : QueueRings L s items) (hq : s.ready queue=true)
    (ha : a∈queue::items queue) : a≠0 := by
  rcases List.mem_cons.1 ha with hm|hm
  · rw [hm]
    exact L.queue_pos queue (h.queue queue hq)
  · exact L.entry_pos a (h.entry queue a hq hm)

/-- Queues that are rings are lists of their entries. -/
theorem QueueRings.lists (h : QueueRings L s items) : Lists L s items := by
  refine ⟨fun q hq => (h.ring q hq).forward,fun q hq => (h.ring q hq).backward,
    fun q hq => h.cells hq,h.length,h.one,fun q e hq he => ?_,h.unlinked⟩
  obtain ⟨hp,hn⟩ := h.links hq he
  exact ⟨h.entry q e hq he,h.cell_pos hq hp,h.cell_pos hq hn⟩

/-- The list of a queue is unique. -/
theorem QueueRings.inQueue (h : QueueRings L s items) :
    InQueue s queue entry ↔ s.ready queue=true ∧ entry∈items queue := by
  constructor
  · rintro ⟨hq,l,hf,hout,hm⟩
    have hl := hf.unique (h.ring queue hq).forward hout (h.head hq hq)
    exact ⟨hq,hl ▸ hm⟩
  · rintro ⟨hq,hm⟩
    exact ⟨hq,items queue,(h.ring queue hq).forward,h.head hq hq,hm⟩

/-- An entry that no queue holds. -/
theorem QueueRings.free (h : QueueRings L s items) (hn : ∀ queue,¬InQueue s queue entry) (q : Addr)
    (hq : s.ready q=true) : entry∉items q :=
  fun hm => hn q (h.inQueue.2 ⟨hq,hm⟩)

/-- An entry with a null link is in no queue. -/
theorem QueueRings.null (h : QueueRings L s items) (he : s.heap.prev entry=0) (q : Addr)
    (hq : s.ready q=true) : entry∉items q :=
  fun hm => h.cell_pos hq (h.links hq hm).1 he

/-- Queues whose cells keep their links stay as they are, one gets a new list. -/
theorem QueueRings.changed (h : QueueRings L s items) {t : State} {l : List Addr}
    (hready : t.ready=Function.update s.ready queue true) (hqueue : L.queue queue)
    (hring : Linked t.heap.next t.heap.prev queue l queue) (hnodup : l.Nodup)
    (hentry : ∀ e,e∈l → L.entry e) (hlength : t.heap.length queue=l.length)
    (hfree : ∀ e q,e∈l → q≠queue → s.ready q=true → e∉items q)
    (hnext : ∀ x q,q≠queue → s.ready q=true → x∈q::items q → t.heap.next x=s.heap.next x)
    (hprev : ∀ x q,q≠queue → s.ready q=true → x∈q::items q → t.heap.prev x=s.heap.prev x)
    (hlen : ∀ q,q≠queue → t.heap.length q=s.heap.length q)
    (hnull : ∀ e,L.entry e → e∉l → (∀ q,q≠queue → s.ready q=true → e∉items q) →
      t.heap.prev e=0 ∧ t.heap.next e=0) :
    QueueRings L t (Function.update items queue l) := by
  have hother : ∀ q,q≠queue → t.ready q=true → s.ready q=true := by
    intro q hne hq
    rw [hready,Function.update_of_ne hne] at hq
    exact hq
  refine ⟨fun q hq => ?_,fun q hq => ?_,fun q e hq he => ?_,fun q hq => ?_,fun q hq => ?_,
    fun q q' e hq hq' he he' => ?_,fun e he hn => ?_⟩
  · by_cases hne : q=queue
    · rw [hne,Function.update_self]
      exact hring
    · have hq₀ := hother q hne hq
      rw [Function.update_of_ne hne]
      refine (h.ring q hq₀).congr (fun x hx => hnext x q hne hq₀ hx) (fun x hx => ?_)
      refine hprev x q hne hq₀ ?_
      rcases List.mem_append.1 hx with hm|hm
      · exact List.mem_cons_of_mem _ hm
      · rw [List.mem_singleton.1 hm]
        exact List.mem_cons_self
  · by_cases hne : q=queue
    · rw [hne]
      exact hqueue
    · exact h.queue q (hother q hne hq)
  · by_cases hne : q=queue
    · rw [hne,Function.update_self] at he
      exact hentry e he
    · rw [Function.update_of_ne hne] at he
      exact h.entry q e (hother q hne hq) he
  · by_cases hne : q=queue
    · rw [hne,Function.update_self]
      exact hnodup
    · rw [Function.update_of_ne hne]
      exact h.nodup q (hother q hne hq)
  · by_cases hne : q=queue
    · rw [hne,Function.update_self]
      exact hlength
    · rw [Function.update_of_ne hne,hlen q hne]
      exact h.length q (hother q hne hq)
  · by_cases hne : q=queue
    · by_cases hne' : q'=queue
      · rw [hne,hne']
      · rw [hne,Function.update_self] at he
        rw [Function.update_of_ne hne'] at he'
        exact absurd he' (hfree e q' he hne' (hother q' hne' hq'))
    · rw [Function.update_of_ne hne] at he
      by_cases hne' : q'=queue
      · rw [hne',Function.update_self] at he'
        exact absurd he (hfree e q he' hne (hother q hne hq))
      · rw [Function.update_of_ne hne'] at he'
        exact h.one q q' e (hother q hne hq) (hother q' hne' hq') he he'
  · refine hnull e he ?_ (fun q hne hq => ?_)
    · have hout := hn queue (by rw [hready,Function.update_self])
      rw [Function.update_self] at hout
      exact hout
    · have hout := hn q (by rw [hready,Function.update_of_ne hne]; exact hq)
      rw [Function.update_of_ne hne] at hout
      exact hout

end Lists

section Steps

variable {L : Layout} {s : State} {items : Addr → List Addr} {queue entry a : Addr} {h : Heap}

/-- QueuePushBack as one update of each kind of field. -/
theorem queuePushBack_eq (hne : queue≠entry) : queuePushBack queue entry h=
    {h with
      prev := Function.update (Function.update h.prev entry (h.prev queue)) queue entry
      next := Function.update (Function.update h.next entry queue) (h.prev queue) entry
      length := Function.update h.length queue (h.length queue+1)} := by
  unfold queuePushBack Heap.setPrev Heap.setNext Heap.setLength
  dsimp only
  rw [Function.update_of_ne hne]

/-- QueueRemove as one update of each kind of field. -/
theorem queueRemove_eq (hp : h.prev entry≠0) (hn : h.next entry≠0) (hne : h.prev entry≠entry) :
    queueRemove queue entry h=
      {h with
        prev := Function.update (Function.update h.prev (h.next entry) (h.prev entry)) entry 0
        next := Function.update (Function.update h.next (h.prev entry) (h.next entry)) entry 0
        length := Function.update h.length queue (h.length queue-1)} := by
  unfold queueRemove Heap.setPrev Heap.setNext Heap.setLength
  rw [if_neg (by rw [not_or]; exact ⟨hp,hn⟩)]
  dsimp only
  rw [Function.update_of_ne (Ne.symm hne)]

/-- A queue without entries is initialised. -/
theorem QueueRings.init (h : QueueRings L s items) (hq : L.queue queue)
    (hn : ∀ entry,¬InQueue s queue entry) :
    QueueRings L (step s (.init queue)).1 (Function.update items queue []) := by
  have hcell : ∀ x q,q≠queue → s.ready q=true → x∈q::items q → x≠queue := by
    intro x q hne hr hx he
    rcases List.mem_cons.1 hx with hm|hm
    · exact hne (hm.symm.trans he)
    · exact L.apart x (h.entry q x hr hm) (he ▸ hq)
  refine h.changed rfl hq ⟨Function.update_self _ _ _,Function.update_self _ _ _⟩ List.nodup_nil
    (fun e he => (by cases he)) (Function.update_self _ _ _) (fun e q he => (by cases he))
    (fun x q hne hr hx => Function.update_of_ne (hcell x q hne hr hx) _ _)
    (fun x q hne hr hx => Function.update_of_ne (hcell x q hne hr hx) _ _)
    (fun q hne => Function.update_of_ne hne _ _) (fun e he _ hout => ?_)
  have hne : e≠queue := fun heq => L.apart e he (heq ▸ hq)
  have hnull := h.unlinked e he (fun q hr => by
    by_cases hqe : q=queue
    · exact fun hm => hn e (h.inQueue.2 ⟨hqe ▸ hr,hqe ▸ hm⟩)
    · exact hout q hqe hr)
  exact ⟨(Function.update_of_ne hne _ _).trans hnull.1,
    (Function.update_of_ne hne _ _).trans hnull.2⟩

/-- An entry in no queue is initialised. -/
theorem QueueRings.entryInit (h : QueueRings L s items) (he : L.entry entry) (owner : Addr)
    (hn : ∀ queue,¬InQueue s queue entry) :
    QueueRings L (step s (.entryInit entry owner)).1 items := by
  have hcell : ∀ x q,s.ready q=true → x∈q::items q → x≠entry := by
    intro x q hr hx hxe
    rcases List.mem_cons.1 hx with hm|hm
    · exact L.apart entry he (hxe ▸ hm ▸ h.queue q hr)
    · exact h.free hn q hr (hxe ▸ hm)
  refine ⟨fun q hr => (h.ring q hr).congr (fun x hx => ?_) (fun x hx => ?_),h.queue,h.entry,
    h.nodup,h.length,h.one,fun e hee hout => ?_⟩
  · exact Function.update_of_ne (hcell x q hr hx) _ _
  · refine Function.update_of_ne (hcell x q hr ?_) _ _
    rcases List.mem_append.1 hx with hm|hm
    · exact List.mem_cons_of_mem _ hm
    · rw [List.mem_singleton.1 hm]
      exact List.mem_cons_self
  · by_cases hne : e=entry
    · rw [hne]
      exact ⟨Function.update_self _ _ _,Function.update_self _ _ _⟩
    · have hnull := h.unlinked e hee hout
      exact ⟨(Function.update_of_ne hne _ _).trans hnull.1,
        (Function.update_of_ne hne _ _).trans hnull.2⟩

/-- An entry with null links is appended. -/
theorem QueueRings.pushBack (h : QueueRings L s items) (hq : s.ready queue=true)
    (he : L.entry entry) (hp : s.heap.prev entry=0) :
    QueueRings L (step s (.pushBack queue entry)).1
      (Function.update items queue (items queue++[entry])) := by
  have hqe : queue≠entry := fun heq => L.apart entry he (heq ▸ h.queue queue hq)
  have hout : ∀ q,s.ready q=true → entry∉items q := h.null hp
  have hcells := h.cells hq
  have hlast : s.heap.prev queue∈queue::items queue := (h.ring queue hq).prev_mem
  have hnew : entry∉queue::items queue := by
    intro hm
    rcases List.mem_cons.1 hm with hm|hm
    · exact hqe hm.symm
    · exact hout queue hq hm
  have hcell : ∀ x q,q≠queue → s.ready q=true → x∈q::items q →
      x≠entry ∧ x∉queue::items queue := by
    intro x q hne hr hx
    refine ⟨fun hxe => ?_,h.apart hq hr hne hx⟩
    rcases List.mem_cons.1 hx with hm|hm
    · exact L.apart entry he (hxe ▸ hm ▸ h.queue q hr)
    · exact hout q hr (hxe ▸ hm)
  unfold step
  dsimp only
  rw [queuePushBack_eq hqe]
  refine h.changed (Function.update_eq_self_iff.2 hq.symm).symm (h.queue queue hq)
    ((h.ring queue hq).insert hcells (List.nodup_cons.1 hcells).1 hnew (Ne.symm hqe)) ?_
    (fun e hm => ?_) ?_ (fun e q hm hne hr hme => ?_) (fun x q hne hr hx => ?_)
    (fun x q hne hr hx => ?_) (fun q hne => Function.update_of_ne hne _ _)
    (fun e hee hm hother => ?_)
  · exact List.nodup_append.2 ⟨h.nodup queue hq,List.nodup_singleton _,fun x hx y hy hxy =>
      hout queue hq (List.mem_singleton.1 hy ▸ hxy ▸ hx)⟩
  · rcases List.mem_append.1 hm with hm|hm
    · exact h.entry queue e hq hm
    · rw [List.mem_singleton.1 hm]
      exact he
  · dsimp only
    rw [Function.update_self,h.length queue hq,List.length_append]
    rfl
  · rcases List.mem_append.1 hm with hm|hm
    · exact hne (h.one _ _ e hr hq hme hm)
    · exact hout q hr (List.mem_singleton.1 hm ▸ hme)
  · obtain ⟨hxe,hxq⟩ := hcell x q hne hr hx
    dsimp only
    rw [Function.update_of_ne (ne_of_mem_of_not_mem hlast hxq).symm,Function.update_of_ne hxe]
  · obtain ⟨hxe,hxq⟩ := hcell x q hne hr hx
    dsimp only
    rw [Function.update_of_ne (ne_of_mem_of_not_mem List.mem_cons_self hxq).symm,
      Function.update_of_ne hxe]
  · have hee' : e≠entry := fun heq =>
      hm (List.mem_append.2 (.inr (List.mem_singleton.2 heq)))
    have hnotin : e∉queue::items queue := by
      intro hmem
      rcases List.mem_cons.1 hmem with heq|hmem
      · exact L.apart e hee (heq ▸ h.queue queue hq)
      · exact hm (List.mem_append.2 (.inl hmem))
    have hnull := h.unlinked e hee (fun q hr hme => by
      by_cases hqe' : q=queue
      · exact hnotin (List.mem_cons_of_mem _ (hqe' ▸ hme))
      · exact hother q hqe' hr hme)
    dsimp only
    rw [Function.update_of_ne (ne_of_mem_of_not_mem List.mem_cons_self hnotin).symm,
      Function.update_of_ne hee',Function.update_of_ne (ne_of_mem_of_not_mem hlast hnotin).symm,
      Function.update_of_ne hee']
    exact hnull

/-- An entry of the queue is taken out. -/
theorem QueueRings.unlink (h : QueueRings L s items) (hq : s.ready queue=true)
    (he : entry∈items queue) :
    QueueRings L {s with heap := queueRemove queue entry s.heap}
      (Function.update items queue ((items queue).erase entry)) := by
  obtain ⟨hp,hn⟩ := h.links hq he
  have hcells := h.cells hq
  obtain ⟨l₁,l₂,hl⟩ := List.append_of_mem he
  have hring := h.ring queue hq
  rw [hl] at hring hcells
  have he' : entry∈l₁++entry::l₂ := List.mem_append.2 (.inr List.mem_cons_self)
  obtain ⟨h₁,h₂⟩ := linked_append.1 hring
  obtain ⟨hqout,hnd⟩ := List.nodup_cons.1 hcells
  have hqe : entry≠queue := fun heq => hqout (heq ▸ he')
  obtain ⟨hnd₁,hnd₂,hdis⟩ := List.nodup_append.1 hnd
  have he₁ : entry∉l₁ := fun hm => hdis entry hm entry List.mem_cons_self rfl
  have he₂ : entry∉l₂ := (List.nodup_cons.1 hnd₂).1
  have herase : (l₁++entry::l₂).erase entry=l₁++l₂ := by
    rw [List.erase_append_right _ he₁,List.erase_cons_head]
  have hout : entry∉l₁++l₂ := fun hm => (List.mem_append.1 hm).elim he₁ he₂
  have hcell : ∀ x q,q≠queue → s.ready q=true → x∈q::items q →
      x≠entry ∧ x∉queue::items queue := by
    intro x q hne hr hx
    have hxq := h.apart hq hr hne hx
    exact ⟨fun hxe => hxq (hxe ▸ List.mem_cons_of_mem _ he),hxq⟩
  have hpe : s.heap.prev entry≠entry := by
    intro heq
    rcases List.mem_cons.1 h₁.prev_mem with hm|hm
    · exact hqe (heq.symm.trans hm)
    · exact he₁ (heq ▸ hm)
  rw [queueRemove_eq (h.cell_pos hq hp) (h.cell_pos hq hn) hpe,hl,herase]
  refine h.changed (Function.update_eq_self_iff.2 hq.symm).symm (h.queue queue hq) ?_ ?_
    (fun e hm => ?_) ?_ (fun e q hm hne hr hme => ?_) (fun x q hne hr hx => ?_)
    (fun x q hne hr hx => ?_) (fun q hne => Function.update_of_ne hne _ _)
    (fun e hee hm hother => ?_)
  · refine (h₁.unlink h₂ hcells hqout).congr (fun x hx => ?_) (fun x hx => ?_)
    · refine Function.update_of_ne (fun hxe => ?_) _ _
      rcases List.mem_cons.1 hx with hm|hm
      · exact hqe (hxe.symm.trans hm)
      · exact hout (hxe ▸ hm)
    · refine Function.update_of_ne (fun hxe => ?_) _ _
      rcases List.mem_append.1 hx with hm|hm
      · exact hout (hxe ▸ hm)
      · exact hqe (hxe.symm.trans (List.mem_singleton.1 hm))
  · exact List.nodup_append.2 ⟨hnd₁,(List.nodup_cons.1 hnd₂).2,fun x hx y hy =>
      hdis x hx y (List.mem_cons_of_mem _ hy)⟩
  · refine h.entry queue e hq ?_
    rw [hl]
    rcases List.mem_append.1 hm with hm|hm
    · exact List.mem_append.2 (.inl hm)
    · exact List.mem_append.2 (.inr (List.mem_cons_of_mem _ hm))
  · dsimp only
    rw [Function.update_self,h.length queue hq,hl,List.length_append,List.length_append,
      List.length_cons]
    omega
  · refine hne (h.one q queue e hr hq hme ?_)
    rw [hl]
    rcases List.mem_append.1 hm with hm|hm
    · exact List.mem_append.2 (.inl hm)
    · exact List.mem_append.2 (.inr (List.mem_cons_of_mem _ hm))
  · obtain ⟨hxe,hxq⟩ := hcell x q hne hr hx
    dsimp only
    rw [Function.update_of_ne hxe,Function.update_of_ne (ne_of_mem_of_not_mem hp hxq).symm]
  · obtain ⟨hxe,hxq⟩ := hcell x q hne hr hx
    dsimp only
    rw [Function.update_of_ne hxe,Function.update_of_ne (ne_of_mem_of_not_mem hn hxq).symm]
  · dsimp only
    by_cases hee' : e=entry
    · rw [hee']
      exact ⟨Function.update_self _ _ _,Function.update_self _ _ _⟩
    · have hnotin : e∉items queue := by
        rw [hl]
        intro hmem
        rcases List.mem_append.1 hmem with hmem|hmem
        · exact hm (List.mem_append.2 (.inl hmem))
        · rcases List.mem_cons.1 hmem with hmem|hmem
          · exact hee' hmem
          · exact hm (List.mem_append.2 (.inr hmem))
      have hnotcell : e∉queue::items queue := by
        intro hmem
        rcases List.mem_cons.1 hmem with heq|hmem
        · exact L.apart e hee (heq ▸ h.queue queue hq)
        · exact hnotin hmem
      have hnull := h.unlinked e hee (fun q hr hme => by
        by_cases hqe' : q=queue
        · exact hnotin (hqe' ▸ hme)
        · exact hother q hqe' hr hme)
      rw [Function.update_of_ne hee',Function.update_of_ne hee',
        Function.update_of_ne (ne_of_mem_of_not_mem hn hnotcell).symm,
        Function.update_of_ne (ne_of_mem_of_not_mem hp hnotcell).symm]
      exact hnull

/-- QueueRemove ignores an entry in no queue. -/
theorem QueueRings.ignored (h : QueueRings L s items) (he : L.entry entry)
    (hn : ∀ queue,¬InQueue s queue entry) : queueRemove queue entry s.heap=s.heap := by
  obtain ⟨hp,_⟩ := h.unlinked entry he (h.free hn)
  unfold queueRemove
  exact if_pos (.inl hp)

/-- The length tells whether the list is empty. -/
theorem QueueRings.isEmpty (h : QueueRings L s items) (hq : s.ready queue=true) :
    queueIsEmpty queue s.heap=true ↔ items queue=[] := by
  unfold queueIsEmpty
  rw [decide_eq_true_eq,h.length queue hq,Int.natCast_eq_zero,List.length_eq_zero_iff]

/-- The first entry is taken out. -/
theorem QueueRings.popFront (h : QueueRings L s items) (hq : s.ready queue=true) :
    QueueRings L (step s (.popFront queue)).1 (Function.update items queue (items queue).tail) ∧
      (step s (.popFront queue)).2=(items queue).headD 0 := by
  unfold step queuePopFront
  dsimp only
  by_cases he : items queue=[]
  · rw [if_pos ((h.isEmpty hq).2 he),he,List.tail_nil]
    refine ⟨?_,rfl⟩
    rw [←he,Function.update_eq_self]
    exact h
  · rw [if_neg (fun hz => he ((h.isEmpty hq).1 hz))]
    obtain ⟨first,rest,hl⟩ := List.exists_cons_of_ne_nil he
    have hring := h.ring queue hq
    rw [hl] at hring
    have hfirst : s.heap.next queue=first := hring.1.1
    have hrest := h.unlink hq (hl ▸ List.mem_cons_self : first∈items queue)
    rw [hl,List.erase_cons_head] at hrest
    dsimp only
    rw [hfirst,hl,List.tail_cons]
    exact ⟨hrest,rfl⟩

/-- One operation does to the heap what it does to the lists. -/
theorem QueueRings.step (h : QueueRings L s items) {op : Op} (hop : Legal L s op) :
    QueueRings L (IntrusiveQueues.step s op).1 (listStep items op).1 ∧
      (IntrusiveQueues.step s op).2=(listStep items op).2 := by
  cases op with
  | init queue => exact ⟨h.init hop.1 hop.2,rfl⟩
  | entryInit entry owner => exact ⟨h.entryInit hop.1 owner hop.2,rfl⟩
  | pushBack queue entry => exact ⟨h.pushBack hop.1 hop.2.1 hop.2.2.1,rfl⟩
  | popFront queue => exact h.popFront hop
  | remove queue entry =>
    obtain ⟨hq,he,hin⟩ := hop
    refine ⟨?_,rfl⟩
    rcases hin with hin|hout
    · exact h.unlink hq (h.inQueue.1 hin).2
    · unfold IntrusiveQueues.step listStep
      dsimp only
      rw [h.ignored he hout,List.erase_of_not_mem (h.free hout queue hq),Function.update_eq_self]
      exact h

/-- Every reachable heap is made of rings. -/
theorem reachable_rings (h : Reachable L s) : ∃ items,QueueRings L s items := by
  induction h with
  | start h hn =>
    refine ⟨fun _ => [],fun q hq => ?_,fun q hq => ?_,fun q e hq => ?_,fun q hq => ?_,
      fun q hq => ?_,fun q q' e hq => ?_,fun e he _ => hn e he⟩
    all_goals cases hq
  | step op _ hop ih =>
    obtain ⟨items,hr⟩ := ih
    exact ⟨_,(hr.step hop).1⟩

/-- The intrusive queues are lists: behind every sequence of operations each
queue is a list of entries, linked in both directions and counted, entries
elsewhere have null links, and every further operation does to the heap, and
returns, what it does to the lists. QueuePopFront returns null exactly when the
list is empty, and an entry has null links exactly when it is in no queue. -/
theorem queues_are_lists (L : Layout) (s : State) (h : Reachable L s) :
    ∃ items,Lists L s items ∧
      (∀ queue,s.ready queue=true →
        ((queuePopFront queue s.heap).2=0 ↔ items queue=[])) ∧
      (∀ entry,L.entry entry → ((s.heap.prev entry=0 ∨ s.heap.next entry=0) ↔
        ∀ queue,¬InQueue s queue entry)) ∧
      ∀ op,Legal L s op → Lists L (step s op).1 (listStep items op).1 ∧
        (step s op).2=(listStep items op).2 := by
  obtain ⟨items,hr⟩ := reachable_rings h
  refine ⟨items,hr.lists,fun queue hq => ?_,fun entry he => ⟨fun hz queue hin => ?_,
    fun hn => .inl (hr.unlinked entry he (hr.free hn)).1⟩,fun op hop => ?_⟩
  · have hpop : (queuePopFront queue s.heap).2=(items queue).headD 0 := (hr.popFront hq).2
    rw [hpop]
    cases hl : items queue with
    | nil => exact ⟨fun _ => rfl,fun _ => rfl⟩
    | cons first rest =>
      have hfirst : first∈items queue := hl ▸ List.mem_cons_self
      exact ⟨fun hz => absurd hz (L.entry_pos first (hr.entry queue first hq hfirst)),
        fun hf => (by cases hf)⟩
  · obtain ⟨hq,hm⟩ := hr.inQueue.1 hin
    obtain ⟨_,hp,hnx⟩ := hr.lists.linked queue entry hq hm
    exact hz.elim hp hnx
  · obtain ⟨hnext,hret⟩ := hr.step hop
    exact ⟨hnext.lists,hret⟩

/-- Two queues and the entries above them. -/
def sampleLayout : Layout where
  entry := fun a => 10≤a
  queue := fun a => a=1 ∨ a=2
  entry_pos := fun a (h : 10≤a) => Nat.ne_of_gt (Nat.lt_of_lt_of_le (by decide) h)
  queue_pos := fun a h => by rcases h with rfl|rfl <;> decide
  apart := fun a (h : 10≤a) hq => by rcases hq with rfl|rfl <;> exact absurd h (by decide)

/-- Three entries move through two queues. -/
def sampleState : State :=
  [Op.init 1,.init 2,.pushBack 1 10,.pushBack 1 11,.pushBack 1 12,.popFront 1,.pushBack 2 10,
    .remove 1 11].foldl (fun s op => (step s op).1)
    ⟨⟨fun _ => 0,fun _ => 0,fun _ => 0,fun _ => 0⟩,fun _ => false⟩

/-- The sample state is reached by legal operations. -/
theorem sampleState_reachable : Reachable sampleLayout sampleState := by
  have h₀ : Reachable sampleLayout
      ⟨⟨fun _ => 0,fun _ => 0,fun _ => 0,fun _ => 0⟩,fun _ => false⟩ :=
    .start _ (fun _ _ => ⟨rfl,rfl⟩)
  have h₂ := (h₀.step (.init 1) ⟨.inl rfl,fun _ hf => (by cases hf.1)⟩).step (.init 2)
    ⟨.inr rfl,fun _ hf => (by cases hf.1)⟩
  have h₅ := ((h₂.step (.pushBack 1 10) ⟨rfl,Nat.le_refl _,rfl,rfl⟩).step (.pushBack 1 11)
    ⟨rfl,Nat.le_add_right 10 1,rfl,rfl⟩).step (.pushBack 1 12)
      ⟨rfl,Nat.le_add_right 10 2,rfl,rfl⟩
  have h₇ := (h₅.step (.popFront 1) rfl).step (.pushBack 2 10) ⟨rfl,Nat.le_refl _,rfl,rfl⟩
  exact h₇.step (.remove 1 11)
    ⟨rfl,Nat.le_add_right 10 1,.inl ⟨rfl,[11,12],⟨rfl,rfl,rfl⟩,by decide,by decide⟩⟩

/-- Behind them one entry is in each queue. -/
theorem queues_are_lists_sample :
    ∃ items,Lists sampleLayout sampleState items ∧ items 1=[12] ∧ items 2=[10] := by
  obtain ⟨items,hl,_⟩ := queues_are_lists sampleLayout sampleState sampleState_reachable
  have h₁ : Follows sampleState.heap.next 1 [12] 1 := ⟨rfl,rfl⟩
  have h₂ : Follows sampleState.heap.next 2 [10] 2 := ⟨rfl,rfl⟩
  exact ⟨items,hl,(hl.forward 1 rfl).unique h₁ (List.nodup_cons.1 (hl.nodup 1 rfl)).1 (by decide),
    (hl.forward 2 rfl).unique h₂ (List.nodup_cons.1 (hl.nodup 2 rfl)).1 (by decide)⟩

end Steps

end Yalnix.IntrusiveQueues
