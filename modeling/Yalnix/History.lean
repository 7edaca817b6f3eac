import Mathlib.Data.List.Basic

/-!
# Histories

A log records what is put into a queue and what is taken out of it. The queue
is in order when the things put in are the things taken out followed by the
things inside. Every change of the queue that is logged at its end or its
front keeps this. A log is grounded when each event was justified by the
events before it.
-/

namespace Yalnix.History

variable {E P : Type*} {put take : E → List P} {log es : List E} {inside : List P}

/-- What was put in is what was taken out, followed by what is inside. -/
def InOrder (put take : E → List P) (log : List E) (inside : List P) : Prop :=
  log.flatMap put=log.flatMap take++inside

/-- An empty history of an empty queue. -/
theorem InOrder.empty (put take : E → List P) : InOrder put take [] [] := rfl

/-- Events that say nothing about the queue. -/
theorem InOrder.other (h : InOrder put take log inside) (hp : es.flatMap put=[])
    (ht : es.flatMap take=[]) : InOrder put take (log++es) inside := by
  unfold InOrder at h ⊢
  rw [List.flatMap_append,List.flatMap_append,hp,ht,List.append_nil,List.append_nil]
  exact h

/-- Something is put in behind. -/
theorem InOrder.push {l : List P} (h : InOrder put take log inside) (hp : es.flatMap put=l)
    (ht : es.flatMap take=[]) : InOrder put take (log++es) (inside++l) := by
  unfold InOrder at h ⊢
  rw [List.flatMap_append,List.flatMap_append,hp,ht,List.append_nil,h,List.append_assoc]

/-- Something is taken out in front. -/
theorem InOrder.pop {l : List P} (h : InOrder put take log (l++inside)) (hp : es.flatMap put=[])
    (ht : es.flatMap take=l) : InOrder put take (log++es) inside := by
  unfold InOrder at h ⊢
  rw [List.flatMap_append,List.flatMap_append,hp,ht,List.append_nil,h,List.append_assoc]

/-- Each event of the log was justified by the log before it. -/
def Grounded (Q : List E → E → Prop) (log : List E) : Prop :=
  ∀ past e,past++[e]<+:log → Q past e

variable {Q : List E → E → Prop}

/-- The empty history is grounded. -/
theorem Grounded.empty (Q : List E → E → Prop) : Grounded Q [] := by
  intro past e h
  have := List.prefix_nil.1 h
  simp at this

/-- An event that is justified now. -/
theorem Grounded.record (h : Grounded Q log) {e : E} (he : Q log e) : Grounded Q (log++[e]) := by
  intro past e' hp
  rcases List.prefix_concat_iff.1 hp with heq|hp
  · obtain ⟨hl,hr⟩ := List.append_inj' heq rfl
    injection hr with hr
    rw [hl,hr]
    exact he
  · exact h past e' hp

/-- Events that need no justification. -/
theorem Grounded.other (h : Grounded Q log) (hl : ∀ e∈es,∀ past,Q past e) :
    Grounded Q (log++es) := by
  induction es generalizing log with
  | nil => rwa [List.append_nil]
  | cons e rest ih =>
    have h₁ := h.record (hl e List.mem_cons_self log)
    have h₂ := ih h₁ (fun e' he => hl e' (List.mem_cons_of_mem e he))
    rwa [List.append_assoc] at h₂

end Yalnix.History
