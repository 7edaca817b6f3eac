import Mathlib.Logic.ExistsUnique

/-!
# One reason per blocked party

Parties wait for reasons. The discipline is that a living party that waits is
marked blocked and waits for one reason only. It survives a new reason of a
marked party that has none, new marks of parties that do not wait, and the
loss of reasons and parties. The converse, that a marked party has a reason,
is kept by every change that gives the marked parties it affects a reason.
-/

namespace Yalnix.BlockingDiscipline

variable {P R : Type*} {alive alive' blocked blocked' : P → Prop} {waits waits' : P → R → Prop}

/-- A living waiter is blocked and has one reason. -/
structure Disciplined (alive blocked : P → Prop) (waits : P → R → Prop) : Prop where
  /-- Waiting parties are marked. -/
  blocked : ∀ p r,alive p → waits p r → blocked p
  /-- No party has two reasons. -/
  unique : ∀ p r r',alive p → waits p r → waits p r' → r=r'

/-- A party that is not marked has no reason. -/
theorem Disciplined.none (h : Disciplined alive blocked waits) {p : P} (hp : alive p)
    (hb : ¬blocked p) (r : R) : ¬waits p r := fun hw => hb (h.blocked p r hp hw)

/-- A marked party without reasons takes up one. -/
theorem Disciplined.adopt (h : Disciplined alive blocked waits) {w : P} {r₀ : R}
    (hb : blocked w) (hn : ∀ r,¬waits w r)
    (hw : ∀ p r,alive p → waits' p r → waits p r ∨ (p=w ∧ r=r₀)) :
    Disciplined alive blocked waits' where
  blocked p r hp hr := by
    rcases hw p r hp hr with h₁|⟨rfl,rfl⟩
    · exact h.blocked p r hp h₁
    · exact hb
  unique p r r' hp hr hr' := by
    rcases hw p r hp hr with h₁|⟨rfl,rfl⟩
    · rcases hw p r' hp hr' with h₂|⟨rfl,_⟩
      · exact h.unique p r r' hp h₁ h₂
      · exact absurd h₁ (hn r)
    · rcases hw p r' hp hr' with h₂|⟨_,rfl⟩
      · exact absurd h₂ (hn r')
      · rfl

/-- New marks that keep every waiting party marked. -/
theorem Disciplined.remark (h : Disciplined alive blocked waits)
    (hb : ∀ p r,alive p → waits p r → blocked' p) : Disciplined alive blocked' waits where
  blocked := hb
  unique := h.unique

/-- Living parties other than newcomers without reasons are as before. -/
theorem Disciplined.population (h : Disciplined alive blocked waits)
    (ha : ∀ p r,alive' p → waits' p r → alive p ∧ waits p r)
    (hb : ∀ p,alive p → alive' p → blocked p → blocked' p) :
    Disciplined alive' blocked' waits' where
  blocked p r hp hr :=
    hb p (ha p r hp hr).1 hp (h.blocked p r (ha p r hp hr).1 (ha p r hp hr).2)
  unique p r r' hp hr hr' :=
    h.unique p r r' (ha p r hp hr).1 (ha p r hp hr).2 (ha p r' hp hr').2

/-- A marked party has a reason. -/
def Motivated (alive blocked : P → Prop) (waits : P → R → Prop) : Prop :=
  ∀ p,alive p → blocked p → ∃ r,waits p r

/-- No party is newly marked and none loses a reason. -/
theorem Motivated.mono (h : Motivated alive blocked waits)
    (ha : ∀ p,alive' p → blocked' p → alive p ∧ blocked p)
    (hw : ∀ p r,waits p r → waits' p r) : Motivated alive' blocked' waits' := by
  intro p hp hb
  obtain ⟨hp',hb'⟩ := ha p hp hb
  obtain ⟨r,hr⟩ := h p hp' hb'
  exact ⟨r,hw p r hr⟩

/-- Only one party loses reasons or is marked, and it has a reason if marked. -/
theorem Motivated.change {w : P} (h : Motivated alive blocked waits)
    (ha : ∀ p,p≠w → alive' p → blocked' p → alive p ∧ blocked p)
    (hw : ∀ p r,p≠w → alive p → waits p r → waits' p r)
    (hn : alive' w → blocked' w → ∃ r,waits' w r) :
    Motivated alive' blocked' waits' := by
  intro p hp hb
  by_cases he : p=w
  · rw [he] at hp hb ⊢
    exact hn hp hb
  · obtain ⟨hp',hb'⟩ := ha p he hp hb
    obtain ⟨r,hr⟩ := h p hp' hb'
    exact ⟨r,hw p r he hp' hr⟩

/-- Under the discipline the marked parties are those with exactly one reason. -/
theorem Motivated.blocked_iff (hm : Motivated alive blocked waits)
    (hd : Disciplined alive blocked waits) {p : P} (hp : alive p) :
    blocked p ↔ ∃! r,waits p r := by
  constructor
  · intro hb
    obtain ⟨r,hr⟩ := hm p hp hb
    exact ⟨r,hr,fun r' hr' => hd.unique p r' r hp hr' hr⟩
  · rintro ⟨r,hr,_⟩
    exact hd.blocked p r hp hr

end Yalnix.BlockingDiscipline
