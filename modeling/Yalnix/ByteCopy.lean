import Mathlib.Data.List.Range
import Mathlib.Logic.Function.Basic

/-!
# Ascending byte copies

Buffers are maps from offsets. A copy moves one byte after the other in
increasing order of offsets, within one buffer or between two. Copying
towards lower offsets is exact even when the ranges overlap.
-/

namespace Yalnix.ByteCopy

variable {α : Type*}

/-- Copy n cells from one buffer to another. -/
def copyBetween (src : ℕ → α) : ℕ → ℕ → ℕ → (ℕ → α) → ℕ → α
  | _,_,0,dst => dst
  | d,a,n+1,dst => copyBetween src (d+1) (a+1) n (Function.update dst d (src a))

/-- Copy n cells within one buffer. -/
def copyWithin : ℕ → ℕ → ℕ → (ℕ → α) → ℕ → α
  | _,_,0,buf => buf
  | d,a,n+1,buf => copyWithin (d+1) (a+1) n (Function.update buf d (buf a))

/-- The first n cells of a buffer. -/
def contents (buf : ℕ → α) (n : ℕ) : List α := (List.range n).map buf

/-- The n cells of a buffer from offset a on. -/
def segment (buf : ℕ → α) (a n : ℕ) : List α := (List.range n).map (fun i => buf (a+i))

/-- Cells behind a copy between buffers. -/
theorem copyBetween_apply (src : ℕ → α) (d a n : ℕ) (dst : ℕ → α) (x : ℕ) :
    copyBetween src d a n dst x=if d≤x ∧ x<d+n then src (a+(x-d)) else dst x := by
  induction n generalizing d a dst with
  | zero =>
    have hn : ¬(d≤x ∧ x<d+0) := by omega
    rw [if_neg hn]
    rfl
  | succ n ih =>
    rw [copyBetween,ih]
    by_cases hx : x=d
    · have h₁ : ¬(d+1≤x ∧ x<d+1+n) := by omega
      have h₂ : d≤x ∧ x<d+(n+1) := by omega
      have h₃ : x-d=0 := by omega
      rw [if_neg h₁,if_pos h₂,h₃,hx,Function.update_self]
      rfl
    · by_cases hr : d+1≤x ∧ x<d+1+n
      · have h₁ : d≤x ∧ x<d+(n+1) := by omega
        have h₂ : a+1+(x-(d+1))=a+(x-d) := by omega
        rw [if_pos hr,if_pos h₁,h₂]
      · have h₁ : ¬(d≤x ∧ x<d+(n+1)) := by omega
        rw [if_neg hr,if_neg h₁,Function.update_of_ne hx]

/-- Cells behind a copy towards lower offsets, which may overlap its source. -/
theorem copyWithin_apply {d a : ℕ} (h : d≤a) (n : ℕ) (buf : ℕ → α) (x : ℕ) :
    copyWithin d a n buf x=if d≤x ∧ x<d+n then buf (a+(x-d)) else buf x := by
  induction n generalizing d a buf with
  | zero =>
    have hn : ¬(d≤x ∧ x<d+0) := by omega
    rw [if_neg hn]
    rfl
  | succ n ih =>
    rw [copyWithin,ih (by omega)]
    by_cases hx : x=d
    · have h₁ : ¬(d+1≤x ∧ x<d+1+n) := by omega
      have h₂ : d≤x ∧ x<d+(n+1) := by omega
      have h₃ : x-d=0 := by omega
      rw [if_neg h₁,if_pos h₂,h₃,hx,Function.update_self]
      rfl
    · by_cases hr : d+1≤x ∧ x<d+1+n
      · have h₁ : d≤x ∧ x<d+(n+1) := by omega
        have h₂ : a+1+(x-(d+1))=a+(x-d) := by omega
        have h₃ : a+(x-d)≠d := by omega
        rw [if_pos hr,if_pos h₁,h₂,Function.update_of_ne h₃]
      · have h₁ : ¬(d≤x ∧ x<d+(n+1)) := by omega
        rw [if_neg hr,if_neg h₁,Function.update_of_ne hx]

/-- Buffers that agree on the first cells. -/
theorem contents_congr {buf buf' : ℕ → α} {n : ℕ} (h : ∀ x<n,buf x=buf' x) :
    contents buf n=contents buf' n :=
  List.map_congr_left fun x hx => h x (List.mem_range.1 hx)

/-- The first cells are those of a segment behind those before it. -/
theorem contents_add (buf : ℕ → α) (m n : ℕ) :
    contents buf (m+n)=contents buf m++segment buf m n := by
  unfold contents segment
  rw [List.range_add,List.map_append,List.map_map]
  rfl

/-- A buffer moved to new storage keeps its cells. -/
theorem contents_moved (buf junk : ℕ → α) (n : ℕ) :
    contents (copyBetween buf 0 0 n junk) n=contents buf n := by
  refine contents_congr fun x hx => ?_
  have h₁ : 0≤x ∧ x<0+n := by omega
  have h₂ : 0+(x-0)=x := by omega
  rw [copyBetween_apply,if_pos h₁,h₂]

/-- Cells copied behind the others are appended. -/
theorem contents_appended (src : ℕ → α) (a m n : ℕ) (dst : ℕ → α) :
    contents (copyBetween src m a n dst) (m+n)=contents dst m++segment src a n := by
  rw [contents_add]
  congr 1
  · refine contents_congr fun x hx => ?_
    have h₁ : ¬(m≤x ∧ x< m+n) := by omega
    rw [copyBetween_apply,if_neg h₁]
  · refine List.map_congr_left fun x hx => ?_
    have hx := List.mem_range.1 hx
    have h₁ : m≤ m+x ∧ m+x< m+n := by omega
    have h₂ : a+(m+x-m)=a+x := by omega
    rw [copyBetween_apply,if_pos h₁,h₂]

/-- Moving the later cells to the front takes the earlier ones away. -/
theorem contents_consumed (buf : ℕ → α) (m n : ℕ) :
    contents buf (m+n)=contents buf m++contents (copyWithin 0 m n buf) n := by
  rw [contents_add]
  congr 1
  refine List.map_congr_left fun x hx => ?_
  have hx := List.mem_range.1 hx
  have h₁ : 0≤x ∧ x<0+n := by omega
  have h₂ : x-0=x := by omega
  rw [copyWithin_apply (Nat.zero_le m),if_pos h₁,h₂]

end Yalnix.ByteCopy
