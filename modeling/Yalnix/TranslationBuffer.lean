import Mathlib.Data.Set.Basic

/-!
# Translation buffers

Pages are translated by entries in memory. A buffer may load the entry of any
page at any time if it is valid, and keeps what it has loaded until the page
is flushed. The buffer is coherent when all it may hold is what memory has
now. An unflushed change spoils the pages that changed, a flush repairs them.
-/

namespace Yalnix.TranslationBuffer

variable {V E : Type*} {S T : Set V} {valid : E → Prop} {entry : V → E}

/-- Entries in memory and what may be held. -/
structure Buffer (V E : Type*) where
  /-- The entry of each page in memory. -/
  entry : V → E
  /-- Entries that the buffer may hold. -/
  cached : V → E → Prop

/-- Valid entries may be loaded. -/
def Buffer.load (valid : E → Prop) (b : Buffer V E) : Buffer V E :=
  {b with cached := fun v e => b.cached v e ∨ (e=b.entry v ∧ valid e)}

/-- The entries change in memory and the buffer is left as it is. -/
def Buffer.store (valid : E → Prop) (entry : V → E) (b : Buffer V E) : Buffer V E :=
  Buffer.load valid {b with entry := entry}

/-- The buffer without its entries for the flushed pages. -/
def Buffer.flush (valid : E → Prop) (S : Set V) (b : Buffer V E) : Buffer V E :=
  Buffer.load valid {b with cached := fun v e => v∉S ∧ b.cached v e}

/-- Outside some pages the buffer holds what memory has. -/
def CoherentOff (S : Set V) (b : Buffer V E) : Prop :=
  ∀ v e,v∉S → b.cached v e → e=b.entry v

/-- The buffer holds what memory has. -/
def Coherent (b : Buffer V E) : Prop := ∀ v e,b.cached v e → e=b.entry v

variable {b : Buffer V E}

/-- Coherence is coherence outside nothing. -/
theorem coherentOff_empty : CoherentOff ∅ b ↔ Coherent b := by
  constructor
  · intro h v e hc
    exact h v e (Set.notMem_empty v) hc
  · intro h v e _ hc
    exact h v e hc

/-- Outside all pages nothing is held. -/
theorem coherentOff_univ (b : Buffer V E) : CoherentOff Set.univ b :=
  fun v _ hv _ => absurd (Set.mem_univ v) hv

/-- Loading an entry from the tables keeps the buffer coherent. -/
theorem CoherentOff.load (h : CoherentOff S b) : CoherentOff S (b.load valid) := by
  rintro v e hv (hc|⟨he,_⟩)
  · exact h v e hv hc
  · exact he

/-- A change spoils the pages that changed. -/
theorem CoherentOff.store (h : CoherentOff S b) (hs : S⊆T) (he : ∀ v,v∉T → entry v=b.entry v) :
    CoherentOff T (b.store valid entry) := by
  refine CoherentOff.load (fun v e hv hc => ?_)
  rw [h v e (fun hm => hv (hs hm)) hc]
  exact (he v hv).symm

/-- A flush repairs the flushed pages. -/
theorem CoherentOff.flush (h : CoherentOff S b) (hs : S⊆T) : Coherent (b.flush valid T) := by
  refine coherentOff_empty.1 (CoherentOff.load ?_)
  rintro v e _ ⟨hv,hc⟩
  exact h v e (fun hm => hv (hs hm)) hc

/-- A flush of a coherent buffer. -/
theorem Coherent.flush (h : Coherent b) (S : Set V) : Coherent (b.flush valid S) :=
  (coherentOff_empty.2 h).flush (Set.empty_subset S)

/-- A change that is flushed at once. -/
theorem Coherent.storeFlush (h : Coherent b) (he : ∀ v,v∉S → entry v=b.entry v) :
    Coherent ((b.store valid entry).flush valid S) :=
  ((coherentOff_empty.2 h).store (Set.empty_subset S) he).flush (fun _ hv => hv)

/-- A change of no entry. -/
theorem Coherent.storeSame (h : Coherent b) (he : ∀ v,entry v=b.entry v) :
    Coherent (b.store valid entry) :=
  coherentOff_empty.1 ((coherentOff_empty.2 h).store (Set.empty_subset ∅) (fun v _ => he v))

end Yalnix.TranslationBuffer
