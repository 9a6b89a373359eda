import TextIndex.Proofs.Ends
import TextIndex.Store.Build

/-!
# Single steps on a store

How the steps end of which the calls of a store are made, what is read from a store after one slot has
changed, and how many bytes it holds then.
-/

set_option autoImplicit false

namespace TextIndex.Store

/-! ## The single steps of a store -/

section Steps

variable {s : Store} {k : Kind} {α : Type}

/-- A failure of a vector becomes one of the store. -/
@[simp] theorem ends_ofVector {x : Except VectorError α} {Q : α → Store → Prop}
    {F : IndexError → Store → Prop} :
    Ends (ofVector x) s Q F ↔
      (∀ a, x = .ok a → Q a s) ∧ ∀ e, x = .error e → F (.storage e) s := by
  cases x with
  | ok a =>
    show Q a s ↔ _
    simp
  | error e =>
    show F (.storage e) s ↔ _
    simp

/-- Asking for a structure reports the kind that is missing. -/
@[simp] theorem ends_demand {Q : PackedVector → Store → Prop} {F : IndexError → Store → Prop} :
    Ends (demand k) s Q F ↔
      (∀ v, s.get? k = some v → Q v s) ∧ (s.get? k = none → F (.missing k) s) := by
  unfold demand
  rw [ends_bind, ends_get]
  cases s.get? k <;> simp

/-- Asking for a structure to keep takes it out of its slot. -/
@[simp] theorem ends_demandOwned {Q : PackedVector → Store → Prop} {F : IndexError → Store → Prop} :
    Ends (demandOwned k) s Q F ↔
      (∀ v, s.get? k = some v → Q v (s.remove k)) ∧
        (s.get? k = none → F (.missing k) (s.remove k)) := by
  unfold demandOwned take
  simp only [ends_bind, ends_get, ends_set]
  cases s.get? k <;> simp

/-- What is not refused goes on. -/
theorem ends_ofVector_of_exists {x : Except VectorError α} {Q : α → Store → Prop}
    {F : IndexError → Store → Prop} (hx : ∃ a, x = .ok a) (hQ : ∀ a, x = .ok a → Q a s) :
    Ends (ofVector x) s Q F := by
  rw [ends_ofVector]
  refine ⟨hQ, ?_⟩
  rintro e rfl
  obtain ⟨a, ha⟩ := hx
  cases ha

end Steps

/-! ## Reading a changed store -/

/-- Changing a slot changes the structure in it only. -/
theorem get?_updateSlot (s : Store) (k j : Kind) (f : Slot → Slot) :
    (s.updateSlot k f).get? j = if j = k then (f (s.slot k)).data else s.get? j := by
  unfold get?
  rw [slot_updateSlot]
  split <;> rfl

/-- Changing a slot changes its own marks only. -/
theorem flags_updateSlot (s : Store) (k j : Kind) (f : Slot → Slot) :
    (s.updateSlot k f).flags j = if j = k then (f (s.slot k)).flags else s.flags j := by
  unfold flags
  rw [slot_updateSlot]
  split <;> rfl

/-- Bringing the statistics up to date changes no structure. -/
@[simp] theorem get?_refresh (s : Store) (j : Kind) : s.refresh.get? j = s.get? j := rfl

/-- Bringing the statistics up to date changes no marks. -/
@[simp] theorem flags_refresh (s : Store) (j : Kind) : s.refresh.flags j = s.flags j := rfl

/-- A structure is found in the slot that it was put into. -/
@[simp] theorem get?_put (s : Store) (k j : Kind) (v : PackedVector) (compressed : Bool) :
    (s.put k v compressed).get? j = if j = k then some v else s.get? j := by
  unfold put
  rw [get?_refresh, get?_updateSlot]
  rfl

/-- A structure that was taken out is not found. -/
@[simp] theorem get?_remove (s : Store) (k j : Kind) :
    (s.remove k).get? j = if j = k then none else s.get? j := by
  unfold remove
  rw [get?_refresh, get?_updateSlot]
  rfl

/-- Changing marks changes no structure. -/
@[simp] theorem get?_updateFlags (s : Store) (k j : Kind) (f : SlotFlags → SlotFlags) :
    (s.updateFlags k f).get? j = s.get? j := by
  apply (get?_updateSlot ..).trans
  split
  · next heq => rw [heq]; rfl
  · rfl

/-- Changing the marks of a kind changes those of no other. -/
theorem flags_updateFlags (s : Store) (k j : Kind) (f : SlotFlags → SlotFlags) :
    (s.updateFlags k f).flags j = if j = k then f (s.flags k) else s.flags j := flags_updateSlot ..

/-! ## Bytes held -/

variable {s : Store} {k : Kind}

/-- Changing one slot changes the sum by what that slot holds. -/
theorem heapBytes_updateSlot (s : Store) (k : Kind) (f : Slot → Slot) :
    (s.updateSlot k f).heapBytes + (s.slot k).heapBytes =
      s.heapBytes + (f (s.slot k)).heapBytes := by
  unfold heapBytes Kind.all
  simp only [List.foldl_cons, List.foldl_nil, slot_updateSlot]
  cases k <;> simp only [reduceCtorEq, if_true, if_false] <;> omega

/-- An empty slot holds no bytes. -/
theorem heapBytes_of_empty (h : s.get? k = none) : (s.slot k).heapBytes = 0 := by
  have hdata : (s.slot k).data = none := h
  unfold Slot.heapBytes
  rw [hdata]
  rfl

/-- Marks take no bytes. -/
theorem heapBytes_updateFlags (s : Store) (k : Kind) (f : SlotFlags → SlotFlags) :
    (s.updateFlags k f).heapBytes = s.heapBytes := Nat.add_right_cancel (heapBytes_updateSlot s k _)

/-- Taking a structure out frees bytes. -/
theorem heapBytes_remove_le (s : Store) (k : Kind) : (s.remove k).heapBytes ≤ s.heapBytes := by
  have hsum : (s.remove k).heapBytes + (s.slot k).heapBytes = s.heapBytes + 0 :=
    heapBytes_updateSlot s k Slot.vacate
  omega

/-- Putting a structure into an empty slot frees none. -/
theorem heapBytes_le_put (h : s.get? k = none) (v : PackedVector) (compressed : Bool) :
    s.heapBytes ≤ (s.put k v compressed).heapBytes := by
  have hsum : (s.put k v compressed).heapBytes + (s.slot k).heapBytes = s.heapBytes + v.heapBytes :=
    heapBytes_updateSlot s k (·.fill v compressed)
  rw [heapBytes_of_empty h] at hsum
  omega

end TextIndex.Store
