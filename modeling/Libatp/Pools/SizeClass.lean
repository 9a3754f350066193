import Libatp.Pools.MemoryPool

/-!
# The search for a size class

`atp_binary_search` returns the least class whose size is enough, or
`cachingSize` if there is none.
-/

namespace Libatp.Pools
open Base

/-- The size of a class. -/
def classSize (i : Nat) : Nat := poolSizeArray.getD i 0

theorem classSize_mono {i j : Nat} (h : i ≤ j) (hj : j < cachingSize) :
    classSize i ≤ classSize j := by
  have table : ∀ j : Fin cachingSize, ∀ i : Fin cachingSize, i ≤ j →
      classSize i ≤ classSize j := by decide
  exact table ⟨j, hj⟩ ⟨i, by omega⟩ h

theorem sizeAt_class {i : Nat} (h : i < cachingSize) : sizeAt i = .ok (classSize i) := by
  unfold sizeAt
  rw [if_pos ⟨by omega, by omega⟩]
  rfl

/-- The loop narrows an interval: the classes before it are too small, those after
it are large enough, and `pos` is the first of the latter if there is one. -/
theorem searchLoop_least {value : Nat} (enough : value ≤ classSize (cachingSize - 1))
    (left right : Nat) (pos : Int) (bounds : left ≤ right ∧ right ≤ cachingSize)
    (below : ∀ i < left, classSize i < value)
    (above : ∀ i, right ≤ i → i < cachingSize → value ≤ classSize i)
    (found : right < cachingSize → pos = right) :
    ∃ p : Nat, searchLoop value left (right - 1) pos = .ok p ∧ p < cachingSize ∧
      value ≤ classSize p ∧ ∀ i < p, classSize i < value := by
  induction size : right - left using Nat.strong_induction_on generalizing left right pos with
  | _ size ih =>
    subst size
    rw [searchLoop]
    by_cases more : left < right
    · rw [if_pos (by omega)]
      obtain ⟨mid, hmid⟩ : ∃ mid : Nat, ((left : Int) + (right - 1)) / 2 = mid :=
        ⟨(left + (right - 1)) / 2, by omega⟩
      have inside : left ≤ mid ∧ mid < right := by omega
      rw [hmid]
      dsimp only
      rw [sizeAt_class (by omega : mid < cachingSize), ok_bind]
      split
      · rename_i fits
        apply ih (mid - left) (by omega) left mid mid ⟨inside.1, by omega⟩ below _
          (fun _ => rfl) rfl
        intro i hi last
        exact fits.trans (classSize_mono hi last)
      · rename_i small
        have smaller : ∀ i < mid + 1, classSize i < value := by
          intro i hi
          exact (classSize_mono (by omega : i ≤ mid) (by omega)).trans_lt (by omega)
        exact_mod_cast ih (right - (mid + 1)) (by omega) (mid + 1) right pos ⟨by omega, bounds.2⟩
          smaller above found rfl
    · have met : left = right := by omega
      rw [if_neg (by omega)]
      have last : right < cachingSize := by
        by_contra beyond
        have := below (cachingSize - 1) (by unfold cachingSize at *; omega)
        omega
      refine ⟨right, ?_, last, above right (Nat.le_refl _) last, met ▸ below⟩
      rw [found last]

/-- **The search returns the least class that is large enough.** -/
theorem atpBinarySearch_least (value : Nat) : ∃ pos, atpBinarySearch value = .ok pos ∧
    (∀ i < pos, i < cachingSize → classSize i < value) ∧
    (pos < cachingSize ∧ value ≤ classSize pos ∨
      pos = cachingSize ∧ classSize (cachingSize - 1) < value) := by
  unfold atpBinarySearch
  rw [show sizeAt 0 = .ok (classSize 0) from rfl, ok_bind,
    show sizeAt (cachingSize - 1) = .ok (classSize (cachingSize - 1)) from rfl, ok_bind]
  split
  · rename_i fits
    exact ⟨0, rfl, nofun, .inl ⟨by decide, fits⟩⟩
  split
  · rename_i large
    refine ⟨cachingSize, rfl, ?_, .inr ⟨rfl, large⟩⟩
    intro i _ hi
    exact (classSize_mono (by omega : i ≤ cachingSize - 1) (by decide)).trans_lt large
  · rename_i enough
    obtain ⟨p, found, inside, fits, least⟩ := searchLoop_least (by omega : value ≤ _) 0
      cachingSize 0 (by decide) nofun (by omega) (by omega)
    refine ⟨p, ?_, fun i hi _ => least i hi, .inl ⟨inside, fits⟩⟩
    rw [show searchLoop value 0 (cachingSize - 1) 0 = .ok (p : Int) from found]
    rfl

end Libatp.Pools
