/-!
# Ranges of code points

A property of characters is kept as a table of ranges, both ends included, in
ascending order.  Looking a character up stops at the first range that lies
beyond it, so characters near the start of the code space are decided early.
-/

namespace Secrecy.Text

def inRanges : List (Nat × Nat) → Nat → Bool
  | [], _ => false
  | (low, high) :: rest, n =>
      if n < low then false else if n ≤ high then true else inRanges rest n

theorem exists_range_of_inRanges {ranges : List (Nat × Nat)} {n : Nat}
    (h : inRanges ranges n = true) :
    ∃ range ∈ ranges, range.1 ≤ n ∧ n ≤ range.2 := by
  induction ranges with
  | nil => simp [inRanges] at h
  | cons range rest ih =>
      rw [inRanges] at h
      split at h
      · simp at h
      · split at h
        · refine ⟨range, List.mem_cons_self, ?_⟩
          omega
        · obtain ⟨found, mem, within⟩ := ih h
          exact ⟨found, List.mem_cons_of_mem _ mem, within⟩

end Secrecy.Text
