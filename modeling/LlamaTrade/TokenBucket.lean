import Mathlib.Algebra.Order.Field.Basic
import Mathlib.Data.List.Count
import Mathlib.Tactic.Linarith

/-!
# Token buckets

A bucket fills at a constant rate up to its capacity, and each admission takes one token. As time
only goes forward, at most `capacity + rate * w` admissions fall into an interval of length `w`.
-/

/-- The level of a bucket at the time of its last refill. -/
structure TokenBucket (K : Type) where
  capacity : K
  rate : K
  level : K
  filled : K

namespace TokenBucket

variable {K : Type} [Field K] [LinearOrder K]

def refill (bucket : TokenBucket K) (now : K) : TokenBucket K :=
  { bucket with
    level := min bucket.capacity (bucket.level + (now - bucket.filled) * bucket.rate)
    filled := now }

def take (bucket : TokenBucket K) : TokenBucket K :=
  { bucket with level := bucket.level - 1 }

/-- The number of times from `a` on. -/
def countFrom (times : List K) (a : K) : ℕ :=
  times.countP fun t => a ≤ t

/-- The number of times in the interval of length `w` from `a` on. -/
def countIn (times : List K) (a w : K) : ℕ :=
  times.countP fun t => a ≤ t ∧ t ≤ a + w

/-- What holds of a bucket and the times of its admissions. -/
structure Bounds (bucket : TokenBucket K) (times : List K) : Prop where
  level_nonneg : 0 ≤ bucket.level
  level_le : bucket.level ≤ bucket.capacity
  times_le : ∀ t ∈ times, t ≤ bucket.filled
  /-- The admissions from `a` on and the level were there at `a` or have been filled in since. -/
  countFrom_le : ∀ a ≤ bucket.filled,
    countFrom times a + bucket.level ≤ bucket.capacity + bucket.rate * (bucket.filled - a)
  countIn_le : ∀ a w, 0 ≤ w → (countIn times a w : K) ≤ bucket.capacity + bucket.rate * w

omit [Field K] in
theorem countFrom_eq_zero {times : List K} {a b : K} (htimes : ∀ t ∈ times, t ≤ b) (hab : b < a) :
    countFrom times a = 0 := by
  rw [countFrom, List.countP_eq_zero]
  intro t ht
  simpa using (htimes t ht).trans_lt hab

omit [Field K] in
theorem countFrom_concat (times : List K) {a b : K} (hab : a ≤ b) :
    countFrom (times ++ [b]) a = countFrom times a + 1 := by
  simp [countFrom, hab]

/-- In an interval that ends after the last time, the times from its start on are all there are. -/
theorem countIn_le_countFrom (times : List K) (a w : K) :
    countIn times a w ≤ countFrom times a := by
  refine List.countP_mono_left fun t _ h => ?_
  simp only [decide_eq_true_eq] at h ⊢
  exact h.1

variable [IsStrictOrderedRing K] {bucket : TokenBucket K} {times : List K}

/-- A full bucket before any admission. -/
theorem bounds_full (hcapacity : 0 ≤ bucket.capacity) (hrate : 0 ≤ bucket.rate)
    (hfull : bucket.level = bucket.capacity) : bucket.Bounds [] := by
  constructor
  · exact hfull ▸ hcapacity
  · exact hfull.le
  · exact fun t ht => absurd ht List.not_mem_nil
  · intro a ha
    have hgain := mul_nonneg hrate (sub_nonneg.mpr ha)
    simp only [countFrom, List.countP_nil, Nat.cast_zero, hfull]
    linarith
  · intro a w hw
    have hgain := mul_nonneg hrate hw
    simp only [countIn, List.countP_nil, Nat.cast_zero]
    linarith

theorem Bounds.refill (h : bucket.Bounds times) (hrate : 0 ≤ bucket.rate) {now : K}
    (hnow : bucket.filled ≤ now) : (bucket.refill now).Bounds times := by
  have hgain := mul_nonneg (sub_nonneg.mpr hnow) hrate
  constructor
  · exact le_min (h.level_nonneg.trans h.level_le) (add_nonneg h.level_nonneg hgain)
  · exact min_le_left _ _
  · exact fun t ht => (h.times_le t ht).trans hnow
  · intro a ha
    change (countFrom times a : K) + min bucket.capacity _ ≤
      bucket.capacity + bucket.rate * (now - a)
    obtain hold | hnew := le_or_gt a bucket.filled
    · have hmin := min_le_right bucket.capacity (bucket.level + (now - bucket.filled) * bucket.rate)
      have hbefore := h.countFrom_le a hold
      linarith
    · -- Nothing was admitted since `a`, and the bucket holds no more than its capacity.
      have hmin := min_le_left bucket.capacity (bucket.level + (now - bucket.filled) * bucket.rate)
      have hsince := mul_nonneg hrate (sub_nonneg.mpr ha)
      rw [countFrom_eq_zero h.times_le hnew]
      simp only [TokenBucket.refill] at hsince
      push_cast
      linarith
  · exact h.countIn_le

/-- An admission at the time of the last refill. -/
theorem Bounds.take (h : bucket.Bounds times) (hrate : 0 ≤ bucket.rate) (hlevel : 1 ≤ bucket.level) :
    bucket.take.Bounds (times ++ [bucket.filled]) := by
  have hfrom : ∀ a ≤ bucket.filled, (countFrom (times ++ [bucket.filled]) a : K) + bucket.take.level ≤
      bucket.capacity + bucket.rate * (bucket.filled - a) := by
    intro a ha
    have hbefore := h.countFrom_le a ha
    rw [countFrom_concat times ha]
    simp only [TokenBucket.take]
    push_cast
    linarith
  constructor
  · exact sub_nonneg.mpr hlevel
  · exact (sub_le_self _ zero_le_one).trans h.level_le
  · intro t ht
    obtain ht | ht := List.mem_append.mp ht
    · exact h.times_le t ht
    · exact (List.mem_singleton.mp ht).le
  · exact hfrom
  · intro a w hw
    by_cases hin : a ≤ bucket.filled ∧ bucket.filled ≤ a + w
    · have hall : (countIn (times ++ [bucket.filled]) a w : K) ≤
          countFrom (times ++ [bucket.filled]) a := mod_cast countIn_le_countFrom _ _ _
      have hlevel' : 0 ≤ bucket.take.level := sub_nonneg.mpr hlevel
      have hrest := hfrom a hin.1
      have hwindow : bucket.rate * (bucket.filled - a) ≤ bucket.rate * w :=
        mul_le_mul_of_nonneg_left (sub_le_iff_le_add'.mpr hin.2) hrate
      exact hall.trans (by simp only [TokenBucket.take] at hlevel' hrest ⊢; linarith)
    · have hsame : countIn (times ++ [bucket.filled]) a w = countIn times a w := by
        simp [countIn, hin]
      rw [hsame]
      exact h.countIn_le a w hw

end TokenBucket
