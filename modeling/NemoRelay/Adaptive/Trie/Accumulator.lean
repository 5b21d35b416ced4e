import Mathlib.Algebra.Order.Field.Rat
import Mathlib.Tactic.FieldSimp
import Mathlib.Tactic.Ring
import NemoRelay.Lib.Tally

/-!
# Streaming statistics

`RunningStats` keeps a mean and its variance by Welford's algorithm, and a digest for the
percentiles. Floating-point numbers and digests are classes: what the trie does with the statistics
does not depend on them.
-/

namespace NemoRelay.Adaptive

open List

/-- The arithmetic of `f64`. -/
class Arithmetic (F : Type) extends Add F, Sub F, Mul F, Div F where
  /-- `n as f64` -/
  ofInt : Int → F
  /-- `a < b` -/
  less : F → F → Bool
  /-- `a.min(b)` -/
  least : F → F → F
  /-- `a.max(b)` -/
  greatest : F → F → F
  /-- `fold(f64::INFINITY, f64::min)` -/
  leastOf : List F → F
  /-- `fold(f64::NEG_INFINITY, f64::max)` -/
  greatestOf : List F → F
  /-- `x.round() as i64` -/
  round : F → Int

/-- Streaming percentiles. -/
class Digest (F D : Type) where
  newWithSize : Nat → D
  mergeUnsorted : D → List F → D
  estimateQuantile : D → F → F

class MergeDigest (F D : Type) extends Digest F D where
  mergeDigests : List D → D

open Arithmetic (ofInt)

/-- A decimal literal with two places. -/
def hundredths {F : Type} [Arithmetic F] (n : Nat) : F :=
  ofInt n / ofInt 100

structure PredictionMetrics (F : Type) where
  sampleCount : Nat
  mean : F
  p50 : F
  p90 : F
  p95 : F

instance {F : Type} [Arithmetic F] : Inhabited (PredictionMetrics F) where
  default :=
    let zero := ofInt 0
    ⟨0, zero, zero, zero, zero⟩

structure RunningStats (F D : Type) where
  count : Nat
  mean : F
  m2 : F
  digest : D

namespace RunningStats

variable {F D : Type} [Arithmetic F] [Digest F D]

def new : RunningStats F D where
  count := 0
  mean := ofInt 0
  m2 := ofInt 0
  digest := Digest.newWithSize F 100

instance : Inhabited (RunningStats F D) := ⟨new⟩

variable (stats : RunningStats F D)

def hasSamples : Bool := 0 < stats.count

def addSample (value : F) : RunningStats F D :=
  let count := stats.count + 1
  let delta := value - stats.mean
  let mean := stats.mean + delta / ofInt count
  let delta2 := value - mean
  { count
    mean
    m2 := stats.m2 + delta * delta2
    digest := Digest.mergeUnsorted stats.digest [value] }

def merge {D : Type} [MergeDigest F D] (stats other : RunningStats F D) : RunningStats F D :=
  if other.count = 0 then stats
  else
    let combinedCount := stats.count + other.count
    let delta := other.mean - stats.mean
    { count := combinedCount
      mean :=
        if 0 < combinedCount then
          (stats.mean * ofInt stats.count + other.mean * ofInt other.count) /
            ofInt combinedCount
        else ofInt 0
      m2 := stats.m2 + (other.m2 + delta * delta * ofInt ↑(stats.count * other.count) /
        ofInt combinedCount)
      digest := MergeDigest.mergeDigests F [stats.digest, other.digest] }

/-- The number of samples is reported in 32 bits. -/
def computeMetrics : PredictionMetrics F :=
  if stats.count = 0 then default
  else
    { sampleCount := stats.count % 2 ^ 32
      mean := stats.mean
      p50 := Digest.estimateQuantile stats.digest (hundredths 50 : F)
      p90 := Digest.estimateQuantile stats.digest (hundredths 90 : F)
      p95 := Digest.estimateQuantile stats.digest (hundredths 95 : F) }

/-- The statistics of some samples. -/
def ofSamples (samples : List F) : RunningStats F D := samples.foldl addSample new

@[simp] theorem count_addSample (value : F) :
    (stats.addSample value).count = stats.count + 1 := rfl

theorem count_foldl (samples : List F) (stats : RunningStats F D) :
    (samples.foldl addSample stats).count = stats.count + samples.length := by
  induction samples generalizing stats with
  | nil => rfl
  | cons sample samples ih =>
    rw [foldl_cons, ih, length_cons, count_addSample]
    omega

theorem count_ofSamples (samples : List F) :
    (ofSamples samples : RunningStats F D).count = samples.length := by
  rw [ofSamples, count_foldl]
  exact Nat.zero_add _

end RunningStats

/-! ### Exact statistics -/

instance : Arithmetic Rat where
  ofInt n := n
  less a b := decide (a < b)
  least := min
  greatest := max
  leastOf scores := scores.min?.getD 0
  greatestOf scores := scores.max?.getD 0
  round x := if 0 ≤ x then (x + 1 / 2).floor else (x - 1 / 2).ceil

namespace RunningStats

variable {D : Type} {stats other : RunningStats Rat D} {samples samples' : List Rat}

/-- The count, the mean and the squared deviations of some samples. -/
structure Describes (stats : RunningStats Rat D) (samples : List Rat) : Prop where
  count : stats.count = samples.length
  mean_nil : samples = [] → stats.mean = 0
  sum : samples.sum = samples.length * stats.mean
  m2 : stats.m2 = (samples.map (· ^ 2)).sum - samples.length * stats.mean ^ 2

theorem sum_sq_sub (samples : List Rat) (c : Rat) : (samples.map fun x => (x - c) ^ 2).sum =
    (samples.map (· ^ 2)).sum - 2 * c * samples.sum + samples.length * c ^ 2 := by
  induction samples with
  | nil => simp
  | cons x samples ih =>
    simp only [map_cons, sum_cons, length_cons, ih, Nat.cast_succ]
    ring

theorem Describes.m2_eq (h : Describes stats samples) :
    stats.m2 = (samples.map fun x => (x - stats.mean) ^ 2).sum := by
  rw [sum_sq_sub, h.sum, h.m2]
  ring

theorem Describes.unique (h : Describes stats samples) (h' : Describes other samples')
    (hperm : samples.Perm samples') :
    stats.count = other.count ∧ stats.mean = other.mean ∧ stats.m2 = other.m2 := by
  have hlength := hperm.length_eq
  have hmean : stats.mean = other.mean := by
    by_cases hnil : samples = []
    · rw [h.mean_nil hnil, h'.mean_nil (perm_nil.mp (hnil ▸ hperm.symm))]
    · have hne : (samples'.length : Rat) ≠ 0 := by
        rw [← hlength]
        exact_mod_cast mt length_eq_zero_iff.mp hnil
      have hsum := hperm.sum_eq
      rw [h.sum, h'.sum, hlength] at hsum
      exact mul_left_cancel₀ hne hsum
  refine ⟨h.count.trans (hlength.trans h'.count.symm), hmean, ?_⟩
  rw [h.m2, h'.m2, hmean, hlength, (hperm.map _).sum_eq]

theorem Describes.addSample [Digest Rat D] (h : Describes stats samples) (x : Rat) :
    Describes (stats.addSample x) (samples ++ [x]) := by
  have hne : (samples.length : Rat) + 1 ≠ 0 := Nat.cast_add_one_ne_zero _
  have hmean : (stats.addSample x).mean = stats.mean + (x - stats.mean) / (samples.length + 1) := by
    simp [RunningStats.addSample, ofInt, h.count]
  have hm2 : (stats.addSample x).m2 =
      stats.m2 + (x - stats.mean) * (x - (stats.addSample x).mean) := rfl
  constructor
  · simp [h.count]
  · simp
  · rw [hmean, sum_append, h.sum, length_append]
    push_cast
    field_simp
    simp
    ring
  · rw [hm2, hmean, h.m2, map_append, sum_append, length_append]
    push_cast
    field_simp
    simp
    ring

theorem describes_ofSamples [Digest Rat D] (samples : List Rat) :
    Describes (ofSamples samples : RunningStats Rat D) samples := by
  induction samples using List.reverseRecOn with
  | nil => exact ⟨rfl, fun _ => rfl, by simp, by simp [ofSamples, new, ofInt]⟩
  | append_singleton samples x ih =>
    rw [ofSamples, foldl_append]
    exact ih.addSample x

theorem Describes.merge [MergeDigest Rat D] (h : Describes stats samples)
    (h' : Describes other samples') : Describes (stats.merge other) (samples ++ samples') := by
  unfold RunningStats.merge
  by_cases hzero : other.count = 0
  · rw [if_pos hzero, length_eq_zero_iff.mp (h'.count.symm.trans hzero), append_nil]
    exact h
  rw [if_neg hzero]
  have hpos : 0 < samples.length + samples'.length := by
    rw [← h'.count]
    omega
  have hne : (samples.length : Rat) + samples'.length ≠ 0 := by
    exact_mod_cast hpos.ne'
  simp only [ofInt, h.count, h'.count, if_pos hpos]
  constructor
  · simp
  · intro hnil
    simp_all
  · rw [sum_append, h.sum, h'.sum, length_append]
    push_cast
    field_simp
  · rw [h.m2, h'.m2, map_append, sum_append, length_append]
    push_cast
    field_simp
    ring

/-- Statistics of two lists that are merged are those of one list with the samples of both. -/
theorem merge_ofSamples [MergeDigest Rat D] (xs ys : List Rat) :
    let merged := (ofSamples xs : RunningStats Rat D).merge (ofSamples ys)
    merged.m2 = ((xs ++ ys).map fun x => (x - merged.mean) ^ 2).sum ∧
      ∀ zs, (xs ++ ys).Perm zs →
        let single : RunningStats Rat D := ofSamples zs
        merged.count = single.count ∧ merged.mean = single.mean ∧ merged.m2 = single.m2 := by
  intro merged
  have hmerged := (describes_ofSamples (D := D) xs).merge (describes_ofSamples ys)
  exact ⟨hmerged.m2_eq, fun zs hperm => hmerged.unique (describes_ofSamples zs) hperm⟩

end RunningStats

end NemoRelay.Adaptive
