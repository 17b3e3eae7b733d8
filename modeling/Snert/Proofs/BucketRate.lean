/-
Module: Snert.Proofs.BucketRate
Purpose: How much is drained from a token bucket in a run of fills and drains. A bucket that has not
  been filled yet takes the start of time for its last fill, so that the first fill adds what has
  accrued since then instead of since the bucket was initialised.
Trusted boundary: the definition of a run of calls under a clock
Main exports: bucketRate_firstFill
-/
import Snert.Proofs.BigIntDivision
import Snert.Util.TokenBucket

namespace Snert

/-! ### Runs -/

/-- A bucket, and what has been done with it. -/
structure BucketLedger where
  bucket : TokenBucket
  /-- The total that has been drained successfully. -/
  drained : Nat
  /-- There has been a fill. -/
  filled : Bool
  /-- The time of the last call. -/
  clock : Int64
deriving DecidableEq, Repr

inductive BucketCall where
  | fill
  | drain (amount : UInt64)

namespace BucketLedger

/-- The bucket is initialised at `t0`. -/
def start (size rate : UInt64) (t0 : Int64) : BucketLedger :=
  { bucket := tokenBucketInit size rate, drained := 0, filled := false, clock := t0 }

/-- A call at the time `now`. -/
def call (ledger : BucketLedger) (now : Int64) : BucketCall → BucketLedger
  | .fill =>
      { ledger with bucket := tokenBucketFill ledger.bucket now, filled := true, clock := now }
  | .drain amount =>
      let (rc, bucket) := tokenBucketDrain ledger.bucket amount
      { ledger with
        bucket := bucket
        drained := ledger.drained + if rc = 0 then amount.toNat else 0
        clock := now }

end BucketLedger

/-- What accrues from `t0` to `t` at a rate. -/
def accrued (rate : UInt64) (t0 t : Int64) : Int :=
  rate.toNat * (t.toInt - t0.toInt)

/-- The states that are reached from an initialised bucket under a clock that does not decrease, by
calls that meet a condition. What accrues in the time that has passed is below 2^64. -/
inductive BucketRun (size rate : UInt64) (t0 : Int64)
    (met : BucketLedger → Int64 → BucketCall → Prop) : BucketLedger → Prop where
  | start : BucketRun size rate t0 met (BucketLedger.start size rate t0)
  | call {ledger : BucketLedger} {now : Int64} {call : BucketCall} :
      BucketRun size rate t0 met ledger → ledger.clock.toInt ≤ now.toInt →
      accrued rate t0 now < 2 ^ 64 → met ledger now call →
      BucketRun size rate t0 met (ledger.call now call)

/-- The total that has been drained is within the rate at the time `t`. -/
def WithinRate (size rate : UInt64) (t0 : Int64) (ledger : BucketLedger) (t : Int64) : Prop :=
  (ledger.drained : Int) ≤ size.toNat + accrued rate t0 t

/-- The call is not the first fill, or what the fill adds has accrued since `t0`: that is the tokens
that are missing, or as many as accrue from 0 to the time of the fill, if this is less. -/
def FirstFillAccrued (rate : UInt64) (t0 : Int64) (ledger : BucketLedger) (now : Int64) :
    BucketCall → Prop
  | .fill => ledger.filled = false →
      (min (ledger.bucket.size - ledger.bucket.tokens).toNat (rate * now.toUInt64).toNat : Int) ≤
        accrued rate t0 now
  | .drain _ => True

/-! ### One call -/

theorem word_toInt (value : Int64) : (value.toUInt64.toNat : Int) = value.toInt % 2 ^ 64 := by
  have hword := BigInt.toInt_word value
  have hlt := value.toUInt64.toNat_lt
  split at hword <;> omega

theorem word_accrued (rate : UInt64) (last now : Int64) :
    ((rate * (now - last).toUInt64).toNat : Int) = accrued rate last now % 2 ^ 64 := by
  have hspan : ((now - last).toUInt64.toNat : Int) = (now.toInt - last.toInt) % 2 ^ 64 := by
    rw [word_toInt, Int64.toInt_sub]
    exact Int.bmod_emod
  rw [UInt64.toNat_mul, Int.natCast_emod, Int.natCast_mul, hspan, accrued, Int.mul_emod]
  exact (congrArg (fun x => _ * x % _) (Int.emod_emod_of_dvd _ (Int.dvd_refl _))).trans
    (Int.mul_emod _ _ _).symm

theorem accrued_add (rate : UInt64) (t0 last now : Int64) :
    accrued rate t0 now = accrued rate t0 last + accrued rate last now := by
  rw [accrued, accrued, accrued, ← Int.mul_add]
  congr 1
  omega

theorem accrued_nonneg (rate : UInt64) {t0 t : Int64} (h : t0.toInt ≤ t.toInt) :
    0 ≤ accrued rate t0 t :=
  Int.mul_nonneg (Int.natCast_nonneg _) (by omega)

theorem fill_size (tb : TokenBucket) (now : Int64) : (tokenBucketFill tb now).size = tb.size := by
  rw [tokenBucketFill]
  split <;> rfl

theorem fill_rate (tb : TokenBucket) (now : Int64) : (tokenBucketFill tb now).rate = tb.rate := by
  rw [tokenBucketFill]
  split <;> rfl

theorem fill_tokens {tb : TokenBucket} (h : tb.tokens ≤ tb.size) (now : Int64) :
    (tokenBucketFill tb now).tokens.toNat = tb.tokens.toNat +
      min (tb.size - tb.tokens).toNat (tb.rate * (now - tb.last).toUInt64).toNat := by
  have hmissing := UInt64.toNat_sub_of_le _ _ h
  have hlt := tb.size.toNat_lt
  rw [UInt64.le_iff_toNat_le] at h
  rw [tokenBucketFill]
  by_cases hfull : tb.tokens < tb.size
  · rw [if_pos hfull]
    dsimp only
    by_cases hdelta : tb.rate * (now - tb.last).toUInt64 < tb.size - tb.tokens
    · rw [if_pos hdelta, UInt64.toNat_add]
      rw [UInt64.lt_iff_toNat_lt] at hdelta
      omega
    · rw [if_neg hdelta]
      rw [UInt64.lt_iff_toNat_lt] at hdelta
      omega
  · rw [if_neg hfull]
    rw [UInt64.lt_iff_toNat_lt] at hfull
    dsimp only
    omega

theorem drain_tokens (tb : TokenBucket) (amount : UInt64) :
    (tokenBucketDrain tb amount).2.tokens.toNat +
      (if (tokenBucketDrain tb amount).1 = 0 then amount.toNat else 0) = tb.tokens.toNat := by
  rw [tokenBucketDrain]
  by_cases h : amount ≤ tb.tokens
  · rw [if_pos h, if_pos rfl]
    have hsub := UInt64.toNat_sub_of_le _ _ h
    rw [UInt64.le_iff_toNat_le] at h
    dsimp only
    omega
  · rw [if_neg h, if_neg (show (-1 : Int) ≠ 0 by decide)]
    rfl

theorem drain_size (tb : TokenBucket) (amount : UInt64) :
    (tokenBucketDrain tb amount).2.size = tb.size := by
  rw [tokenBucketDrain]
  split <;> rfl

theorem drain_rate (tb : TokenBucket) (amount : UInt64) :
    (tokenBucketDrain tb amount).2.rate = tb.rate := by
  rw [tokenBucketDrain]
  split <;> rfl

theorem drain_last (tb : TokenBucket) (amount : UInt64) :
    (tokenBucketDrain tb amount).2.last = tb.last := by
  rw [tokenBucketDrain]
  split <;> rfl

/-! ### The account -/

/-- What was drained and what is left came with the bucket, or has accrued by the last fill. -/
structure Accounted (size rate : UInt64) (t0 : Int64) (ledger : BucketLedger) : Prop where
  size_eq : ledger.bucket.size = size
  rate_eq : ledger.bucket.rate = rate
  tokens_le : ledger.bucket.tokens ≤ ledger.bucket.size
  started : t0.toInt ≤ ledger.clock.toInt
  unfilled : ledger.filled = false →
    ledger.bucket.last = 0 ∧ ledger.drained + ledger.bucket.tokens.toNat = size.toNat
  filled : ledger.filled = true →
    t0.toInt ≤ ledger.bucket.last.toInt ∧ ledger.bucket.last.toInt ≤ ledger.clock.toInt ∧
      (ledger.drained + ledger.bucket.tokens.toNat : Int) ≤
        size.toNat + accrued rate t0 ledger.bucket.last

namespace Accounted

variable {size rate : UInt64} {t0 now : Int64} {ledger : BucketLedger}

theorem start (size rate : UInt64) (t0 : Int64) :
    Accounted size rate t0 (BucketLedger.start size rate t0) where
  size_eq := rfl
  rate_eq := rfl
  tokens_le := UInt64.le_refl size
  started := Int.le_refl _
  unfilled := fun _ => ⟨rfl, Nat.zero_add _⟩
  filled := nofun

theorem drain (h : Accounted size rate t0 ledger) (hnow : ledger.clock.toInt ≤ now.toInt)
    (amount : UInt64) : Accounted size rate t0 (ledger.call now (.drain amount)) := by
  have htokens := drain_tokens ledger.bucket amount
  have hle := h.tokens_le
  rw [UInt64.le_iff_toNat_le] at hle
  have hstarted := h.started
  refine ⟨(drain_size _ _).trans h.size_eq, (drain_rate _ _).trans h.rate_eq, ?_, ?_, ?_, ?_⟩
  · show (tokenBucketDrain ledger.bucket amount).2.tokens ≤ _
    rw [UInt64.le_iff_toNat_le]
    show _ ≤ (tokenBucketDrain ledger.bucket amount).2.size.toNat
    rw [drain_size]
    omega
  · exact Int.le_trans hstarted hnow
  · intro hfilled
    obtain ⟨hlast, hbalance⟩ := h.unfilled hfilled
    refine ⟨(drain_last _ _).trans hlast, ?_⟩
    simp only [BucketLedger.call]
    omega
  · intro hfilled
    obtain ⟨hafter, hbefore, hbalance⟩ := h.filled hfilled
    simp only [BucketLedger.call, drain_last]
    refine ⟨hafter, Int.le_trans hbefore hnow, ?_⟩
    omega

theorem refill (h : Accounted size rate t0 ledger) (hfilled : ledger.filled = true)
    (hnow : ledger.clock.toInt ≤ now.toInt) (haccrued : accrued rate t0 now < 2 ^ 64) :
    ((rate * (now - ledger.bucket.last).toUInt64).toNat : Int) =
      accrued rate ledger.bucket.last now := by
  obtain ⟨hafter, hbefore, -⟩ := h.filled hfilled
  have hsum := accrued_add rate t0 ledger.bucket.last now
  have hfirst := accrued_nonneg rate hafter
  have hspan := accrued_nonneg rate (Int.le_trans hbefore hnow)
  rw [word_accrued]
  exact Int.emod_eq_of_lt hspan (by omega)

theorem fill (h : Accounted size rate t0 ledger) (hnow : ledger.clock.toInt ≤ now.toInt)
    (haccrued : accrued rate t0 now < 2 ^ 64) (hfirst : FirstFillAccrued rate t0 ledger now .fill) :
    Accounted size rate t0 (ledger.call now .fill) := by
  have htokens := fill_tokens h.tokens_le now
  have hmissing := UInt64.toNat_sub_of_le _ _ h.tokens_le
  have hle := h.tokens_le
  rw [UInt64.le_iff_toNat_le] at hle
  have hstarted := Int.le_trans h.started hnow
  refine ⟨(fill_size _ _).trans h.size_eq, (fill_rate _ _).trans h.rate_eq, ?_, hstarted,
    nofun, fun _ => ⟨hstarted, Int.le_refl _, ?_⟩⟩
  · show (tokenBucketFill ledger.bucket now).tokens ≤ (tokenBucketFill ledger.bucket now).size
    rw [UInt64.le_iff_toNat_le, fill_size]
    omega
  · show (ledger.drained + (tokenBucketFill ledger.bucket now).tokens.toNat : Int) ≤
      size.toNat + accrued rate t0 now
    cases hfilled : ledger.filled with
    | false =>
        obtain ⟨hlast, hbalance⟩ := h.unfilled hfilled
        have hadded := hfirst hfilled
        rw [hlast, Int64.sub_zero, h.rate_eq] at htokens
        omega
    | true =>
        obtain ⟨hafter, hbefore, hbalance⟩ := h.filled hfilled
        have hrefill := h.refill hfilled hnow haccrued
        have hsum := accrued_add rate t0 ledger.bucket.last now
        rw [h.rate_eq] at htokens
        omega

theorem call (h : Accounted size rate t0 ledger) (hnow : ledger.clock.toInt ≤ now.toInt)
    (haccrued : accrued rate t0 now < 2 ^ 64) {call : BucketCall}
    (hmet : FirstFillAccrued rate t0 ledger now call) :
    Accounted size rate t0 (ledger.call now call) := by
  cases call with
  | fill => exact h.fill hnow haccrued hmet
  | drain amount => exact h.drain hnow amount

theorem run (h : BucketRun size rate t0 (FirstFillAccrued rate t0) ledger) :
    Accounted size rate t0 ledger := by
  induction h with
  | start => exact start size rate t0
  | call _ hnow haccrued hmet ih => exact ih.call hnow haccrued hmet

theorem withinRate (h : Accounted size rate t0 ledger) {t : Int64}
    (ht : ledger.clock.toInt ≤ t.toInt) : WithinRate size rate t0 ledger t := by
  rw [WithinRate]
  cases hfilled : ledger.filled with
  | false =>
      obtain ⟨-, hbalance⟩ := h.unfilled hfilled
      have hspan := accrued_nonneg rate (Int.le_trans h.started ht)
      omega
  | true =>
      obtain ⟨-, hbefore, hbalance⟩ := h.filled hfilled
      have hspan := accrued_nonneg rate (Int.le_trans hbefore ht)
      have hsum := accrued_add rate t0 ledger.bucket.last t
      omega

theorem overdrawn (h : Accounted size rate t0 ledger)
    (hfirst : ¬ FirstFillAccrued rate t0 ledger now .fill) :
    ¬ WithinRate size rate t0
      ((ledger.call now .fill).call now (.drain (ledger.call now .fill).bucket.tokens)) now := by
  rw [FirstFillAccrued, Classical.not_imp] at hfirst
  obtain ⟨hfilled, hadded⟩ := hfirst
  obtain ⟨hlast, hbalance⟩ := h.unfilled hfilled
  have htokens := fill_tokens h.tokens_le now
  rw [hlast, Int64.sub_zero, h.rate_eq] at htokens
  have hdrained : ((ledger.call now .fill).call now
      (.drain (ledger.call now .fill).bucket.tokens)).drained =
        ledger.drained + (tokenBucketFill ledger.bucket now).tokens.toNat := by
    simp only [BucketLedger.call, tokenBucketDrain, UInt64.le_refl, if_true]
  rw [WithinRate, hdrained]
  omega

end Accounted

/-! ### The bound -/

/-- What is drained stays within the rate and the tokens within the size, in every run whose first
fill adds no more than what has accrued since the bucket was initialised. A run that comes to another
first fill goes on to a state in which more has been drained. -/
theorem bucketRate_firstFill (size rate : UInt64) (t0 : Int64) (ledger : BucketLedger)
    (hrun : BucketRun size rate t0 (FirstFillAccrued rate t0) ledger) :
    (∀ t : Int64, ledger.clock.toInt ≤ t.toInt → WithinRate size rate t0 ledger t) ∧
      ledger.bucket.tokens ≤ size ∧
      ∀ now : Int64, ledger.clock.toInt ≤ now.toInt → accrued rate t0 now < 2 ^ 64 →
        ¬ FirstFillAccrued rate t0 ledger now .fill →
        ¬ WithinRate size rate t0
          ((ledger.call now .fill).call now (.drain (ledger.call now .fill).bucket.tokens)) now := by
  have h := Accounted.run hrun
  exact ⟨fun _ ht => h.withinRate ht, h.size_eq ▸ h.tokens_le, fun _ _ _ => h.overdrawn⟩

/-- Five of ten tokens are drained in the first five seconds, in which as many have accrued. -/
theorem bucketRate_firstFill_accrued :
    WithinRate 10 1 1000000 (((BucketLedger.start 10 1 1000000).call 1000005 (.drain 5)).call
      1000005 .fill) 1000005 := by
  have hdrained : BucketRun 10 1 1000000 (FirstFillAccrued 1 1000000)
      ((BucketLedger.start 10 1 1000000).call 1000005 (.drain 5)) :=
    .call .start (by decide) (by decide) trivial
  have haccrued : FirstFillAccrued 1 1000000
      ((BucketLedger.start 10 1 1000000).call 1000005 (.drain 5)) 1000005 .fill := by
    intro _
    decide
  exact (bucketRate_firstFill 10 1 1000000 _ (.call hdrained (by decide) (by decide) haccrued)).1
    1000005 (by decide)

/-- Ten tokens are drained, and ten more at the same time after a fill. -/
theorem bucketRate_refilled : ¬ ∀ (size rate : UInt64) (t0 : Int64) (ledger : BucketLedger),
    BucketRun size rate t0 (fun _ _ _ => True) ledger →
      WithinRate size rate t0 ledger ledger.clock ∧ ledger.bucket.tokens ≤ size := by
  intro h
  let drained := (BucketLedger.start 10 1 1000000).call 1000000 (.drain 10)
  let filled := drained.call 1000000 .fill
  have hdrained : BucketRun 10 1 1000000 (fun _ _ _ => True) drained :=
    .call .start (by decide) (by decide) trivial
  have hfilled : BucketRun 10 1 1000000 (fun _ _ _ => True) filled :=
    .call hdrained (by decide) (by decide) trivial
  have hagain : BucketRun 10 1 1000000 (fun _ _ _ => True) (filled.call 1000000 (.drain 10)) :=
    .call hfilled (by decide) (by decide) trivial
  have hover : ¬ ((filled.call 1000000 (.drain 10)).drained : Int) ≤
      (10 : UInt64).toNat + accrued 1 1000000 1000000 := by decide
  exact hover (h 10 1 1000000 _ hagain).1

end Snert
