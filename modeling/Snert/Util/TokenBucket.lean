/-
Module: Snert.Util.TokenBucket
Purpose: The token buckets of util/token_bucket.c. A `size_t` and a `time_t` have 64 bits; what
  `time` gives is an argument of the call that asks for it. The guard against NULL is left out.
Trusted boundary: human-reviewed spec
Main exports: TokenBucket, tokenBucketInit, tokenBucketDrain, tokenBucketFill
-/
namespace Snert

/-- `token_bucket`. -/
structure TokenBucket where
  /-- Bucket size. -/
  size : UInt64
  /-- Fill rate in tokens / second. -/
  rate : UInt64
  /-- Number of tokens in bucket. -/
  tokens : UInt64
  /-- When bucket was last filled. -/
  last : Int64
deriving DecidableEq, Repr

/-- `token_bucket_init (tb, size, rate)`. -/
def tokenBucketInit (size rate : UInt64) : TokenBucket :=
  { size := size, rate := rate, tokens := size, last := 0 }

/-- `token_bucket_drain (tb, drain)`. -/
def tokenBucketDrain (tb : TokenBucket) (drain : UInt64) : Int × TokenBucket :=
  if drain ≤ tb.tokens then (0, { tb with tokens := tb.tokens - drain }) else (-1, tb)

/-- `token_bucket_fill (tb)`, called at the time `now`. -/
def tokenBucketFill (tb : TokenBucket) (now : Int64) : TokenBucket :=
  let tb :=
    if tb.tokens < tb.size then
      -- How many tokens to add since the last fill.
      let delta := tb.rate * (now - tb.last).toUInt64
      { tb with
        tokens := if delta < tb.size - tb.tokens then tb.tokens + delta else tb.size }
    else tb
  { tb with last := now }

end Snert
