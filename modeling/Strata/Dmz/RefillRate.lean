import Mathlib.Tactic
import Strata.Dmz.RateLimit

/-! How fast the bucket of an address that keeps calling is refilled. Every call cuts the time since
the call before it to whole milliseconds and starts to count anew. -/

namespace Strata.Dmz.Limits

open Net (IpAddr)

/-- The whole milliseconds between calls, each counted for itself. -/
def wholeMillis (last : Nat) : List Nat → Nat
  | [] => 0
  | now :: times => (now - last) / millisecond + wholeMillis now times

section

variable (hash : IpAddr → UInt64)

def PerIpRateLimiter.refilled (limiter : PerIpRateLimiter) (ip : IpAddr) (now : Nat) : Int :=
  (limiter.entry hash ip now).tokensMilli -
    ((limiter.bucket hash ip).getD ⟨limiter.burstMilli, now⟩).tokensMilli

def totalRefill (limiter : PerIpRateLimiter) (ip : IpAddr) : List Nat → Int
  | [] => 0
  | now :: times =>
      limiter.refilled hash ip now + totalRefill (limiter.check hash ip now).1 ip times

def callsOf (ip : IpAddr) (times : List Nat) : List Call := times.map fun now => ⟨ip, now⟩

/-- The call does not find its bucket filled. -/
def BelowBurst (limiter : PerIpRateLimiter) (call : Call) : Prop :=
  (limiter.entry hash call.ip call.now).tokensMilli < limiter.burstMilli

instance (limiter : PerIpRateLimiter) (call : Call) : Decidable (BelowBurst hash limiter call) :=
  inferInstanceAs (Decidable (_ < _))

structure Called (limiter : PerIpRateLimiter) (ip : IpAddr) (last : Nat) : Prop where
  enabled : limiter.rateRps ≠ 0
  bucket : ∃ bucket, limiter.bucket hash ip = some bucket ∧ bucket.lastRefill = last ∧
    0 ≤ bucket.tokensMilli

end

/-! ### One call -/

theorem take_nonneg {bucket : Bucket} (nonneg : 0 ≤ bucket.tokensMilli) :
    0 ≤ bucket.take.2.tokensMilli := by
  rw [Bucket.take]
  split_ifs with enough
  · dsimp only
    omega
  · exact nonneg

theorem asI64_millis {last now : Nat} (range : now < 2 ^ 64) :
    asI64 ((now - last) / millisecond) = ((now - last) / millisecond : Nat) := by
  have small : (now - last) / millisecond < 2 ^ 63 := by
    rw [millisecond]
    omega
  generalize (now - last) / millisecond = millis at small
  apply Int.bmod_eq_of_le_mul_two
  · push_cast
    omega
  · push_cast
    omega

theorem refill_nonneg {bucket : Bucket} {rate now : Nat} {burstMilli : Int}
    (nonneg : 0 ≤ bucket.tokensMilli) (burst : 0 ≤ burstMilli) (range : now < 2 ^ 64) :
    0 ≤ (bucket.refill rate burstMilli now).tokensMilli := by
  rw [Bucket.refill]
  split_ifs
  · exact nonneg
  · dsimp only
    rw [asI64_millis range, saturate, saturate, i64Max, i64Min]
    have add : (0 : Int) ≤ ((now - bucket.lastRefill) / millisecond : Nat) * rate := by positivity
    omega

theorem refill_below {bucket : Bucket} {rate now : Nat} {burstMilli : Int}
    (nonneg : 0 ≤ bucket.tokensMilli) (small : burstMilli ≤ i64Max) (range : now < 2 ^ 64)
    (below : (bucket.refill rate burstMilli now).tokensMilli < burstMilli) :
    (bucket.refill rate burstMilli now).tokensMilli =
      bucket.tokensMilli + rate * ((now - bucket.lastRefill) / millisecond : Nat) := by
  rw [Bucket.refill] at below ⊢
  split_ifs at below ⊢ with still
  · rw [still]
    simp
  · dsimp only at below ⊢
    rw [asI64_millis range, mul_comm] at below ⊢
    have add : (0 : Int) ≤ rate * ((now - bucket.lastRefill) / millisecond : Nat) := by positivity
    rw [saturate, saturate, i64Max, i64Min] at below ⊢
    rw [i64Max] at small
    omega

section

variable {hash : IpAddr → UInt64} {limiter : PerIpRateLimiter} {ip : IpAddr} {last now : Nat}

theorem burstMilli_range (limiter : PerIpRateLimiter) :
    0 ≤ limiter.burstMilli ∧ limiter.burstMilli ≤ i64Max := by
  have range := limiter.burst.toNat_lt
  rw [PerIpRateLimiter.burstMilli, i64Max]
  omega

theorem check_called (enabled : limiter.rateRps ≠ 0) (range : now < 2 ^ 64)
    (found : limiter.bucket hash ip = none ∨ ∃ last ≤ now, Called hash limiter ip last) :
    Called hash (limiter.check hash ip now).1 ip now := by
  have burst := (burstMilli_range limiter).1
  have entry : (limiter.entry hash ip now).lastRefill = now ∧
      0 ≤ (limiter.entry hash ip now).tokensMilli := by
    rcases found with absent | ⟨last, order, called⟩
    · rw [entry_of_none hash limiter ip absent]
      exact ⟨rfl, burst⟩
    · obtain ⟨bucket, present, rfl, nonneg⟩ := called.bucket
      rw [PerIpRateLimiter.entry, present]
      exact ⟨refill_lastRefill _ _ order, refill_nonneg nonneg burst range⟩
  obtain ⟨bucket, -⟩ := check_bucket_self hash enabled entry.1
  refine ⟨(check_config hash limiter ip now).1 ▸ enabled, _, bucket, ?_, take_nonneg entry.2⟩
  rw [(take_tokens _).2.1, entry.1]

theorem refilled_below (called : Called hash limiter ip last) (range : now < 2 ^ 64)
    (below : BelowBurst hash limiter ⟨ip, now⟩) :
    limiter.refilled hash ip now =
      limiter.rateRps.toNat * ((now - last) / millisecond : Nat) := by
  obtain ⟨bucket, present, rfl, nonneg⟩ := called.bucket
  rw [BelowBurst, PerIpRateLimiter.entry, present] at below
  have gain := refill_below nonneg (burstMilli_range limiter).2 range below
  rw [PerIpRateLimiter.refilled, PerIpRateLimiter.entry, present]
  exact sub_eq_of_eq_add' gain

/-! ### All calls -/

theorem totalRefill_eq (called : Called hash limiter ip last) {times : List Nat}
    (inOrder : (last :: times).Pairwise (· ≤ ·)) (range : ∀ now ∈ times, now < 2 ^ 64)
    (below : Machine.Meets (step hash) (BelowBurst hash) limiter (callsOf ip times)) :
    totalRefill hash limiter ip times = limiter.rateRps.toNat * wholeMillis last times := by
  induction times generalizing limiter last with
  | nil => simp [totalRefill, wholeMillis]
  | cons now times ih =>
      obtain ⟨order, rest⟩ := List.pairwise_cons.mp inOrder
      have fits := range now List.mem_cons_self
      have next := check_called called.enabled fits
        (.inr ⟨last, order now List.mem_cons_self, called⟩)
      have later := ih next rest (fun time member => range time (List.mem_cons_of_mem _ member))
        below.2
      rw [totalRefill, refilled_below called fits below.1, later,
        (check_config hash limiter ip now).1, wholeMillis]
      push_cast
      ring

theorem run_called (hash : IpAddr → UInt64) {rateRps : UInt32} (burst : UInt32)
    (enabled : rateRps ≠ 0) (ip : IpAddr) (past : List Nat) (first : Nat)
    (inOrder : (past ++ [first]).Pairwise (· ≤ ·)) (range : ∀ now ∈ past ++ [first], now < 2 ^ 64) :
    Called hash (Machine.run (step hash) (.new rateRps burst)
      (callsOf ip (past ++ [first]))).1 ip first := by
  have config := run_config hash rateRps burst
  induction past using List.reverseRecOn generalizing first with
  | nil => exact check_called enabled (range first (by simp)) (.inl rfl)
  | append_singleton past before ih =>
      obtain ⟨ordered, -, cross⟩ := List.pairwise_append.mp inOrder
      have called := ih before ordered fun now member => range now (List.mem_append_left _ member)
      rw [callsOf, List.map_append, List.map_singleton, Machine.run_concat]
      refine check_called ((config _).1.trans_ne enabled) (range first (by simp))
        (.inr ⟨before, ?_, called⟩)
      exact cross before (by simp) first (List.mem_singleton_self first)

end

/-- Calls of one address: from the one at `first` on, through calls that find the bucket below its
burst, it gains the rate for all but one of the milliseconds exactly if the whole milliseconds
between the calls add up to as many. -/
theorem refilled_at_rate_iff (hash : IpAddr → UInt64) (rateRps burst : UInt32)
    (positive : 1 ≤ rateRps.toNat) (ip : IpAddr) (past : List Nat) (first : Nat) (times : List Nat)
    (inOrder : (past ++ first :: times).Pairwise (· ≤ ·))
    (range : ∀ now ∈ past ++ first :: times, now < 2 ^ 64)
    (below : Machine.Meets (step hash) (BelowBurst hash)
      (Machine.run (step hash) (.new rateRps burst) (callsOf ip (past ++ [first]))).1
      (callsOf ip times)) :
    let d : Nat := ((first :: times).getLast nofun - first) / millisecond
    rateRps.toNat * ((d : Int) - 1) ≤
        totalRefill hash (Machine.run (step hash) (.new rateRps burst)
          (callsOf ip (past ++ [first]))).1 ip times ↔
      d ≤ wholeMillis first times + 1 := by
  intro d
  have enabled : rateRps ≠ 0 := by
    rintro rfl
    exact absurd positive (by decide)
  rw [List.append_cons] at inOrder range
  have ordered := List.pairwise_append.mp inOrder
  have called := run_called hash burst enabled ip past first ordered.1
    fun now member => range now (List.mem_append_left _ member)
  have later : (first :: times).Pairwise (· ≤ ·) := by
    refine List.pairwise_cons.mpr ⟨fun now member => ?_, ordered.2.1⟩
    exact ordered.2.2 first (by simp) now member
  rw [totalRefill_eq called later (fun now member => range now (List.mem_append_right _ member))
    below, (run_config hash rateRps burst _).1]
  have factor : (0 : Int) < rateRps.toNat := by omega
  rw [mul_le_mul_iff_right₀ factor]
  omega

theorem refilled_every_millisecond :
    Machine.Meets (step oneStripe) (BelowBurst oneStripe)
        (Machine.run (step oneStripe) (.new 100 2) (callsOf alice [0])).1
        (callsOf alice [1000000, 2000000, 3000000]) ∧
      (100 * (3 - 1) : Int) ≤
        totalRefill oneStripe
          (Machine.run (step oneStripe) (.new 100 2) (callsOf alice [0])).1 alice
          [1000000, 2000000, 3000000] :=
  ⟨by decide +kernel, (refilled_at_rate_iff oneStripe 100 2 (by decide) alice [] 0
    [1000000, 2000000, 3000000] (by decide) (by decide) (by decide +kernel)).mpr (by decide)⟩

/-- A call every nine tenths of a millisecond: no refill in three milliseconds. -/
theorem frequent_calls_never_refilled :
    Machine.Meets (step oneStripe) (BelowBurst oneStripe)
        (Machine.run (step oneStripe) (.new 100 2) (callsOf alice [0])).1
        (callsOf alice [900000, 1800000, 2700000, 3600000]) ∧
      totalRefill oneStripe
          (Machine.run (step oneStripe) (.new 100 2) (callsOf alice [0])).1 alice
          [900000, 1800000, 2700000, 3600000] <
        100 * (3 - 1) := by
  decide +kernel

end Strata.Dmz.Limits
