import Mathlib.Tactic
import Strata.Lib.Machine
import Strata.Lib.Tables
import Strata.Lib.IpAddr

/-! The token buckets of the public surface: one for each address, in stripes by the address's
hash. A call fills its own bucket by the time since the last call, and forgets the buckets of its
stripe that have been idle for ten minutes. -/

namespace Strata.Dmz.Limits

open Net (IpAddr)
open Tables (Table)

/-- Times are in nanoseconds, as `Instant` counts. -/
def millisecond : Nat := 1000000

def idleEvictAfter : Nat := 600 * 1000 * millisecond

def i64Max : Int := 2 ^ 63 - 1

def i64Min : Int := -2 ^ 63

/-- `saturating_add`, `saturating_mul` -/
def saturate (value : Int) : Int := max i64Min (min value i64Max)

/-- `as i64` -/
def asI64 (value : Nat) : Int := (value : Int).bmod (2 ^ 64)

structure Bucket where
  tokensMilli : Int
  lastRefill : Nat
  deriving DecidableEq

structure PerIpRateLimiter where
  stripes : Fin 16 → Table IpAddr Bucket
  rateRps : UInt32
  burst : UInt32

def PerIpRateLimiter.new (rateRps burst : UInt32) : PerIpRateLimiter := ⟨fun _ => ∅, rateRps, burst⟩

def PerIpRateLimiter.burstMilli (limiter : PerIpRateLimiter) : Int := limiter.burst.toNat * 1000

def Bucket.refill (bucket : Bucket) (rate : Nat) (burstMilli : Int) (now : Nat) : Bucket :=
  if now - bucket.lastRefill = 0 then bucket
  else
    let add := saturate (asI64 ((now - bucket.lastRefill) / millisecond) * rate)
    ⟨min (saturate (bucket.tokensMilli + add)) burstMilli, now⟩

def Bucket.take (bucket : Bucket) : Bool × Bucket :=
  if bucket.tokensMilli ≥ 1000 then
    (true, { bucket with tokensMilli := bucket.tokensMilli - 1000 })
  else (false, bucket)

def isFresh (now : Nat) (bucket : Bucket) : Bool :=
  decide (now - bucket.lastRefill < idleEvictAfter)

section

-- the standard library's hash of an address
variable (hash : IpAddr → UInt64)

def stripeFor (ip : IpAddr) : Fin 16 := ⟨(hash ip).toNat % 16, Nat.mod_lt _ (by decide)⟩

def PerIpRateLimiter.bucket (limiter : PerIpRateLimiter) (ip : IpAddr) : Option Bucket :=
  (limiter.stripes (stripeFor hash ip)).lookup ip

def PerIpRateLimiter.entry (limiter : PerIpRateLimiter) (ip : IpAddr) (now : Nat) : Bucket :=
  ((limiter.bucket hash ip).getD ⟨limiter.burstMilli, now⟩).refill limiter.rateRps.toNat
    limiter.burstMilli now

def PerIpRateLimiter.check (limiter : PerIpRateLimiter) (ip : IpAddr) (now : Nat) :
    PerIpRateLimiter × Bool :=
  if limiter.rateRps = 0 then (limiter, true)
  else
    let taken := (limiter.entry hash ip now).take
    let stripe := stripeFor hash ip
    let map := (limiter.stripes stripe).insert ip taken.2
    ({ limiter with
        stripes := Function.update limiter.stripes stripe (Tables.retain (isFresh now) map) },
      taken.1)

/-! ### Calls -/

structure Call where
  ip : IpAddr
  now : Nat

structure Decision where
  ip : IpAddr
  now : Nat
  allowed : Bool
  deriving DecidableEq

def step (limiter : PerIpRateLimiter) (call : Call) : PerIpRateLimiter × List Decision :=
  ((limiter.check hash call.ip call.now).1,
    [⟨call.ip, call.now, (limiter.check hash call.ip call.now).2⟩])

end

def InOrder (calls : List Call) : Prop := calls.Pairwise fun first second => first.now ≤ second.now

def allowedFrom (decisions : List Decision) (ip : IpAddr) (start : Nat) : Nat :=
  decisions.countP fun decision =>
    decision.ip = ip && decision.allowed && decide (start ≤ decision.now)

/-- How many requests of the address were allowed in `d` milliseconds from `start` on. -/
def allowedIn (decisions : List Decision) (ip : IpAddr) (start d : Nat) : Nat :=
  decisions.countP fun decision =>
    decision.ip = ip && decision.allowed &&
      decide (start ≤ decision.now ∧ decision.now ≤ start + d * millisecond)

/-! ### One bucket -/

theorem bmod_le (value size : Nat) : (value : Int).bmod size ≤ value := by
  have less : (value : Int) % size ≤ value := by exact_mod_cast Nat.mod_le value size
  rw [Int.bmod_def]
  split_ifs
  · exact less
  · omega

theorem asI64_le (value : Nat) : asI64 value ≤ value := bmod_le value _

theorem saturate_le {value bound : Int} (small : value ≤ bound) (low : i64Min ≤ bound) :
    saturate value ≤ bound := by
  rw [saturate]
  exact max_le low ((min_le_left ..).trans small)

def earned (rate start now : Nat) : Nat := rate * ((now - start) / millisecond)

theorem earned_add_le (rate : Nat) {start middle now : Nat} (before : start ≤ middle)
    (after : middle ≤ now) :
    earned rate start middle + earned rate middle now ≤ earned rate start now := by
  have whole : now - start = (middle - start) + (now - middle) := by omega
  rw [earned, earned, earned, ← mul_add, whole]
  exact Nat.mul_le_mul_left rate (Nat.div_add_div_le_add_div ..)

theorem earned_mono (rate start : Nat) {now later : Nat} (order : now ≤ later) :
    earned rate start now ≤ earned rate start later :=
  Nat.mul_le_mul_left rate (Nat.div_le_div_right (Nat.sub_le_sub_right order start))

variable {bucket : Bucket} (rate : Nat) (burstMilli : Int) {now : Nat}

theorem refill_lastRefill (order : bucket.lastRefill ≤ now) :
    (bucket.refill rate burstMilli now).lastRefill = now := by
  rw [Bucket.refill]
  split_ifs with still
  · omega
  · rfl

variable {burstMilli}

theorem refill_le_burst (now : Nat) (full : bucket.tokensMilli ≤ burstMilli) :
    (bucket.refill rate burstMilli now).tokensMilli ≤ burstMilli := by
  rw [Bucket.refill]
  split_ifs
  · exact full
  · exact min_le_right ..

theorem refill_le (burstMilli : Int) (now : Nat) (low : i64Min ≤ bucket.tokensMilli) :
    (bucket.refill rate burstMilli now).tokensMilli ≤
      bucket.tokensMilli + earned rate bucket.lastRefill now := by
  rw [Bucket.refill]
  have nonneg : (0 : Int) ≤ earned rate bucket.lastRefill now := Int.natCast_nonneg _
  split_ifs with still
  · exact le_add_of_nonneg_right nonneg
  · have gain : asI64 ((now - bucket.lastRefill) / millisecond) * rate ≤
        earned rate bucket.lastRefill now := by
      rw [earned, Nat.cast_mul, mul_comm]
      exact mul_le_mul_of_nonneg_left (asI64_le _) (Int.natCast_nonneg rate)
    have added : saturate (asI64 ((now - bucket.lastRefill) / millisecond) * rate) ≤
        earned rate bucket.lastRefill now :=
      saturate_le gain (le_trans (by decide) nonneg)
    refine (min_le_left ..).trans (saturate_le ?_ ?_)
    · exact add_le_add_right added _
    · exact low.trans (le_add_of_nonneg_right nonneg)

theorem refill_low (now : Nat) (low : i64Min ≤ bucket.tokensMilli) (burst : i64Min ≤ burstMilli) :
    i64Min ≤ (bucket.refill rate burstMilli now).tokensMilli := by
  rw [Bucket.refill]
  split_ifs
  · exact low
  · exact le_min (le_max_left ..) burst

def cost (allowed : Bool) : Nat := if allowed then 1000 else 0

theorem take_tokens (bucket : Bucket) :
    bucket.take.2.tokensMilli + cost bucket.take.1 = bucket.tokensMilli ∧
      bucket.take.2.lastRefill = bucket.lastRefill ∧
      (bucket.take.1 = true → 0 ≤ bucket.take.2.tokensMilli) := by
  rw [Bucket.take]
  split_ifs with enough
  · refine ⟨?_, rfl, fun _ => ?_⟩
    · rw [cost, if_pos rfl]
      push_cast
      omega
    · dsimp only
      omega
  · exact ⟨add_zero _, rfl, fun refused => refused.elim⟩

/-! ### What one address is allowed -/

/-- The ledger of a bucket from `start` on, where `used` is what the allowed calls took: it has
gained no more than the time since `start` gives. -/
structure Fair (rate : Nat) (burstMilli : Int) (start used : Nat) (bucket : Bucket) : Prop where
  low : i64Min ≤ bucket.tokensMilli
  full : bucket.tokensMilli ≤ burstMilli
  left : used + bucket.tokensMilli ≤ burstMilli + earned rate start bucket.lastRefill
  spent : used ≤ burstMilli + earned rate start bucket.lastRefill
  unused : bucket.lastRefill < start → used = 0

variable {rate} {start used : Nat}

theorem fair_full (nonneg : 0 ≤ burstMilli) (paid : used ≤ earned rate start now)
    (unused : now < start → used = 0) : Fair rate burstMilli start used ⟨burstMilli, now⟩ := by
  refine ⟨le_trans (by decide) nonneg, le_refl _, ?_, ?_, unused⟩
  · dsimp only
    omega
  · dsimp only
    omega

theorem Fair.refill (fair : Fair rate burstMilli start used bucket) (nonneg : 0 ≤ burstMilli)
    (order : bucket.lastRefill ≤ now) (unused : now < start → used = 0) :
    Fair rate burstMilli start used (bucket.refill rate burstMilli now) := by
  have last := refill_lastRefill rate burstMilli order
  have full := refill_le_burst rate now fair.full
  have gain := refill_le rate burstMilli now fair.low
  have low : i64Min ≤ burstMilli := le_trans (by decide) nonneg
  constructor
  case low => exact refill_low rate now fair.low low
  case full => exact full
  case left =>
    rw [last]
    by_cases early : bucket.lastRefill < start
    · have none := fair.unused early
      omega
    · have spans := earned_add_le rate (Nat.le_of_not_lt early) order
      have left := fair.left
      omega
  case spent =>
    rw [last]
    have longer := earned_mono rate start order
    have spent := fair.spent
    omega
  case unused => exact fun early => unused (last ▸ early)

theorem Fair.take (fair : Fair rate burstMilli start used bucket) {counted : Nat}
    (most : counted ≤ cost bucket.take.1) (due : bucket.lastRefill < start → counted = 0) :
    Fair rate burstMilli start (used + counted) bucket.take.2 := by
  obtain ⟨tokens, last, covered⟩ := take_tokens bucket
  have low := fair.low
  have full := fair.full
  have left := fair.left
  have spent := fair.spent
  constructor
  case low =>
    cases allowed : bucket.take.1 with
    | true => exact le_trans (by decide) (covered allowed)
    | false =>
        rw [allowed, cost] at tokens
        simp only [Bool.false_eq_true, if_false, Nat.cast_zero, add_zero] at tokens
        rwa [tokens]
  case full => omega
  case left =>
    rw [last]
    omega
  case spent =>
    rw [last]
    cases allowed : bucket.take.1 with
    | true =>
        have nonneg := covered allowed
        rw [allowed] at tokens most
        omega
    | false =>
        rw [allowed, cost, if_neg Bool.false_ne_true] at most
        omega
  case unused =>
    rw [last]
    intro early
    rw [fair.unused early, due early]

/-! ### Calls of all addresses -/

def Reached (past : List Call) (now : Nat) : Prop := ∀ call ∈ past, call.now ≤ now

theorem inOrder_concat {past : List Call} {call : Call} :
    InOrder (past ++ [call]) ↔ InOrder past ∧ Reached past call.now := by
  rw [InOrder, List.pairwise_append]
  constructor
  · rintro ⟨before, -, last⟩
    exact ⟨before, fun earlier member => last earlier member call (List.mem_singleton_self call)⟩
  · rintro ⟨before, reached⟩
    refine ⟨before, List.pairwise_singleton .., fun earlier member later inside => ?_⟩
    rw [List.mem_singleton.mp inside]
    exact reached earlier member

theorem Reached.of_concat {past : List Call} {call : Call} {now : Nat}
    (reached : Reached (past ++ [call]) now) : Reached past now ∧ call.now ≤ now :=
  ⟨fun earlier member => reached earlier (List.mem_append_left _ member),
    reached call (List.mem_append_right _ (List.mem_singleton_self call))⟩

/-- The ledger of one address: its bucket is fair, and where there is none, the time since `start`
alone pays for what was used. -/
def Ledger (rate : Nat) (burstMilli : Int) (start used : Nat) (past : List Call) :
    Option Bucket → Prop
  | none => ∀ now, Reached past now → used ≤ earned rate start now
  | some bucket => Fair rate burstMilli start used bucket ∧
      ∀ now, Reached past now → bucket.lastRefill ≤ now

variable {past : List Call} {call : Call} {found : Option Bucket}

theorem Ledger.later (ledger : Ledger rate burstMilli start used past found) :
    Ledger rate burstMilli start used (past ++ [call]) found := by
  cases found with
  | none => exact fun now reached => ledger now reached.of_concat.1
  | some bucket => exact ⟨ledger.1, fun now reached => ledger.2 now reached.of_concat.1⟩

theorem Ledger.evict (ledger : Ledger rate burstMilli start used past (some bucket))
    (fills : burstMilli ≤ rate * (600 * 1000)) (idle : isFresh call.now bucket = false) :
    Ledger rate burstMilli start used (past ++ [call]) none := by
  intro now reached
  obtain ⟨fair, -⟩ := ledger
  have order := reached.of_concat.2
  rw [isFresh, decide_eq_false_iff_not, Nat.not_lt] at idle
  by_cases early : bucket.lastRefill < start
  · rw [fair.unused early]
    exact Nat.zero_le _
  · have long : bucket.lastRefill + idleEvictAfter ≤ now := by
      have positive : 0 < idleEvictAfter := by decide
      omega
    have refilled : earned rate bucket.lastRefill (bucket.lastRefill + idleEvictAfter) =
        rate * (600 * 1000) := by
      rw [earned, Nat.add_sub_cancel_left]
      rfl
    have idled := earned_mono rate bucket.lastRefill long
    have spans := earned_add_le rate (Nat.le_of_not_lt early)
      (Nat.le_trans (Nat.le_add_right ..) long)
    have spent := fair.spent
    zify at refilled
    omega

section

variable (hash : IpAddr → UInt64) {limiter : PerIpRateLimiter} {ip : IpAddr}

theorem check_config (limiter : PerIpRateLimiter) (ip : IpAddr) (now : Nat) :
    (limiter.check hash ip now).1.rateRps = limiter.rateRps ∧
      (limiter.check hash ip now).1.burst = limiter.burst := by
  rw [PerIpRateLimiter.check]
  split_ifs <;> exact ⟨rfl, rfl⟩

theorem check_bucket_self (enabled : limiter.rateRps ≠ 0)
    (last : (limiter.entry hash ip now).lastRefill = now) :
    (limiter.check hash ip now).1.bucket hash ip = some (limiter.entry hash ip now).take.2 ∧
      (limiter.check hash ip now).2 = (limiter.entry hash ip now).take.1 := by
  have fresh : isFresh now (limiter.entry hash ip now).take.2 = true := by
    rw [isFresh, (take_tokens _).2.1, last, Nat.sub_self]
    decide
  rw [PerIpRateLimiter.check, if_neg enabled]
  refine ⟨?_, rfl⟩
  rw [PerIpRateLimiter.bucket]
  dsimp only
  rw [Function.update_self, Tables.lookup_retain_eq, AList.lookup_insert, Option.bind_some,
    if_pos fresh]

theorem check_bucket_stripe (enabled : limiter.rateRps ≠ 0) {other : IpAddr} (ne : ip ≠ other)
    (same : stripeFor hash ip = stripeFor hash other) (now : Nat) :
    (limiter.check hash other now).1.bucket hash ip =
      (limiter.bucket hash ip).bind fun bucket =>
        if isFresh now bucket then some bucket else none := by
  rw [PerIpRateLimiter.check, if_neg enabled]
  simp only [PerIpRateLimiter.bucket]
  rw [same, Function.update_self, Tables.lookup_retain_eq, AList.lookup_insert_ne ne]

theorem check_bucket_other (enabled : limiter.rateRps ≠ 0) {other : IpAddr} (ne : ip ≠ other)
    (now : Nat) :
    (limiter.check hash other now).1.bucket hash ip = limiter.bucket hash ip ∨
      ∃ bucket, limiter.bucket hash ip = some bucket ∧ isFresh now bucket = false ∧
        (limiter.check hash other now).1.bucket hash ip = none := by
  by_cases same : stripeFor hash ip = stripeFor hash other
  · rw [check_bucket_stripe hash enabled ne same]
    cases present : limiter.bucket hash ip with
    | none => exact .inl rfl
    | some bucket =>
        cases fresh : isFresh now bucket with
        | true => exact .inl (by rw [Option.bind_some, if_pos fresh])
        | false =>
            refine .inr ⟨bucket, rfl, fresh, ?_⟩
            rw [Option.bind_some, if_neg (by rw [fresh]; exact Bool.false_ne_true)]
  · rw [PerIpRateLimiter.check, if_neg enabled]
    simp only [PerIpRateLimiter.bucket]
    rw [Function.update_of_ne same]
    exact .inl rfl

end

def counted (ip : IpAddr) (start : Nat) (decision : Decision) : Nat :=
  if decision.ip = ip && decision.allowed && decide (start ≤ decision.now) then 1000 else 0

theorem allowedFrom_concat (decisions : List Decision) (decision : Decision) (ip : IpAddr)
    (start : Nat) :
    1000 * allowedFrom (decisions ++ [decision]) ip start =
      1000 * allowedFrom decisions ip start + counted ip start decision := by
  rw [allowedFrom, List.countP_append, List.countP_singleton, Nat.mul_add, counted]
  split_ifs <;> rfl

theorem counted_le (ip : IpAddr) (start : Nat) (decision : Decision) :
    counted ip start decision ≤ cost decision.allowed ∧
      (decision.now < start → counted ip start decision = 0) ∧
      (decision.ip ≠ ip → counted ip start decision = 0) := by
  rw [counted, cost]
  by_cases same : decision.ip = ip
  · cases decision.allowed with
    | false => simp
    | true =>
        by_cases due : start ≤ decision.now
        · simp [same, due]
        · simp [same, due]
  · simp [same]

theorem Ledger.entry (ledger : Ledger rate burstMilli start used past found)
    (nonneg : 0 ≤ burstMilli) (reached : Reached past now) :
    Fair rate burstMilli start used
        ((found.getD ⟨burstMilli, now⟩).refill rate burstMilli now) ∧
      ((found.getD ⟨burstMilli, now⟩).refill rate burstMilli now).lastRefill = now := by
  cases found with
  | none =>
      have paid : used ≤ earned rate start now := ledger now reached
      have unused : now < start → used = 0 := by
        intro early
        rw [earned, Nat.sub_eq_zero_of_le early.le, Nat.zero_div, Nat.mul_zero] at paid
        exact Nat.le_zero.mp paid
      exact ⟨(fair_full nonneg paid unused).refill nonneg le_rfl unused,
        refill_lastRefill rate burstMilli le_rfl⟩
  | some bucket =>
      obtain ⟨fair, order⟩ := ledger
      have last := order now reached
      exact ⟨fair.refill nonneg last fun early => fair.unused (last.trans_lt early),
        refill_lastRefill rate burstMilli last⟩

section

variable (hash : IpAddr → UInt64) {limiter : PerIpRateLimiter} {ip : IpAddr}

theorem check_ledger (enabled : limiter.rateRps ≠ 0)
    (fills : limiter.burst.toNat ≤ 600 * limiter.rateRps.toNat) (reached : Reached past call.now)
    (ledger : Ledger limiter.rateRps.toNat limiter.burstMilli start used past
      (limiter.bucket hash ip)) :
    Ledger limiter.rateRps.toNat limiter.burstMilli start
      (used + counted ip start ⟨call.ip, call.now, (limiter.check hash call.ip call.now).2⟩)
      (past ++ [call]) ((limiter.check hash call.ip call.now).1.bucket hash ip) := by
  have nonneg : 0 ≤ limiter.burstMilli := by
    rw [PerIpRateLimiter.burstMilli]
    positivity
  obtain ⟨most, early, other⟩ :=
    counted_le ip start ⟨call.ip, call.now, (limiter.check hash call.ip call.now).2⟩
  by_cases same : call.ip = ip
  · subst same
    obtain ⟨fair, last⟩ := ledger.entry nonneg reached
    obtain ⟨bucket, allowed⟩ := check_bucket_self hash enabled last
    rw [bucket]
    refine ⟨Fair.take fair ?_ fun before => early (last ▸ before), fun now later => ?_⟩
    · change _ ≤ cost (limiter.entry hash call.ip call.now).take.1
      rwa [← allowed]
    · rw [(take_tokens _).2.1, show (limiter.entry hash call.ip call.now).lastRefill = _ from last]
      exact later.of_concat.2
  · rw [other same, add_zero]
    rcases check_bucket_other hash enabled (Ne.symm same) call.now with
      kept | ⟨bucket, present, idle, evicted⟩
    · rw [kept]
      exact ledger.later
    · rw [evicted]
      rw [present] at ledger
      refine ledger.evict ?_ idle
      rw [PerIpRateLimiter.burstMilli]
      omega

structure Books (rateRps burst : UInt32) (ip : IpAddr) (start : Nat) (past : List Call)
    (decisions : List Decision) (limiter : PerIpRateLimiter) : Prop where
  sameRate : limiter.rateRps = rateRps
  sameBurst : limiter.burst = burst
  ledger : Ledger rateRps.toNat (burst.toNat * 1000) start (1000 * allowedFrom decisions ip start)
    past (limiter.bucket hash ip)

variable {rateRps burst : UInt32} {decisions : List Decision}

theorem Books.step (books : Books hash rateRps burst ip start past decisions limiter)
    (enabled : rateRps ≠ 0) (fills : burst.toNat ≤ 600 * rateRps.toNat)
    (reached : Reached past call.now) :
    Books hash rateRps burst ip start (past ++ [call]) (decisions ++ (step hash limiter call).2)
      (step hash limiter call).1 := by
  obtain ⟨rfl, rfl, ledger⟩ := books
  obtain ⟨rate, most⟩ := check_config hash limiter call.ip call.now
  refine ⟨rate, most, ?_⟩
  rw [Limits.step, allowedFrom_concat]
  exact check_ledger hash enabled fills reached ledger

theorem run_books (enabled : rateRps ≠ 0) (fills : burst.toNat ≤ 600 * rateRps.toNat)
    (ip : IpAddr) (start : Nat) (calls : List Call) (inOrder : InOrder calls) :
    Books hash rateRps burst ip start calls
      (Machine.run (step hash) (.new rateRps burst) calls).2
      (Machine.run (step hash) (.new rateRps burst) calls).1 := by
  refine Machine.run_history (fun past decisions limiter => InOrder past →
    Books hash rateRps burst ip start past decisions limiter) ?_ ?_ calls inOrder
  · exact fun _ => ⟨rfl, rfl, fun _ _ => Nat.zero_le _⟩
  · intro past call before inOrder
    obtain ⟨ordered, reached⟩ := inOrder_concat.mp inOrder
    exact (before ordered).step hash enabled fills reached

theorem Books.bound (books : Books hash rateRps burst ip start past decisions limiter)
    (reached : Reached past now) :
    1000 * allowedFrom decisions ip start ≤
      burst.toNat * 1000 + earned rateRps.toNat start now := by
  have ledger := books.ledger
  cases found : limiter.bucket hash ip with
  | none =>
      rw [found] at ledger
      exact (ledger now reached).trans (Nat.le_add_left ..)
  | some bucket =>
      rw [found] at ledger
      obtain ⟨fair, order⟩ := ledger
      have spent := fair.spent
      have later := earned_mono rateRps.toNat start (order now reached)
      omega

theorem allowedIn_le_allowedFrom (decisions : List Decision) (ip : IpAddr) (start d : Nat) :
    allowedIn decisions ip start d ≤ allowedFrom decisions ip start := by
  refine List.countP_mono_left fun decision _ counts => ?_
  simp only [Bool.and_eq_true, decide_eq_true_eq] at counts ⊢
  exact ⟨counts.1, counts.2.1⟩

theorem allowedIn_le (enabled : rateRps ≠ 0) (fills : burst.toNat ≤ 600 * rateRps.toNat)
    (ip : IpAddr) (start d : Nat) (calls : List Call) (inOrder : InOrder calls) :
    1000 * allowedIn (Machine.run (step hash) (.new rateRps burst) calls).2 ip start d ≤
      burst.toNat * 1000 + rateRps.toNat * d := by
  have span : earned rateRps.toNat start (start + d * millisecond) = rateRps.toNat * d := by
    rw [earned, Nat.add_sub_cancel_left, Nat.mul_div_cancel _ (by decide)]
  refine Machine.run_history (fun past decisions _ => InOrder past →
    1000 * allowedIn decisions ip start d ≤ burst.toNat * 1000 + rateRps.toNat * d) ?_ ?_ calls
    inOrder
  · exact fun _ => Nat.zero_le _
  · intro past call before inOrder
    obtain ⟨ordered, reached⟩ := inOrder_concat.mp inOrder
    by_cases inside : call.now ≤ start + d * millisecond
    · have books := (run_books hash enabled fills ip start past ordered).step hash enabled fills
        reached
      have all : Reached (past ++ [call]) (start + d * millisecond) := by
        intro earlier member
        rcases List.mem_append.mp member with old | last
        · exact (reached earlier old).trans inside
        · rw [List.mem_singleton.mp last]
          exact inside
      rw [← span]
      exact (Nat.mul_le_mul_left 1000 (allowedIn_le_allowedFrom ..)).trans (books.bound hash all)
    · have outside : ∀ decisions allowed,
          allowedIn (decisions ++ [⟨call.ip, call.now, allowed⟩]) ip start d =
            allowedIn decisions ip start d := by
        intro decisions allowed
        rw [allowedIn, List.countP_append, List.countP_singleton, if_neg (by simp [inside]),
          add_zero]
        rfl
      rw [step, outside]
      exact before ordered

/-! ### Where the idle time does not fill a bucket -/

theorem run_cons_decisions (limiter : PerIpRateLimiter) (ip : IpAddr) (now : Nat)
    (calls : List Call) :
    (Machine.run (step hash) limiter (⟨ip, now⟩ :: calls)).2 =
      [⟨ip, now, (limiter.check hash ip now).2⟩] ++
        (Machine.run (step hash) (limiter.check hash ip now).1 calls).2 := rfl

theorem burst_allowed (limiter : PerIpRateLimiter) (enabled : limiter.rateRps ≠ 0) (ip : IpAddr)
    (now count : Nat)
    (last : (limiter.entry hash ip now).lastRefill = now)
    (enough : (1000 * count : Nat) ≤ (limiter.entry hash ip now).tokensMilli) :
    (Machine.run (step hash) limiter (List.replicate count ⟨ip, now⟩)).2 =
        List.replicate count ⟨ip, now, true⟩ ∧
      ((Machine.run (step hash) limiter (List.replicate count ⟨ip, now⟩)).1.entry hash ip
        now).lastRefill = now := by
  induction count generalizing limiter with
  | zero => exact ⟨rfl, last⟩
  | succ count ih =>
      obtain ⟨bucket, allowed⟩ := check_bucket_self hash enabled last
      obtain ⟨rate, most⟩ := check_config hash limiter ip now
      obtain ⟨tokens, kept, -⟩ := take_tokens (limiter.entry hash ip now)
      have passes : (limiter.entry hash ip now).take.1 = true := by
        rw [Bucket.take, if_pos (by omega)]
      have still : (limiter.check hash ip now).1.entry hash ip now =
          (limiter.entry hash ip now).take.2 := by
        rw [PerIpRateLimiter.entry, bucket, Option.getD_some, Bucket.refill, kept, last,
          Nat.sub_self, if_pos rfl]
      rw [passes, cost, if_pos rfl] at tokens
      have rest := ih (limiter.check hash ip now).1 (rate ▸ enabled)
        (by rw [still, kept, last]) (by rw [still]; omega)
      rw [List.replicate_succ]
      refine ⟨?_, rest.2⟩
      rw [run_cons_decisions, rest.1, allowed, passes, List.replicate_succ]
      rfl

theorem exists_same_stripe : ∃ ip other, ip ≠ other ∧ stripeFor hash ip = stripeFor hash other := by
  obtain ⟨first, second, ne, same⟩ := Fintype.exists_ne_map_eq_of_card_lt
    (fun i : Fin 17 => stripeFor hash (.v4 (BitVec.ofNat 32 i))) (by decide)
  refine ⟨_, _, fun equal => ne ?_, same⟩
  have values := congrArg BitVec.toNat (IpAddr.v4.inj equal)
  simp only [BitVec.toNat_ofNat] at values
  omega

/-- The address uses up its burst; ten minutes later another address of its stripe calls, and the
first comes back to a full bucket. -/
def comeback (ip other : IpAddr) (burst again : Nat) : List Call :=
  List.replicate burst ⟨ip, 0⟩ ++
    (⟨other, idleEvictAfter⟩ :: List.replicate again ⟨ip, idleEvictAfter⟩)

theorem comeback_inOrder (ip other : IpAddr) (burst again : Nat) :
    InOrder (comeback ip other burst again) := by
  rw [InOrder, comeback, List.pairwise_append, List.pairwise_cons]
  refine ⟨List.pairwise_replicate.mpr (.inr le_rfl),
    ⟨?_, List.pairwise_replicate.mpr (.inr le_rfl)⟩, ?_⟩
  · intro call member
    rw [List.eq_of_mem_replicate member]
  · intro first inside second _
    rw [List.eq_of_mem_replicate inside]
    exact Nat.zero_le _

theorem run_config (rateRps burst : UInt32) (calls : List Call) :
    (Machine.run (step hash) (.new rateRps burst) calls).1.rateRps = rateRps ∧
      (Machine.run (step hash) (.new rateRps burst) calls).1.burst = burst := by
  refine Machine.run_invariant
    (fun _ limiter => PerIpRateLimiter.rateRps limiter = rateRps ∧ limiter.burst = burst)
    ⟨rfl, rfl⟩ (fun _ call limiter same => ?_) calls
  obtain ⟨rate, most⟩ := check_config hash limiter call.ip call.now
  exact ⟨rate.trans same.1, most.trans same.2⟩

theorem entry_of_none (limiter : PerIpRateLimiter) (ip : IpAddr)
    (absent : limiter.bucket hash ip = none) (now : Nat) :
    limiter.entry hash ip now = ⟨limiter.burstMilli, now⟩ := by
  rw [PerIpRateLimiter.entry, absent, Option.getD_none, Bucket.refill, Nat.sub_self, if_pos rfl]

theorem idle_of_entry (last : (limiter.entry hash ip 0).lastRefill = 0) {bucket : Bucket}
    (present : limiter.bucket hash ip = some bucket) : isFresh idleEvictAfter bucket = false := by
  rw [PerIpRateLimiter.entry, present, Option.getD_some, Bucket.refill, Nat.zero_sub, if_pos rfl]
    at last
  rw [isFresh, last, Nat.sub_zero, decide_eq_false_iff_not]
  exact lt_irrefl _

theorem allowedIn_append (first second : List Decision) (ip : IpAddr) (start d : Nat) :
    allowedIn (first ++ second) ip start d =
      allowedIn first ip start d + allowedIn second ip start d := List.countP_append ..

theorem allowedIn_replicate (ip : IpAddr) {now d : Nat} (within : now ≤ d * millisecond)
    (count : Nat) : allowedIn (List.replicate count ⟨ip, now, true⟩) ip 0 d = count := by
  rw [allowedIn, List.countP_replicate, if_pos (by simpa using within)]

theorem full_again {other : IpAddr} (enabled : limiter.rateRps ≠ 0) (ne : ip ≠ other)
    (same : stripeFor hash ip = stripeFor hash other)
    (last : (limiter.entry hash ip 0).lastRefill = 0) (again : Nat)
    (most : again ≤ limiter.burst.toNat) :
    (Machine.run (step hash) (limiter.check hash other idleEvictAfter).1
      (List.replicate again ⟨ip, idleEvictAfter⟩)).2 =
        List.replicate again ⟨ip, idleEvictAfter, true⟩ := by
  have evicted : (limiter.check hash other idleEvictAfter).1.bucket hash ip = none := by
    rw [check_bucket_stripe hash enabled ne same]
    cases present : limiter.bucket hash ip with
    | none => rfl
    | some bucket =>
        rw [Option.bind_some, idle_of_entry hash last present]
        rfl
  have full := entry_of_none hash _ ip evicted idleEvictAfter
  obtain ⟨rate, burst⟩ := check_config hash limiter other idleEvictAfter
  refine (burst_allowed hash _ (rate ▸ enabled) ip idleEvictAfter again (by rw [full]) ?_).1
  rw [full, PerIpRateLimiter.burstMilli, burst]
  push_cast
  omega

theorem comeback_allowed {other : IpAddr} (enabled : rateRps ≠ 0) (ne : ip ≠ other)
    (same : stripeFor hash ip = stripeFor hash other) (again : Nat) (most : again ≤ burst.toNat) :
    burst.toNat + again ≤
      allowedIn (Machine.run (step hash) (.new rateRps burst)
        (comeback ip other burst.toNat again)).2 ip 0 (600 * 1000) := by
  have fresh := entry_of_none hash (.new rateRps burst) ip rfl 0
  obtain ⟨first, last⟩ := burst_allowed hash (.new rateRps burst) enabled ip 0 burst.toNat
    (by rw [fresh]) (by rw [fresh, Nat.mul_comm]; exact le_rfl)
  obtain ⟨rate, size⟩ := run_config hash rateRps burst (List.replicate burst.toNat ⟨ip, 0⟩)
  have second := full_again hash (rate.trans_ne enabled) ne same last again
    (most.trans_eq (congrArg UInt32.toNat size.symm))
  have whole : idleEvictAfter ≤ 600 * 1000 * millisecond := le_rfl
  rw [comeback, Machine.run_append]
  dsimp only
  rw [first, run_cons_decisions, second, allowedIn_append, allowedIn_append,
    allowedIn_replicate ip (Nat.zero_le _), allowedIn_replicate ip whole]
  omega

/-- For the rate and burst of a limiter: in every sequence of calls an address is allowed at most
the burst and the rate in any interval exactly if ten idle minutes fill a bucket. -/
theorem allowed_bound_iff (rateRps burst : UInt32) (positive : 1 ≤ rateRps.toNat) :
    (∀ calls, InOrder calls → ∀ ip start d,
      allowedIn (Machine.run (step hash) (.new rateRps burst) calls).2 ip start d ≤
        burst.toNat + rateRps.toNat * d / 1000) ↔
      burst.toNat ≤ 600 * rateRps.toNat := by
  have enabled : rateRps ≠ 0 := by
    rintro rfl
    exact absurd positive (by decide)
  constructor
  · intro bound
    by_contra large
    obtain ⟨ip, other, ne, same⟩ := exists_same_stripe hash
    have less : 600 * rateRps.toNat + 1 ≤ burst.toNat := by omega
    have allowed := comeback_allowed hash enabled ne same _ less
    have most := bound _ (comeback_inOrder ip other burst.toNat (600 * rateRps.toNat + 1)) ip 0
      (600 * 1000)
    omega
  · intro fills calls inOrder ip start d
    have most := allowedIn_le hash enabled fills ip start d calls inOrder
    omega

end

def oneStripe (_ : IpAddr) : UInt64 := 0

def alice : IpAddr := .v4 1

def bob : IpAddr := .v4 2

theorem hundred_a_second_bounded :
    1 ≤ (100 : UInt32).toNat ∧
      ((∀ calls, InOrder calls → ∀ ip start d,
        allowedIn (Machine.run (step oneStripe) (.new 100 200) calls).2 ip start d ≤
          (200 : UInt32).toNat + (100 : UInt32).toNat * d / 1000) ↔
        (200 : UInt32).toNat ≤ 600 * (100 : UInt32).toNat) :=
  ⟨by decide, allowed_bound_iff oneStripe 100 200 (by decide)⟩

/-- One request a second and a burst of 601: after ten minutes and a call of another address the
burst is there again. -/
theorem burst_returns_after_eviction :
    InOrder (comeback alice bob (601 : UInt32).toNat 601) ∧
      (601 : UInt32).toNat + (1 : UInt32).toNat * (600 * 1000) / 1000 <
        allowedIn (Machine.run (step oneStripe) (.new 1 601)
          (comeback alice bob (601 : UInt32).toNat 601)).2 alice 0 (600 * 1000) := by
  have enabled : (1 : UInt32) ≠ 0 := by decide
  have ne : alice ≠ bob := by decide
  have most : 601 ≤ (601 : UInt32).toNat := by decide
  have allowed := comeback_allowed oneStripe enabled ne rfl 601 most
  refine ⟨comeback_inOrder .., lt_of_lt_of_le ?_ allowed⟩
  decide

end Strata.Dmz.Limits
