import Mathlib.Algebra.Order.Ring.Rat
import Mathlib.Tactic.NormNum
import Mathlib.Tactic.Ring
import ChatServer.Library.TokenBucket
import ChatServer.Membership.Projection

/-! # The rate limit of a client

`rate_limit_check` keeps a token bucket in the client, over exact rationals in
place of floating point numbers. The calls on a client are accepted no faster
than the bucket allows.
-/

namespace ChatServer

open Library

/-- A reading of the clock in seconds. -/
def Timespec.time (t : Timespec) : ℚ := t.sec + t.nsec / 1000000000

theorem Timespec.elapsed_eq (now last : Timespec) : now.elapsed last = now.time - last.time := by
  simp only [elapsed, time]
  push_cast
  ring

def Client.bucket (client : Client) : Bucket ℚ := ⟨client.tokens, client.lastRefill.time⟩

/-- The answers of calls of `rate_limit_check` on a client, one after the other. -/
def rateLimitChecks (c : ClientPtr) : Registry → List Env → List Bool
  | _, [] => []
  | reg, env :: envs =>
    (rateLimitCheck env c reg).1 :: rateLimitChecks c (rateLimitCheck env c reg).2 envs

/-- The registry after these calls. -/
def afterChecks (c : ClientPtr) (reg : Registry) (envs : List Env) : Registry :=
  run (fun reg env => (rateLimitCheck env c reg).2) reg envs

variable {env env₀ : Env} {c : ClientPtr} {reg reg₀ : Registry} {envs : List Env}

/-- A call of `rate_limit_check` is a call on the client's bucket. -/
theorem rateLimitCheck_call (env : Env) (c : ClientPtr) (reg : Registry) :
    ((rateLimitCheck env c reg).1, ((rateLimitCheck env c reg).2.clients c).bucket) =
      (reg.clients c).bucket.call rateBucketMax rateRefillRate rateMsgCost env.monotonic.time := by
  have hfilled : (reg.clients c).bucket.filled rateBucketMax rateRefillRate env.monotonic.time =
      if rateBucketMax < (reg.clients c).tokens +
          env.monotonic.elapsed (reg.clients c).lastRefill * rateRefillRate then rateBucketMax
        else (reg.clients c).tokens +
          env.monotonic.elapsed (reg.clients c).lastRefill * rateRefillRate := by
    rw [Bucket.filled, Timespec.elapsed_eq, min_def_lt]
    rfl
  simp only [rateLimitCheck, Bucket.call, hfilled]
  split_ifs <;> simp [Client.bucket]

theorem checks_eq (envs : List Env) : rateLimitChecks c reg envs =
    (reg.clients c).bucket.outcomes rateBucketMax rateRefillRate rateMsgCost
      (envs.map (·.monotonic.time)) ∧
    ((afterChecks c reg envs).clients c).bucket =
      (reg.clients c).bucket.after rateBucketMax rateRefillRate rateMsgCost
        (envs.map (·.monotonic.time)) := by
  induction envs generalizing reg with
  | nil => exact ⟨rfl, rfl⟩
  | cons env envs ih =>
    have hcall := rateLimitCheck_call env c reg
    obtain ⟨hok, hbucket⟩ := Prod.mk.inj hcall
    obtain ⟨hchecks, hafter⟩ := @ih (rateLimitCheck env c reg).2
    refine ⟨?_, ?_⟩
    · rw [rateLimitChecks, hchecks, hbucket, hok]
      rfl
    · rw [afterChecks, run_cons]
      rw [afterChecks] at hafter
      rw [hafter, hbucket]
      rfl

theorem bucket_of_create {check : Bool} {fd : Fd} {name : Text}
    (h : createClientWith env₀ check fd name reg = (.ok, some c, reg₀)) :
    (reg₀.clients c).bucket = ⟨rateBucketMax, env₀.monotonic.time⟩ := by
  obtain ⟨c', hc', -, -, rfl⟩ := createClientWith_ok h
  obtain rfl := Option.some.inj hc'
  simp [Client.bucket, newClient]

/--
From its creation on, and at times that do not decrease, a client has between
nothing and the maximum of tokens after every call; from any call to any later
one at most the maximum, and what is refilled in between, is accepted; and a
call a second or more after the previous one is accepted.
-/
theorem rate_limited {check : Bool} {fd : Fd} {name : Text}
    (hcreate : createClientWith env₀ check fd name reg = (.ok, some c, reg₀))
    (htimes : ((env₀ :: envs).map (·.monotonic.time)).IsChain (· ≤ ·)) :
    (∀ pre, pre <+: envs → 0 ≤ ((afterChecks c reg₀ pre).clients c).tokens ∧
      ((afterChecks c reg₀ pre).clients c).tokens ≤ rateBucketMax) ∧
    (∀ pre env mid post, envs = pre ++ (env :: mid) ++ post →
      ((((rateLimitChecks c reg₀ envs).drop pre.length).take (env :: mid).length).count true : ℚ) ≤
        rateBucketMax +
          ((mid.getLastD env).monotonic.time - env.monotonic.time) * rateRefillRate) ∧
    ∀ pre prev env post, envs = pre ++ prev :: env :: post →
      1 ≤ env.monotonic.elapsed prev.monotonic →
        (rateLimitChecks c reg₀ envs)[pre.length + 1]? = some true := by
  have hbucket := bucket_of_create hcreate
  have hlast : (reg₀.clients c).bucket.last = env₀.monotonic.time := by rw [hbucket]
  have hfull : 0 ≤ (reg₀.clients c).bucket.tokens ∧
      (reg₀.clients c).bucket.tokens ≤ rateBucketMax := by
    rw [hbucket]
    exact ⟨(by decide : 0 ≤ rateBucketMax), le_rfl⟩
  rw [List.map_cons, ← hlast] at htimes
  have hbefore : ∀ pre post, envs = pre ++ post →
      ((reg₀.clients c).bucket.last :: pre.map (·.monotonic.time)).IsChain (· ≤ ·) := by
    rintro pre post rfl
    rw [List.map_append, ← List.cons_append] at htimes
    exact htimes.left_of_append
  have hbounds : ∀ pre, pre <+: envs → 0 ≤ ((afterChecks c reg₀ pre).clients c).bucket.tokens ∧
      ((afterChecks c reg₀ pre).clients c).bucket.tokens ≤ rateBucketMax := by
    rintro pre ⟨post, rfl⟩
    rw [(checks_eq pre).2]
    exact Bucket.after_bounds (by decide) (by decide) (by decide) (hbefore pre post rfl) hfull
  refine ⟨hbounds, ?_, ?_⟩
  · rintro pre env mid post rfl
    have hpre := (hbounds pre ⟨env :: mid ++ post, by simp⟩).1
    have htail := hbefore (pre ++ env :: mid) post rfl
    rw [(checks_eq pre).2] at hpre
    rw [List.map_append, List.map_cons] at htail
    have hspent := Bucket.spent_le_cap (by decide : 0 ≤ rateMsgCost)
      (by decide : 0 ≤ rateBucketMax) (by decide : 0 ≤ rateRefillRate)
      (Bucket.isChain_after htail) hpre
    have hlater : (mid.map (·.monotonic.time)).getLastD env.monotonic.time =
        (mid.getLastD env).monotonic.time := List.getLastD_map
    rw [(checks_eq _).1, List.map_append, List.map_append, List.append_assoc,
      Bucket.outcomes_append, Bucket.outcomes_append,
      List.drop_left' (by simp), List.take_left' (by simp), List.map_cons]
    rwa [Bucket.spent, rateMsgCost, mul_one, hlater] at hspent
  · rintro pre prev env post rfl hwait
    have hsplit : pre ++ prev :: env :: post = (pre ++ [prev]) ++ env :: post := by simp
    have hpre := (hbounds (pre ++ [prev]) ⟨env :: post, by simp⟩).1
    rw [(checks_eq (pre ++ [prev])).2] at hpre
    rw [(checks_eq _).1, hsplit, List.map_append, Bucket.outcomes_append,
      List.getElem?_append_right (by simp)]
    have haccepted : (Bucket.call rateBucketMax rateRefillRate rateMsgCost
        ((reg₀.clients c).bucket.after rateBucketMax rateRefillRate rateMsgCost
          ((pre ++ [prev]).map (·.monotonic.time))) env.monotonic.time).1 = true := by
      refine Bucket.call_accepted (by decide) hpre ?_
      rw [Bucket.after_last, List.map_append]
      rw [Timespec.elapsed_eq] at hwait
      simpa [rateMsgCost, rateRefillRate] using hwait
    rw [List.map_cons, Bucket.outcomes, haccepted]
    simp

/-- The environment of a call some seconds after the start. -/
def atSecond (sec : ℤ) : Env := { Env.calm 0 0 [] with monotonic := ⟨sec, 0⟩ }

/-- A client that asks seven times in a second gets five answers, and one a second later. -/
theorem rate_limited_burst :
    let reg : Registry := registryInit ⟨4, 4, 4, 10⟩
    let created := createClientWith (atSecond 0) true 4 "alice".toList reg
    let calls := [atSecond 0, atSecond 0, atSecond 0, atSecond 0, atSecond 0, atSecond 0,
      atSecond 1]
    (rateLimitChecks 0 created.2.2 calls)[6]? = some true ∧
      ((((rateLimitChecks 0 created.2.2 calls).drop 0).take 6).count true : ℚ) ≤ 5 := by
  intro reg created calls
  have hcreate : createClientWith (atSecond 0) true 4 "alice".toList reg =
      (.ok, some 0, created.2.2) := rfl
  have htimes : ((atSecond 0 :: calls).map (·.monotonic.time)).IsChain (· ≤ ·) := by
    decide +kernel
  obtain ⟨-, hcount, haccepted⟩ := rate_limited hcreate htimes
  refine ⟨haccepted [atSecond 0, atSecond 0, atSecond 0, atSecond 0, atSecond 0] (atSecond 0)
    (atSecond 1) [] rfl (by decide +kernel), ?_⟩
  have hfive := hcount [] (atSecond 0)
    [atSecond 0, atSecond 0, atSecond 0, atSecond 0, atSecond 0] [atSecond 1] rfl
  simpa [atSecond, rateBucketMax] using hfive

end ChatServer
