import Mathlib.Algebra.Order.Ring.Int
import Mathlib.Data.List.Dedup
import Mathlib.Data.List.Perm.Subperm
import ChatServer.Core.Text
import ChatServer.Library.Keyed
import ChatServer.Library.Run

/-! # The login limiter

`server_check_login_rate` counts the attempts of each IP in a window of time
and locks the IP out when they are too many. The table of IPs has a fixed size
and no entry is ever given up, so that an IP that comes when it is full is not
limited at all.
-/

namespace ChatServer

open Library

def loginRateWindow : ℤ := 60
def loginRateMax : ℕ := 10
def loginLockoutSec : ℤ := 300
def maxRateEntries : ℕ := 256

/-- `login_rate_entry_t` -/
structure LoginRateEntry where
  ip : Text
  attempts : ℕ
  windowStart : ℤ
  lockoutUntil : ℤ
  deriving DecidableEq, Repr

namespace LoginRateEntry

/-- An entry on first contact. -/
def new (ip : Text) : LoginRateEntry := ⟨strncpy 46 ip, 0, 0, 0⟩

def lockedOut (e : LoginRateEntry) (now : ℤ) : Bool := 0 < e.lockoutUntil ∧ now < e.lockoutUntil

/-- The window after a lockout has expired. -/
def expire (e : LoginRateEntry) (now : ℤ) : LoginRateEntry :=
  if 0 < e.lockoutUntil ∧ e.lockoutUntil ≤ now then
    { e with attempts := 0, lockoutUntil := 0, windowStart := now }
  else e

/-- The window after the one before has ended. -/
def renew (e : LoginRateEntry) (now : ℤ) : LoginRateEntry :=
  if loginRateWindow < now - e.windowStart then { e with attempts := 0, windowStart := now } else e

/-- One attempt, with the result 0 as `true`. -/
def check (e : LoginRateEntry) (now : ℤ) : Bool × LoginRateEntry :=
  if e.lockedOut now then (false, e)
  else
    let e := (e.expire now).renew now
    let e := { e with attempts := e.attempts + 1 }
    if loginRateMax < e.attempts then (false, { e with lockoutUntil := now + loginLockoutSec })
    else (true, e)

end LoginRateEntry

/-- `find_login_rate`: the index of the entry, which is new on first contact. -/
def findLoginRate (ip : Text) (rates : List LoginRateEntry) : Option ℕ × List LoginRateEntry :=
  match rates.findIdx? fun e => e.ip = ip with
  | some i => (some i, rates)
  | none =>
    if rates.length < maxRateEntries then (some rates.length, rates ++ [.new ip]) else (none, rates)

/-- `server_check_login_rate`, with the result 0 as `true`. -/
def serverCheckLoginRate (ip : Text) (now : ℤ) (rates : List LoginRateEntry) :
    Bool × List LoginRateEntry :=
  match findLoginRate ip rates with
  | (none, rates) => (true, rates)
  | (some i, rates) =>
    match rates[i]? with
    | none => (true, rates)
    | some e => ((e.check now).1, rates.set i (e.check now).2)

/-- An attempt with its answer. -/
structure LoginAnswer where
  ip : Text
  time : ℤ
  ok : Bool
  deriving DecidableEq, Repr

/-- The table, and the attempts so far. -/
structure LoginLog where
  rates : List LoginRateEntry
  log : List LoginAnswer
  deriving DecidableEq, Repr

/-- One call of `server_check_login_rate`. -/
def loginAttempt (s : LoginLog) (a : Text × ℤ) : LoginLog where
  rates := (serverCheckLoginRate a.1 a.2 s.rates).2
  log := s.log ++ [⟨a.1, a.2, (serverCheckLoginRate a.1 a.2 s.rates).1⟩]

def loginRun (attempts : List (Text × ℤ)) : LoginLog := run loginAttempt ⟨[], []⟩ attempts

/-- The entry of an IP. -/
def rateOf (ip : Text) (rates : List LoginRateEntry) : Option LoginRateEntry :=
  rates.find? fun e => e.ip = ip

variable {ip ip' : Text} {now : ℤ} {rates : List LoginRateEntry} {e : LoginRateEntry}

/-! ## One call -/

@[simp] theorem check_ip (e : LoginRateEntry) (now : ℤ) : (e.check now).2.ip = e.ip := by
  unfold LoginRateEntry.check LoginRateEntry.renew LoginRateEntry.expire
  split_ifs <;> simp only <;> split_ifs <;> rfl

theorem rateOf_split (h : rateOf ip rates = some e) :
    ∃ l r, rates = l ++ e :: r ∧ (∀ x ∈ l, x.ip ≠ ip) ∧ e.ip = ip := entryOf_split h

theorem check_split {l r : List LoginRateEntry} (hl : ∀ x ∈ l, x.ip ≠ ip) (he : e.ip = ip) :
    serverCheckLoginRate ip now (l ++ e :: r) =
      ((e.check now).1, l ++ (e.check now).2 :: r) := by
  have hfind : (l ++ e :: r).findIdx? (fun e => e.ip = ip) = some l.length :=
    findIdx?_split hl he
  simp [serverCheckLoginRate, findLoginRate, hfind]

theorem findIdx?_of_rateOf_none (h : rateOf ip rates = none) :
    rates.findIdx? (fun e => e.ip = ip) = none := findIdx?_of_entryOf_none h

theorem check_new (h : rateOf ip rates = none) (hfree : rates.length < maxRateEntries) :
    serverCheckLoginRate ip now rates =
      (((LoginRateEntry.new ip).check now).1,
        rates ++ [((LoginRateEntry.new ip).check now).2]) := by
  simp [serverCheckLoginRate, findLoginRate, findIdx?_of_rateOf_none h, hfree]

theorem check_full (h : rateOf ip rates = none) (hfull : ¬ rates.length < maxRateEntries) :
    serverCheckLoginRate ip now rates = (true, rates) := by
  simp [serverCheckLoginRate, findLoginRate, findIdx?_of_rateOf_none h, hfull]

theorem new_ip (hip : ip.length < 46) : (LoginRateEntry.new ip).ip = ip := strncpy_eq_self hip

/-- What a call does to the table: one entry goes through `check`, an old or a new one. -/
inductive Checked (ip : Text) (now : ℤ) (rates : List LoginRateEntry) :
    Bool × List LoginRateEntry → Prop
  | old {e : LoginRateEntry} {l r : List LoginRateEntry} (hrates : rates = l ++ e :: r)
      (hl : ∀ x ∈ l, x.ip ≠ ip) (he : e.ip = ip) :
      Checked ip now rates ((e.check now).1, l ++ (e.check now).2 :: r)
  | new (hnone : rateOf ip rates = none) (hfree : rates.length < maxRateEntries) :
      Checked ip now rates (((LoginRateEntry.new ip).check now).1,
        rates ++ [((LoginRateEntry.new ip).check now).2])
  | full (hnone : rateOf ip rates = none) (hfull : ¬ rates.length < maxRateEntries) :
      Checked ip now rates (true, rates)

theorem serverCheckLoginRate_cases (ip : Text) (now : ℤ) (rates : List LoginRateEntry) :
    Checked ip now rates (serverCheckLoginRate ip now rates) := by
  cases h : rateOf ip rates with
  | some e =>
    obtain ⟨l, r, hrates, hl, he⟩ := rateOf_split h
    rw [hrates, check_split hl he]
    exact .old rfl hl he
  | none =>
    by_cases hfree : rates.length < maxRateEntries
    · rw [check_new h hfree]
      exact .new h hfree
    · rw [check_full h hfree]
      exact .full h hfree

theorem rateOf_check_of_ne (hne : ip' ≠ ip) (hip : ip.length < 46) :
    rateOf ip' (serverCheckLoginRate ip now rates).2 = rateOf ip' rates := by
  have h := serverCheckLoginRate_cases ip now rates
  generalize serverCheckLoginRate ip now rates = next at h
  cases h with
  | old hrates hl he =>
    rw [hrates]
    exact (entryOf_replace hl he ((check_ip _ _).trans he) ip').trans (if_neg hne)
  | new hnone hfree =>
    exact (entryOf_concat hnone ((check_ip _ _).trans (new_ip hip)) ip').trans (if_neg hne)
  | full => rfl

theorem rateOf_check (hip : ip.length < 46) : rateOf ip (serverCheckLoginRate ip now rates).2 =
    match rateOf ip rates with
    | some e => some (e.check now).2
    | none => if rates.length < maxRateEntries then some ((LoginRateEntry.new ip).check now).2
        else none := by
  have h := serverCheckLoginRate_cases ip now rates
  generalize serverCheckLoginRate ip now rates = next at h
  cases h with
  | @old e l r hrates hl he =>
    have hfind : rateOf ip rates = some e := by
      rw [hrates]
      exact (entryOf_replace hl he he ip).trans (if_pos rfl)
    rw [hfind]
    exact (entryOf_replace hl he ((check_ip _ _).trans he) ip).trans (if_pos rfl)
  | new hnone hfree =>
    rw [hnone, if_pos hfree]
    exact (entryOf_concat hnone ((check_ip _ _).trans (new_ip hip)) ip).trans (if_pos rfl)
  | full hnone hfull => rw [hnone, if_neg hfull]

theorem answer_check (ip : Text) (now : ℤ) (rates : List LoginRateEntry) :
    (serverCheckLoginRate ip now rates).1 =
      match rateOf ip rates with
      | some e => (e.check now).1
      | none => if rates.length < maxRateEntries then ((LoginRateEntry.new ip).check now).1
          else true := by
  cases h : rateOf ip rates with
  | some e =>
    obtain ⟨l, r, rfl, hl, he⟩ := rateOf_split h
    rw [check_split hl he]
  | none =>
    by_cases hfree : rates.length < maxRateEntries
    · rw [check_new h hfree, if_pos hfree]
    · rw [check_full h hfree, if_neg hfree]

/-! ## One entry -/

/-- The number of attempts let through from some time on. -/
def acceptedSince (start : ℤ) (own : List LoginAnswer) : ℕ :=
  own.countP fun x => x.ok ∧ start ≤ x.time

/-- What an entry knows of the attempts of its IP. -/
structure Windowed (e : LoginRateEntry) (own : List LoginAnswer) : Prop where
  unlocked : e.lockoutUntil = 0 → e.attempts ≤ loginRateMax ∧
    ∀ x ∈ own, x.time ≤ e.windowStart + loginRateWindow
  locked : e.lockoutUntil ≠ 0 → 0 < e.lockoutUntil ∧
    ∀ x ∈ own, x.ok → x.time + loginLockoutSec ≤ e.lockoutUntil
  counted : acceptedSince e.windowStart own ≤ e.attempts
  limited : acceptedSince e.windowStart own ≤ loginRateMax

variable {own : List LoginAnswer}

theorem windowed_new (ip : Text) : Windowed (LoginRateEntry.new ip) [] where
  unlocked := fun _ => ⟨Nat.zero_le _, nofun⟩
  locked := fun h => absurd rfl h
  counted := Nat.zero_le _
  limited := Nat.zero_le _

theorem acceptedSince_eq_zero {start : ℤ} (h : ∀ x ∈ own, x.ok → x.time < start) :
    acceptedSince start own = 0 :=
  List.countP_eq_zero.mpr fun x hx => by simpa using h x hx

theorem acceptedSince_concat (start : ℤ) (own : List LoginAnswer) (x : LoginAnswer) :
    acceptedSince start (own ++ [x]) =
      acceptedSince start own + if x.ok ∧ start ≤ x.time then 1 else 0 := by
  simp [acceptedSince, List.countP_append, List.countP_singleton]

/-- An entry that lets an attempt in has a window around it, with what it has accepted in it. -/
theorem Windowed.opened (h : Windowed e own) (hnow : ∀ x ∈ own, x.time ≤ now)
    (hin : e.lockedOut now = false) :
    let e' := (e.expire now).renew now
    e'.lockoutUntil = 0 ∧ e'.attempts ≤ loginRateMax ∧ now ≤ e'.windowStart + loginRateWindow ∧
      (∀ x ∈ own, x.time ≤ e'.windowStart + loginRateWindow) ∧
      acceptedSince e'.windowStart own ≤ e'.attempts := by
  have hout : ¬ (0 < e.lockoutUntil ∧ now < e.lockoutUntil) := by
    simpa [LoginRateEntry.lockedOut] using hin
  have hself : now ≤ now + loginRateWindow := by
    rw [loginRateWindow]
    omega
  have hwindow : ∀ x ∈ own, x.time ≤ now + loginRateWindow := fun x hx => (hnow x hx).trans hself
  by_cases hzero : e.lockoutUntil = 0
  · obtain ⟨hmax, htimes⟩ := h.unlocked hzero
    have hexpire : e.expire now = e := if_neg fun hpos => by simp [hzero] at hpos
    rw [hexpire]
    by_cases hrenew : loginRateWindow < now - e.windowStart
    · rw [LoginRateEntry.renew, if_pos hrenew]
      refine ⟨hzero, Nat.zero_le _, hself, hwindow, ?_⟩
      have hbefore : ∀ x ∈ own, x.ok → x.time < now := fun x hx _ =>
        (htimes x hx).trans_lt (by omega)
      exact (acceptedSince_eq_zero hbefore).le
    · rw [LoginRateEntry.renew, if_neg hrenew]
      exact ⟨hzero, hmax, by omega, htimes, h.counted⟩
  · obtain ⟨hpos, haccepted⟩ := h.locked hzero
    have hle : e.lockoutUntil ≤ now := not_lt.mp fun hlt => hout ⟨hpos, hlt⟩
    have hexpire : e.expire now = { e with attempts := 0, lockoutUntil := 0, windowStart := now } :=
      if_pos ⟨hpos, hle⟩
    have hrenew : ¬ loginRateWindow < now - now := by simp [loginRateWindow]
    rw [hexpire, LoginRateEntry.renew, if_neg hrenew]
    have hbefore : ∀ x ∈ own, x.ok → x.time < now := fun x hx hok => by
      have hlate := haccepted x hx hok
      rw [loginLockoutSec] at hlate
      omega
    exact ⟨rfl, Nat.zero_le _, hself, hwindow, (acceptedSince_eq_zero hbefore).le⟩

theorem Windowed.check (h : Windowed e own) (hnow : ∀ x ∈ own, x.time ≤ now) (hpos : 0 < now)
    (ip : Text) :
    Windowed (e.check now).2 (own ++ [⟨ip, now, (e.check now).1⟩]) := by
  cases hlock : e.lockedOut now with
  | true =>
    have hin : 0 < e.lockoutUntil ∧ now < e.lockoutUntil := by
      simpa [LoginRateEntry.lockedOut] using hlock
    have hcheck : e.check now = (false, e) := if_pos hlock
    rw [hcheck]
    refine ⟨fun hzero => absurd hzero hin.1.ne', fun hne => ⟨hin.1, fun x hx hok => ?_⟩, ?_, ?_⟩
    · rcases List.mem_append.mp hx with hx | hx
      · exact (h.locked hne).2 x hx hok
      · rw [List.mem_singleton.mp hx] at hok
        cases hok
    · simpa [acceptedSince_concat] using h.counted
    · simpa [acceptedSince_concat] using h.limited
  | false =>
    obtain ⟨hzero, hmax, hin, htimes, hcount⟩ := h.opened hnow hlock
    generalize he' : (e.expire now).renew now = e' at hzero hmax hin htimes hcount
    by_cases hover : loginRateMax < e'.attempts + 1
    · have hcheck : e.check now = (false, { e' with
          attempts := e'.attempts + 1, lockoutUntil := now + loginLockoutSec }) := by
        simp [LoginRateEntry.check, hlock, he', hover]
      rw [hcheck]
      have hkeep : acceptedSince e'.windowStart (own ++ [⟨ip, now, false⟩]) ≤ e'.attempts := by
        simpa [acceptedSince_concat] using hcount
      have hlocked : 0 < now + loginLockoutSec := by
        rw [loginLockoutSec]
        omega
      refine ⟨fun hzero' => absurd hzero' hlocked.ne', fun _ => ⟨hlocked, fun x hx hok => ?_⟩,
        ?_, ?_⟩
      · rcases List.mem_append.mp hx with hx | hx
        · exact Int.add_le_add_right (hnow x hx) _
        · rw [List.mem_singleton.mp hx] at hok
          cases hok
      · exact hkeep.trans (Nat.le_succ _)
      · exact hkeep.trans hmax
    · have hcheck : e.check now = (true, { e' with attempts := e'.attempts + 1 }) := by
        simp [LoginRateEntry.check, hlock, he', hover]
      rw [hcheck]
      have hcounted : acceptedSince e'.windowStart (own ++ [⟨ip, now, true⟩]) ≤
          e'.attempts + 1 := by
        rw [acceptedSince_concat]
        exact Nat.add_le_add hcount (by split_ifs <;> decide)
      refine ⟨fun _ => ⟨not_lt.mp hover, fun x hx => ?_⟩, fun hne => absurd hzero hne, hcounted,
        hcounted.trans (not_lt.mp hover)⟩
      rcases List.mem_append.mp hx with hx | hx
      · exact htimes x hx
      · rw [List.mem_singleton.mp hx]
        exact hin

/-! ## Runs -/

/-- The attempts of one IP. -/
def LoginLog.answers (ip : Text) (s : LoginLog) : List LoginAnswer :=
  s.log.filter fun x => x.ip = ip

/-- What holds between calls. -/
structure LoginSound (s : LoginLog) : Prop where
  size : s.rates.length ≤ maxRateEntries
  nodup : (s.rates.map (·.ip)).Nodup
  seen : ∀ e ∈ s.rates, ∃ x ∈ s.log, x.ip = e.ip
  known : s.rates.length < maxRateEntries → ∀ x ∈ s.log, rateOf x.ip s.rates ≠ none
  windowed : ∀ ip e, rateOf ip s.rates = some e → Windowed e (s.answers ip)
  unlimited : ∀ ip, rateOf ip s.rates = none → ∀ x ∈ s.answers ip, x.ok

variable {s : LoginLog} {a : Text × ℤ}

theorem rateOf_eq_none : rateOf ip rates = none ↔ ∀ e ∈ rates, e.ip ≠ ip := by
  simp [rateOf]

theorem rateOf_kept (ha : a.1.length < 46) (h : rateOf ip s.rates ≠ none) :
    rateOf ip (loginAttempt s a).rates ≠ none := by
  rcases eq_or_ne ip a.1 with rfl | hne
  · rw [loginAttempt, rateOf_check ha]
    cases hrate : rateOf a.1 s.rates with
    | none => exact absurd hrate h
    | some e => nofun
  · rwa [loginAttempt, rateOf_check_of_ne hne ha]

theorem answers_attempt : (loginAttempt s a).answers ip = s.answers ip ++
    if a.1 = ip then [⟨a.1, a.2, (serverCheckLoginRate a.1 a.2 s.rates).1⟩] else [] := by
  simp only [LoginLog.answers, loginAttempt, List.filter_append]
  by_cases h : a.1 = ip <;> simp [h]

theorem LoginSound.table_step (h : LoginSound s) (ha : a.1.length < 46) :
    (loginAttempt s a).rates.length ≤ maxRateEntries ∧
      ((loginAttempt s a).rates.map (·.ip)).Nodup ∧
      (∀ e ∈ (loginAttempt s a).rates, (∃ x ∈ s.log, x.ip = e.ip) ∨ e.ip = a.1) ∧
      s.rates.length ≤ (loginAttempt s a).rates.length ∧
      (s.rates.length < maxRateEntries → rateOf a.1 (loginAttempt s a).rates ≠ none) := by
  have hnew : s.rates.length < maxRateEntries → rateOf a.1 (loginAttempt s a).rates ≠ none := by
    intro hfree
    rw [loginAttempt, rateOf_check ha]
    cases rateOf a.1 s.rates with
    | none => simp [hfree]
    | some e => nofun
  have hcases := serverCheckLoginRate_cases a.1 a.2 s.rates
  rw [← and_assoc, ← and_assoc, ← and_assoc]
  refine ⟨?_, hnew⟩
  simp only [loginAttempt]
  generalize serverCheckLoginRate a.1 a.2 s.rates = next at hcases
  cases hcases with
  | @old e l r hrates hl he =>
    have hkeys : (l ++ (e.check a.2).2 :: r).map (·.ip) = s.rates.map (·.ip) := by
      simp [hrates]
    have hlength : (l ++ (e.check a.2).2 :: r).length = s.rates.length := by simp [hrates]
    refine ⟨⟨⟨hlength ▸ h.size, hkeys ▸ h.nodup⟩, fun x hx => ?_⟩, hlength.ge⟩
    have hkey : x.ip ∈ s.rates.map (·.ip) := hkeys ▸ List.mem_map_of_mem hx
    obtain ⟨e', he', hip⟩ := List.mem_map.mp hkey
    obtain ⟨y, hy, hyip⟩ := h.seen e' he'
    exact .inl ⟨y, hy, hyip.trans hip⟩
  | new hnone hfree =>
    refine ⟨⟨⟨?_, ?_⟩, fun x hx => ?_⟩, by simp⟩
    · simpa using Nat.succ_le_of_lt hfree
    · rw [List.map_append, List.nodup_append]
      refine ⟨h.nodup, List.nodup_singleton _, ?_⟩
      simpa [new_ip ha] using rateOf_eq_none.mp hnone
    · rcases List.mem_append.mp hx with hx | hx
      · exact .inl (h.seen x hx)
      · rw [List.mem_singleton.mp hx, check_ip, new_ip ha]
        exact .inr rfl
  | full hnone hfull => exact ⟨⟨⟨h.size, h.nodup⟩, fun x hx => .inl (h.seen x hx)⟩, le_rfl⟩

theorem LoginSound.windowed_step (h : LoginSound s) (ha : a.1.length < 46)
    (hpos : loginRateWindow < a.2) (htimes : ∀ x ∈ s.log, x.time ≤ a.2)
    (hrate : rateOf ip (loginAttempt s a).rates = some e) :
    Windowed e ((loginAttempt s a).answers ip) := by
  have hnow : ∀ x ∈ s.answers ip, x.time ≤ a.2 := fun x hx => htimes x (List.mem_of_mem_filter hx)
  have hpos' : 0 < a.2 := lt_trans (by decide) hpos
  rw [answers_attempt]
  rcases eq_or_ne ip a.1 with rfl | hne
  · rw [if_pos rfl, answer_check]
    rw [loginAttempt, rateOf_check ha] at hrate
    cases hold : rateOf a.1 s.rates with
    | some e' =>
      rw [hold] at hrate
      obtain rfl := Option.some.inj hrate
      exact (h.windowed a.1 e' hold).check hnow hpos' a.1
    | none =>
      by_cases hfree : s.rates.length < maxRateEntries
      · simp only [hold, if_pos hfree, Option.some.injEq] at hrate
        subst hrate
        have hnil : s.answers a.1 = [] := List.filter_eq_nil_iff.mpr fun x hx hip =>
          h.known hfree x hx (of_decide_eq_true hip ▸ hold)
        rw [hnil] at hnow ⊢
        simp only [if_pos hfree]
        exact (windowed_new a.1).check hnow hpos' a.1
      · simp [hold, hfree] at hrate
  · rw [loginAttempt, rateOf_check_of_ne hne ha] at hrate
    rw [if_neg hne.symm, List.append_nil]
    exact h.windowed ip e hrate

theorem LoginSound.attempt (h : LoginSound s) (ha : a.1.length < 46) (hpos : loginRateWindow < a.2)
    (htimes : ∀ x ∈ s.log, x.time ≤ a.2) : LoginSound (loginAttempt s a) := by
  obtain ⟨hsize, hnodup, hseen, hgrow, hnew⟩ := h.table_step ha
  refine ⟨hsize, hnodup, fun e he => ?_, fun hfree x hx => ?_,
    fun ip e hrate => h.windowed_step ha hpos htimes hrate, fun ip hnone x hx => ?_⟩
  · rcases hseen e he with ⟨x, hx, hip⟩ | hip
    · exact ⟨x, List.mem_append_left _ hx, hip⟩
    · exact ⟨_, List.mem_append_right _ (List.mem_singleton_self _), hip.symm⟩
  · have hfree' : s.rates.length < maxRateEntries := lt_of_le_of_lt hgrow hfree
    rcases List.mem_append.mp hx with hx | hx
    · exact rateOf_kept ha (h.known hfree' x hx)
    · rw [List.mem_singleton.mp hx]
      exact hnew hfree'
  · have hbefore : rateOf ip s.rates = none := by
      by_contra hrate
      exact rateOf_kept ha hrate hnone
    rw [answers_attempt] at hx
    rcases List.mem_append.mp hx with hold | hlast
    · exact h.unlimited ip hbefore x hold
    · by_cases hip : a.1 = ip
      · subst hip
        have hfull : ¬ s.rates.length < maxRateEntries := fun hfree => hnew hfree hnone
        rw [if_pos rfl] at hlast
        rw [List.mem_singleton.mp hlast, answer_check, hbefore]
        simp only [if_neg hfull]
      · rw [if_neg hip] at hlast
        cases hlast

/-- Attempts from valid addresses, at times that do not decrease. -/
structure LoginTimes (attempts : List (Text × ℤ)) : Prop where
  short : ∀ a ∈ attempts, a.1.length < 46
  late : ∀ a ∈ attempts, loginRateWindow < a.2
  sorted : attempts.Pairwise fun a b => a.2 ≤ b.2

variable {attempts pre post : List (Text × ℤ)}

theorem loginRun_concat (pre : List (Text × ℤ)) (a : Text × ℤ) :
    loginRun (pre ++ [a]) = loginAttempt (loginRun pre) a := run_concat ..

theorem log_loginRun (attempts : List (Text × ℤ)) :
    (loginRun attempts).log.map (fun x => (x.ip, x.time)) = attempts := by
  induction attempts using List.reverseRecOn with
  | nil => rfl
  | append_singleton pre a ih =>
    rw [loginRun_concat, loginAttempt, List.map_append, ih]
    rfl

theorem LoginTimes.append_left (h : LoginTimes (pre ++ post)) : LoginTimes pre where
  short := fun a ha => h.short a (List.mem_append_left _ ha)
  late := fun a ha => h.late a (List.mem_append_left _ ha)
  sorted := (List.pairwise_append.mp h.sorted).1

theorem LoginTimes.log_le (h : LoginTimes (pre ++ a :: post)) :
    ∀ x ∈ (loginRun pre).log, x.time ≤ a.2 := by
  intro x hx
  have hmem : (x.ip, x.time) ∈ pre := by
    rw [← log_loginRun pre]
    exact List.mem_map_of_mem hx
  exact (List.pairwise_append.mp h.sorted).2.2 _ hmem a List.mem_cons_self

theorem loginSound_run (h : LoginTimes attempts) : LoginSound (loginRun attempts) := by
  induction attempts using List.reverseRecOn with
  | nil => exact ⟨Nat.zero_le _, List.nodup_nil, nofun, nofun, nofun, nofun⟩
  | append_singleton pre a ih =>
    have ha : a ∈ pre ++ [a] := List.mem_append_right _ (List.mem_singleton_self a)
    rw [loginRun_concat]
    exact (ih h.append_left).attempt (h.short a ha) (h.late a ha) h.log_le

/-! ## The limit -/

/-- The start of an IP's window: that of its entry, or without one its first attempt. -/
def windowOf (ip : Text) (s : LoginLog) : Option ℤ :=
  match rateOf ip s.rates with
  | some e => some e.windowStart
  | none => (s.log.find? fun x => x.ip = ip).map (·.time)

/-- The attempts let through in the window from some time on. -/
def acceptedIn (ip : Text) (start : ℤ) (s : LoginLog) : ℕ :=
  (s.answers ip).countP fun x => x.ok ∧ start ≤ x.time ∧ x.time ≤ start + loginRateWindow

/-- An attempt is rejected because there are too many, not because of a lockout. -/
def Exceeds (s : LoginLog) (a : Text × ℤ) : Prop :=
  (serverCheckLoginRate a.1 a.2 s.rates).1 = false ∧
    ∀ e, rateOf a.1 s.rates = some e → e.lockedOut a.2 = false

/--
The limiter holds: an IP that exceeds the limit is locked out, and no more
than the limit are let through in the window of an IP.
-/
structure LoginsLimited (attempts : List (Text × ℤ)) : Prop where
  locked : ∀ pre ip t mid t' post, attempts = pre ++ (ip, t) :: (mid ++ (ip, t') :: post) →
    Exceeds (loginRun pre) (ip, t) → t' < t + loginLockoutSec →
      (serverCheckLoginRate ip t' (loginRun (pre ++ (ip, t) :: mid)).rates).1 = false
  limited : ∀ pre, pre <+: attempts → ∀ ip start, windowOf ip (loginRun pre) = some start →
    acceptedIn ip start (loginRun pre) ≤ loginRateMax

theorem check_exceeds (hin : e.lockedOut now = false) (hrejected : (e.check now).1 = false) :
    (e.check now).2.lockoutUntil = now + loginLockoutSec := by
  simp only [LoginRateEntry.check, hin, Bool.false_eq_true, if_false] at hrejected ⊢
  split_ifs at hrejected ⊢
  rfl

theorem check_first (ip : Text) (now : ℤ) : ((LoginRateEntry.new ip).check now).1 = true := by
  simp only [LoginRateEntry.check, LoginRateEntry.new, LoginRateEntry.lockedOut,
    LoginRateEntry.expire, LoginRateEntry.renew, lt_irrefl, false_and, decide_false,
    Bool.false_eq_true, if_false]
  split_ifs <;> simp_all [loginRateMax]

/-- Whoever exceeds the limit is locked out for the whole time. -/
theorem Exceeds.lockout (h : Exceeds s a) (ha : a.1.length < 46) :
    ∃ e, rateOf a.1 (loginAttempt s a).rates = some e ∧
      e.lockoutUntil = a.2 + loginLockoutSec := by
  obtain ⟨hrejected, hin⟩ := h
  rw [loginAttempt, rateOf_check ha]
  rw [answer_check] at hrejected
  cases hrate : rateOf a.1 s.rates with
  | some e =>
    rw [hrate] at hrejected
    exact ⟨_, rfl, check_exceeds (hin e hrate) hrejected⟩
  | none =>
    simp only [hrate, check_first] at hrejected
    split_ifs at hrejected

theorem locked_attempt (ha : a.1.length < 46) (hrate : rateOf ip s.rates = some e)
    (hpos : 0 < e.lockoutUntil) (hbefore : a.2 < e.lockoutUntil) :
    rateOf ip (loginAttempt s a).rates = some e ∧
      (a.1 = ip → (serverCheckLoginRate a.1 a.2 s.rates).1 = false) := by
  have hcheck : e.check a.2 = (false, e) :=
    if_pos (by simp [LoginRateEntry.lockedOut, hpos, hbefore])
  rcases eq_or_ne ip a.1 with rfl | hne
  · rw [loginAttempt, rateOf_check ha, answer_check, hrate]
    simp [hcheck]
  · rw [loginAttempt, rateOf_check_of_ne hne ha]
    exact ⟨hrate, fun heq => absurd heq.symm hne⟩

theorem locked_run (hrate : rateOf ip s.rates = some e) (hpos : 0 < e.lockoutUntil)
    (h : ∀ a ∈ attempts, a.1.length < 46 ∧ a.2 < e.lockoutUntil) :
    rateOf ip (run loginAttempt s attempts).rates = some e :=
  run_invariant_along (I := fun s : LoginLog => rateOf ip s.rates = some e)
    (fun _ _ hi ha => (locked_attempt ha.1 hi hpos ha.2).1) hrate (along_of_forall h)

theorem mem_keys : rateOf ip rates ≠ none ↔ ip ∈ rates.map (·.ip) := by
  rw [ne_eq, rateOf_eq_none]
  simp

/-- The table is full exactly if it has seen as many addresses as it has entries. -/
theorem full_iff (h : LoginTimes attempts) : (loginRun attempts).rates.length < maxRateEntries ↔
    (attempts.map Prod.fst).dedup.length < maxRateEntries := by
  have hs := loginSound_run h
  have hlog : (loginRun attempts).log.map (·.ip) = attempts.map Prod.fst := by
    conv_rhs => rw [← log_loginRun attempts]
    simp
  constructor
  · intro hfree
    have hsub : (attempts.map Prod.fst).dedup ⊆ (loginRun attempts).rates.map (·.ip) := by
      intro ip hip
      rw [List.mem_dedup, ← hlog] at hip
      obtain ⟨x, hx, rfl⟩ := List.mem_map.mp hip
      exact mem_keys.mp (hs.known hfree x hx)
    have hle := (List.subperm_of_subset (List.nodup_dedup _) hsub).length_le
    rw [List.length_map] at hle
    exact lt_of_le_of_lt hle hfree
  · intro hfew
    have hsub : (loginRun attempts).rates.map (·.ip) ⊆ (attempts.map Prod.fst).dedup := by
      intro ip hip
      obtain ⟨e, he, rfl⟩ := List.mem_map.mp hip
      obtain ⟨x, hx, hxe⟩ := hs.seen e he
      rw [List.mem_dedup, ← hlog, ← hxe]
      exact List.mem_map_of_mem hx
    have hle := (List.subperm_of_subset hs.nodup hsub).length_le
    rw [List.length_map] at hle
    exact lt_of_le_of_lt hle hfew

theorem LoginTimes.locked (h : LoginTimes attempts) {t t' : ℤ} {mid : List (Text × ℤ)}
    (hsplit : attempts = pre ++ (ip, t) :: (mid ++ (ip, t') :: post))
    (hexceeds : Exceeds (loginRun pre) (ip, t)) (hsoon : t' < t + loginLockoutSec) :
    (serverCheckLoginRate ip t' (loginRun (pre ++ (ip, t) :: mid)).rates).1 = false := by
  subst hsplit
  have hmem : (ip, t) ∈ pre ++ (ip, t) :: (mid ++ (ip, t') :: post) := by simp
  obtain ⟨e, hrate, hlock⟩ := hexceeds.lockout (h.short _ hmem)
  have hpos : 0 < e.lockoutUntil := by
    have hlate := h.late _ hmem
    rw [hlock]
    simp only [loginRateWindow, loginLockoutSec] at hlate ⊢
    omega
  have hsorted := (List.pairwise_append.mp (List.pairwise_cons.mp
    (List.pairwise_append.mp h.sorted).2.1).2).2.2
  have hrun : rateOf ip (loginRun (pre ++ (ip, t) :: mid)).rates = some e := by
    have hstep : loginRun (pre ++ (ip, t) :: mid) =
        run loginAttempt (loginAttempt (loginRun pre) (ip, t)) mid := run_append ..
    rw [hstep]
    refine locked_run hrate hpos fun a ha => ⟨h.short a (by simp [ha]), ?_⟩
    exact (hsorted a ha (ip, t') List.mem_cons_self).trans_lt (hlock ▸ hsoon)
  exact (locked_attempt (a := (ip, t')) (h.short (ip, t') (by simp)) hrun hpos
    (hlock ▸ hsoon)).2 rfl

theorem crowded_attempt (ha : a.1.length < 46) (hnone : rateOf ip s.rates = none)
    (hfull : ¬ s.rates.length < maxRateEntries) :
    rateOf ip (loginAttempt s a).rates = none ∧
      ¬ (loginAttempt s a).rates.length < maxRateEntries := by
  constructor
  · rcases eq_or_ne ip a.1 with rfl | hne
    · rw [loginAttempt, rateOf_check ha, hnone, if_neg hfull]
    · rwa [loginAttempt, rateOf_check_of_ne hne ha]
  · have hcases := serverCheckLoginRate_cases a.1 a.2 s.rates
    rw [loginAttempt]
    generalize serverCheckLoginRate a.1 a.2 s.rates = next at hcases
    cases hcases with
    | old hrates => simpa [hrates] using hfull
    | new hnone' hfree => exact absurd hfree hfull
    | full => exact hfull

theorem rateOf_first (h : LoginTimes (pre ++ a :: post)) (hnew : ∀ b ∈ pre, b.1 ≠ a.1) :
    rateOf a.1 (loginRun (pre ++ a :: post)).rates = none ↔
      maxRateEntries ≤ (pre.map Prod.fst).dedup.length := by
  have ha := h.short a (by simp)
  have hshort : ∀ b ∈ post, b.1.length < 46 := fun b hb => h.short b (by simp [hb])
  have hs := loginSound_run h.append_left
  have hbefore : rateOf a.1 (loginRun pre).rates = none := by
    refine rateOf_eq_none.mpr fun e he heq => ?_
    obtain ⟨x, hx, hxe⟩ := hs.seen e he
    have hmem : (x.ip, x.time) ∈ pre := by
      rw [← log_loginRun pre]
      exact List.mem_map_of_mem hx
    exact hnew _ hmem (hxe.trans heq)
  have hrun : loginRun (pre ++ a :: post) =
      run loginAttempt (loginAttempt (loginRun pre) a) post := run_append ..
  rw [hrun, ← not_lt, ← full_iff h.append_left]
  by_cases hfree : (loginRun pre).rates.length < maxRateEntries
  · refine iff_of_false ?_ (not_not.mpr hfree)
    exact run_invariant_along (I := fun s : LoginLog => rateOf a.1 s.rates ≠ none)
      (fun _ _ hi hb => rateOf_kept hb hi) ((hs.table_step ha).2.2.2.2 hfree)
      (along_of_forall hshort)
  · refine iff_of_true ?_ hfree
    exact (run_invariant_along (I := fun s : LoginLog => rateOf a.1 s.rates = none ∧
        ¬ s.rates.length < maxRateEntries)
      (fun _ _ hi hb => crowded_attempt hb hi.1 hi.2) (crowded_attempt ha hbefore hfree)
      (along_of_forall hshort)).1

/-- The window of an IP without an entry starts at its first attempt. -/
theorem windowOf_first (hnew : ∀ b ∈ pre, b.1 ≠ a.1)
    (hnone : rateOf a.1 (loginRun (pre ++ a :: post)).rates = none) :
    windowOf a.1 (loginRun (pre ++ a :: post)) = some a.2 := by
  have hfind : ((loginRun (pre ++ a :: post)).log.map fun x => (x.ip, x.time)).find?
      (fun b => b.1 = a.1) = some a := by
    rw [log_loginRun, List.find?_append]
    have hpre : pre.find? (fun b => b.1 = a.1) = none :=
      List.find?_eq_none.mpr fun b hb => by simpa using hnew b hb
    simp [hpre]
  rw [List.find?_map] at hfind
  obtain ⟨x, hx, hxa⟩ := Option.map_eq_some_iff.mp hfind
  rw [windowOf, hnone]
  simp only [← hxa]
  exact Option.map_eq_some_iff.mpr ⟨x, by rw [← hx, ← hxa]; rfl, rfl⟩

theorem acceptedIn_unlimited (h : LoginTimes attempts) {start : ℤ}
    (hnone : rateOf ip (loginRun attempts).rates = none) :
    acceptedIn ip start (loginRun attempts) =
      attempts.countP fun b => b.1 = ip ∧ start ≤ b.2 ∧ b.2 ≤ start + loginRateWindow := by
  conv_rhs => rw [← log_loginRun attempts]
  rw [acceptedIn, LoginLog.answers, List.countP_filter, List.countP_map]
  refine List.countP_congr fun x hx => ?_
  have hok : x.ip = ip → x.ok := fun hip =>
    (loginSound_run h).unlimited ip hnone x (List.mem_filter.mpr ⟨hx, by simpa using hip⟩)
  simp only [Function.comp_apply, Bool.and_eq_true, decide_eq_true_eq]
  tauto

theorem countP_first (h : LoginTimes (pre ++ a :: post)) (hnew : ∀ b ∈ pre, b.1 ≠ a.1) :
    (pre ++ a :: post).countP (fun b => b.1 = a.1 ∧ a.2 ≤ b.2 ∧ b.2 ≤ a.2 + loginRateWindow) =
      (a :: post).countP fun b => b.1 = a.1 ∧ b.2 ≤ a.2 + loginRateWindow := by
  have hpre : pre.countP (fun b => b.1 = a.1 ∧ a.2 ≤ b.2 ∧ b.2 ≤ a.2 + loginRateWindow) = 0 :=
    List.countP_eq_zero.mpr fun b hb => by simp [hnew b hb]
  rw [List.countP_append, hpre, Nat.zero_add]
  refine List.countP_congr fun b hb => ?_
  have hle : a.2 ≤ b.2 := by
    rcases List.mem_cons.mp hb with rfl | hb
    · exact le_rfl
    · exact (List.pairwise_cons.mp (List.pairwise_append.mp h.sorted).2.1).1 b hb
  simp [hle]

/--
The limiter holds exactly if every IP that first comes when the table is full
makes no more attempts than the limit within a window of its first.
-/
theorem logins_limited_iff (attempts : List (Text × ℤ)) (h : LoginTimes attempts) :
    LoginsLimited attempts ↔ ∀ pre a post, attempts = pre ++ a :: post → (∀ b ∈ pre, b.1 ≠ a.1) →
      maxRateEntries ≤ (pre.map Prod.fst).dedup.length →
        (a :: post).countP (fun b => b.1 = a.1 ∧ b.2 ≤ a.2 + loginRateWindow) ≤ loginRateMax := by
  constructor
  · rintro hlimited pre a post rfl hnew hfull
    have hnone := (rateOf_first h hnew).mpr hfull
    have hle := hlimited.limited _ List.prefix_rfl _ _ (windowOf_first hnew hnone)
    rwa [acceptedIn_unlimited h hnone, countP_first h hnew] at hle
  · intro hfew
    refine ⟨fun pre ip t mid t' post hsplit => h.locked hsplit, ?_⟩
    rintro pre ⟨post, rfl⟩ ip start hwindow
    have hpre : LoginTimes pre := h.append_left
    cases hrate : rateOf ip (loginRun pre).rates with
    | some e =>
      have hstart : e.windowStart = start := by simpa [windowOf, hrate] using hwindow
      refine le_trans ?_ ((loginSound_run hpre).windowed ip e hrate).limited
      rw [hstart]
      refine List.countP_mono_left fun x _ hx => ?_
      simp only [decide_eq_true_eq] at hx ⊢
      exact ⟨hx.1, hx.2.1⟩
    | none =>
      obtain ⟨a, hfind⟩ : ∃ a, pre.find? (fun b => b.1 = ip) = some a := by
        rw [windowOf, hrate] at hwindow
        obtain ⟨x, hx, -⟩ := Option.map_eq_some_iff.mp hwindow
        refine Option.isSome_iff_exists.mp (List.find?_isSome.mpr ⟨(x.ip, x.time), ?_, ?_⟩)
        · rw [← log_loginRun pre]
          exact List.mem_map_of_mem (List.mem_of_find?_eq_some hx)
        · exact List.find?_some (p := fun x : LoginAnswer => x.ip = ip) hx
      obtain ⟨hip, l, r, rfl, hnew⟩ := List.find?_eq_some_iff_append.mp hfind
      obtain rfl : a.1 = ip := by simpa using hip
      have hnew' : ∀ b ∈ l, b.1 ≠ a.1 := by simpa using hnew
      rw [windowOf_first hnew' hrate] at hwindow
      obtain rfl := Option.some.inj hwindow
      rw [acceptedIn_unlimited hpre hrate, countP_first hpre hnew']
      refine le_trans ?_ (hfew l a (r ++ post) (by simp) hnew' ((rateOf_first hpre hnew').mp hrate))
      exact ((List.sublist_append_left r post).cons_cons a).countP_le

/-- Eleven attempts in a second, by one address. -/
def elevenTimes (ip : Text) : List (Text × ℤ) := List.replicate 11 (ip, 100)

/-- An address that comes first is limited. -/
theorem first_limited : LoginsLimited (elevenTimes "1.2.3.4".toList) := by
  refine (logins_limited_iff _ ⟨?_, ?_, ?_⟩).mpr ?_
  · decide
  · decide
  · decide
  · intro pre a post hsplit hnew hfull
    have hle := (List.dedup_sublist (pre.map Prod.fst)).length_le
    have hlength := congrArg List.length hsplit
    simp [elevenTimes, maxRateEntries] at hlength hle hfull
    omega

/-- Other addresses, as many as the table has entries. -/
def others256 : List (Text × ℤ) := (List.range 256).map fun i => ([Char.ofNat (i + 1)], 100)

theorem crowded_times : LoginTimes (others256 ++ elevenTimes "1.2.3.4".toList) := by
  have hall : ∀ a ∈ others256 ++ elevenTimes "1.2.3.4".toList, a.1.length < 46 ∧ a.2 = 100 := by
    decide +kernel
  refine ⟨fun a ha => (hall a ha).1, fun a ha => ?_, ?_⟩
  · rw [(hall a ha).2]
    decide
  · exact List.pairwise_of_forall_mem_list fun a ha b hb => by rw [(hall a ha).2, (hall b hb).2]

/-- An address that comes after 256 others is not. -/
theorem crowded_not_limited :
    ¬ LoginsLimited (others256 ++ elevenTimes "1.2.3.4".toList) := by
  intro h
  have hnew : ∀ b ∈ others256, b.1 ≠ "1.2.3.4".toList := by decide +kernel
  have hfull : maxRateEntries ≤ (others256.map Prod.fst).dedup.length := by
    have hnodup : (others256.map Prod.fst).Nodup := by
      rw [others256, List.map_map]
      refine List.nodup_range.map_on fun i hi j hj heq => ?_
      have htoNat : ∀ k ∈ List.range 256, (Char.ofNat (k + 1)).toNat = k + 1 := by decide +kernel
      have hnat := congrArg Char.toNat (List.cons.inj heq).1
      rw [htoNat i hi, htoNat j hj] at hnat
      omega
    rw [hnodup.dedup, List.length_map, others256, List.length_map, List.length_range]
    exact le_rfl
  have hnone := (rateOf_first crowded_times hnew).mpr hfull
  have hle := h.limited _ List.prefix_rfl _ _ (windowOf_first hnew hnone)
  rw [acceptedIn_unlimited crowded_times hnone] at hle
  exact absurd (le_trans (countP_first crowded_times hnew).ge hle) (by decide)

end ChatServer
