import Mathlib.Algebra.Order.Ring.Int
import ChatServer.Presence.Calls

/-! # Typing broadcasts and silence

An entry keeps the time of its last broadcast and the time its user began to
type. What the log of the calls says of these times decides when broadcasts
come too close together and when a cleanup stops a user who is still typing.
-/

namespace ChatServer

open Library

namespace PresenceRecord

/-- A call of `presence_typing_start` for a user. -/
def isStart (u : Text) (x : PresenceRecord) : Bool := x.call = .start u

/-- One that returned 1. -/
def isBroadcast (u : Text) (x : PresenceRecord) : Bool := x.isStart u && x.result

end PresenceRecord

open PresenceRecord

/-- The time of the last record of a kind. -/
def lastTime (p : PresenceRecord → Bool) (log : List PresenceRecord) : Option ℤ :=
  (log.filter p).getLast?.map PresenceRecord.time

/-- Any two broadcasts of a user are as far apart as the rate limit says. -/
def SpacedBroadcasts (log : List PresenceRecord) : Prop :=
  ∀ u, (log.filter (isBroadcast u)).Pairwise fun a b => a.time + typingRateLimitSec ≤ b.time

/-- The user is typing. -/
def Typing (u : Text) (states : List TypingState) : Prop :=
  ∃ e, typingOf u states = some e ∧ e.active = true

/-- A cleanup stops exactly the users who type and made no call of `start` since. -/
def StopsAfterSilence (s : TypingLog) (input : Env × PresenceCall) : Prop :=
  input.2 = .cleanup → ∀ u,
    (Typing u s.states ∧ ¬ Typing u (s.step input).states ↔
      Typing u s.states ∧
        ∃ t, lastTime (isStart u) s.log = some t ∧ t ≤ input.1.now - typingDebounceSec)

/-- No user who has stopped types again before the rate limit since the last broadcast is over. -/
def OffLongEnough (s : TypingLog) (input : Env × PresenceCall) : Prop :=
  ∀ u e, input.2 = .start u → typingOf u s.states = some e → e.active = false →
    e.lastTypedAt ≠ 0 → e.lastTypedAt + typingRateLimitSec ≤ input.1.now

/-- No cleanup finds a user who began to type before the debounce time and has called since. -/
def NoneStillTyping (s : TypingLog) (input : Env × PresenceCall) : Prop :=
  input.2 = .cleanup → ∀ u e, typingOf u s.states = some e → e.active = true →
    e.startedAt ≤ input.1.now - typingDebounceSec →
    ∀ t, lastTime (isStart u) s.log = some t → t ≤ input.1.now - typingDebounceSec

variable {u v : Text} {s : TypingLog} {log : List PresenceRecord} {x : PresenceRecord}
  {p : PresenceRecord → Bool} {e : TypingState} {now t : ℤ} {call : PresenceCall}
  {input : Env × PresenceCall} {inputs : List (Env × PresenceCall)}

@[simp] theorem lastTime_nil : lastTime p [] = none := rfl

theorem lastTime_concat :
    lastTime p (log ++ [x]) = if p x then some x.time else lastTime p log := by
  unfold lastTime
  split_ifs with hp
  · simp [List.filter_append, hp]
  · simp [List.filter_append, hp]

theorem lastTime_eq_none_iff : lastTime p log = none ↔ ∀ x ∈ log, p x = false := by
  simp [lastTime]

theorem le_lastTime (hlog : log.Pairwise fun a b => a.time ≤ b.time) (h : lastTime p log = some t)
    (hx : x ∈ log) (hp : p x = true) : x.time ≤ t := by
  induction log using List.reverseRecOn with
  | nil => cases hx
  | append_singleton log y ih =>
    obtain ⟨hlog', -, hlast⟩ := List.pairwise_append.mp hlog
    rw [lastTime_concat] at h
    split_ifs at h with hy
    · obtain rfl := Option.some.inj h
      rcases List.mem_append.mp hx with hx | hx
      · exact hlast x hx y List.mem_cons_self
      · exact (congrArg PresenceRecord.time (List.mem_singleton.mp hx)).le
    · rcases List.mem_append.mp hx with hx | hx
      · exact ih hlog' h hx
      · rw [List.mem_singleton.mp hx] at hp
        exact absurd hp hy

theorem exists_of_lastTime (h : lastTime p log = some t) : ∃ x ∈ log, p x = true ∧ x.time = t := by
  obtain ⟨x, hx, rfl⟩ := Option.map_eq_some_iff.mp h
  obtain ⟨hmem, hp⟩ := List.mem_filter.mp (List.mem_of_getLast? hx)
  exact ⟨x, hmem, hp, rfl⟩

/-- An entry agrees with what the log says of its user. -/
structure Recorded (u : Text) (log : List PresenceRecord) (e : TypingState) : Prop where
  last : e.lastTypedAt = (lastTime (isBroadcast u) log).getD 0
  idle : e.active = false → e.startedAt = 0
  started : e.active = true → ∃ t, lastTime (isStart u) log = some t ∧ e.startedAt ≤ t

/-- The table agrees with the log, which is in order. -/
structure TypingLog.Sound (s : TypingLog) : Prop where
  recorded : ∀ u e, typingOf u s.states = some e → Recorded u s.log e
  unseen : ∀ u, typingOf u s.states = none → lastTime (isBroadcast u) s.log = none
  inOrder : s.log.Pairwise fun a b => a.time ≤ b.time
  pos : ∀ x ∈ s.log, 0 < x.time

theorem Recorded.other (h : Recorded u log e) (hx : x.isStart u = false) :
    Recorded u (log ++ [x]) e := by
  have hb : x.isBroadcast u = false := by simp [isBroadcast, hx]
  constructor
  · rw [h.last, lastTime_concat, if_neg (by simp [hb])]
  · exact h.idle
  · rw [lastTime_concat, if_neg (by simp [hx])]
    exact h.started

theorem Recorded.act (h : Recorded u log e) (hnow : ∀ x ∈ log, x.time ≤ now)
    (hcall : call.user = some u) :
    Recorded u (log ++ [⟨now, call, (call.act now e).1⟩]) (call.act now e).2 := by
  cases call with
  | start username =>
    obtain rfl := Option.some.inj hcall
    have hstart (result : Bool) : isStart username ⟨now, .start username, result⟩ = true := by
      simp [isStart]
    by_cases hgo : !e.active ∨ typingRateLimitSec ≤ now - e.lastTypedAt
    · have hact : (PresenceCall.start username).act now e = (true, { e with
          active := true
          lastTypedAt := now
          startedAt := if e.startedAt = 0 then now else e.startedAt }) := if_pos hgo
      rw [hact]
      refine ⟨?_, nofun, fun _ => ⟨now, ?_, ?_⟩⟩
      · simp [lastTime_concat, isBroadcast, hstart]
      · rw [lastTime_concat, if_pos (hstart true)]
      · dsimp only
        split_ifs with hzero
        · exact le_rfl
        · have hactive : e.active = true := by
            by_contra hoff
            exact hzero (h.idle (by simpa using hoff))
          obtain ⟨t, ht, hle⟩ := h.started hactive
          obtain ⟨x, hx, -, rfl⟩ := exists_of_lastTime ht
          exact hle.trans (hnow x hx)
    · have hact : (PresenceCall.start username).act now e = (false, e) := if_neg hgo
      rw [hact]
      refine ⟨?_, h.idle, fun hactive => ⟨now, ?_, ?_⟩⟩
      · rw [h.last, lastTime_concat, if_neg (by simp [isBroadcast])]
      · rw [lastTime_concat, if_pos (hstart false)]
      · obtain ⟨t, ht, hle⟩ := h.started hactive
        obtain ⟨x, hx, -, rfl⟩ := exists_of_lastTime ht
        exact hle.trans (hnow x hx)
  | stop username =>
    have hother : Recorded u (log ++ [⟨now, .stop username, false⟩]) e :=
      h.other (by simp [isStart])
    exact ⟨hother.last, fun _ => rfl, nofun⟩
  | isTyping username => exact h.other (by simp [isStart])
  | cleanup => cases hcall

theorem Recorded.expire (h : Recorded u log e) (result : Bool) :
    Recorded u (log ++ [⟨now, .cleanup, result⟩]) (e.expire now) := by
  have hother : Recorded u (log ++ [⟨now, .cleanup, result⟩]) e := h.other (by simp [isStart])
  unfold TypingState.expire
  split_ifs
  · exact ⟨hother.last, fun _ => rfl, nofun⟩
  · exact hother

theorem TypingLog.Sound.seat (h : s.Sound) (he : seatOf u s.states = some e) :
    Recorded u s.log e := by
  cases hentry : typingOf u s.states with
  | some e' =>
    rw [seatOf, hentry] at he
    obtain rfl := Option.some.inj he
    exact h.recorded u _ hentry
  | none =>
    rw [seatOf, hentry, Option.none_or] at he
    split_ifs at he
    obtain rfl := Option.some.inj he
    exact ⟨by rw [h.unseen u hentry]; rfl, fun _ => rfl, fun h => absurd h Bool.false_ne_true⟩

theorem TypingLog.Sound.step (h : s.Sound)
    (hu : ∀ u, input.2.user = some u → u.length < maxUsernameLen)
    (hnow : ∀ x ∈ s.log, x.time ≤ input.1.now) : (s.step input).Sound := by
  obtain ⟨env, call⟩ := input
  have hlog : (s.step (env, call)).log =
      s.log ++ [⟨env.now, call, (presenceCall env call s.states).1⟩] := rfl
  have hother (u : Text) (hne : call.user ≠ some u) (result : Bool) :
      isStart u ⟨env.now, call, result⟩ = false := by
    refine decide_eq_false fun heq => hne ?_
    rw [show call = .start u from heq]
    rfl
  refine ⟨fun u e he => ?_, fun u hnone => ?_, ?_, fun x hx => ?_⟩
  · rw [hlog]
    change typingOf u (presenceCall env call s.states).2 = some e at he
    cases hv : call.user with
    | none =>
      obtain rfl : call = .cleanup := by cases call <;> first | rfl | cases hv
      rw [typingOf_cleanup] at he
      obtain ⟨e', he', rfl⟩ := Option.map_eq_some_iff.mp he
      exact (h.recorded u e' he').expire _
    | some v =>
      rw [typingOf_call env s.states hv (hu v hv)] at he
      split_ifs at he with huv
      · subst huv
        obtain ⟨e', he', rfl⟩ := Option.map_eq_some_iff.mp he
        rw [presenceCall_fst env s.states hv, he']
        exact (h.seat he').act hnow hv
      · exact (h.recorded u e he).other (hother u (by simp [hv, Ne.symm huv]) _)
  · rw [hlog, lastTime_concat]
    change typingOf u (presenceCall env call s.states).2 = none at hnone
    cases hv : call.user with
    | none =>
      obtain rfl : call = .cleanup := by cases call <;> first | rfl | cases hv
      rw [typingOf_cleanup, Option.map_eq_none_iff] at hnone
      rw [if_neg (by simp [isBroadcast, isStart]), h.unseen u hnone]
    | some v =>
      rw [typingOf_call env s.states hv (hu v hv)] at hnone
      split_ifs at hnone with huv
      · subst huv
        rw [Option.map_eq_none_iff] at hnone
        have hentry : typingOf u s.states = none := by
          cases hentry : typingOf u s.states with
          | none => rfl
          | some e => simp [seatOf, hentry] at hnone
        rw [presenceCall_fst env s.states hv, hnone, if_neg (by simp [isBroadcast]),
          h.unseen u hentry]
      · rw [if_neg (by simp [isBroadcast, hother u (by simp [hv, Ne.symm huv])]),
          h.unseen u hnone]
  · rw [hlog]
    refine List.pairwise_append.mpr ⟨h.inOrder, List.pairwise_singleton _ _, fun x hx y hy => ?_⟩
    rw [List.mem_singleton.mp hy]
    exact hnow x hx
  · rw [hlog] at hx
    rcases List.mem_append.mp hx with hx | hx
    · exact h.pos x hx
    · rw [List.mem_singleton.mp hx]
      exact env.now_pos

theorem times_run (inputs : List (Env × PresenceCall)) :
    (run TypingLog.step .init inputs).log.map PresenceRecord.time =
      inputs.map fun input => input.1.now := by
  induction inputs using List.reverseRecOn with
  | nil => rfl
  | append_singleton inputs input ih =>
    rw [run_concat, List.map_append, ← ih]
    exact List.map_append

theorem past_run (h : CallsInOrder (inputs ++ [input])) :
    ∀ x ∈ (run TypingLog.step .init inputs).log, x.time ≤ input.1.now := by
  intro x hx
  have hmem := List.mem_map_of_mem (f := PresenceRecord.time) hx
  rw [times_run] at hmem
  obtain ⟨input', hinput, heq⟩ := List.mem_map.mp hmem
  rw [← heq]
  exact (List.pairwise_append.mp h).2.2 input' hinput input List.mem_cons_self

theorem sound_typing (hu : CallsForUsers inputs) (ht : CallsInOrder inputs) :
    (run TypingLog.step .init inputs).Sound := by
  induction inputs using List.reverseRecOn with
  | nil => exact ⟨nofun, fun _ _ => rfl, .nil, nofun⟩
  | append_singleton inputs input ih =>
    rw [run_concat]
    have hpre := ih (fun i hi => hu i (List.mem_append_left _ hi)) (List.pairwise_append.mp ht).1
    exact hpre.step (hu input (List.mem_append_right _ List.mem_cons_self)) (past_run ht)

theorem spacedBroadcasts_concat : SpacedBroadcasts (log ++ [x]) ↔ SpacedBroadcasts log ∧
    ∀ u, x.isBroadcast u = true → ∀ a ∈ log, a.isBroadcast u = true →
      a.time + typingRateLimitSec ≤ x.time := by
  unfold SpacedBroadcasts
  rw [← forall_and]
  refine forall_congr' fun u => ?_
  rw [List.filter_append, List.pairwise_append]
  by_cases hx : x.isBroadcast u = true
  · simp [hx]
  · simp [hx]

/-- A call keeps the broadcasts apart exactly if its user, when off, was off long enough. -/
theorem TypingLog.Sound.spaced_iff (h : s.Sound) (hnow : ∀ x ∈ s.log, x.time ≤ input.1.now) :
    (∀ u, isBroadcast u ⟨input.1.now, input.2, (presenceCall input.1 input.2 s.states).1⟩ = true →
      ∀ a ∈ s.log, a.isBroadcast u = true → a.time + typingRateLimitSec ≤ input.1.now) ↔
      OffLongEnough s input := by
  obtain ⟨env, call⟩ := input
  constructor
  · intro hspaced u e hcall he hoff hlast
    dsimp only at hcall hspaced ⊢
    subst hcall
    have hresult : (presenceCall env (.start u) s.states).1 = true := by
      rw [presenceCall_fst env s.states rfl]
      simp [seatOf, he, PresenceCall.act, TypingState.start, hoff]
    obtain ⟨t, ht⟩ : ∃ t, lastTime (isBroadcast u) s.log = some t := by
      rw [← Option.isSome_iff_exists, Option.isSome_iff_ne_none]
      intro hnone
      exact hlast (by rw [(h.recorded u e he).last, hnone]; rfl)
    obtain ⟨a, ha, hb, hat⟩ := exists_of_lastTime ht
    have hle := hspaced u (by simp [isBroadcast, isStart, hresult]) a ha hb
    rwa [(h.recorded u e he).last, ht, Option.getD_some, ← hat]
  · intro hoff u hx a ha hb
    dsimp only at hx ⊢
    obtain ⟨hstart, hresult⟩ := Bool.and_eq_true_iff.mp hx
    obtain rfl : call = .start u := by simpa [isStart] using hstart
    dsimp only at hresult
    rw [presenceCall_fst env s.states rfl] at hresult
    cases hentry : typingOf u s.states with
    | none =>
      have hnone := lastTime_eq_none_iff.mp (h.unseen u hentry) a ha
      rw [hnone] at hb
      cases hb
    | some e =>
      have hlast := (h.recorded u e hentry).last
      obtain ⟨t, ht⟩ : ∃ t, lastTime (isBroadcast u) s.log = some t := by
        rw [← Option.isSome_iff_exists, Option.isSome_iff_ne_none]
        intro hnone
        rw [lastTime_eq_none_iff.mp hnone a ha] at hb
        cases hb
      have hle : a.time ≤ e.lastTypedAt := by
        rw [hlast, ht]
        exact le_lastTime h.inOrder ht ha hb
      have hpos := h.pos a ha
      cases hactive : e.active with
      | false =>
        have := hoff u e rfl hentry hactive (by omega)
        dsimp only at this
        omega
      | true =>
        have hlimit : typingRateLimitSec ≤ env.now - e.lastTypedAt := by
          by_contra hnot
          simp [seatOf, hentry, PresenceCall.act, TypingState.start, hactive, hnot] at hresult
        omega

/--
The broadcasts of every user keep the distance of the rate limit exactly if no
user who has stopped, or was stopped, starts again before it has passed.
-/
theorem typing_spaced_iff (hu : CallsForUsers inputs) (ht : CallsInOrder inputs) :
    SpacedBroadcasts (run TypingLog.step .init inputs).log ↔
      Along TypingLog.step OffLongEnough .init inputs := by
  induction inputs using List.reverseRecOn with
  | nil => exact iff_of_true (fun _ => .nil) trivial
  | append_singleton inputs input ih =>
    have hu' : CallsForUsers inputs := fun i hi => hu i (List.mem_append_left _ hi)
    have ht' : CallsInOrder inputs := (List.pairwise_append.mp ht).1
    have hstep := (sound_typing hu' ht').spaced_iff (past_run ht)
    rw [run_concat, along_append, ← ih hu' ht', TypingLog.step]
    simp only [spacedBroadcasts_concat, Along, and_true, hstep]

/-- Some calls for Alice and some cleanups, each at its time. -/
def aliceCalls (calls : List (ℕ × PresenceCall)) : List (Env × PresenceCall) :=
  calls.map fun call =>
    ({ Env.calm 0 0 [] with now := call.1 + 1, now_pos := by omega }, call.2)

/-- A user who types on is broadcast every two seconds. -/
theorem typing_spaced_alice :
    let alice := "alice".toList
    SpacedBroadcasts (run TypingLog.step .init
      (aliceCalls [(9, .start alice), (10, .start alice), (11, .start alice)])).log := by
  refine (typing_spaced_iff ?_ ?_).mpr ⟨fun u e _ he => ?_, fun u e _ he hoff => ?_,
    fun u e _ he hoff => ?_, trivial⟩
  · simp [CallsForUsers, aliceCalls, PresenceCall.user, maxUsernameLen]
  · simp [CallsInOrder, aliceCalls]
  · cases he
  · have hmem : e ∈ [⟨"alice".toList, true, 10, 10⟩] := (mem_of_entryOf he).1
    rw [List.mem_singleton.mp hmem] at hoff
    cases hoff
  · have hmem : e ∈ [⟨"alice".toList, true, 10, 10⟩] := (mem_of_entryOf he).1
    rw [List.mem_singleton.mp hmem] at hoff
    cases hoff

/-- Alice stops and starts again within a second. -/
theorem typing_not_spaced :
    ¬ ∀ inputs, CallsForUsers inputs → CallsInOrder inputs →
      SpacedBroadcasts (run TypingLog.step .init inputs).log := by
  intro h
  let alice := "alice".toList
  have hspaced := h (aliceCalls [(9, .start alice), (9, .stop alice), (9, .start alice)])
    (by simp [CallsForUsers, aliceCalls, PresenceCall.user, maxUsernameLen, alice])
    (by simp [CallsInOrder, aliceCalls]) alice
  exact absurd hspaced (by decide +kernel)

theorem stopsAfterSilence_iff (h : s.Sound) :
    StopsAfterSilence s input ↔ NoneStillTyping s input := by
  obtain ⟨env, call⟩ := input
  refine forall_congr' fun hcall => forall_congr' fun u => ?_
  dsimp only at hcall ⊢
  subst hcall
  have hafter : typingOf u (s.step (env, .cleanup)).states =
      (typingOf u s.states).map (TypingState.expire env.now) := typingOf_cleanup env s.states u
  simp only [Typing, hafter]
  cases hentry : typingOf u s.states with
  | none => simp
  | some e =>
    cases hactive : e.active with
    | false => simp [hactive]
    | true =>
      obtain ⟨t, ht, hle⟩ := (h.recorded u e hentry).started hactive
      have hexpire : (e.expire env.now).active = true ↔
          ¬ e.startedAt ≤ env.now - typingDebounceSec := by
        unfold TypingState.expire
        split_ifs with hstale
        · exact iff_of_false nofun (not_not.mpr (by omega))
        · exact iff_of_true hactive fun hle' => hstale ⟨hactive, by omega⟩
      simp only [Option.map_some, Option.some.injEq, exists_eq_left', hactive, hexpire, ht,
        true_and, forall_eq', not_not, forall_const]
      exact ⟨fun h => h.mp, fun h => ⟨h, hle.trans⟩⟩

/--
In every run, each cleanup stops exactly the users who have been silent for the
debounce time, unless it finds one who has typed on since before it.
-/
theorem typing_silence_iff (hu : CallsForUsers inputs) (ht : CallsInOrder inputs) :
    Along TypingLog.step StopsAfterSilence .init inputs ↔
      Along TypingLog.step NoneStillTyping .init inputs := by
  rw [along_iff_forall, along_iff_forall]
  refine forall_congr' fun pre => forall_congr' fun input => forall_congr' fun hpre => ?_
  have hpre' : pre <+: inputs := (List.prefix_append _ _).trans hpre
  exact stopsAfterSilence_iff
    (sound_typing (fun i hi => hu i (hpre'.subset hi)) (ht.sublist hpre'.sublist))

/-- Alice is silent for three seconds after the last call. -/
theorem typing_silence_alice :
    let alice := "alice".toList
    Along TypingLog.step StopsAfterSilence .init
      (aliceCalls [(9, .start alice), (11, .start alice), (14, .cleanup)]) := by
  refine (typing_silence_iff ?_ ?_).mpr ⟨nofun, nofun, fun _ u e he _ _ t ht => ?_, trivial⟩
  · simp [CallsForUsers, aliceCalls, PresenceCall.user, maxUsernameLen]
  · simp [CallsInOrder, aliceCalls]
  · obtain ⟨hmem, rfl⟩ := mem_of_entryOf he
    have hmem' : e ∈ [⟨"alice".toList, true, 12, 10⟩] := hmem
    obtain rfl := List.mem_singleton.mp hmem'
    have hlast : some (12 : ℤ) = some t := ht
    obtain rfl := Option.some.inj hlast
    decide

/-- Alice calls every two seconds and is stopped after three. -/
theorem typing_not_silent :
    ¬ ∀ inputs, CallsForUsers inputs → CallsInOrder inputs →
      Along TypingLog.step StopsAfterSilence .init inputs := by
  intro h
  let alice := "alice".toList
  have hsteps := h (aliceCalls [(9, .start alice), (11, .start alice), (12, .cleanup)])
    (by simp [CallsForUsers, aliceCalls, PresenceCall.user, maxUsernameLen, alice])
    (by simp [CallsInOrder, aliceCalls])
  have hstopped := hsteps.2.2.1 rfl alice
  have htyping : Typing alice (run TypingLog.step .init
      (aliceCalls [(9, .start alice), (11, .start alice)])).states :=
    ⟨⟨alice, true, 12, 10⟩, by decide +kernel, rfl⟩
  have hoff : typingOf alice (run TypingLog.step .init
      (aliceCalls [(9, .start alice), (11, .start alice), (12, .cleanup)])).states =
        some ⟨alice, false, 12, 0⟩ := by decide +kernel
  have hnot : ¬ Typing alice (run TypingLog.step .init
      (aliceCalls [(9, .start alice), (11, .start alice), (12, .cleanup)])).states := by
    rintro ⟨e, he, hactive⟩
    obtain rfl := Option.some.inj (hoff.symm.trans he)
    cases hactive
  obtain ⟨t, ht, hle⟩ := (hstopped.mp ⟨htyping, hnot⟩).2
  have hlast : some (12 : ℤ) = some t := ht
  obtain rfl := Option.some.inj hlast
  exact absurd hle (by decide)

end ChatServer
