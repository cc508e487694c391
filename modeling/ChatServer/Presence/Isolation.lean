import Mathlib.Data.Finset.Card
import Mathlib.Data.List.TakeWhile
import ChatServer.Presence.Calls
import ChatServer.Protocol.Fields

/-! # Typing indicators of several users

All users share one table, and every call of a new user takes a place in it.
A user with a place is answered as if the table were the user's own; a user who
comes when the table is full never gets one.
-/

namespace ChatServer

open Library

/-- The results of the calls made for a user. -/
def resultsOf (u : Text) (log : List PresenceRecord) : List Bool :=
  (log.filter fun x => x.call.user = some u).map PresenceRecord.result

/-- The results of a user's calls in a run from `presence_init`. -/
def typingResults (u : Text) (inputs : List (Env × PresenceCall)) : List Bool :=
  resultsOf u (run TypingLog.step .init inputs).log

/-- The calls without those made for other users. -/
def withoutOthers (u : Text) (inputs : List (Env × PresenceCall)) : List (Env × PresenceCall) :=
  inputs.filter fun input => input.2.user = some u ∨ input.2.user = none

/-- The users for whom calls are made before the first one for a user. -/
def usersBefore (u : Text) (inputs : List (Env × PresenceCall)) : Finset Text :=
  ((inputs.takeWhile fun input => input.2.user ≠ some u).filterMap fun input =>
    input.2.user).toFinset

/-- The answers a user gets who has an indicator of their own. -/
def ownAnswers (u : Text) : Option TypingState → List (Env × PresenceCall) → List Bool
  | _, [] => []
  | entry, (env, call) :: inputs =>
    if call.user = some u then
      let r := call.act env.now (entry.getD (.fresh u))
      r.1 :: ownAnswers u (some r.2) inputs
    else if call.user = none then ownAnswers u (entry.map (TypingState.expire env.now)) inputs
    else ownAnswers u entry inputs

variable {u v : Text} {s : TypingLog} {e : TypingState} {entry : Option TypingState}
  {env : Env} {call : PresenceCall} {input : Env × PresenceCall}
  {inputs : List (Env × PresenceCall)}

theorem eq_cleanup (h : call.user = none) : call = .cleanup := by
  cases call with
  | cleanup => rfl
  | _ => cases h

theorem ownAnswers_withoutOthers :
    ownAnswers u entry (withoutOthers u inputs) = ownAnswers u entry inputs := by
  induction inputs generalizing entry with
  | nil => rfl
  | cons input inputs ih =>
    obtain ⟨env, call⟩ := input
    unfold withoutOthers at ih ⊢
    by_cases hown : call.user = some u
    · rw [List.filter_cons_of_pos (by simp [hown])]
      simp only [ownAnswers, hown, if_true, ih]
    · by_cases hnone : call.user = none
      · rw [List.filter_cons_of_pos (by simp [hnone])]
        simp only [ownAnswers, hnone, if_true, ih]
      · rw [List.filter_cons_of_neg (by simp [hown, hnone]), ih, ownAnswers, if_neg hown,
          if_neg hnone]

theorem length_ownAnswers : (ownAnswers u entry inputs).length =
    inputs.countP fun input => input.2.user = some u := by
  induction inputs generalizing entry with
  | nil => rfl
  | cons input inputs ih =>
    obtain ⟨env, call⟩ := input
    unfold ownAnswers
    split_ifs with hown hnone
    · simp [ih, hown]
    · simp [ih, hnone]
    · simp [ih, hown]

theorem ownAnswers_eq_false_iff (hoff : ∀ e, entry = some e → e.active = false) :
    (∀ b ∈ ownAnswers u entry inputs, b = false) ↔ ∀ input ∈ inputs, input.2 ≠ .start u := by
  induction inputs generalizing entry with
  | nil => simp [ownAnswers]
  | cons input inputs ih =>
    obtain ⟨env, call⟩ := input
    have hseat : (entry.getD (.fresh u)).active = false := by
      cases entry with
      | none => rfl
      | some e => exact hoff e rfl
    rw [List.forall_mem_cons]
    unfold ownAnswers
    split_ifs with hown hnone
    · rw [List.forall_mem_cons]
      cases call with
      | start username =>
        obtain rfl := Option.some.inj hown
        simp [PresenceCall.act, TypingState.start, hseat]
      | stop username =>
        rw [ih (fun e he => by obtain rfl := Option.some.inj he; rfl)]
        simp [PresenceCall.act]
      | isTyping username =>
        rw [ih (fun e he => by obtain rfl := Option.some.inj he; exact hseat)]
        simp [PresenceCall.act, hseat]
      | cleanup => cases hown
    · obtain rfl := eq_cleanup hnone
      rw [ih]
      · simp
      · intro e he
        obtain ⟨e', rfl, rfl⟩ := Option.map_eq_some_iff.mp he
        have hoff' := hoff e' rfl
        simp [TypingState.expire, hoff']
    · rw [ih hoff]
      simp only [iff_and_self]
      rintro - rfl
      exact hown rfl

@[simp] theorem resultsOf_step (s : TypingLog) (input : Env × PresenceCall) :
    resultsOf u (s.step input).log = resultsOf u s.log ++
      if input.2.user = some u then [(presenceCall input.1 input.2 s.states).1] else [] := by
  unfold resultsOf TypingLog.step
  split_ifs with hown
  · simp [List.filter_append, hown]
  · simp [List.filter_append, hown]

/-- Once a user has an entry, the table answers like an indicator of the user's own. -/
theorem resultsOf_run_of_some (hu : CallsForUsers inputs) (he : typingOf u s.states = some e) :
    resultsOf u (run TypingLog.step s inputs).log =
      resultsOf u s.log ++ ownAnswers u (some e) inputs := by
  induction inputs generalizing s e with
  | nil => exact (List.append_nil _).symm
  | cons input inputs ih =>
    obtain ⟨env, call⟩ := input
    obtain ⟨hfirst, hrest⟩ := List.forall_mem_cons.mp hu
    have hseat : seatOf u s.states = some e := by simp [seatOf, he]
    rw [run_cons, ownAnswers]
    split_ifs with hown hnone
    · have hnext : typingOf u (s.step (env, call)).states = some (call.act env.now e).2 := by
        have := typingOf_call env s.states hown (hfirst u hown) u
        rwa [if_pos rfl, hseat] at this
      rw [ih hrest hnext, resultsOf_step, if_pos hown, presenceCall_fst env s.states hown, hseat]
      simp
    · obtain rfl := eq_cleanup hnone
      have hnext : typingOf u (s.step (env, .cleanup)).states = some (e.expire env.now) := by
        have := typingOf_cleanup env s.states u
        rwa [he] at this
      rw [ih hrest hnext, resultsOf_step, if_neg hown]
      simp
    · obtain ⟨v, hv⟩ := Option.ne_none_iff_exists'.mp hnone
      have hne : u ≠ v := fun h => hown (h ▸ hv)
      have hnext : typingOf u (s.step (env, call)).states = some e := by
        have := typingOf_call env s.states hv (hfirst v hv) u
        rwa [if_neg hne, he] at this
      rw [ih hrest hnext, resultsOf_step, if_neg hown, List.append_nil]

/-- In a full table a user without an entry never gets one. -/
theorem resultsOf_run_of_full (hu : CallsForUsers inputs) (hnone : typingOf u s.states = none)
    (hfull : maxTypingUsers ≤ s.states.length) :
    resultsOf u (run TypingLog.step s inputs).log =
      resultsOf u s.log ++ List.replicate (inputs.countP fun i => i.2.user = some u) false := by
  induction inputs generalizing s with
  | nil => exact (List.append_nil _).symm
  | cons input inputs ih =>
    obtain ⟨env, call⟩ := input
    obtain ⟨hfirst, hrest⟩ := List.forall_mem_cons.mp hu
    have hseat : seatOf u s.states = none := by simp [seatOf, hnone, hfull]
    have hnext : typingOf u (s.step (env, call)).states = none ∧
        maxTypingUsers ≤ (s.step (env, call)).states.length := by
      cases hv : call.user with
      | none =>
        obtain rfl := eq_cleanup hv
        have hentry := typingOf_cleanup env s.states u
        rw [hnone] at hentry
        exact ⟨hentry, by simpa [TypingLog.step, presenceCall, presenceCleanupStale] using hfull⟩
      | some v =>
        have hentry := typingOf_call env s.states hv (hfirst v hv) u
        have hnames := congrArg List.length (names_call env s.states hv (hfirst v hv))
        simp only [List.length_append, List.length_map] at hnames
        refine ⟨hentry.trans ?_, ?_⟩
        · split_ifs with huv
          · subst huv
            rw [hseat]
            rfl
          · exact hnone
        · exact hfull.trans ((Nat.le_add_right _ _).trans hnames.ge)
    rw [run_cons, ih hrest hnext.1 hnext.2, resultsOf_step]
    split_ifs with hown
    · rw [presenceCall_fst env s.states hown, hseat, List.append_assoc]
      simp [hown, List.replicate_succ]
    · simp [hown]

/-- The users who have called take the places of the table, as long as there are places. -/
structure Placed (inputs : List (Env × PresenceCall)) (states : List TypingState) : Prop where
  nodup : (states.map TypingState.username).Nodup
  called : ∀ v ∈ states.map TypingState.username, ∃ input ∈ inputs, input.2.user = some v
  placed : states.length < maxTypingUsers → ∀ input ∈ inputs, ∀ v, input.2.user = some v →
    v ∈ states.map TypingState.username

theorem Placed.other {states : List TypingState} (h : Placed inputs states)
    (hown : ∀ v, input.2.user = some v → v ∈ states.map TypingState.username ∨
      ¬ states.length < maxTypingUsers) : Placed (inputs ++ [input]) states := by
  refine ⟨h.nodup, fun v hv => ?_, fun hfree i hi v hv => ?_⟩
  · obtain ⟨i, hi, heq⟩ := h.called v hv
    exact ⟨i, List.mem_append_left _ hi, heq⟩
  · rcases List.mem_append.mp hi with hi | hi
    · exact h.placed hfree i hi v hv
    · rw [List.mem_singleton.mp hi] at hv
      exact (hown v hv).resolve_right fun hfull => hfull hfree

theorem Placed.congr {states states' : List TypingState} (h : Placed inputs states)
    (hnames : states'.map TypingState.username = states.map TypingState.username) :
    Placed inputs states' := by
  have hlen : states'.length = states.length := by
    simpa using congrArg List.length hnames
  exact ⟨hnames ▸ h.nodup, hnames ▸ h.called, by rw [hnames, hlen]; exact h.placed⟩

theorem Placed.step {states : List TypingState} (h : Placed inputs states)
    (hu : ∀ v, call.user = some v → v.length < maxUsernameLen) :
    Placed (inputs ++ [(env, call)]) (presenceCall env call states).2 := by
  cases hv : call.user with
  | none =>
    obtain rfl := eq_cleanup hv
    have hnone : ∀ v, PresenceCall.cleanup.user ≠ some v := nofun
    exact (h.other fun v hv => absurd hv (hnone v)).congr (names_cleanup env states)
  | some v =>
    have hnames := names_call env states hv (hu v hv)
    split_ifs at hnames with hnew
    · obtain ⟨hnone, hfree⟩ := hnew
      have hmem := entryOf_eq_none_iff.mp hnone
      refine ⟨?_, fun w hw => ?_, fun _ i hi w hw => ?_⟩
      · rw [hnames]
        exact List.nodup_append.mpr ⟨h.nodup, List.nodup_singleton v, fun a ha b hb heq =>
          hmem (by rw [← List.mem_singleton.mp hb, ← heq]; exact ha)⟩
      · rw [hnames] at hw
        rcases List.mem_append.mp hw with hw | hw
        · obtain ⟨i, hi, heq⟩ := h.called w hw
          exact ⟨i, List.mem_append_left _ hi, heq⟩
        · rw [List.mem_singleton.mp hw]
          exact ⟨_, List.mem_append_right _ List.mem_cons_self, hv⟩
      · rw [hnames]
        rcases List.mem_append.mp hi with hi | hi
        · exact List.mem_append_left _ (h.placed hfree i hi w hw)
        · rw [List.mem_singleton.mp hi] at hw
          rw [Option.some.inj (hv.symm.trans hw)]
          exact List.mem_append_right _ List.mem_cons_self
    · rw [List.append_nil] at hnames
      refine (h.other fun w hw => ?_).congr hnames
      obtain rfl := Option.some.inj (hv.symm.trans hw)
      by_contra hnot
      obtain ⟨hmem, hfree⟩ := not_or.mp hnot
      exact hnew ⟨entryOf_eq_none_iff.mpr hmem, not_not.mp hfree⟩

theorem placed_run (hu : CallsForUsers inputs) :
    Placed inputs (run TypingLog.step .init inputs).states := by
  induction inputs using List.reverseRecOn with
  | nil => exact ⟨.nil, nofun, fun _ => nofun⟩
  | append_singleton inputs input ih =>
    rw [run_concat]
    exact (ih fun i hi => hu i (List.mem_append_left _ hi)).step
      (hu input (List.mem_append_right _ List.mem_cons_self))

theorem Placed.lt_iff {states : List TypingState} (h : Placed inputs states) :
    states.length < maxTypingUsers ↔
      (inputs.filterMap fun input => input.2.user).toFinset.card < maxTypingUsers := by
  have hlen : (states.map TypingState.username).toFinset.card = states.length := by
    rw [List.toFinset_card_of_nodup h.nodup, List.length_map]
  constructor
  · intro hfree
    refine lt_of_le_of_lt (Finset.card_le_card fun v hv => ?_) (hlen ▸ hfree)
    obtain ⟨input, hinput, hv⟩ := List.mem_filterMap.mp (List.mem_toFinset.mp hv)
    exact List.mem_toFinset.mpr (h.placed hfree input hinput v hv)
  · intro hfew
    rw [← hlen]
    refine lt_of_le_of_lt (Finset.card_le_card fun v hv => ?_) hfew
    obtain ⟨input, hinput, hv⟩ := h.called v (List.mem_toFinset.mp hv)
    exact List.mem_toFinset.mpr (List.mem_filterMap.mpr ⟨input, hinput, hv⟩)

theorem not_called_run (hu : CallsForUsers inputs) (hown : ∀ i ∈ inputs, i.2.user ≠ some u) :
    typingOf u (run TypingLog.step .init inputs).states = none ∧ typingResults u inputs = [] := by
  constructor
  · refine entryOf_eq_none_iff.mpr fun hmem => ?_
    obtain ⟨i, hi, heq⟩ := (placed_run hu).called u hmem
    exact hown i hi heq
  · induction inputs using List.reverseRecOn with
    | nil => rfl
    | append_singleton inputs input ih =>
      rw [typingResults, run_concat, resultsOf_step,
        if_neg (hown input (List.mem_append_right _ List.mem_cons_self)), List.append_nil]
      exact ih (fun i hi => hu i (List.mem_append_left _ hi))
        fun i hi => hown i (List.mem_append_left _ hi)

/-- Nothing that happens before the first call for a user matters to the user's own indicator. -/
theorem ownAnswers_append (hown : ∀ i ∈ inputs, i.2.user ≠ some u)
    (later : List (Env × PresenceCall)) :
    ownAnswers u none (inputs ++ later) = ownAnswers u none later := by
  induction inputs with
  | nil => rfl
  | cons input inputs ih =>
    obtain ⟨hfirst, hrest⟩ := List.forall_mem_cons.mp hown
    rw [List.cons_append, ownAnswers, if_neg hfirst, Option.map_none, ite_self]
    exact ih hrest

theorem typingResults_eq (hu : CallsForUsers inputs) (u : Text) :
    typingResults u inputs = if (usersBefore u inputs).card < maxTypingUsers then
      ownAnswers u none inputs
    else List.replicate (inputs.countP fun i => i.2.user = some u) false := by
  unfold usersBefore
  generalize hpre : (inputs.takeWhile fun i => i.2.user ≠ some u) = pre
  generalize hlater : (inputs.dropWhile fun i => i.2.user ≠ some u) = later
  obtain rfl : inputs = pre ++ later := by
    rw [← hpre, ← hlater, List.takeWhile_append_dropWhile]
  have hown : ∀ i ∈ pre, i.2.user ≠ some u := by
    intro i hi
    rw [← hpre] at hi
    simpa using List.mem_takeWhile_imp hi
  have hupre : CallsForUsers pre := fun i hi => hu i (List.mem_append_left _ hi)
  have hulater : CallsForUsers later := fun i hi => hu i (List.mem_append_right _ hi)
  obtain ⟨hnone, hresults⟩ := not_called_run hupre hown
  have hcount : pre.countP (fun i => i.2.user = some u) = 0 :=
    List.countP_eq_zero.mpr fun i hi => by simpa using hown i hi
  rw [List.countP_append, hcount, Nat.zero_add, ownAnswers_append hown, typingResults, run_append]
  split_ifs with hfew
  · have hfree := (placed_run hupre).lt_iff.mpr hfew
    cases later with
    | nil => exact hresults
    | cons input later =>
      obtain ⟨env, call⟩ := input
      obtain ⟨hfirst, hrest⟩ := List.forall_mem_cons.mp hulater
      have hcall : call.user = some u := by
        by_contra hne
        have hdrop := List.head?_dropWhile_not (fun i : Env × PresenceCall =>
          decide (i.2.user ≠ some u)) (pre ++ (env, call) :: later)
        rw [hlater] at hdrop
        simp [hne] at hdrop
      have hseat : seatOf u (run TypingLog.step .init pre).states = some (.fresh u) := by
        simp [seatOf, hnone, hfree]
      have hnext : typingOf u ((run TypingLog.step .init pre).step (env, call)).states =
          some (call.act env.now (.fresh u)).2 := by
        have hentry := typingOf_call env (run TypingLog.step .init pre).states hcall
          (hfirst u hcall) u
        rwa [if_pos rfl, hseat] at hentry
      rw [run_cons, resultsOf_run_of_some hrest hnext, resultsOf_step, if_pos hcall,
        presenceCall_fst _ _ hcall, hseat, ownAnswers, if_pos hcall]
      change typingResults u pre ++ _ ++ _ = _
      rw [hresults]
      rfl
  · have hfull := mt (placed_run hupre).lt_iff.mp hfew
    rw [resultsOf_run_of_full hulater hnone (not_lt.mp hfull)]
    change typingResults u pre ++ _ = _
    rw [hresults, List.nil_append]

theorem usersBefore_withoutOthers : usersBefore u (withoutOthers u inputs) = ∅ := by
  refine List.toFinset_eq_empty_iff _ |>.mpr (List.filterMap_eq_nil_iff.mpr fun i hi => ?_)
  have hmem := (List.mem_filter.mp ((List.takeWhile_sublist _).subset hi)).2
  have hne : i.2.user ≠ some u := by simpa using List.mem_takeWhile_imp hi
  exact (show i.2.user = some u ∨ i.2.user = none by simpa using hmem).resolve_left hne

/-- Alone, a user is answered by an indicator of the user's own. -/
theorem typingResults_withoutOthers (hu : CallsForUsers inputs) (u : Text) :
    typingResults u (withoutOthers u inputs) = ownAnswers u none inputs := by
  have hown : CallsForUsers (withoutOthers u inputs) :=
    fun i hi => hu i (List.mem_of_mem_filter hi)
  have halone : (usersBefore u (withoutOthers u inputs)).card < maxTypingUsers := by
    rw [usersBefore_withoutOthers]
    decide
  rw [typingResults_eq hown, if_pos halone, ownAnswers_withoutOthers]

/--
Dropping the calls of all other users leaves the answers of a user as they are
exactly if the user never starts to type or calls before the table is full.
-/
theorem typing_isolated_iff (hu : CallsForUsers inputs) (u : Text) :
    typingResults u (withoutOthers u inputs) = typingResults u inputs ↔
      (∀ input ∈ inputs, input.2 ≠ .start u) ∨ (usersBefore u inputs).card < maxTypingUsers := by
  rw [typingResults_withoutOthers hu, typingResults_eq hu]
  split_ifs with hfew
  · exact iff_of_true rfl (.inr hfew)
  · have hoff : ∀ e, (none : Option TypingState) = some e → e.active = false := nofun
    rw [List.eq_replicate_iff, ownAnswers_eq_false_iff hoff]
    simp [length_ownAnswers, hfew]

/-- The indicator of a user among others. -/
theorem typing_isolated_alice :
    let alice := "alice".toList
    let calls := [(Env.calm 0 0 [], PresenceCall.start "bob".toList),
      (.calm 0 0 [], .isTyping alice), (.calm 0 0 [], .start alice)]
    typingResults alice (withoutOthers alice calls) = typingResults alice calls := by
  intro alice calls
  refine (typing_isolated_iff ?_ alice).mpr (.inr (by decide +kernel))
  simp [calls, CallsForUsers, PresenceCall.user, maxUsernameLen, alice]

/-- The table is full when Alice comes. -/
theorem typing_not_isolated :
    ¬ ∀ inputs, CallsForUsers inputs → ∀ u,
      typingResults u (withoutOthers u inputs) = typingResults u inputs := by
  intro h
  let alice := "alice".toList
  let names : List Text := (List.range 256).map fun n : ℕ => decimal n
  let others := names.map fun name => (Env.calm 0 0 [], PresenceCall.isTyping name)
  let calls := others ++ [(Env.calm 0 0 [], PresenceCall.start alice)]
  have hnames : ∀ name ∈ names, name.length < maxUsernameLen ∧ name ≠ alice := by decide +kernel
  have hu : CallsForUsers calls := by
    intro i hi v hv
    rcases List.mem_append.mp hi with hi | hi
    · obtain ⟨name, hname, rfl⟩ := List.mem_map.mp hi
      obtain rfl := Option.some.inj hv
      exact (hnames name hname).1
    · obtain rfl := List.mem_singleton.mp hi
      obtain rfl := Option.some.inj hv
      decide
  have hothers : ∀ i ∈ others, i.2.user ≠ some alice := by
    intro i hi heq
    obtain ⟨name, hname, rfl⟩ := List.mem_map.mp hi
    exact (hnames name hname).2 (Option.some.inj heq)
  have hbefore : usersBefore alice calls = names.toFinset := by
    rw [usersBefore, List.takeWhile_append_of_pos fun i hi => decide_eq_true (hothers i hi)]
    simp [others, PresenceCall.user, List.filterMap_map]
  have hfull : (usersBefore alice calls).card = 256 := by
    have hnodup : names.Nodup :=
      List.nodup_range.map fun m n hmn => decimal_inj hmn
    rw [hbefore, List.toFinset_card_of_nodup hnodup, List.length_map, List.length_range]
  have hnever : typingResults alice calls = [false] := by
    rw [typingResults_eq hu, if_neg (by rw [hfull]; decide)]
    decide +kernel
  have halone : typingResults alice (withoutOthers alice calls) = [true] := by
    rw [typingResults_withoutOthers hu, ownAnswers_append hothers]
    rfl
  have heq := h calls hu alice
  rw [hnever, halone] at heq
  cases heq

end ChatServer
