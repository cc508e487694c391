import Mathlib.Data.List.ReduceOption
import ChatServer.Library.Run
import ChatServer.Registry.History

/-! # The history ring

What adding messages does to the ring of a room, and what the scan shared by
replay, search, edit and deletion visits. The running count returns to the
capacity at its limit; an array larger than the limit then counts slots that no
message was written to.
-/

namespace ChatServer

open Library

variable {h : RingBuffer Message} {m : Message} {ms : List Message} {cap : ℕ}

@[simp] theorem addMessage_cap : (addMessage h m).cap = h.cap := rfl

theorem addMessage_valid (hv : h.Valid) : (addMessage h m).Valid := by
  refine hv.write m ?_
  split_ifs <;> omega

/-- Adding a message is writing it, unless the count falls behind or runs ahead. -/
theorem toList_addMessage (hv : h.Valid)
    (hf : h.count < h.cap → h.count < 1000000 ∨ h.cap = h.count + 1) :
    (addMessage h m).toList = (h.toList ++ [m]).rtake h.cap := by
  refine hv.toList_write m ?_
  split_ifs <;> omega

@[simp] theorem run_addMessage_cap : (run addMessage h ms).cap = h.cap := by
  refine run_invariant (I := fun g : RingBuffer Message => g.cap = h.cap) (fun g m hg => ?_) rfl ms
  exact hg

theorem run_addMessage_valid (hv : h.Valid) (ms : List Message) : (run addMessage h ms).Valid :=
  run_invariant (fun _ _ hg => addMessage_valid hg) hv ms

/-- Up to a capacity of 1000001 the ring holds the last messages, whatever their number. -/
theorem toList_run_addMessage (hv : h.Valid) (hcap : h.cap ≤ 1000001) (ms : List Message) :
    (run addMessage h ms).toList = (h.toList ++ ms).rtake h.cap := by
  induction ms using List.reverseRecOn with
  | nil =>
    rw [run_nil, List.append_nil, rtake_of_length_le]
    exact h.length_toList ▸ h.stored_le
  | append_singleton ms m ih =>
    have hg := run_addMessage_valid hv ms
    rw [run_concat, toList_addMessage hg, run_addMessage_cap, ih, rtake_rtake_append,
      List.append_assoc]
    rw [run_addMessage_cap]
    omega

/-- A row as it is copied into a slot. -/
def copied (row : Message) : Message :=
  { row with sender := strncpy maxUsernameLen row.sender, text := strncpy maxTextLen row.text }

theorem toList_foldl_loadMessage_rows (hv : h.Valid) (rows : List Message) :
    (rows.foldl loadMessage h).Valid ∧ (rows.foldl loadMessage h).cap = h.cap ∧
    (rows.foldl loadMessage h).toList = (h.toList ++ rows.map copied).rtake h.cap := by
  induction rows generalizing h with
  | nil =>
    refine ⟨hv, rfl, ?_⟩
    rw [List.map_nil, List.append_nil, rtake_of_length_le]
    · rfl
    · exact h.length_toList ▸ h.stored_le
  | cons row rows ih =>
    have hv' : (loadMessage h row).Valid := hv.write _ (by split_ifs <;> omega)
    have hrow : (loadMessage h row).toList = (h.toList ++ [copied row]).rtake h.cap :=
      hv.toList_write _ (by split_ifs <;> omega)
    obtain ⟨hvalid, hcap, hlist⟩ := ih hv'
    have hc : (loadMessage h row).cap = h.cap := rfl
    refine ⟨hvalid, hcap, ?_⟩
    rw [List.foldl_cons, hlist, hc, hrow, rtake_rtake_append, List.append_assoc, List.map_cons,
      List.singleton_append]

theorem run_addMessage_full (hv : h.Valid) (hfull : h.cap ≤ h.count) (ms : List Message) :
    h.cap ≤ (run addMessage h ms).count ∧
    (run addMessage h ms).start = (h.start + ms.length) % h.cap ∧
    (run addMessage h ms).toList = (h.toList ++ ms).rtake h.cap := by
  induction ms using List.reverseRecOn with
  | nil =>
    refine ⟨hfull, (Nat.mod_eq_of_lt hv.start_lt).symm, ?_⟩
    rw [run_nil, List.append_nil, rtake_of_length_le]
    exact h.length_toList ▸ h.stored_le
  | append_singleton ms m ih =>
    obtain ⟨hcount, hstart, hlist⟩ := ih
    have hg := run_addMessage_valid hv ms
    have hnot : ¬ (run addMessage h ms).count < (run addMessage h ms).cap := by
      rw [run_addMessage_cap]
      exact not_lt.mpr hcount
    rw [run_concat]
    refine ⟨?_, ?_, ?_⟩
    · simp only [addMessage, RingBuffer.write_count]
      split_ifs
      · exact Nat.le_succ_of_le hcount
      · exact run_addMessage_cap.ge
    · simp only [addMessage, RingBuffer.write, if_neg hnot]
      rw [run_addMessage_cap, hstart, List.length_append, List.length_singleton, Nat.mod_add_mod,
        Nat.add_assoc]
    · rw [toList_addMessage hg fun hlt => absurd hlt hnot, run_addMessage_cap, hlist,
        rtake_rtake_append, List.append_assoc]

theorem slots_run_addMessage_full (hv : h.Valid) (hfull : h.cap ≤ h.count) {j : ℕ}
    (hj : h.start + ms.length ≤ j) (hlt : j < h.cap) :
    (run addMessage h ms).slots j = h.slots j := by
  induction ms using List.reverseRecOn with
  | nil => rfl
  | append_singleton ms m ih =>
    rw [List.length_append, List.length_singleton] at hj
    obtain ⟨hcount, hstart, -⟩ := run_addMessage_full hv hfull ms
    have hslot : (run addMessage h ms).slot = h.start + ms.length := by
      rw [RingBuffer.slot, run_addMessage_cap, if_neg (not_lt.mpr hcount), hstart,
        Nat.mod_eq_of_lt (by omega)]
    rw [run_concat]
    exact (Function.update_of_ne (by omega) _ _).trans (ih (by omega))

theorem run_addMessage_empty (hn : ms.length ≤ 1000000) (hcap : 1000001 < cap) :
    (run addMessage (.empty zeroMessage cap) ms).count = ms.length ∧
    (run addMessage (.empty zeroMessage cap) ms).start = 0 ∧
    (run addMessage (.empty zeroMessage cap) ms).toList = ms ∧
    ∀ j, ms.length ≤ j → (run addMessage (.empty zeroMessage cap) ms).slots j = zeroMessage := by
  induction ms using List.reverseRecOn with
  | nil => exact ⟨rfl, rfl, RingBuffer.toList_empty _ _, fun _ _ => rfl⟩
  | append_singleton ms m ih =>
    rw [List.length_append, List.length_singleton] at hn ⊢
    obtain ⟨hcount, hstart, hlist, hzero⟩ := ih (by omega)
    have hv : (run addMessage (.empty zeroMessage cap) ms).Valid :=
      run_addMessage_valid (RingBuffer.valid_empty _ (by omega)) ms
    have hc : (run addMessage (.empty zeroMessage cap) ms).cap = cap := run_addMessage_cap
    rw [run_concat]
    refine ⟨?_, ?_, ?_, fun j hj => ?_⟩
    · simp only [addMessage, RingBuffer.write_count, hcount,
        if_pos (show ms.length < 1000000 by omega)]
    · simp only [addMessage, RingBuffer.write, hcount, hstart, hc,
        if_pos (show ms.length < cap by omega)]
    · rw [toList_addMessage hv, hlist, rtake_of_length_le]
      · rw [hc, List.length_append, List.length_singleton]
        omega
      · omega
    · have hslot : (run addMessage (.empty zeroMessage cap) ms).slot = ms.length := by
        rw [RingBuffer.slot, hc, hcount, if_pos (by omega)]
      exact (Function.update_of_ne (by omega) _ _).trans (hzero j (by omega))

theorem addMessage_limit (hlen : ms.length = 1000000) (hcap : 1000001 < cap) :
    (addMessage (run addMessage (.empty zeroMessage cap) ms) m).count = cap ∧
    (addMessage (run addMessage (.empty zeroMessage cap) ms) m).start = 0 ∧
    ∀ j, 1000001 ≤ j →
      (addMessage (run addMessage (.empty zeroMessage cap) ms) m).slots j = zeroMessage := by
  obtain ⟨hcount, hstart, -, hzero⟩ := run_addMessage_empty hlen.le hcap
  have hc : (run addMessage (.empty zeroMessage cap) ms).cap = cap := run_addMessage_cap
  have hslot : (run addMessage (.empty zeroMessage cap) ms).slot = 1000000 := by
    rw [RingBuffer.slot, hc, hcount, hlen, if_pos (by omega)]
  refine ⟨?_, ?_, fun j hj => ?_⟩
  · simp only [addMessage, RingBuffer.write_count, hcount, hlen, lt_self_iff_false, if_false, hc]
  · simp only [addMessage, RingBuffer.write, hcount, hlen, hc, hstart,
      if_pos (show 1000000 < cap by omega)]
  · exact (Function.update_of_ne (by omega) _ _).trans (hzero j (by omega))

theorem wrapInt_of_lt {n : ℕ} (hn : n < 2 ^ 31) : wrapInt n = n := by
  rw [wrapInt, Int.bmod_def]
  omega

/-- Without overflow the scan computes the index of the ring. -/
theorem historyIndex_eq (hfit : h.count < h.cap ∨ h.start + h.cap ≤ 2 ^ 31) {i : ℕ}
    (hi : i < h.stored) : historyIndex h i = h.index i := by
  rw [historyIndex, RingBuffer.index]
  split_ifs with hlt
  · rfl
  · have hle := h.stored_le
    have hsum := wrapInt_of_lt (n := h.start + i) (by omega)
    push_cast at hsum ⊢
    rw [hsum]
    exact Int.tmod_eq_emod_of_nonneg (by omega)

theorem historyRead_index (i : ℕ) : historyRead h i = some (h.slots i) :=
  if_pos (Int.natCast_nonneg _)

theorem historyScan_eq (hfit : h.count < h.cap ∨ h.start + h.cap ≤ 2 ^ 31) :
    historyScan h = h.toList.map some := by
  rw [historyScan, RingBuffer.toList, List.map_map]
  refine List.map_congr_left fun i hi => ?_
  rw [historyIndex_eq hfit (List.mem_range.mp hi), historyRead_index]
  rfl

theorem reduceOption_map_some (ms : List Message) : (ms.map some).reduceOption = ms := by
  induction ms with
  | nil => rfl
  | cons m ms ih => rw [List.map_cons, List.reduceOption_cons_of_some, ih]

theorem changeMessage_set {h' : RingBuffer Message} {msgId : ℤ} {mayChange : Message → Bool}
    {change : Message → Message}
    (hok : changeMessage h msgId mayChange change = (.ok, h')) :
    ∃ k, (h.slots k).id = msgId ∧ (h.slots k).deleted = false ∧ mayChange (h.slots k) ∧
      h' = h.set k (change (h.slots k)) := by
  unfold changeMessage at hok
  cases hfind : historyFind h msgId with
  | none => rw [hfind] at hok; cases hok
  | some idx =>
    have hid := List.find?_some hfind
    simp only [hfind] at hok
    split_ifs at hok with hdel hmay
    · cases hok
    · cases hok
    · refine ⟨idx.toNat, ?_, by simpa using hdel, by simpa using hmay, (Prod.ext_iff.mp hok).2.symm⟩
      unfold historyRead at hid
      split_ifs at hid
      · simpa using hid
      · simp at hid

/-- Where the sum of start and position overflows, the scan leaves the array. -/
theorem none_mem_historyScan (hv : h.Valid) (hfull : h.cap ≤ h.count) (hint : h.cap < 2 ^ 31)
    (hover : 2 ^ 31 < h.start + h.cap) : none ∈ historyScan h := by
  have hs := hv.start_lt
  have hst : h.stored = h.cap := if_neg (not_lt.mpr hfull)
  refine List.mem_map.mpr ⟨2 ^ 31 - h.start, List.mem_range.mpr (by omega), ?_⟩
  have hsum : (h.start : ℤ) + ((2 ^ 31 - h.start : ℕ) : ℤ) = 2 ^ 31 := by omega
  have hwrap : wrapInt (2 ^ 31) = -(2 ^ 31 : ℕ) := by decide
  have hmod : 2 ^ 31 % h.cap = 2 ^ 31 - h.cap := by
    rw [Nat.mod_eq_sub_mod (by omega), Nat.mod_eq_of_lt (by omega)]
  rw [historyIndex, if_neg (not_lt.mpr hfull), hsum, hwrap, Int.neg_tmod, ← Int.ofNat_tmod, hmod]
  exact if_neg (by omega)

/-- An entry at or after the oldest one is visited before the sum can overflow. -/
theorem slot_mem_historyScan (hfull : h.cap ≤ h.count) (hint : h.cap < 2 ^ 31) {j : ℕ}
    (hj : h.start ≤ j) (hlt : j < h.cap) : some (h.slots j) ∈ historyScan h := by
  have hst : h.stored = h.cap := if_neg (not_lt.mpr hfull)
  refine List.mem_map.mpr ⟨j - h.start, List.mem_range.mpr (by omega), ?_⟩
  have hsum : (h.start : ℤ) + ((j - h.start : ℕ) : ℤ) = (j : ℕ) := by omega
  rw [historyIndex, if_neg (not_lt.mpr hfull), hsum, wrapInt_of_lt (by omega),
    Int.tmod_eq_of_lt (by omega) (by omega)]
  rfl

/-- Past the limit of the counter, the ring is read in order again once it has been filled anew. -/
theorem historyScan_beyond_limit {first rest : List Message} {m : Message} (hcap : 1000001 < cap)
    (hint : cap < 2 ^ 31) (hid : ∀ x ∈ first ++ m :: rest, 0 < x.id)
    (hfirst : first.length = 1000000) :
    historyScan (run addMessage (.empty zeroMessage cap) (first ++ m :: rest)) =
        ((first ++ m :: rest).rtake cap).map some ↔
      cap ≤ rest.length ∧ rest.length % cap + cap ≤ 2 ^ 31 := by
  rw [run_append, run_cons]
  obtain ⟨hcount, hstart, hzero⟩ := addMessage_limit (m := m) hfirst hcap
  have hv₀ : (RingBuffer.empty zeroMessage cap).Valid := RingBuffer.valid_empty _ (by omega)
  generalize hg : addMessage (run addMessage (.empty zeroMessage cap) first) m = g at *
  have hv : g.Valid := hg ▸ addMessage_valid (run_addMessage_valid hv₀ first)
  have hgcap : g.cap = cap := by rw [← hg, addMessage_cap, run_addMessage_cap]; rfl
  obtain ⟨hfull, hstart', hlist⟩ := run_addMessage_full hv (by omega) rest
  rw [hgcap] at hfull hstart' hlist
  rw [hstart, Nat.zero_add] at hstart'
  have hcap' : (run addMessage g rest).cap = cap := by rw [run_addMessage_cap, hgcap]
  rcases lt_or_ge rest.length cap with hrest | hrest
  · refine iff_of_false (fun heq => ?_) (by omega)
    have hlast : (run addMessage g rest).slots (cap - 1) = zeroMessage := by
      rw [slots_run_addMessage_full hv (by omega) (by omega) (by omega)]
      exact hzero _ (by omega)
    have hmem := slot_mem_historyScan (h := run addMessage g rest) (j := cap - 1) (by omega)
      (by omega) (by rw [hstart', Nat.mod_eq_of_lt hrest]; omega) (by omega)
    rw [heq, hlast] at hmem
    obtain ⟨x, hx, hxz⟩ := List.mem_map.mp hmem
    have hpos := hid x (mem_of_mem_rtake hx)
    rw [Option.some.inj hxz] at hpos
    exact absurd hpos (Int.lt_irrefl 0)
  · have hlast : (run addMessage g rest).toList = (first ++ m :: rest).rtake cap := by
      rw [hlist, rtake_append_of_le hrest, ← List.singleton_append, ← List.append_assoc,
        rtake_append_of_le hrest]
    constructor
    · intro heq
      refine ⟨hrest, not_lt.mp fun hover => ?_⟩
      have hnone := none_mem_historyScan (run_addMessage_valid hv rest) (by omega)
        (by omega) (by rw [hstart', hcap']; exact hover)
      rw [heq] at hnone
      simp at hnone
    · rintro ⟨-, hfit⟩
      rw [historyScan_eq (.inr (by rw [hstart', hcap']; exact hfit)), hlast]

/--
The scan of a new ring visits the last messages added exactly if the count
never reached its limit before the array was full, or the array has since been
overwritten and the index does not overflow.
-/
theorem historyScan_run_empty (hpos : 0 < cap) (hint : cap < 2 ^ 31) (hid : ∀ m ∈ ms, 0 < m.id) :
    historyScan (run addMessage (.empty zeroMessage cap) ms) = (ms.rtake cap).map some ↔
      cap ≤ 1000001 ∨ ms.length ≤ 1000000 ∨
        (1000001 + cap ≤ ms.length ∧ (ms.length - 1000001) % cap + cap ≤ 2 ^ 31) := by
  have hv₀ : (RingBuffer.empty zeroMessage cap).Valid := RingBuffer.valid_empty _ hpos
  rcases le_or_gt cap 1000001 with hcap | hcap
  · have hv := run_addMessage_valid hv₀ ms
    have hlist := toList_run_addMessage hv₀ hcap ms
    have hs := hv.start_lt
    rw [run_addMessage_cap] at hs
    change _ < cap at hs
    refine iff_of_true ?_ (.inl hcap)
    rw [historyScan_eq, hlist, RingBuffer.toList_empty, List.nil_append]
    · rfl
    · rw [run_addMessage_cap]
      change _ ∨ _ + cap ≤ _
      omega
  rcases le_or_gt ms.length 1000000 with hn | hn
  · obtain ⟨hcount, -, hlist, -⟩ := run_addMessage_empty hn hcap
    refine iff_of_true ?_ (.inr (.inl hn))
    rw [historyScan_eq, hlist, rtake_of_length_le (by omega)]
    rw [run_addMessage_cap, hcount]
    change _ < cap ∨ _
    omega
  obtain ⟨first, m, rest, rfl, hfirst⟩ :
      ∃ first m rest, ms = first ++ m :: rest ∧ first.length = 1000000 := by
    refine ⟨ms.take 1000000, ms[1000000], ms.drop 1000001, ?_, ?_⟩
    · rw [List.getElem_cons_drop, List.take_append_drop]
    · rw [List.length_take, Nat.min_eq_left hn.le]
  have hlen : (first ++ m :: rest).length = 1000001 + rest.length := by
    rw [List.length_append, List.length_cons, hfirst]
    omega
  rw [historyScan_beyond_limit hcap hint hid hfirst, hlen, Nat.add_sub_cancel_left]
  omega

end ChatServer
