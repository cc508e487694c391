import ChatServer.Concurrent.MessageHandlers

/-! # The order of messages in a room

A message gets its id in the table and its place in the buffer in two sections,
between which other workers may add theirs.
-/

namespace ChatServer

open Library

/-- A scan of the buffer meets the messages in the order of their ids. -/
def InOrder (h : RingBuffer Message) : Prop :=
  (historyScan h).Pairwise fun o o' => ∃ m ∈ o, ∃ m' ∈ o', m.id < m'.id

instance (h : RingBuffer Message) : Decidable (InOrder h) := by
  unfold InOrder
  infer_instance

/-- A buffer as it is created and messages are added to it. -/
structure Allotted (h : RingBuffer Message) : Prop where
  valid : h.cap ≠ 0 → h.Valid
  int : h.cap < 2 ^ 31
  blank : ∀ j, h.count ≤ j → j < h.cap → h.slots j = zeroMessage

/--
No message saved later is stored when a message is added to a buffer, unless
this has one slot only; and neither its count nor its index then overflows.
-/
structure MayEnter (h : RingBuffer Message) (msgId : ℤ) : Prop where
  later : 1 < h.cap → ∀ m ∈ h.toList, m.id < msgId
  count : h.count < h.cap → h.count < 1000000 ∨ h.cap = h.count + 1
  index : h.cap ≤ h.count → (h.start + 1) % h.cap + h.cap ≤ 2 ^ 31

variable {h : RingBuffer Message} {m : Message}

theorem addMessage_allotted (hh : Allotted h) (hcap : h.cap ≠ 0) (m : Message) :
    Allotted (addMessage h m) := by
  refine ⟨fun _ => addMessage_valid (hh.valid hcap), hh.int, fun j hj hlt => ?_⟩
  have hlt : j < h.cap := hlt
  have hcount : h.count < h.cap ∧ h.count + 1 ≤ j := by
    simp only [addMessage, RingBuffer.write_count] at hj
    split_ifs at hj <;> omega
  have hslot : j ≠ h.slot := by
    rw [RingBuffer.slot, if_pos hcount.1]
    omega
  have hkept : (addMessage h m).slots j = h.slots j := Function.update_of_ne hslot _ _
  rw [hkept]
  exact hh.blank j (by omega) hlt

theorem inOrder_iff (hfit : h.count < h.cap ∨ h.start + h.cap ≤ 2 ^ 31) :
    InOrder h ↔ h.toList.Pairwise fun m m' => m.id < m'.id := by
  rw [InOrder, historyScan_eq hfit, List.pairwise_map]
  simp

theorem InOrder.fits (hi : InOrder h) (hh : Allotted h) (hcap : h.cap ≠ 0) :
    h.count < h.cap ∨ h.start + h.cap ≤ 2 ^ 31 := by
  by_contra hover
  rw [not_or, not_lt, not_le] at hover
  have hs := (hh.valid hcap).start_lt
  have hstored : h.stored = h.cap := if_neg (not_lt.mpr hover.1)
  obtain ⟨before, after, hscan⟩ := List.append_of_mem
    (none_mem_historyScan (hh.valid hcap) hover.1 hh.int hover.2)
  have hlen : (historyScan h).length = h.cap := by rw [historyScan, List.length_map,
    List.length_range, hstored]
  rw [InOrder, hscan, List.pairwise_append, List.pairwise_cons] at hi
  rw [hscan, List.length_append, List.length_cons] at hlen
  cases after with
  | cons o after =>
    obtain ⟨m, hm, -⟩ := hi.2.1.1 o List.mem_cons_self
    cases hm
  | nil =>
    obtain ⟨o, ho⟩ : ∃ o, o ∈ before := by
      refine List.exists_mem_of_length_pos ?_
      rw [List.length_nil] at hlen
      omega
    obtain ⟨-, -, m, hm, -⟩ := hi.2.2 o ho none List.mem_cons_self
    cases hm

/-- A count that runs ahead of the messages counts a slot that none was written to. -/
theorem not_inOrder_of_skipped (hh : Allotted h) (hid : 0 < m.id) (hlt : h.count + 1 < h.cap)
    (hlimit : 1000000 ≤ h.count) : ¬ InOrder (addMessage h m) := by
  intro hi
  have hcap : h.cap ≠ 0 := by omega
  have hcount : (addMessage h m).count = h.cap := if_neg (not_lt.mpr hlimit)
  have hstart : (addMessage h m).start = 0 := by
    simp only [addMessage, RingBuffer.write, if_pos (show h.count < h.cap by omega)]
    exact (hh.valid hcap).start_eq (by omega)
  have hint := hh.int
  rw [inOrder_iff (.inr (by rw [hstart, addMessage_cap]; omega)),
    List.pairwise_iff_getElem] at hi
  have hstored : (addMessage h m).stored = h.cap :=
    if_neg (by rw [hcount, addMessage_cap]; exact lt_irrefl _)
  have hindex (i : ℕ) (hlt : i < h.cap) : (addMessage h m).index i = i := by
    rw [RingBuffer.index, if_neg (by rw [hcount, addMessage_cap]; exact lt_irrefl _), hstart,
      addMessage_cap, Nat.zero_add, Nat.mod_eq_of_lt hlt]
  have hslot : h.slot = h.count := if_pos (by omega)
  have hnew : (addMessage h m).slots h.count = m := hslot ▸ Function.update_self ..
  have hblank : (addMessage h m).slots (h.count + 1) = zeroMessage := by
    refine (Function.update_of_ne (by omega) _ _).trans ?_
    exact hh.blank _ (Nat.le_succ _) hlt
  have hle := hi h.count (h.count + 1) (by rw [RingBuffer.length_toList, hstored]; omega)
    (by rw [RingBuffer.length_toList, hstored]; omega) (Nat.lt_succ_self _)
  rw [RingBuffer.getElem_toList, RingBuffer.getElem_toList, hindex _ (by omega), hindex _ hlt,
    hnew, hblank] at hle
  exact absurd hle (not_lt.mpr hid.le)

/-- A buffer in order stays so exactly if the message added is in turn. -/
theorem inOrder_addMessage_iff (hh : Allotted h) (hcap : h.cap ≠ 0) (hi : InOrder h)
    (hid : 0 < m.id) : InOrder (addMessage h m) ↔ MayEnter h m.id := by
  have hv := hh.valid hcap
  have hs := hv.start_lt
  have hint := hh.int
  by_cases hcount : h.count < h.cap → h.count < 1000000 ∨ h.cap = h.count + 1
  · have hlist := toList_addMessage (m := m) hv hcount
    have hsorted := (inOrder_iff (hi.fits hh hcap)).mp hi
    have hlater := pairwise_rtake_concat_iff (R := fun m m' : Message => m.id < m'.id)
      (n := h.cap) (x := m) (fun _ _ _ => lt_trans) hsorted
    by_cases hindex : h.cap ≤ h.count → (h.start + 1) % h.cap + h.cap ≤ 2 ^ 31
    · have hfit : (addMessage h m).count < (addMessage h m).cap ∨
          (addMessage h m).start + (addMessage h m).cap ≤ 2 ^ 31 := by
        refine .inr ?_
        simp only [addMessage, RingBuffer.write]
        split_ifs with hlt
        · have := hv.start_eq hlt
          omega
        · exact hindex (not_lt.mp hlt)
      rw [inOrder_iff hfit, hlist, hlater]
      exact ⟨fun h => ⟨h, hcount, hindex⟩, MayEnter.later⟩
    · refine iff_of_false (fun hnew => hindex fun hfull => ?_) fun hturn => hindex hturn.index
      have hfit := hnew.fits (addMessage_allotted hh hcap m) hcap
      simp only [addMessage, RingBuffer.write, if_neg (not_lt.mpr hfull)] at hfit
      split_ifs at hfit <;> omega
  · refine iff_of_false ?_ fun hturn => hcount hturn.count
    exact not_inOrder_of_skipped hh hid (by omega) (by omega)

theorem foldl_loadMessage_allotted (hh : Allotted h) (hcap : h.cap ≠ 0) (hstart : h.start = 0)
    (rows : List Message) (hlen : h.count + rows.length ≤ h.cap) :
    Allotted (rows.foldl loadMessage h) ∧ (rows.foldl loadMessage h).start = 0 ∧
      (rows.foldl loadMessage h).cap = h.cap ∧
      (rows.foldl loadMessage h).toList.map Message.id =
        h.toList.map Message.id ++ rows.map Message.id := by
  induction rows generalizing h with
  | nil => exact ⟨hh, hstart, rfl, by simp⟩
  | cons row rows ih =>
    rw [List.length_cons] at hlen
    have hlt : h.count < h.cap := by omega
    have hslot : h.slot = h.count := if_pos hlt
    have hcount : (loadMessage h row).count = h.count + 1 := if_pos hlt
    have hlist : (loadMessage h row).toList.map Message.id =
        h.toList.map Message.id ++ [row.id] := by
      rw [loadMessage, if_pos hlt, (hh.valid hcap).toList_write_of_lt hlt, List.map_append]
      rfl
    have hloaded : Allotted (loadMessage h row) := by
      refine ⟨fun _ => (hh.valid hcap).write _ (by omega), hh.int, fun j hj hjlt => ?_⟩
      rw [hcount] at hj
      exact (Function.update_of_ne (by omega) _ _).trans (hh.blank j (by omega) hjlt)
    obtain ⟨hallotted, hstart', hcap', hids⟩ := ih hloaded hcap ((if_pos hlt).trans hstart)
      (by rw [hcount]; change _ ≤ h.cap; omega)
    refine ⟨hallotted, hstart', hcap', ?_⟩
    rw [List.foldl_cons, hids, hlist, List.append_assoc]
    rfl

theorem newRoom_inOrder (env : Env) (n : Text) (c : ClientPtr) (reg : Registry) (db : Database)
    (hint : reg.historySize < 2 ^ 31) :
    Allotted (newRoom env n c reg db).history ∧ InOrder (newRoom env n c reg db).history := by
  have hempty : Allotted (.empty zeroMessage reg.historySize) :=
    ⟨fun h => RingBuffer.valid_empty _ (Nat.pos_of_ne_zero h), hint, fun _ _ _ => rfl⟩
  obtain ⟨hsorted, hlen⟩ := loadedRows_sorted env n reg.historySize db
  rcases eq_or_ne reg.historySize 0 with hzero | hcap
  · have hnone : loadedRows env n reg.historySize db = [] :=
      List.eq_nil_of_length_eq_zero (by omega)
    have hnew : (newRoom env n c reg db).history = .empty zeroMessage reg.historySize := by
      rw [newRoom, hnone]
      rfl
    rw [hnew, inOrder_iff (.inr ?_), RingBuffer.toList_empty]
    · exact ⟨hempty, .nil⟩
    · change 0 + reg.historySize ≤ 2 ^ 31
      omega
  · obtain ⟨hallotted, hstart, hsize, hids⟩ := foldl_loadMessage_allotted hempty hcap rfl
      (loadedRows env n reg.historySize db) ((Nat.zero_add _).trans_le hlen)
    refine ⟨hallotted, (inOrder_iff (.inr ?_)).mpr ?_⟩
    · change (List.foldl loadMessage _ _).start + (List.foldl loadMessage _ _).cap ≤ _
      rw [hstart, hsize, Nat.zero_add]
      exact hint.le
    · have hpair := List.pairwise_map.mpr hsorted
      rw [RingBuffer.toList_empty, List.map_nil, List.nil_append] at hids
      rw [← hids] at hpair
      exact List.pairwise_map.mp hpair

section Race

variable {ι : Type*} [DecidableEq ι] {r : RoomPtr}
  {s : MessageThreads ι} {input : ι × Env × Option HistoryOp}

/-- The inputs of workers that add messages to a room and save them all. -/
def Adds (r : RoomPtr) (input : ι × Env × Option HistoryOp) : Prop :=
  input.2.1.sql .saveMessage = .done ∧ ∀ op ∈ input.2.2, ∃ sender text, op = .add r sender text

/-- The worker that moves, if it is to add a message to the buffer of a room, is in turn. -/
def EntersInTurn (r : RoomPtr) (s : MessageThreads ι)
    (input : ι × Env × Option HistoryOp) : Prop :=
  (s.shared.2.rooms r).history.cap ≠ 0 → ∀ msgId sender text,
    s.loc input.1 = .addEntry r msgId sender text → MayEnter (s.shared.2.rooms r).history msgId

/-- Workers between their sections have their ids. -/
structure Workers (r : RoomPtr) (s : MessageThreads ι) : Prop where
  buffer : Allotted (s.shared.2.rooms r).history
  phase : ∀ i, s.loc i = .idle ∨
    ∃ msgId sender text, s.loc i = .addEntry r msgId sender text ∧ 0 < msgId

theorem messageSection_idle {env : Env} {op : Option HistoryOp}
    (hsql : env.sql .saveMessage = .done) (hop : ∀ o ∈ op, ∃ sender text, o = .add r sender text)
    (s : Database × Registry) :
    (messageSection (s, .idle) (env, op)).1.2 = s.2 ∧
      ((messageSection (s, .idle) (env, op)).2 = .idle ∨ ∃ msgId sender text,
        (messageSection (s, .idle) (env, op)).2 = .addEntry r msgId sender text ∧ 0 < msgId) := by
  cases op with
  | none => exact ⟨rfl, .inl rfl⟩
  | some op =>
    obtain ⟨sender, text, rfl⟩ := hop op rfl
    simp only [messageSection, startMessage]
    split_ifs with hroom hfail
    · have hpos : 0 < (dbSaveMessage env (s.2.rooms r).roomName sender text s.1).1 :=
        lt_of_le_of_lt s.1.messages.seq_nonneg (dbSaveMessage_done _ _ _ _ hsql).1
      exact absurd hfail (not_le.mpr hpos)
    · exact ⟨rfl, .inr ⟨_, _, _, rfl, not_le.mp hfail⟩⟩
    · exact ⟨rfl, .inl rfl⟩

theorem enterHistory_history (env : Env) (r : RoomPtr) (msgId : ℤ) (sender text : Text)
    (reg : Registry) : ((enterHistory env r msgId sender text reg).rooms r).history =
      if (reg.rooms r).history.cap = 0 then (reg.rooms r).history
      else addMessage (reg.rooms r).history (newMessage env msgId sender text) := by
  unfold enterHistory
  split_ifs
  · rfl
  · simp

/-- A step of a worker leaves the buffer as it is, or adds the message that the worker saved. -/
theorem race_history (hs : Workers r s) (hin : Adds r input) :
    (((messageRace ι s input).shared.2.rooms r).history = (s.shared.2.rooms r).history ∧
      (∀ msgId sender text, s.loc input.1 = .addEntry r msgId sender text →
        (s.shared.2.rooms r).history.cap = 0)) ∨
    ∃ msgId sender text, s.loc input.1 = .addEntry r msgId sender text ∧ 0 < msgId ∧
      (s.shared.2.rooms r).history.cap ≠ 0 ∧
      ((messageRace ι s input).shared.2.rooms r).history =
        addMessage (s.shared.2.rooms r).history (newMessage input.2.1 msgId sender text) := by
  obtain ⟨i, env, op⟩ := input
  rcases hs.phase i with hidle | ⟨msgId, sender, text, hphase, hpos⟩
  · refine .inl ⟨?_, fun _ _ _ h => by rw [hidle] at h; cases h⟩
    rw [Threads.step_shared, hidle, (messageSection_idle hin.1 hin.2 s.shared).1]
  · have hstep := enterHistory_history env r msgId sender text s.shared.2
    have hshared : (messageRace ι s (i, env, op)).shared.2 =
        enterHistory env r msgId sender text s.shared.2 := by
      rw [Threads.step_shared, hphase]
      rfl
    rw [← hshared] at hstep
    by_cases hcap : (s.shared.2.rooms r).history.cap = 0
    · rw [if_pos hcap] at hstep
      exact .inl ⟨hstep, fun _ _ _ _ => hcap⟩
    · rw [if_neg hcap] at hstep
      exact .inr ⟨msgId, sender, text, hphase, hpos, hcap, hstep⟩

theorem workers_step (hs : Workers r s) (hin : Adds r input) :
    Workers r (messageRace ι s input) := by
  refine ⟨?_, fun j => ?_⟩
  · rcases race_history hs hin with ⟨hkept, -⟩ | ⟨msgId, sender, text, -, -, hcap, hadded⟩
    · rw [hkept]
      exact hs.buffer
    · rw [hadded]
      exact addMessage_allotted hs.buffer hcap _
  · obtain ⟨i, env, op⟩ := input
    rcases eq_or_ne j i with rfl | hne
    · rw [Threads.step_loc_self]
      rcases hs.phase j with hidle | ⟨msgId, sender, text, hphase, -⟩
      · rw [hidle]
        exact (messageSection_idle hin.1 hin.2 s.shared).2
      · rw [hphase]
        exact .inl rfl
    · rw [Threads.step_loc_of_ne hne]
      exact hs.phase j

theorem inOrder_step_iff (hs : Workers r s) (hin : Adds r input)
    (hi : InOrder (s.shared.2.rooms r).history) :
    InOrder ((messageRace ι s input).shared.2.rooms r).history ↔ EntersInTurn r s input := by
  rcases race_history hs hin with ⟨hkept, hnone⟩ |
    ⟨msgId, sender, text, hphase, hpos, hcap, hadded⟩
  · rw [hkept]
    exact iff_of_true hi fun hcap msgId sender text hphase =>
      absurd (hnone msgId sender text hphase) hcap
  · rw [hadded, inOrder_addMessage_iff hs.buffer hcap hi hpos]
    constructor
    · intro hturn _ msgId' sender' text' hphase'
      cases hphase.symm.trans hphase'
      exact hturn
    · intro henters
      exact henters hcap msgId sender text hphase

/--
However the sections of the workers of a room interleave, its messages are
replayed in the order of their ids throughout exactly if no worker adds its
message after one that was saved later, and the count and the index of the
buffer do not overflow.
-/
theorem replayed_in_order_iff (r : RoomPtr) (s : Database × Registry)
    (hbuffer : Allotted (s.2.rooms r).history) (horder : InOrder (s.2.rooms r).history)
    {inputs : List (ι × Env × Option HistoryOp)} (hin : ∀ input ∈ inputs, Adds r input) :
    (∀ fs, fs <+: inputs →
      InOrder ((run (messageRace ι) (messageStart s) fs).shared.2.rooms r).history) ↔
      Along (messageRace ι) (EntersInTurn r) (messageStart s) inputs := by
  refine (along_iff_prefixes_of (P := Adds r) (J := Workers r)
    (I := fun s : MessageThreads ι =>
      InOrder (s.shared.2.rooms r).history) ?_ ?_ ?_ ?_ horder hin).symm
  · exact fun s input hin hs => workers_step hs hin
  · exact fun s input hin hs hi hturn => (inOrder_step_iff hs hin hi).mpr hturn
  · exact fun s input hin hs hi hturn => (inOrder_step_iff hs hin hi).not.mpr hturn
  · exact ⟨hbuffer, fun _ => .inl rfl⟩

end Race

/-- Lounge, as it is created. -/
def lounge : Database × Registry :=
  historyStep (.empty, registryInit ⟨4, 4, 4, 10⟩) (.calm 0 0 [], .create "lounge".toList 0)

/-- A section of one of two workers, given a message or none. -/
def workerSection (bob : Bool) (op : Option HistoryOp) : Bool × Env × Option HistoryOp :=
  (bob, .calm 0 0 [], op)

/-- Alice's message and Bob's are saved in this order, and added in this or the other. -/
def twoWorkers (first : Bool) : List (Bool × Env × Option HistoryOp) :=
  [workerSection false (some (.add 0 "alice".toList "one".toList)),
   workerSection true (some (.add 0 "bob".toList "two".toList)),
   workerSection first none, workerSection (!first) none]

theorem lounge_inOrder : Allotted (lounge.2.rooms 0).history ∧ InOrder (lounge.2.rooms 0).history :=
  newRoom_inOrder (.calm 0 0 []) "lounge".toList 0 (registryInit ⟨4, 4, 4, 10⟩) .empty (by decide)

theorem twoWorkers_adds (first : Bool) : ∀ input ∈ twoWorkers first, Adds 0 input := by
  simp [twoWorkers, workerSection, Adds, Env.calm]

theorem replayed_in_order_of_turns :
    (∀ fs, fs <+: twoWorkers false →
      InOrder ((run (messageRace Bool) (messageStart lounge) fs).shared.2.rooms 0).history) ↔
      Along (messageRace Bool) (EntersInTurn 0) (messageStart lounge) (twoWorkers false) :=
  replayed_in_order_iff 0 lounge lounge_inOrder.1 lounge_inOrder.2 (twoWorkers_adds false)

/-- Bob adds his message first, though its id is the higher one. -/
theorem twoWorkers_not_inOrder :
    ¬ ∀ fs, fs <+: twoWorkers true →
      InOrder ((run (messageRace Bool) (messageStart lounge) fs).shared.2.rooms 0).history := by
  intro h
  have horder := h (twoWorkers true) List.prefix_rfl
  revert horder
  decide +kernel

end ChatServer
