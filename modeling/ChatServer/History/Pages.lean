import ChatServer.Library.Pages
import ChatServer.Library.Run
import ChatServer.Replies.Grammar

/-! # The pages of HISTORY

A client reads the history of a room page by page, passing the cursor of each
page to the next request, while messages are added, edited and deleted.
-/

namespace ChatServer

open Library

/-- A change of the table of messages. -/
inductive MessageChange where
  | save (room sender text : Text)
  | edit (msgId : ℤ) (newText : Text)
  | delete (msgId : ℤ)
  deriving DecidableEq, Repr

def changeTable (db : Database) (input : Env × MessageChange) : Database :=
  match input.2 with
  | .save room sender text => (dbSaveMessage input.1 room sender text db).2
  | .edit msgId newText => dbEditMessage input.1 msgId newText db
  | .delete msgId => dbDeleteMessage input.1 msgId db

/-- The requests for the pages of a room, each with what happens to the table until the next one. -/
structure Requests where
  room : Text
  env : ℕ → Env
  limit : ℕ → Option Text
  changes : ℕ → List (Env × MessageChange)

namespace Requests

variable (q : Requests) (db : Database)

/-- The database at a request. -/
def dbAt : ℕ → Database
  | 0 => db
  | k + 1 => run changeTable (dbAt k) (q.changes k)

/-- The reply to a request that passes a cursor. -/
def load (k : ℕ) (cursor : ℤ) : List Message × ℤ :=
  dbLoadHistoryBefore (q.env k) q.room cursor (historyLimit (q.limit k)) (q.dbAt db k)

/-- The cursor a request passes: zero first, then the one returned with the last page. -/
def cursor : ℕ → ℤ
  | 0 => 0
  | k + 1 => (q.load db k (cursor k)).2

def page (k : ℕ) : List Message := (q.load db k (q.cursor db k)).1

/-- The pages up to the first empty one hold each row of the room once, in order. -/
structure Complete (N : ℕ) : Prop where
  empty : q.page db N = []
  nonempty : ∀ k < N, q.page db k ≠ []
  once : (List.range N).reverse.flatMap (fun k => (q.page db k).map Message.id) =
    (db.messages.ofRoom q.room).map MessageRow.id
  ordered : ∀ k < N, ((q.page db k).map Message.id).Pairwise (· < ·)
  below : ∀ k, k + 1 < N → ∀ m ∈ q.page db (k + 1), ∀ m' ∈ q.page db k, m.id < m'.id

end Requests

variable {q : Requests} {db : Database} {env : Env} {room room' sender text : Text} {msgId : ℤ}
  {k : ℕ}

/-- The ids of a room's rows, in order. -/
def Messages.roomIds (t : Messages) (room : Text) : List ℤ := (t.ofRoom room).map MessageRow.id

theorem roomIds_sorted (t : Messages) (room : Text) : (t.roomIds room).Pairwise (· < ·) :=
  List.pairwise_map.mpr (t.sorted.sublist List.filter_sublist)

theorem le_seq_of_mem_roomIds {t : Messages} {id : ℤ} (h : id ∈ t.roomIds room) :
    id ≤ t.seq := by
  obtain ⟨row, hrow, rfl⟩ := List.mem_map.mp h
  exact t.ids row (List.mem_of_mem_filter hrow)

theorem roomIds_update {t : Messages} {p : MessageRow → Bool} {f : MessageRow → MessageRow}
    (hf : ∀ row, (f row).id = row.id) (hroom : ∀ row, (f row).room = row.room) :
    (t.update p f hf).roomIds room = t.roomIds room := by
  have hkeep (row : MessageRow) : (if p row then f row else row).room = row.room ∧
      (if p row then f row else row).id = row.id := by
    split_ifs
    · exact ⟨hroom row, hf row⟩
    · exact ⟨rfl, rfl⟩
  simp only [Messages.roomIds, Messages.ofRoom, Messages.update, List.filter_map, List.map_map,
    Function.comp_def, hkeep]

theorem roomIds_changeTable (db : Database) (input : Env × MessageChange) (room : Text) :
    ∃ new, (changeTable db input).messages.roomIds room = db.messages.roomIds room ++ new ∧
      (∀ id ∈ new, db.messages.seq < id) ∧
      db.messages.seq ≤ (changeTable db input).messages.seq := by
  obtain ⟨env, change⟩ := input
  have hkept {t : Messages} (hids : t.roomIds room = db.messages.roomIds room)
      (hseq : t.seq = db.messages.seq) : ∃ new, t.roomIds room = db.messages.roomIds room ++ new ∧
        (∀ id ∈ new, db.messages.seq < id) ∧ db.messages.seq ≤ t.seq :=
    ⟨[], by rw [hids, List.append_nil], by simp, hseq.ge⟩
  cases change with
  | save room' sender text =>
    simp only [changeTable, dbSaveMessage]
    split
    · simp only [Messages.roomIds, Messages.ofRoom, Messages.insert, List.filter_append,
        List.map_append]
      refine ⟨_, rfl, fun id hid => ?_, by omega⟩
      obtain ⟨row, hrow, rfl⟩ := List.mem_map.mp hid
      obtain rfl := List.mem_singleton.mp (List.mem_of_mem_filter hrow)
      simp only
      omega
    · exact hkept rfl rfl
  | edit msgId newText =>
    simp only [changeTable, dbEditMessage]
    split_ifs
    · exact hkept rfl rfl
    · split
      · refine hkept ?_ rfl
        apply roomIds_update <;> exact fun _ => rfl
      · exact hkept rfl rfl
  | delete msgId =>
    simp only [changeTable, dbDeleteMessage]
    split_ifs
    · exact hkept rfl rfl
    · split
      · refine hkept ?_ rfl
        apply roomIds_update <;> exact fun _ => rfl
      · exact hkept rfl rfl

theorem filter_roomIds_run (inputs : List (Env × MessageChange)) {c : ℤ}
    (hc : c ≤ db.messages.seq) :
    ((run changeTable db inputs).messages.roomIds room).filter (· < c) =
      (db.messages.roomIds room).filter (· < c) := by
  induction inputs generalizing db with
  | nil => rfl
  | cons input inputs ih =>
    obtain ⟨new, hids, hnew, hseq⟩ := roomIds_changeTable db input room
    have hnone : new.filter (· < c) = [] := by
      refine List.filter_eq_nil_iff.mpr fun id hid => ?_
      rw [decide_eq_true_eq, not_lt]
      exact hc.trans (hnew id hid).le
    rw [run_cons, ih (hc.trans hseq), hids, List.filter_append, hnone, List.append_nil]

theorem historyLimit_pos (s : Option Text) : 0 < historyLimit s := by
  unfold historyLimit
  simp only
  split_ifs <;> omega

/-- The ids of the rows of a room that a cursor leaves. -/
def idsBefore (cursor : ℤ) (ids : List ℤ) : List ℤ :=
  ids.filter fun id => cursor ≤ 0 ∨ id < cursor

theorem dbLoadHistoryBefore_ids (hsql : env.sql .loadHistoryBefore = .done) (room : Text)
    (cursor : ℤ) {limit : ℕ} (hpos : 0 < limit) (hle : limit ≤ 100) (db : Database) :
    let ids := (idsBefore cursor (db.messages.roomIds room)).rtake limit
    (dbLoadHistoryBefore env room cursor limit db).1.map Message.id = ids ∧
      (dbLoadHistoryBefore env room cursor limit db).2 = ids.head?.getD 0 := by
  have hids : ((((db.messages.ofRoom room).filter fun r => cursor ≤ 0 ∨ r.id < cursor).reverse.take
      limit).reverse.map MessageRow.load).map Message.id =
        (idsBefore cursor (db.messages.roomIds room)).rtake limit := by
    rw [← List.rtake_eq_reverse_take_reverse, List.map_map, map_rtake, idsBefore,
      Messages.roomIds, List.filter_map]
    rfl
  have htake (l : List MessageRow) : (l.take limit).take (min limit 256) = l.take limit := by
    rw [List.take_take]
    congr 1
    omega
  simp only [dbLoadHistoryBefore_eq, if_neg hpos.ne', hsql, Sql.rows_done, htake]
  refine ⟨hids, ?_⟩
  simp only [← hids, List.head?_map]

/-- What the pages before a request leave of the ids of the room. -/
def Requests.left (q : Requests) (db : Database) (k : ℕ) : List ℤ :=
  leftover (db.messages.roomIds q.room) (fun j => historyLimit (q.limit j)) k

/-- Until nothing is left, the cursor of a request leaves what the pages before it do. -/
theorem idsBefore_cursor (hsql : ∀ k, (q.env k).sql .loadHistoryBefore = .done)
    (hids : ∀ row ∈ db.messages.rows, 0 < row.id) (hleft : ∀ j < k, q.left db j ≠ []) :
    idsBefore (q.cursor db k) ((q.dbAt db k).messages.roomIds q.room) = q.left db k := by
  induction k with
  | zero =>
    refine List.filter_eq_self.mpr fun id _ => ?_
    exact decide_eq_true (.inl le_rfl)
  | succ k ih =>
    have ih := ih fun j hj => hleft j (Nat.lt_succ_of_lt hj)
    have hload := (dbLoadHistoryBefore_ids (hsql k) q.room (q.cursor db k)
      (historyLimit_pos (q.limit k)) (historyLimit_le _) (q.dbAt db k)).2
    rw [ih] at hload
    obtain ⟨c, hc⟩ : ∃ c, ((q.left db k).rtake (historyLimit (q.limit k))).head? = some c := by
      have hlen := length_rtake (l := q.left db k) (n := historyLimit (q.limit k))
      have hsome := List.length_pos_of_ne_nil (hleft k (Nat.lt_succ_self k))
      have hlimit := historyLimit_pos (q.limit k)
      cases hpage : (q.left db k).rtake (historyLimit (q.limit k)) with
      | nil =>
        rw [hpage, List.length_nil] at hlen
        omega
      | cons c rest => exact ⟨c, rfl⟩
    have hcursor : q.cursor db (k + 1) = c := by
      rw [hc] at hload
      exact hload
    have hcleft : c ∈ q.left db k := mem_of_mem_rtake (List.mem_of_mem_head? hc)
    have hpos : 0 < c := by
      have hroom := (leftover_isPrefix (Nat.zero_le k)).subset hcleft
      obtain ⟨row, hrow, rfl⟩ := List.mem_map.mp hroom
      exact hids row (List.mem_of_mem_filter hrow)
    have hmem : c ∈ idsBefore (q.cursor db k) ((q.dbAt db k).messages.roomIds q.room) := by
      rw [ih]
      exact hcleft
    obtain ⟨hrow, hbefore⟩ := List.mem_filter.mp hmem
    have hseq := le_seq_of_mem_roomIds hrow
    have hkeep : ((q.dbAt db (k + 1)).messages.roomIds q.room).filter (· < c) =
        (idsBefore (q.cursor db k) ((q.dbAt db k).messages.roomIds q.room)).filter (· < c) := by
      rw [Requests.dbAt, filter_roomIds_run _ hseq, idsBefore, List.filter_filter]
      refine List.filter_congr fun id _ => ?_
      have hbefore := of_decide_eq_true hbefore
      rw [Bool.eq_iff_iff, Bool.and_eq_true, decide_eq_true_eq, decide_eq_true_eq]
      omega
    have hbelow : ∀ ids : List ℤ, idsBefore c ids = ids.filter (· < c) := by
      refine fun ids => List.filter_congr fun id _ => ?_
      rw [Bool.eq_iff_iff, decide_eq_true_eq, decide_eq_true_eq]
      omega
    have hsorted : (q.left db k).Pairwise (· < ·) :=
      (roomIds_sorted db.messages q.room).sublist (leftover_isPrefix (Nat.zero_le k)).sublist
    rw [hcursor, hbelow, hkeep, ih, filter_lt_head hsorted hc]
    rfl

theorem page_ids (hsql : ∀ k, (q.env k).sql .loadHistoryBefore = .done)
    (hids : ∀ row ∈ db.messages.rows, 0 < row.id) (hleft : ∀ j < k, q.left db j ≠ []) :
    (q.page db k).map Message.id = (q.left db k).rtake (historyLimit (q.limit k)) := by
  rw [← idsBefore_cursor hsql hids hleft]
  exact (dbLoadHistoryBefore_ids (hsql k) q.room _ (historyLimit_pos _) (historyLimit_le _) _).1

/--
Reading a room of a table with positive ids page by page ends, and the pages
together hold each row that the room had at the first request once, in the order
of the ids.
-/
theorem history_pages_complete (q : Requests) (db : Database)
    (hids : ∀ row ∈ db.messages.rows, 0 < row.id)
    (hsql : ∀ k, (q.env k).sql .loadHistoryBefore = .done) : ∃ N, q.Complete db N := by
  have hlimit : ∀ k, 0 < historyLimit (q.limit k) := fun k => historyLimit_pos _
  have hsorted := roomIds_sorted db.messages q.room
  obtain ⟨N, hend, hleft⟩ : ∃ N, q.left db N = [] ∧ ∀ k < N, q.left db k ≠ [] :=
    exists_leftover_eq_nil hlimit
  have hpage : ∀ k ≤ N, (q.page db k).map Message.id =
      (q.left db k).rtake (historyLimit (q.limit k)) :=
    fun k hk => page_ids hsql hids fun j hj => hleft j (by omega)
  refine ⟨N, ?_, ?_, ?_, ?_, ?_⟩
  · have hnil := hpage N le_rfl
    rw [hend, List.rtake_nil] at hnil
    exact List.map_eq_nil_iff.mp hnil
  · intro k hk hnil
    have hlen := congrArg List.length (hpage k hk.le)
    rw [hnil, List.map_nil, List.length_nil, length_rtake] at hlen
    have hsome := List.length_pos_of_ne_nil (hleft k hk)
    have := hlimit k
    omega
  · have hall := leftover_append (db.messages.roomIds q.room)
      (fun j => historyLimit (q.limit j)) N
    change q.left db N ++ _ = _ at hall
    rw [hend, List.nil_append] at hall
    refine Eq.trans ?_ hall
    simp only [List.flatMap_def]
    congr 1
    refine List.map_congr_left fun k hk => hpage k ?_
    have := List.mem_range.mp (List.mem_reverse.mp hk)
    omega
  · intro k hk
    rw [hpage k hk.le]
    exact hsorted.sublist
      ((List.drop_sublist _ _).trans (leftover_isPrefix (Nat.zero_le k)).sublist)
  · intro k hk m hm m' hm'
    have h₁ := List.mem_map_of_mem (f := Message.id) hm
    have h₂ := List.mem_map_of_mem (f := Message.id) hm'
    rw [hpage _ (by omega)] at h₁ h₂
    exact page_lt_page hsorted (Nat.lt_succ_self k) h₁ h₂

/-- Two messages read one at a time, the older edited and a third added after the first page. -/
theorem history_pages_complete_pair :
    let env : Env := .calm 0 0 []
    let save (text : String) : Env × MessageChange :=
      (env, .save "lounge".toList "bob".toList text.toList)
    let q : Requests :=
      { room := "lounge".toList
        env := fun _ => env
        limit := fun _ => some "1".toList
        changes := fun _ => [(env, .edit 1 "ho".toList), save "late"] }
    ∃ N, q.Complete (run changeTable .empty [save "hi", save "hey"]) N :=
  history_pages_complete _ _ (by decide +kernel) fun _ => rfl

end ChatServer
