import ChatServer.Access.RateLimit
import ChatServer.History.Archive
import ChatServer.Replies.OneLine

/-! # How fast a client can send

The bucket of a client object is filled when the object is made, drawn from by
MSG and PM only, and touched by nothing else that any client or event does. So
as long as a login lasts, its messages come no faster than the bucket allows.
-/

namespace ChatServer

open Library World

variable {env : Env} {w w' : World} {e : Event} {command : Cmd} {conn : Conn} {me c c' : ClientPtr}
  {r room : RoomPtr} {reg reg' reg'' : Registry} {db : Database} {n text : Text} {fd : Fd}
  {inputs pre mid : List (Env × Event)} {b : Bucket ℚ} {t : ℚ}

/-! ## Registry operations -/

/-- The buckets stay as they are, and no client is added. -/
structure KeepsBuckets (reg reg' : Registry) : Prop where
  bucket : ∀ c, (reg'.clients c).bucket = (reg.clients c).bucket
  listed : reg'.clientList ⊆ reg.clientList

/-- The bucket of a client that has been made just now. -/
def fullBucket (env : Env) : Bucket ℚ := ⟨rateBucketMax, env.monotonic.time⟩

/-- Clients are as before, or new with a full bucket. -/
def Refills (env : Env) (reg reg' : Registry) : Prop :=
  ∀ c, ((reg'.clients c).bucket = (reg.clients c).bucket ∧
      (c ∈ reg'.clientList → c ∈ reg.clientList)) ∨
    (c ∉ reg.clientList ∧ (reg'.clients c).bucket = fullBucket env)

namespace KeepsBuckets

theorem of_eq (h : reg' = reg) : KeepsBuckets reg reg' := h ▸ ⟨fun _ => rfl, fun _ h => h⟩

theorem of_clients (hclients : reg'.clients = reg.clients)
    (hlist : reg'.clientList = reg.clientList) : KeepsBuckets reg reg' :=
  ⟨fun c => by rw [hclients], fun c hc => hlist ▸ hc⟩

theorem trans (h : KeepsBuckets reg reg') (h' : KeepsBuckets reg' reg'') :
    KeepsBuckets reg reg'' :=
  ⟨fun c => (h'.bucket c).trans (h.bucket c), fun _ hc => h.listed (h'.listed hc)⟩

theorem refills (h : KeepsBuckets reg reg') : Refills env reg reg' :=
  fun c => .inl ⟨h.bucket c, fun hc => h.listed hc⟩

theorem modifyClient {f : Client → Client} (h : ∀ client, (f client).bucket = client.bucket) :
    KeepsBuckets reg (reg.modifyClient c f) := by
  refine ⟨fun c' => ?_, fun _ hc => hc⟩
  rcases eq_or_ne c' c with rfl | hne
  · simp [h]
  · simp [hne]

theorem setCurrentRoom {o : Option RoomPtr} : KeepsBuckets reg (reg.setCurrentRoom c o) :=
  modifyClient fun _ => rfl

theorem modifyRoom {f : Room → Room} : KeepsBuckets reg (reg.modifyRoom r f) :=
  of_clients rfl rfl

theorem roomRemoveMember : KeepsBuckets reg (roomRemoveMember (some r) (some c) reg).2 := by
  rw [roomRemoveMember_snd]
  exact modifyRoom

theorem roomAddMember : KeepsBuckets reg (roomAddMember (some r) (some c) reg).2 := by
  unfold ChatServer.roomAddMember
  simp only
  split_ifs
  · exact of_eq rfl
  · exact of_eq rfl
  · exact of_clients rfl rfl

theorem roomDeleteIfEmpty : KeepsBuckets reg (roomDeleteIfEmpty r reg) := by
  refine of_clients roomDeleteIfEmpty_clients ?_
  unfold ChatServer.roomDeleteIfEmpty deleteRoom
  simp only
  split_ifs <;> rfl

theorem deleteClient : KeepsBuckets reg (deleteClient (some c) reg).2 := by
  rw [deleteClient_snd]
  exact ⟨fun _ => rfl, fun _ hc => List.mem_of_mem_erase hc⟩

theorem acceptLeave : KeepsBuckets reg (acceptLeave me reg) := by
  unfold ChatServer.acceptLeave
  split
  · exact of_eq rfl
  · exact roomRemoveMember.trans setCurrentRoom

theorem moveTo : KeepsBuckets reg (moveTo me r reg) :=
  acceptLeave.trans (roomAddMember.trans setCurrentRoom)

theorem createRoom {err : RoomErr} {o : Option RoomPtr}
    (h : createRoom env (some n) (some c) db reg = (err, o, reg')) : KeepsBuckets reg reg' := by
  by_cases herr : err = .ok
  · subst herr
    obtain ⟨r, -, -, -, -, rfl⟩ := createRoom_ok h
    exact of_clients rfl rfl
  · exact of_eq (createRoom_err herr h)

theorem roomAddHistory {sender : Text} :
    KeepsBuckets reg (roomAddHistory env r sender text db reg).2.2 := by
  by_cases h : (reg.rooms r).history.cap = 0
  · simp only [ChatServer.roomAddHistory, h, if_true]
    exact of_eq rfl
  · simp only [ChatServer.roomAddHistory, h, if_false]
    exact modifyRoom

theorem roomEditMessage {msgId : ℤ} {requester : Text} {res : ChangeResult} {db' : Database}
    (h : roomEditMessage env r msgId requester text db reg = (res, db', reg')) :
    KeepsBuckets reg reg' := by
  unfold ChatServer.roomEditMessage at h
  split at h <;> cases h
  · exact modifyRoom
  · exact of_eq rfl

theorem roomDeleteMessage {msgId : ℤ} {requester : Text} {isAdmin : Bool} {res : ChangeResult}
    {db' : Database}
    (h : roomDeleteMessage env r msgId requester isAdmin db reg = (res, db', reg')) :
    KeepsBuckets reg reg' := by
  unfold ChatServer.roomDeleteMessage at h
  split at h <;> cases h
  · exact modifyRoom
  · exact of_eq rfl

end KeepsBuckets

theorem refills_of_create {check : Bool} {err : ClientErr} {o : Option ClientPtr}
    (h : createClientWith env check fd n reg = (err, o, reg')) : Refills env reg reg' := by
  by_cases herr : err = .ok
  · subst herr
    obtain ⟨c, -, hfree, -, rfl⟩ := createClientWith_ok h
    intro c'
    rcases eq_or_ne c' c with rfl | hne
    · exact .inr ⟨hfree, by simp [Client.bucket, newClient, fullBucket]⟩
    · exact .inl ⟨by simp [hne], fun hc => by simpa [hne] using hc⟩
  · rw [(createClientWith_err herr h).2]
    exact (KeepsBuckets.of_eq rfl).refills

theorem refills_of_replace {err : ClientErr} {o : Option ClientPtr}
    (h : replaceClient env fd n reg = (err, o, reg')) : Refills env reg reg' := by
  rw [replaceClient_eq] at h
  exact refills_of_create h

/-! ## Commands that keep the buckets -/

theorem handleRegister_refills : Refills env w.reg (handleRegister env command conn w).reg := by
  have hkeep : Refills env w.reg w.reg := (KeepsBuckets.of_eq rfl).refills
  unfold handleRegister
  split_ifs
  · exact hkeep
  · split
    · split
      · exact hkeep
      · exact hkeep
      · split_ifs
        · exact hkeep
        · split
          · rename_i hcreate
            rw [grantSession_reg]
            exact refills_of_create hcreate
          · rename_i hcreate
            exact refills_of_create hcreate
    · exact hkeep

theorem handleLogin_refills : Refills env w.reg (handleLogin env command conn w).reg := by
  have hkeep : Refills env w.reg w.reg := (KeepsBuckets.of_eq rfl).refills
  unfold handleLogin
  split_ifs
  · exact hkeep
  · split
    · split
      · exact hkeep
      · exact hkeep
      · exact hkeep
      · split
        · rename_i hcreate
          rw [grantSession_reg]
          exact refills_of_replace hcreate
        · rename_i hcreate
          exact refills_of_replace hcreate
    · exact hkeep

theorem handleReconnect_refills : Refills env w.reg (handleReconnect env command conn w).reg := by
  have hkeep : Refills env w.reg w.reg := (KeepsBuckets.of_eq rfl).refills
  unfold handleReconnect
  split_ifs
  · exact hkeep
  · split
    · exact hkeep
    · split
      · exact hkeep
      · exact hkeep
      · exact hkeep
      · split_ifs
        · exact hkeep
        · split
          · rename_i hcreate
            rw [grantSession_reg]
            exact refills_of_replace hcreate
          · rename_i hcreate
            exact refills_of_replace hcreate

theorem handleCreate_buckets : KeepsBuckets w.reg (handleCreate env command conn me w).reg := by
  unfold handleCreate
  split
  · exact .of_eq rfl
  · split
    · rename_i room reg hcreate
      obtain ⟨r, rfl, -⟩ := createRoom_ok hcreate
      have hadd : KeepsBuckets reg (roomAddMember (some r) (some me) reg).2 := .roomAddMember
      split
      · rename_i reg' heq
        rw [heq] at hadd
        exact (KeepsBuckets.createRoom hcreate).trans (hadd.trans .setCurrentRoom)
      · rename_i reg' _ heq
        rw [heq] at hadd
        exact (KeepsBuckets.createRoom hcreate).trans hadd
    · rename_i hcreate
      exact .createRoom hcreate

theorem handleCreatePrivate_buckets :
    KeepsBuckets w.reg (handleCreatePrivate env command conn me w).reg := by
  unfold handleCreatePrivate
  split
  · exact .of_eq rfl
  · split
    · rename_i room reg hcreate
      obtain ⟨r, rfl, -⟩ := createRoom_ok hcreate
      have hadd : KeepsBuckets reg (roomAddMember (some r) (some me) reg).2 := .roomAddMember
      split
      · rename_i reg' heq
        rw [heq] at hadd
        exact (KeepsBuckets.createRoom hcreate).trans (hadd.trans .setCurrentRoom)
      · rename_i reg' heq
        rw [heq] at hadd
        exact (KeepsBuckets.createRoom hcreate).trans hadd
    · rename_i hcreate
      exact .createRoom hcreate
    · rename_i hcreate
      exact .createRoom hcreate

theorem joinLeave_buckets : KeepsBuckets w.reg (joinLeave conn me w).reg := by
  unfold joinLeave
  split
  · exact .of_eq rfl
  · rename_i old _
    have hremove : KeepsBuckets w.reg (roomRemoveMember (some old) (some me) w.reg).2 :=
      .roomRemoveMember
    split
    · rename_i reg heq
      rw [heq] at hremove
      exact hremove.trans .setCurrentRoom
    · rename_i reg _ heq
      rw [heq] at hremove
      exact hremove

theorem handleJoin_buckets : KeepsBuckets w.reg (handleJoin command conn me w).reg := by
  unfold handleJoin
  split
  · exact .of_eq rfl
  · simp only
    split
    · rename_i room _
      have hadd : KeepsBuckets (joinLeave conn me w).reg
          (roomAddMember (some room) (some me) (joinLeave conn me w).reg).2 := .roomAddMember
      split
      · rename_i reg heq
        rw [heq] at hadd
        exact joinLeave_buckets.trans (hadd.trans .setCurrentRoom)
      · rename_i reg _ heq
        rw [heq] at hadd
        exact joinLeave_buckets.trans hadd
    · exact joinLeave_buckets

theorem handleLeave_buckets : KeepsBuckets w.reg (handleLeave conn me w).reg := by
  unfold handleLeave
  split
  · exact .of_eq rfl
  · rename_i room _
    have hremove : KeepsBuckets w.reg (roomRemoveMember (some room) (some me) w.reg).2 :=
      .roomRemoveMember
    split
    · rename_i reg heq
      rw [heq] at hremove
      exact hremove.trans (.trans .setCurrentRoom .roomDeleteIfEmpty)
    · rename_i reg _ heq
      rw [heq] at hremove
      exact hremove

theorem handleKick_buckets : KeepsBuckets w.reg (handleKick command conn me w).reg := by
  unfold handleKick
  split
  · exact .of_eq rfl
  · rename_i room _
    split_ifs
    · exact .of_eq rfl
    · split
      · exact .of_eq rfl
      · split_ifs
        · exact .of_eq rfl
        · split
          · exact .of_eq rfl
          · rename_i target _
            split_ifs
            · exact .of_eq rfl
            · have hremove : KeepsBuckets w.reg
                  (roomRemoveMember (some room) (some target) w.reg).2 := .roomRemoveMember
              split
              · rename_i reg heq
                rw [heq] at hremove
                exact hremove.trans (.trans .setCurrentRoom .roomDeleteIfEmpty)
              · rename_i reg _ heq
                rw [heq] at hremove
                exact hremove

theorem handlePromote_buckets : KeepsBuckets w.reg (handlePromote command conn me w).reg := by
  unfold handlePromote
  split
  · exact .of_eq rfl
  · split_ifs
    · exact .of_eq rfl
    · split
      · exact .of_eq rfl
      · split
        · exact .of_eq rfl
        · split_ifs
          · exact .of_eq rfl
          · exact .of_clients rfl rfl

theorem handleEdit_buckets : KeepsBuckets w.reg (handleEdit env command conn me w).reg := by
  unfold handleEdit
  split
  · exact .of_eq rfl
  · split
    · simp only
      split_ifs
      · exact .of_eq rfl
      · exact .of_eq rfl
      · split
        · rename_i hedit
          exact .roomEditMessage hedit
        · rename_i hedit
          exact .roomEditMessage hedit
    · exact .of_eq rfl

theorem handleDelete_buckets : KeepsBuckets w.reg (handleDelete env command conn me w).reg := by
  unfold handleDelete
  split
  · exact .of_eq rfl
  · split
    · exact .of_eq rfl
    · simp only
      split_ifs
      · exact .of_eq rfl
      · split
        · rename_i hdelete
          exact .roomDeleteMessage hdelete
        · rename_i hdelete
          exact .roomDeleteMessage hdelete

theorem handleStatus_buckets : KeepsBuckets w.reg (handleStatus command conn me w).reg := by
  unfold handleStatus
  split
  · exact .of_eq rfl
  · split
    · exact .of_eq rfl
    · have hset {status : PresenceStatus} :
          KeepsBuckets w.reg (w.reg.modifyClient me fun client => { client with status }) :=
        .modifyClient fun _ => rfl
      simp only
      split
      · exact hset
      · split_ifs
        · exact hset
        · exact hset

theorem leaveLastRoom_buckets : KeepsBuckets w.reg (leaveLastRoom conn me w).reg := by
  unfold leaveLastRoom
  split
  · exact .of_eq rfl
  · exact .trans .roomRemoveMember (.trans .setCurrentRoom .roomDeleteIfEmpty)

theorem handleLogout_buckets : KeepsBuckets w.reg (handleLogout conn me w).reg :=
  leaveLastRoom_buckets.trans .deleteClient

theorem handleLogoutAll_buckets : KeepsBuckets w.reg (handleLogoutAll env conn me w).reg :=
  leaveLastRoom_buckets.trans .deleteClient

theorem evictBanned_buckets {target : Text} :
    KeepsBuckets w.reg (evictBanned room target w).reg := by
  unfold evictBanned
  split
  · exact .of_eq rfl
  · split_ifs
    · exact .trans .roomRemoveMember .setCurrentRoom
    · exact .of_eq rfl

theorem handleBan_buckets : KeepsBuckets w.reg (handleBan env command conn me w).reg := by
  unfold handleBan
  split
  · exact .of_eq rfl
  · rename_i room _
    simp only
    split_ifs
    · exact .of_eq rfl
    · split
      · exact .of_eq rfl
      · rename_i target _
        split
        · rename_i db _
          exact evictBanned_buckets (w := { w with db })
        · exact .of_eq rfl

theorem handleAccept_buckets : KeepsBuckets w.reg (handleAccept env command conn me w).reg := by
  unfold handleAccept
  split
  · exact .of_eq rfl
  · simp only
    split_ifs
    · exact .of_eq rfl
    · split
      · exact .of_eq rfl
      · rename_i room _
        exact .moveTo

/-! ## Commands that draw on the bucket -/

/-- A message is sent, to the room or to one client. -/
def sends (env : Env) (command : Cmd) (me : ClientPtr) (w : World) : Bool :=
  match command.type with
  | .msg => (messageOf env command me w).isSome
  | .pm => (privateOf env command me w).isSome
  | _ => false

/-- The event makes the client send a message. -/
def utters (env : Env) (w : World) (e : Event) (c : ClientPtr) : Bool :=
  match commandOf w e with
  | none => false
  | some (_, me, command) => me = c && sends env command me w

/-- What happens to a bucket: nothing, or a call that passes if a message is sent. -/
inductive Draw (b : Bucket ℚ) (t : ℚ) : Bool → Bucket ℚ → Prop
  | idle : Draw b t false b
  | call {sent : Bool}
      (paid : sent → (b.call rateBucketMax rateRefillRate rateMsgCost t).1) :
      Draw b t sent (b.call rateBucketMax rateRefillRate rateMsgCost t).2

/-- A command draws on the bucket of its client only, and sends nothing unpaid. -/
def Draws (env : Env) (me : ClientPtr) (sent : Bool) (reg reg' : Registry) : Prop :=
  reg'.clientList ⊆ reg.clientList ∧ ∀ c, Draw (reg.clients c).bucket env.monotonic.time
    (me = c && sent) (reg'.clients c).bucket

theorem KeepsBuckets.draws (h : KeepsBuckets reg reg') : Draws env me false reg reg' :=
  ⟨h.listed, fun c => by rw [h.bucket c, Bool.and_false]; exact .idle⟩

theorem draws_of_check {ok sent : Bool} (hrate : rateLimitCheck env me reg = (ok, reg'))
    (h : KeepsBuckets reg' reg'') (hsent : sent → ok) : Draws env me sent reg reg'' := by
  have hcall := rateLimitCheck_call env me reg
  rw [hrate] at hcall
  obtain ⟨hok, hbucket⟩ := Prod.mk.inj hcall
  have hlist : reg'.clientList = reg.clientList := by
    have hkeep : rosterOf reg' .empty = rosterOf reg .empty := rosterOf_rateLimitCheck hrate
    exact congrArg Roster.clients hkeep
  refine ⟨fun c hc => hlist ▸ h.listed hc, fun c => ?_⟩
  rw [h.bucket c]
  rcases eq_or_ne me c with rfl | hne
  · rw [hbucket, decide_eq_true rfl, Bool.true_and]
    exact .call fun hs => hok ▸ hsent hs
  · have hother : (reg'.clients c).bucket = (reg.clients c).bucket := by
      unfold rateLimitCheck at hrate
      simp only at hrate
      split_ifs at hrate <;> cases hrate <;> simp [hne.symm]
    rw [hother, decide_eq_false hne, Bool.false_and]
    exact .idle

theorem handleMsg_draws : Draws env me (messageOf env command me w).isSome w.reg
    (handleMsg env command conn me w).reg := by
  unfold handleMsg messageOf
  cases hcur : (w.client me).currentRoom with
  | none => exact (KeepsBuckets.of_eq rfl).draws
  | some room =>
    rcases hrate : rateLimitCheck env me w.reg with ⟨ok, reg⟩
    cases h₁ : command.arg1 with
    | none => cases ok <;> exact draws_of_check hrate (.of_eq rfl) (by simp)
    | some text =>
      cases ok with
      | false => exact draws_of_check hrate (.of_eq rfl) (by simp)
      | true =>
        simp only
        split_ifs
        · exact draws_of_check hrate (.of_eq rfl) (by simp)
        · exact draws_of_check hrate .roomAddHistory (by simp)
        · exact draws_of_check hrate .roomAddHistory (by simp)

theorem handlePm_draws : Draws env me (privateOf env command me w).isSome w.reg
    (handlePm env command conn me w).reg := by
  unfold handlePm privateOf
  cases h₁ : command.arg1 with
  | none => exact (KeepsBuckets.of_eq rfl).draws
  | some targetName =>
    cases h₂ : command.arg2 with
    | none => exact (KeepsBuckets.of_eq rfl).draws
    | some text =>
      by_cases htext : text = []
      · simp only [htext, if_true, ne_eq, not_true_eq_false, false_and, if_false]
        exact (KeepsBuckets.of_eq rfl).draws
      · rcases hrate : rateLimitCheck env me w.reg with ⟨ok, reg⟩
        simp only [htext, if_false, ne_eq, not_false_eq_true, true_and]
        cases ok with
        | false => exact draws_of_check hrate (.of_eq rfl) (by simp)
        | true =>
          simp only [findClient_rateLimitCheck hrate]
          cases (findClient (some targetName) w.reg).2 with
          | none => exact draws_of_check hrate (.of_eq rfl) (by simp)
          | some target => exact draws_of_check hrate (.of_eq rfl) (by simp)

theorem dispatch_draws (hme : conn.me = some me) :
    Draws env me (sends env command me w) w.reg (dispatch env command conn me w).reg := by
  have hkeep (h : KeepsBuckets w.reg (dispatch env command conn me w).reg)
      (ht : sends env command me w = false) :
      Draws env me (sends env command me w) w.reg (dispatch env command conn me w).reg :=
    ht ▸ h.draws
  have hrefused : conn.me ≠ none := by simp [hme]
  unfold dispatch sends at *
  cases ht : command.type with
  | msg => simpa only [ht] using handleMsg_draws
  | pm => simpa only [ht] using handlePm_draws
  | register => exact (KeepsBuckets.of_eq (by simp [handleRegister, hrefused])).draws
  | login => exact (KeepsBuckets.of_eq (by simp [handleLogin, hrefused])).draws
  | reconnect => exact (KeepsBuckets.of_eq (by simp [handleReconnect, hrefused])).draws
  | invalid | rooms | sessions => exact (KeepsBuckets.of_eq rfl).draws
  | create => exact handleCreate_buckets.draws
  | join => exact handleJoin_buckets.draws
  | leave => exact handleLeave_buckets.draws
  | kick => exact handleKick_buckets.draws
  | promote => exact handlePromote_buckets.draws
  | edit => exact handleEdit_buckets.draws
  | delete => exact handleDelete_buckets.draws
  | history => exact (KeepsBuckets.of_eq handleHistory_reg).draws
  | status => exact handleStatus_buckets.draws
  | who => exact (KeepsBuckets.of_eq handleWho_reg).draws
  | logout => exact handleLogout_buckets.draws
  | logoutAll => exact handleLogoutAll_buckets.draws
  | revokeSession => exact (KeepsBuckets.of_eq handleRevokeSession_reg).draws
  | read => exact (KeepsBuckets.of_eq handleRead_reg).draws
  | typing => exact (KeepsBuckets.of_eq handleTyping_reg).draws
  | stopTyping => exact (KeepsBuckets.of_eq handleStopTyping_reg).draws
  | block => exact (KeepsBuckets.of_eq handleBlock_reg).draws
  | unblock => exact (KeepsBuckets.of_eq handleUnblock_reg).draws
  | mute => exact (KeepsBuckets.of_eq handleMute_reg).draws
  | unmute => exact (KeepsBuckets.of_eq handleUnmute_keeps).draws
  | ban => exact handleBan_buckets.draws
  | demote => exact (KeepsBuckets.of_eq handleDemote_reg).draws
  | createPrivate => exact handleCreatePrivate_buckets.draws
  | invite => exact (KeepsBuckets.of_eq handleInvite_reg).draws
  | accept => exact handleAccept_buckets.draws
  | decline => exact (KeepsBuckets.of_eq handleDecline_reg).draws

theorem dispatchAnonymous_refills :
    Refills env w.reg (dispatchAnonymous env command conn w).reg := by
  unfold dispatchAnonymous
  split
  · exact handleRegister_refills
  · exact handleLogin_refills
  · exact handleReconnect_refills
  · exact (KeepsBuckets.of_eq rfl).refills

/-! ## Steps and runs -/

theorem Draws.of_step {sent : Bool} {reg : Registry} (h : Draws env me sent w.reg reg)
    (hu : utters env w e c = (me = c && sent)) (hreg : (step w (env, e)).reg = reg)
    (hc : c ∈ (step w (env, e)).reg.clientList) :
    c ∈ w.reg.clientList ∧ Draw (w.client c).bucket env.monotonic.time (utters env w e c)
      ((step w (env, e)).client c).bucket := by
  rw [World.client, World.client, hreg, hu]
  exact ⟨h.1 (hreg ▸ hc), h.2 c⟩

theorem KeepsBuckets.of_step (h : KeepsBuckets w.reg (step w (env, e)).reg)
    (hu : utters env w e c = false) (hc : c ∈ (step w (env, e)).reg.clientList) :
    c ∈ w.reg.clientList ∧ Draw (w.client c).bucket env.monotonic.time (utters env w e c)
      ((step w (env, e)).client c).bucket :=
  (h.draws : Draws env c false w.reg _).of_step (by simp [hu]) rfl hc

theorem anonymous_draw {conn : Conn} {text : Text} (hconn : w.conns.get conn.fd = some conn)
    (hme : conn.me = none) (hc : c ∈ (step w (env, .line conn.fd text)).reg.clientList) :
    (c ∉ w.reg.clientList ∧
        ((step w (env, .line conn.fd text)).client c).bucket = fullBucket env) ∨
      (c ∈ w.reg.clientList ∧
        Draw (w.client c).bucket env.monotonic.time (utters env w (.line conn.fd text) c)
          ((step w (env, .line conn.fd text)).client c).bucket) := by
  have hrefills : Refills env w.reg (step w (env, .line conn.fd text)).reg := by
    simp only [step, handleEvent, hconn, processLine, hme]
    split_ifs
    · exact (KeepsBuckets.of_eq rfl).refills
    · exact (KeepsBuckets.of_eq rfl).refills
    · exact dispatchAnonymous_refills (w := { w with out := [], broadcasts := [] })
  rcases hrefills c with ⟨hbucket, hlisted⟩ | ⟨hnew, hbucket⟩
  · refine .inr ⟨hlisted hc, ?_⟩
    have hu : utters env w (.line conn.fd text) c = false := by
      simp [utters, commandOf, hconn, hme]
    rw [World.client, World.client, hbucket, hu]
    exact .idle
  · exact .inl ⟨hnew, hbucket⟩

theorem command_draw {conn : Conn} {me : ClientPtr} {text : Text}
    (hconn : w.conns.get conn.fd = some conn) (hme : conn.me = some me)
    (hc : c ∈ (step w (env, .line conn.fd text)).reg.clientList) :
    c ∈ w.reg.clientList ∧
      Draw (w.client c).bucket env.monotonic.time (utters env w (.line conn.fd text) c)
        ((step w (env, .line conn.fd text)).client c).bucket := by
  have hu : utters env w (.line conn.fd text) c =
      (me = c && sends env (parseLine text) me w) := by
    simp [utters, commandOf, hconn, hme]
  have hsilent (ht : (parseLine text).type = .invalid) :
      utters env w (.line conn.fd text) c = false := by
    simp [hu, sends, ht]
  by_cases hhealth : (parseLine text).type = .invalid ∧
      (parseLine text).arg1 = some "HEALTH".toList
  · have hkept : KeepsBuckets w.reg (step w (env, .line conn.fd text)).reg :=
      .of_eq (by simp [step, handleEvent, hconn, processLine, hhealth])
    exact hkept.of_step (hsilent hhealth.1) hc
  by_cases hready : (parseLine text).type = .invalid ∧
      (parseLine text).arg1 = some "READY".toList
  · have hkept : KeepsBuckets w.reg (step w (env, .line conn.fd text)).reg :=
      .of_eq (by simp [step, handleEvent, hconn, processLine, hready])
    exact hkept.of_step (hsilent hready.1) hc
  have hdraws : Draws env me (sends env (parseLine text) me w) w.reg _ :=
    dispatch_draws (w := { w with out := [], broadcasts := [] }) hme
  refine hdraws.of_step hu ?_ hc
  simp only [step, handleEvent, hconn, processLine, hme, if_neg hhealth, if_neg hready]

/-- What a step does to a client that is listed after it. -/
theorem step_draw (hc : c ∈ (step w (env, e)).reg.clientList) :
    (c ∉ w.reg.clientList ∧ ((step w (env, e)).client c).bucket = fullBucket env) ∨
      (c ∈ w.reg.clientList ∧ Draw (w.client c).bucket env.monotonic.time (utters env w e c)
        ((step w (env, e)).client c).bucket) := by
  cases e with
  | accept fd ssl =>
    have hkept : KeepsBuckets w.reg (step w (env, .accept fd ssl)).reg := by
      refine .of_eq ?_
      simp only [step, handleEvent]
      split_ifs <;> rfl
    exact .inr (hkept.of_step rfl hc)
  | cleanup => exact .inr (KeepsBuckets.of_step (.of_eq rfl) rfl hc)
  | shutdown => exact .inr (KeepsBuckets.of_step (.of_eq rfl) rfl hc)
  | disconnect fd =>
    have hkept : KeepsBuckets w.reg (step w (env, .disconnect fd)).reg := by
      simp only [step, handleEvent]
      split
      · exact .of_eq rfl
      · simp only [disconnectCleanup]
        split
        · exact .of_eq rfl
        · exact (leaveLastRoom_buckets (w := { w with out := [], broadcasts := [] })).trans
            .deleteClient
    exact .inr (hkept.of_step rfl hc)
  | line fd text =>
    cases hconn : w.conns.get fd with
    | none =>
      have hkept : KeepsBuckets w.reg (step w (env, .line fd text)).reg :=
        .of_eq (by simp [step, handleEvent, hconn])
      exact .inr (hkept.of_step (by simp [utters, commandOf, hconn]) hc)
    | some conn =>
      obtain rfl := w.conns.fd_eq _ _ hconn
      cases hme : conn.me with
      | none => exact anonymous_draw hconn hme hc
      | some me => exact .inr (command_draw hconn hme hc)

/-- The bucket of every client is in bounds, and was last drawn from at a time of the run. -/
structure Bounded (times : List ℚ) (b : Bucket ℚ) : Prop where
  nonneg : 0 ≤ b.tokens
  last : b.last ∈ times

theorem Draw.bounded {sent : Bool} {b' : Bucket ℚ} {times : List ℚ} (h : Draw b t sent b')
    (hb : Bounded times b) (ht : ∀ s ∈ times, s ≤ t) : Bounded (times ++ [t]) b' := by
  cases h with
  | idle => exact ⟨hb.nonneg, List.mem_append_left _ hb.last⟩
  | call paid =>
    have hbounds := Bucket.call_bounds (by decide : 0 ≤ rateMsgCost) (by decide : 0 ≤ rateBucketMax)
      (by decide : 0 ≤ rateRefillRate) (ht _ hb.last) hb.nonneg
    exact ⟨hbounds.1, by simp⟩

/-- The time of an input. -/
def timeOf (input : Env × Event) : ℚ := input.1.monotonic.time

theorem run_bounded {cfg : Config} {start : ℤ} (inputs : List (Env × Event))
    (htimes : (inputs.map timeOf).Pairwise (· ≤ ·)) :
    ∀ c ∈ (run step (World.init cfg db start) inputs).reg.clientList,
      Bounded (inputs.map timeOf)
        ((run step (World.init cfg db start) inputs).client c).bucket := by
  induction inputs using List.reverseRecOn with
  | nil => exact fun c hc => absurd hc List.not_mem_nil
  | append_singleton inputs input ih =>
    obtain ⟨env, e⟩ := input
    rw [List.map_append, List.map_singleton] at htimes ⊢
    obtain ⟨hbefore, -, hlater⟩ := List.pairwise_append.mp htimes
    intro c hc
    rw [run_concat] at hc ⊢
    rcases step_draw hc with ⟨-, hnew⟩ | ⟨hold, hdraw⟩
    · rw [hnew]
      exact ⟨(by decide : (0 : ℚ) ≤ rateBucketMax), by simp [fullBucket, timeOf]⟩
    · exact hdraw.bounded (ih hbefore c hold) fun s hs => hlater s hs _ (List.mem_singleton_self _)

/-- The number of messages a client sends in the course of a run. -/
def uttered (c : ClientPtr) : World → List (Env × Event) → ℕ
  | _, [] => 0
  | w, input :: inputs =>
    (utters input.1 w input.2 c).toNat + uttered c (step w input) inputs

/-- The client is listed all along. -/
def Stays (c : ClientPtr) (w : World) (inputs : List (Env × Event)) : Prop :=
  Along step (fun w input => c ∈ w.reg.clientList ∧ c ∈ (step w input).reg.clientList) w inputs

/-- The messages of a login have been paid for by calls on its bucket. -/
theorem uttered_le_outcomes (h : Stays c w inputs) : ∃ ts, ts.Sublist (inputs.map timeOf) ∧
    uttered c w inputs ≤ ((w.client c).bucket.outcomes rateBucketMax rateRefillRate rateMsgCost
      ts).count true := by
  induction inputs generalizing w with
  | nil => exact ⟨[], .slnil, Nat.zero_le _⟩
  | cons input inputs ih =>
    obtain ⟨env, e⟩ := input
    obtain ⟨⟨hbefore, hafter⟩, hrest⟩ := h
    obtain ⟨ts, hts, hle⟩ := ih hrest
    rcases step_draw hafter with ⟨hnew, -⟩ | ⟨-, hdraw⟩
    · exact absurd hbefore hnew
    · generalize hu : utters env w e c = sent at hdraw
      generalize hb : ((step w (env, e)).client c).bucket = b' at hdraw hle
      simp only [uttered, hu]
      cases hdraw with
      | idle => exact ⟨ts, hts.cons _, by simpa using hle⟩
      | call paid =>
        refine ⟨env.monotonic.time :: ts, hts.cons_cons _, ?_⟩
        rw [Bucket.outcomes, List.count_cons]
        cases sent with
        | false => simp only [Bool.toNat_false]; omega
        | true => rw [paid rfl]; simp only [Bool.toNat_true, BEq.rfl, if_true]; omega

theorem le_getLastD {l : List ℚ} {s x : ℚ} (h : (s :: l).Pairwise (· ≤ ·)) (hx : x ∈ s :: l) :
    x ≤ l.getLastD s := by
  induction l generalizing s x with
  | nil => exact (List.mem_singleton.mp hx).le
  | cons s' l ih =>
    obtain ⟨hfirst, hrest⟩ := List.pairwise_cons.mp h
    rw [List.getLastD_cons]
    rcases List.mem_cons.mp hx with rfl | hx
    · exact (hfirst s' List.mem_cons_self).trans (ih hrest List.mem_cons_self)
    · exact ih hrest hx

/--
However long a login lasts and whatever anyone does meanwhile, it sends at most
as many messages, to rooms and to single clients together, as a full bucket
pays for and as are refilled between the first event and the last.
-/
theorem flood_limited {cfg : Config} {start : ℤ} {input : Env × Event}
    (htimes : ((pre ++ input :: mid).map timeOf).Pairwise (· ≤ ·))
    (hstay : Stays c (run step (World.init cfg db start) pre) (input :: mid)) :
    (uttered c (run step (World.init cfg db start) pre) (input :: mid) : ℚ) ≤
      rateBucketMax + (timeOf (mid.getLastD input) - timeOf input) * rateRefillRate := by
  rw [List.map_append] at htimes
  obtain ⟨hpre, hmid, hlater⟩ := List.pairwise_append.mp htimes
  have hbounded := run_bounded pre hpre c hstay.1.1
  have hfirst : ∀ x ∈ (input :: mid).map timeOf, timeOf input ≤ x := by
    intro x hx
    rcases List.mem_cons.mp hx with rfl | hx
    · exact le_rfl
    · exact (List.pairwise_cons.mp hmid).1 x hx
  have hlast : ∀ x ∈ (input :: mid).map timeOf, x ≤ timeOf (mid.getLastD input) := by
    intro x hx
    have hle := le_getLastD hmid hx
    rwa [List.getLastD_map] at hle
  obtain ⟨ts, hts, hle⟩ := uttered_le_outcomes hstay
  refine (Nat.cast_le.mpr hle).trans ?_
  cases ts with
  | nil =>
    have hspan : timeOf input ≤ timeOf (mid.getLastD input) :=
      hlast _ (List.mem_map_of_mem List.mem_cons_self)
    simp only [Bucket.outcomes, List.count_nil, rateBucketMax, rateRefillRate]
    push_cast
    linarith
  | cons t ts =>
    have hchain : (((run step (World.init cfg db start) pre).client c).bucket.last ::
        t :: ts).IsChain (· ≤ ·) :=
      (List.pairwise_cons.mpr ⟨fun s hs => hlater _ hbounded.last s (hts.subset hs),
        hmid.sublist hts⟩).isChain
    have hspent := Bucket.spent_le_cap (by decide : 0 ≤ rateMsgCost) (by decide : 0 ≤ rateBucketMax)
      (by decide : 0 ≤ rateRefillRate) hchain hbounded.nonneg
    have hmem : ts.getLastD t ∈ t :: ts := List.getLastD_mem_cons
    have hbegin := hfirst t (hts.subset List.mem_cons_self)
    have hend := hlast _ (hts.subset hmem)
    simp only [Bucket.spent, rateMsgCost, rateRefillRate, mul_one] at hspent ⊢
    linarith

/-- Alice, in the room she shares with Bob, sends five messages at once and no sixth. -/
theorem flood_limited_burst :
    (uttered 0 (run step (World.init ⟨16, 64, 16, 10⟩ .empty 0) sharedRoom)
      (List.replicate 6 (.calm 0 0 [], .line 4 "MSG hi".toList)) : ℚ) ≤ 5 := by
  have htimes : ((sharedRoom ++ List.replicate 6
      (Env.calm 0 0 [], Event.line 4 "MSG hi".toList)).map timeOf).Pairwise (· ≤ ·) := by
    decide +kernel
  have hstay : Stays 0 (run step (World.init ⟨16, 64, 16, 10⟩ .empty 0) sharedRoom)
      (List.replicate 6 (Env.calm 0 0 [], Event.line 4 "MSG hi".toList)) := by
    unfold Stays
    decide +kernel
  have hlimit := flood_limited htimes hstay
  simpa [timeOf, rateBucketMax] using hlimit

end ChatServer
