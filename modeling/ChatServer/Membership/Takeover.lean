import Mathlib.Algebra.Order.Archimedean.Basic
import Mathlib.Tactic.Linarith
import ChatServer.Membership.Identity

/-! # A new login takes over a name

LOGIN and RECONNECT admit a second client of a name, which is appended to the
client list. Commands look a name up from the front of the list, so that a
name stands for its oldest client: the new one is addressed only when no
older client of the name is left.
-/

namespace ChatServer

open Library World Roster

def pmClient (target : ClientPtr) (text : Text) (conn : Conn) (me : ClientPtr) (w : World) :
    World :=
  (w.rawSend [(w.client target).socketFd]
    [{ bytes := formatPmReply maxLineLen (w.client me).clientName text }]).replyOk conn okSent

def kickClient (target : ClientPtr) (n : Text) (room : RoomPtr) (conn : Conn) (w : World) :
    World :=
  if (w.client target).currentRoom ≠ some room then w.replyErr conn errUserNotInRoom
  else match roomRemoveMember (some room) (some target) w.reg with
  | (.ok, reg) =>
    let targetFd := (w.client target).socketFd
    let w₁ := { w with reg := reg.setCurrentRoom target none }.rawSend [targetFd]
      [{ bytes := formatErrReply maxLineLen okKicked }]
    let w₂ := (w₁.notice room n okKicked targetFd).replyOk conn okKicked
    { w₂ with reg := roomDeleteIfEmpty room w₂.reg }
  | (_, reg) => { w with reg }.replyErr conn errServerError

def promoteClient (target : ClientPtr) (n : Text) (room : RoomPtr) (conn : Conn) (w : World) :
    World :=
  if (w.client target).currentRoom ≠ some room then w.replyErr conn errUserNotInRoom
  else
    let w₁ := { w with reg := w.reg.setAdmin room target }.rawSend
      [(w.client target).socketFd] [{ bytes := formatOkReply maxLineLen okPromoted }]
    w₁.notice room n okPromoted (-1)

def banClient (target : ClientPtr) (room : RoomPtr) (conn : Conn) (w : World) : World :=
  World.replyOk conn okBanned <|
    if (w.client target).currentRoom = some room then
      let reg := (roomRemoveMember (some room) (some target) w.reg).2.setCurrentRoom target none
      { w with reg }.rawSend [(w.client target).socketFd]
        [{ bytes := formatErrReply maxLineLen okBanned }]
    else w

def inviteClient (target : ClientPtr) (room : RoomPtr) (conn : Conn) (me : ClientPtr)
    (w : World) : World :=
  let w := w.replyOk conn okInvited
  let line := lineOf [replyInvite, (w.client me).clientName, (w.room room).roomName]
  w.rawSend [(w.client target).socketFd] [{ bytes := snprintf maxLineLen line }]

/-- A client sends a command of some type that addresses a name. -/
structure Addresses (w : World) (type : CmdType) (command : Cmd) (conn : Conn) (me : ClientPtr)
    (n : Text) : Prop where
  hconn : w.conns.get conn.fd = some conn
  hme : conn.me = some me
  ht : command.type = type
  h₁ : command.arg1 = some n

/--
A name stands for a client: each command that addresses it, once the tests
before the lookup are passed, acts on that client.
-/
structure Stands (n : Text) (c : ClientPtr) (w : World) : Prop where
  pm {env : Env} {command : Cmd} {conn : Conn} {me : ClientPtr} {text : Text} {reg : Registry}
    (h : Addresses w .pm command conn me n) (h₂ : command.arg2 = some text) (filled : text ≠ [])
    (rate : rateLimitCheck env me w.reg = (true, reg)) :
    dispatch env command conn me w = pmClient c text conn me { w with reg }
  kick {env : Env} {command : Cmd} {conn : Conn} {me : ClientPtr} {room : RoomPtr}
    (h : Addresses w .kick command conn me n) (inside : (w.client me).currentRoom = some room)
    (admin : (w.room room).adminClient = some me) (other : n ≠ (w.client me).clientName) :
    dispatch env command conn me w = kickClient c n room conn w
  promote {env : Env} {command : Cmd} {conn : Conn} {me : ClientPtr} {room : RoomPtr}
    (h : Addresses w .promote command conn me n) (inside : (w.client me).currentRoom = some room)
    (admin : (w.room room).adminClient = some me) :
    dispatch env command conn me w = promoteClient c n room conn w
  ban {env : Env} {command : Cmd} {conn : Conn} {me : ClientPtr} {room : RoomPtr} {db : Database}
    (h : Addresses w .ban command conn me n) (inside : (w.client me).currentRoom = some room)
    (allowed : permissionCheck env (w.room room).roomName (w.client me).clientName .ban w.db)
    (added : banAdd env (w.room room).roomName (w.client me).clientName n w.db = (true, db)) :
    dispatch env command conn me w = banClient c room conn { w with db }
  invite {env : Env} {command : Cmd} {conn : Conn} {me : ClientPtr} {room : RoomPtr}
    {db : Database} (h : Addresses w .invite command conn me n)
    (inside : (w.client me).currentRoom = some room)
    (allowed : permissionCheck env (w.room room).roomName (w.client me).clientName .invite w.db)
    (user : dbUserExists env n w.db)
    (invited : inviteCreate env (w.room room).roomName (w.client me).clientName n w.db =
      (true, db)) :
    dispatch env command conn me w = inviteClient c room conn me { w with db }

/-- A LOGIN or RECONNECT on a connection succeeds, under a name and with a client. -/
def TakesOver (fd : Fd) (n : Text) (c : ClientPtr) (w : World) (input : Env × Event) : Prop :=
  (∃ text, input.2 = .line fd text ∧
    ((parseLine text).type = .login ∨ (parseLine text).type = .reconnect)) ∧
  w.roster.conns fd = some none ∧ (step w input).roster.conns fd = some (some c) ∧
  (step w input).roster.name c = n

/-- Some connection logs in under a name. -/
def LogsInAs (n : Text) (w : World) (input : Env × Event) : Prop :=
  ∃ fd c, w.roster.conns fd = some none ∧ (step w input).roster.conns fd = some (some c) ∧
    (step w input).roster.name c = n

namespace Roster

variable {R C N F : Type*} [DecidableEq N] {P : Act R C N F → Prop} {s t : Roster R C N F}
  {c : C} {n : N} {fd : F}

/-- The clients of a name, the oldest first. -/
def named (s : Roster R C N F) (n : N) : List C := s.clients.filter fun c => s.name c = n

/-- A connection is logged in as the newest client of a name. -/
structure Newest (s : Roster R C N F) (fd : F) (n : N) (c : C) : Prop where
  conn : s.conns fd = some (some c)
  last : ∃ older, s.named n = older ++ [c]

theorem Newest.mem (h : s.Newest fd n c) : c ∈ s.clients := by
  obtain ⟨older, h⟩ := h.last
  have hc : c ∈ s.named n := h ▸ List.mem_append_right older (List.mem_singleton_self c)
  exact List.mem_of_mem_filter hc

variable [DecidableEq R] [DecidableEq C] [DecidableEq F]

theorem named_login {fd' : F} {c' : C} {n' : N} (hc' : c' ∉ s.clients) :
    (s.apply (.login fd' c' n')).named n = s.named n ++ if n' = n then [c'] else [] := by
  have hsame : s.clients.filter (fun c => Function.update s.name c' n' c = n) = s.named n :=
    List.filter_congr fun c hc => by
      have hne : c ≠ c' := fun he => hc' (he ▸ hc)
      simp [hne]
  have hnew : [c'].filter (fun c => Function.update s.name c' n' c = n) =
      if n' = n then [c'] else [] := by
    simp [List.filter_cons]
  rw [named, Roster.apply, List.filter_append, hsame, hnew]

/-- The newest client of a name stays it along a path that neither ends nor renews the login. -/
theorem Newest.apply {a : Act R C N F} (h : s.Newest fd n c) (hs : s.Sound) (ha : s.Enabled a)
    (hout : a ≠ .logout fd c) (hin : ∀ fd' c', a ≠ .login fd' c' n) :
    (s.apply a).Newest fd n c := by
  obtain ⟨hconn, older, hlast⟩ := h
  cases a with
  | connect fd' =>
    have hne : fd ≠ fd' := by rintro rfl; cases hconn.symm.trans ha
    exact ⟨by simpa [Roster.apply, hne] using hconn, older, hlast⟩
  | hangup fd' =>
    have hne : fd ≠ fd' := by rintro rfl; cases hconn.symm.trans ha
    exact ⟨by simpa [Roster.apply, hne] using hconn, older, hlast⟩
  | login fd' c' n' =>
    have hne : fd ≠ fd' := by rintro rfl; cases hconn.symm.trans ha.1
    have hn : n' ≠ n := by rintro rfl; exact hin fd' c' rfl
    refine ⟨by simpa [Roster.apply, hne] using hconn, older, ?_⟩
    rw [named_login ha.2, if_neg hn, List.append_nil, hlast]
  | logout fd' c' =>
    have hne : fd ≠ fd' := by
      rintro rfl
      obtain rfl : c = c' := by simpa [hconn] using ha.1
      exact hout rfl
    have hcc : c ≠ c' := by
      rintro rfl
      exact hne ((hs.linked.mem_of_conn hconn).2.symm.trans (hs.linked.mem_of_conn ha.1).2)
    refine ⟨by simpa [Roster.apply, hne] using hconn, older.filter (· != c'), ?_⟩
    have herase : (s.apply (.logout fd' c')).named n = (s.named n).filter (· != c') := by
      simp only [named, Roster.apply, hs.linked.nodup.erase_eq_filter, List.filter_filter]
      exact List.filter_congr fun x _ => Bool.and_comm _ _
    rw [herase, hlast]
    simp [hcc]
  | create r c' n' cap => exact ⟨hconn, older, hlast⟩
  | close r => exact ⟨hconn, older, hlast⟩
  | enter c' r n' => exact ⟨hconn, older, hlast⟩
  | sit c' r n' => exact ⟨hconn, older, hlast⟩
  | leave c' r => exact ⟨hconn, older, hlast⟩
  | promote r c' => exact ⟨hconn, older, hlast⟩

/-- A login that a path permits has happened at its end. -/
def Renewed (P : Act R C N F → Prop) (n : N) (t : Roster R C N F) : Prop :=
  ∃ fd c, P (.login fd c n) ∧ t.conns fd = some (some c) ∧ t.name c = n

theorem Leads.newest (hp : Leads P s t) (hs : s.Sound) (h : s.Newest fd n c)
    (hout : ¬ P (.logout fd c))
    (hP : ∀ fd c, P (.login fd c n) → ∀ a, P a → ∃ fd c n, a = .login fd c n) :
    t.Newest fd n c ∨ Renewed P n t := by
  refine (hp.invariant (I := fun t => t.Sound ∧ (t.Newest fd n c ∨ Renewed P n t)) ?_
    ⟨hs, .inl h⟩).2
  rintro t a ⟨ht, hi⟩ ⟨hPa, ha⟩
  refine ⟨ht.apply ha, ?_⟩
  rcases hi with hnew | ⟨fd', c', hlogin, hconn, hname⟩
  · by_cases hin : ∃ fd' c', a = .login fd' c' n
    · obtain ⟨fd', c', rfl⟩ := hin
      exact .inr ⟨fd', c', hPa, by simp [Roster.apply], by simp [Roster.apply]⟩
    · exact .inl (hnew.apply ht ha (by rintro rfl; exact hout hPa) fun fd' c' he =>
        hin ⟨fd', c', he⟩)
  · obtain ⟨fd₁, c₁, n₁, rfl⟩ := hP fd' c' hlogin a hPa
    have hfd : fd' ≠ fd₁ := by rintro rfl; cases hconn.symm.trans ha.1
    have hc : c' ≠ c₁ := by rintro rfl; exact ha.2 (ht.linked.mem_of_conn hconn).1
    exact .inr ⟨fd', c', hlogin, by simpa [Roster.apply, hfd] using hconn,
      by simpa [Roster.apply, hc] using hname⟩

omit [DecidableEq N] in
theorem Leads.login_eq (hp : Leads P s t) (hP : ∀ a, P a → ∃ c n, a = .login fd c n) :
    t = s ∨ ∃ c n, s.Enabled (.login fd c n) ∧ t = s.apply (.login fd c n) := by
  refine hp.invariant (I := fun t => t = s ∨ ∃ c n, s.Enabled (.login fd c n) ∧
    t = s.apply (.login fd c n)) ?_ (.inl rfl)
  rintro t a hi ⟨hPa, ha⟩
  obtain ⟨c, n, rfl⟩ := hP a hPa
  rcases hi with rfl | ⟨c', n', -, rfl⟩
  · exact .inr ⟨c, n, ha, rfl⟩
  · have hnone := ha.1
    simp [Roster.apply] at hnone

end Roster

variable {env : Env} {w : World} {e : Event} {command : Cmd} {conn : Conn} {me c : ClientPtr}
  {n : Text} {fd : Fd} {input : Env × Event}

theorem client_rateLimitCheck {ok : Bool} {reg : Registry} {d : ClientPtr}
    (h : rateLimitCheck env me w.reg = (ok, reg)) :
    (reg.clients d).socketFd = (w.client d).socketFd ∧
      (reg.clients d).clientName = (w.client d).clientName := by
  have hkeep : rosterOf reg .empty = rosterOf w.reg .empty := rosterOf_rateLimitCheck h
  exact ⟨congrFun (congrArg Roster.address hkeep) d, congrFun (congrArg Roster.name hkeep) d⟩

theorem stands_of_found (hfound : (findClient (some n) w.reg).2 = some c) : Stands n c w where
  pm := by
    intro env command conn me text reg h h₂ filled rate
    have hsame : (findClient (some n) reg).2 = some c := by
      rw [findClient_rateLimitCheck rate, hfound]
    simp only [dispatch, h.ht, handlePm, h.h₁, h₂, filled, if_false, rate, hsame, pmClient]
    simp only [World.client, client_rateLimitCheck rate]
  kick := by
    intro env command conn me room h inside admin other
    simp only [dispatch, h.ht, handleKick, h.h₁, inside, admin, ne_eq, not_true_eq_false, other,
      if_false, hfound]
    rfl
  promote := by
    intro env command conn me room h inside admin
    simp only [dispatch, h.ht, handlePromote, h.h₁, inside, admin, ne_eq, not_true_eq_false,
      if_false, hfound, promoteClient]
  ban := by
    intro env command conn me room db h inside allowed added
    simp only [dispatch, h.ht, handleBan, h.h₁, inside, allowed, Bool.not_true, Bool.false_eq_true,
      if_false, added, evictBanned, hfound, banClient]
  invite := by
    intro env command conn me room db h inside allowed user invited
    simp only [dispatch, h.ht, handleInvite, h.h₁, inside, allowed, user, Bool.not_true,
      Bool.false_eq_true, if_false, invited, inviteClient]
    have hsame : (findClient (some n) (World.replyOk conn okInvited { w with db }).reg).2 =
        some c := hfound
    rw [hsame]
    rfl

theorem exists_rateLimitCheck (me : ClientPtr) (reg : Registry) :
    ∃ env reg', rateLimitCheck env me reg = (true, reg') := by
  let client := reg.clients me
  obtain ⟨k, hk⟩ := exists_nat_gt (1 - client.tokens)
  let now : Timespec := ⟨client.lastRefill.sec + k, client.lastRefill.nsec⟩
  let env : Env := { Env.calm 0 0 [] with monotonic := now }
  have helapsed : env.monotonic.elapsed client.lastRefill = k := by
    simp [env, now, Timespec.elapsed]
  have hlow : ¬ (if rateBucketMax < client.tokens + k * rateRefillRate then rateBucketMax
      else client.tokens + k * rateRefillRate) < rateMsgCost := by
    split_ifs with hfull
    · decide
    · rw [rateRefillRate, rateMsgCost]
      linarith
  refine ⟨env, ?_⟩
  unfold rateLimitCheck
  simp only [client] at hlow helapsed
  simp only [helapsed, if_neg hlow, exists_eq', Prod.mk.injEq, true_and]

/-- A client to which a private message goes is the one that the lookup finds. -/
theorem Stands.found (h : Stands n c w) (hs : w.roster.Sound)
    (hc : c ∈ w.reg.clientList) : (findClient (some n) w.reg).2 = some c := by
  obtain ⟨conn, hconn, hme⟩ := roster_conns_eq_some.mp (hs.linked.conn_of_mem hc)
  obtain ⟨env, reg, hrate⟩ := exists_rateLimitCheck c w.reg
  have hfd := w.conns.fd_eq _ _ hconn
  let command : Cmd := { type := .pm, arg1 := some n, arg2 := some ['x'] }
  have haddr : Addresses w .pm command conn c n := ⟨hfd ▸ hconn, hme, rfl, rfl⟩
  have hpm := h.pm haddr rfl (List.cons_ne_nil _ _) hrate
  have hsame := findClient_rateLimitCheck hrate (some n)
  simp only [dispatch, handlePm, command, hrate, hsame, pmClient, List.cons_ne_nil, if_false]
    at hpm
  have hout := congrArg World.out hpm
  have haddress : ∀ d, (w.client d).socketFd = (w.client c).socketFd → d ∈ w.reg.clientList →
      d = c := fun d hfd' hd => by
    have h₁ : w.roster.conns (w.client d).socketFd = some (some d) := hs.linked.conn_of_mem hd
    have h₂ : w.roster.conns (w.client c).socketFd = some (some c) := hs.linked.conn_of_mem hc
    rw [hfd', h₂] at h₁
    simpa using h₁.symm
  cases hfound : (findClient (some n) w.reg).2 with
  | none => simp [hfound] at hout
  | some d =>
    simp [hfound, World.client, client_rateLimitCheck hrate] at hout
    exact congrArg some (haddress d (by tauto) (findClient_some hfound).1)

theorem findClient_eq_head : (findClient (some n) w.reg).2 = (w.roster.named n).head? := by
  rw [Roster.named, List.head?_filter]
  simp only [findClient]
  cases h : w.reg.clientList.find? fun c => (w.reg.clients c).clientName = n with
  | none => exact h.symm
  | some c => exact h.symm

/-- A name stands for its newest client exactly if it has no other client. -/
theorem stands_iff (hs : w.roster.Sound) (h : w.roster.Newest fd n c) :
    Stands n c w ↔ ∀ d ∈ w.reg.clientList, (w.client d).clientName = n → d = c := by
  have hc : c ∈ w.reg.clientList := h.mem
  obtain ⟨older, hlast⟩ := h.last
  have hmem : ∀ d, d ∈ w.reg.clientList ∧ (w.client d).clientName = n ↔ d ∈ older ∨ d = c := by
    intro d
    have hd : d ∈ w.roster.named n ↔ d ∈ older ++ [c] := by rw [hlast]
    rw [Roster.named, List.mem_filter, decide_eq_true_iff, List.mem_append,
      List.mem_singleton] at hd
    exact hd
  have hnodup : (older ++ [c]).Nodup := hlast ▸ hs.linked.nodup.filter _
  constructor
  · intro hstands d hd hdn
    have hfound := hstands.found hs hc
    rw [findClient_eq_head, hlast] at hfound
    cases older with
    | nil => simpa using (hmem d).mp ⟨hd, hdn⟩
    | cons d' older =>
      obtain rfl : d' = c := by simpa using hfound
      simp at hnodup
  · intro hsole
    have hnil : older = [] := List.eq_nil_iff_forall_not_mem.mpr fun d hd => by
      obtain ⟨hd', hdn⟩ := (hmem d).mpr (.inl hd)
      obtain rfl := hsole d hd' hdn
      exact absurd hnodup (by simp [List.nodup_append, hd])
    exact stands_of_found (by rw [findClient_eq_head, hlast, hnil]; rfl)

theorem login_only {reg : Registry} {db : Database} {a : ChatAct}
    (ht : command.type ∈ [CmdType.register, .login, .reconnect])
    (h : Permits env reg db conn command a) : ∃ c n, a = .login conn.fd c n := by
  simp only [List.mem_cons, List.not_mem_nil, or_false] at ht
  cases h with
  | register => exact ⟨_, _, rfl⟩
  | login => exact ⟨_, _, rfl⟩
  | reconnect => exact ⟨_, _, rfl⟩
  | create ht' => rcases ht' with ht' | ht' <;> simp [ht'] at ht
  | created ht' => rcases ht' with ht' | ht' <;> simp [ht'] at ht
  | logout ht' => rcases ht' with ht' | ht' <;> simp [ht'] at ht
  | leave ht' => rcases ht with ht | ht | ht <;> simp [ht] at ht'
  | close ht' => rcases ht with ht | ht | ht <;> simp [ht] at ht'
  | join ht' => simp [ht'] at ht
  | accept ht' => simp [ht'] at ht
  | acceptFull ht' => simp [ht'] at ht
  | kick ht' => simp [ht'] at ht
  | ban ht' => simp [ht'] at ht
  | promote ht' => simp [ht'] at ht

theorem login_of_does (h : Does env w e (.login fd c n)) : w.roster.conns fd = some none ∧
    ∀ a, Does env w e a → ∃ c n, a = .login fd c n := by
  rcases h with _ | ⟨hconn, hp⟩
  rename_i text conn
  obtain rfl := w.conns.fd_eq _ _ hconn
  have hlogin : conn.fd = fd ∧ conn.me = none ∧
      (parseLine text).type ∈ [CmdType.register, .login, .reconnect] := by
    cases hp with
    | register ht hme => exact ⟨rfl, hme, by simp [ht]⟩
    | login ht hme => exact ⟨rfl, hme, by simp [ht]⟩
    | reconnect ht hme => exact ⟨rfl, hme, by simp [ht]⟩
  obtain ⟨rfl, hme, ht⟩ := hlogin
  refine ⟨by simp [World.roster, rosterOf, hconn, hme], fun a ha => ?_⟩
  rcases ha with _ | ⟨hconn', hp'⟩
  obtain rfl := Option.some.inj (hconn.symm.trans hconn')
  exact login_only ht hp'

theorem endsLogin_of_does (h : Does env w e (.logout fd c)) : EndsLogin fd (env, e) := by
  cases h with
  | command hconn hp =>
    obtain rfl := w.conns.fd_eq _ _ hconn
    cases hp with
    | logout ht hme => exact .inr ⟨_, rfl, ht⟩
  | dropLogout => exact .inl rfl

theorem not_logsInAs_disconnect (hs : w.roster.Sound) (fd : Fd) :
    ¬ LogsInAs n w (env, .disconnect fd) := by
  rintro ⟨fd', c, hbefore, hafter, -⟩
  rcases leads_conns (step_leads w env (.disconnect fd)) hs hafter with ⟨n, hd, -⟩ | ⟨hconn, -⟩
  · cases hd
  · rw [hbefore] at hconn
    cases hconn

/-- The newest client of a name stays it until its login ends or is renewed. -/
theorem newest_step (hs : w.roster.Sound) (h : w.roster.Newest fd n c)
    (hkeep : ¬ EndsLogin fd input ∧ ¬ LogsInAs n w input) :
    (step w input).roster.Newest fd n c := by
  obtain ⟨env, e⟩ := input
  rcases (step_leads w env e).newest hs h (fun ha => hkeep.1 (endsLogin_of_does ha))
    (fun fd c hlogin a ha => ⟨fd, (login_of_does hlogin).2 a ha⟩) with
    hnew | ⟨fd', c', hlogin, hconn, hname⟩
  · exact hnew
  · exact absurd ⟨fd', c', (login_of_does hlogin).1, hconn, hname⟩ hkeep.2

theorem newest_of_takesOver (h : TakesOver fd n c w input) :
    (step w input).roster.Newest fd n c := by
  obtain ⟨env, e⟩ := input
  obtain ⟨⟨text, rfl, ht⟩, hbefore, hafter, hname⟩ := h
  have hlogins : ∀ a, Does env w (.line fd text) a → ∃ c n, a = .login fd c n := by
    rintro a (_ | ⟨hconn, hp⟩)
    obtain rfl := w.conns.fd_eq _ _ hconn
    exact login_only (by rcases ht with ht | ht <;> simp [ht]) hp
  rcases (step_leads w env _).login_eq hlogins with hsame | ⟨c', n', hen, hlogin⟩
  · rw [hsame, hbefore] at hafter
    cases hafter
  · rw [hlogin] at hafter hname ⊢
    obtain rfl : c' = c := by simpa [Roster.apply] using hafter
    obtain rfl : n' = n := by simpa [Roster.apply] using hname
    exact ⟨hafter, _, by rw [named_login hen.2, if_pos rfl]⟩

/--
After a LOGIN or RECONNECT of a name, and until its connection ends the login
or the name logs in again, the commands that address the name act on the new
client exactly while no older client of the name is in the client list.
-/
theorem takeover_iff (cfg : Config) (db : Database) (start : ℤ) (earlier : List (Env × Event))
    (input : Env × Event) (later : List (Env × Event)) (fd : Fd) (n : Text) (c : ClientPtr) :
    let w := run step (World.init cfg db start) earlier
    let w' := run step (step w input) later
    TakesOver fd n c w input →
      Along step (fun w x => ¬ EndsLogin fd x ∧ ¬ LogsInAs n w x) (step w input) later →
        (Stands n c w' ↔ ∀ d ∈ w'.reg.clientList, (w'.client d).clientName = n → d = c) := by
  intro w w' hover hwindow
  have hs : w.roster.Sound := run_sound
  have hs₁ : (step w input).roster.Sound := (step_leads w input.1 input.2).sound hs
  have hlast : w'.roster.Sound ∧ w'.roster.Newest fd n c :=
    run_invariant_along (I := fun w : World => w.roster.Sound ∧ w.roster.Newest fd n c)
      (fun w x h hx => ⟨(step_leads w x.1 x.2).sound h.1, newest_step h.1 h.2 hx⟩)
      ⟨hs₁, newest_of_takesOver hover⟩ hwindow
  exact stands_iff hlast.1 hlast.2

/-- Alice registers on a connection, and a second one is accepted. -/
def aliceTwice : List (Env × Event) :=
  [(.calm 0 0 [], .accept 4 false),
   (.calm 0 0 "t0".toList, .line 4 "REGISTER alice pw".toList),
   (.calm 0 0 [], .accept 6 false)]

/-- She logs in on the second and hangs up the first, and is addressed on the second. -/
theorem login_stands :
    let w := run step (World.init ⟨4, 4, 4, 10⟩ .empty 0) aliceTwice
    let input : Env × Event := (.calm 0 1 "t1".toList, .line 6 "LOGIN alice pw".toList)
    Stands "alice".toList 1 (run step (step w input) [(.calm 0 0 [], .disconnect 4)]) := by
  intro w input
  have hover : TakesOver 6 "alice".toList 1 w input :=
    ⟨⟨_, rfl, .inl (by decide)⟩, by decide +kernel, by decide +kernel, by decide +kernel⟩
  have hs : (step w input).roster.Sound := (step_leads w input.1 input.2).sound run_sound
  have hstay : ¬ EndsLogin 6 (Env.calm 0 0 [], Event.disconnect 4) := by
    rintro (h | ⟨text, h, -⟩) <;> cases h
  exact (takeover_iff ⟨4, 4, 4, 10⟩ .empty 0 aliceTwice input
    [(.calm 0 0 [], .disconnect 4)] 6 "alice".toList 1 hover
    ⟨⟨hstay, not_logsInAs_disconnect hs 4⟩, trivial⟩).mpr (by decide +kernel)

/-- Her first connection is still open, and what is sent to her goes there. -/
theorem login_not_stands :
    let w := run step (World.init ⟨4, 4, 4, 10⟩ .empty 0) aliceTwice
    let input : Env × Event := (.calm 0 1 "t1".toList, .line 6 "LOGIN alice pw".toList)
    TakesOver 6 "alice".toList 1 w input ∧ ¬ Stands "alice".toList 1 (step w input) := by
  intro w input
  refine ⟨⟨⟨_, rfl, .inl (by decide)⟩, by decide +kernel, by decide +kernel,
    by decide +kernel⟩, fun h => ?_⟩
  let w' := step w input
  have haddr : Addresses w' .pm (parseLine "PM alice hello".toList) ⟨6, some 1, false⟩ 1
      "alice".toList := ⟨by decide +kernel, rfl, by decide, by decide⟩
  have hrate : (rateLimitCheck (.calm 0 0 []) 1 w'.reg).1 = true := by decide +kernel
  have hpm := h.pm haddr (by decide : _ = some "hello".toList) (by decide)
    (Prod.ext hrate rfl : rateLimitCheck (.calm 0 0 []) 1 w'.reg = (true, _))
  exact absurd (congrArg World.out hpm) (by decide +kernel)

end ChatServer
