import ChatServer.Protocol.Fields
import ChatServer.Protocol.Parse

/-! # Parsing what was rendered

A command is rendered as its keyword and its arguments with single spaces
between them. The two parsers give back the command and each argument, the
text of a message with all of its spaces.
-/

namespace ChatServer

open Library

/-- The arguments a command can have. -/
inductive ArgKind where
  | word
  | text
  deriving DecidableEq, Repr

/-- The keyword of a command. -/
def keyword : CmdType → Text
  | .register => "REGISTER".toList
  | .login => "LOGIN".toList
  | .reconnect => "RECONNECT".toList
  | .create => "CREATE".toList
  | .join => "JOIN".toList
  | .msg => "MSG".toList
  | .pm => "PM".toList
  | .who => "WHO".toList
  | .rooms => "ROOMS".toList
  | .leave => "LEAVE".toList
  | .kick => "KICK".toList
  | .promote => "PROMOTE".toList
  | .status => "STATUS".toList
  | .edit => "EDIT".toList
  | .delete => "DELETE".toList
  | .history => "HISTORY".toList
  | .logout => "LOGOUT".toList
  | .logoutAll => "LOGOUT_ALL".toList
  | .sessions => "SESSIONS".toList
  | .revokeSession => "REVOKE_SESSION".toList
  | .read => "READ".toList
  | .typing => "TYPING".toList
  | .stopTyping => "STOP_TYPING".toList
  | .block => "BLOCK".toList
  | .unblock => "UNBLOCK".toList
  | .mute => "MUTE".toList
  | .unmute => "UNMUTE".toList
  | .ban => "BAN".toList
  | .demote => "DEMOTE".toList
  | .createPrivate => "CREATE_PRIVATE".toList
  | .invite => "INVITE".toList
  | .accept => "ACCEPT".toList
  | .decline => "DECLINE".toList
  | .invalid => "INVALID".toList

/-- The arguments of each command, with those of WHO, ROOMS and HISTORY that may be left out. -/
def shapes : CmdType → List (List ArgKind)
  | .leave | .logout | .logoutAll | .sessions | .typing | .stopTyping => [[]]
  | .register | .login => [[.word, .word]]
  | .msg => [[.text]]
  | .pm | .edit => [[.word, .text]]
  | .who | .rooms => [[], [.word], [.word, .word]]
  | .history => [[.word], [.word, .word], [.word, .word, .word]]
  | .invalid => []
  | _ => [[.word]]

/-- A name, an id, a token or a number, or the text of a message. -/
def ArgKind.Allows : ArgKind → Text → Prop
  | .word, s => s ≠ [] ∧ ' ' ∉ s ∧ '\r' ∉ s ∧ '\n' ∉ s ∧ '\x00' ∉ s
  | .text, s => s ≠ [] ∧ '\n' ∉ s ∧ '\x00' ∉ s

/-- Arguments as the protocol allows them for a command. -/
def Shaped (type : CmdType) (args : List Text) : Prop :=
  ∃ shape ∈ shapes type, List.Forall₂ ArgKind.Allows shape args

/-- The line of a command. -/
def render (type : CmdType) (args : List Text) : Text := [' '].intercalate (keyword type :: args)

variable {type : CmdType} {s t u : Text}

theorem strtokRest_eq (h : s ≠ []) : strtokRest s = some s := by
  obtain ⟨c, s, rfl⟩ := List.exists_cons_of_ne_nil h
  simp [strtokRest, strtok]

/-- The first parser does not take the lines of the second. -/
theorem preParse_server (rest : Text) : ∀ c ∈ serverCommands,
    preParseSrijalCommands (c.1 ++ ' ' :: rest) = { type := .invalid } := by
  simp only [serverCommands, List.forall_mem_cons, List.not_mem_nil, false_imp_iff, implies_true,
    and_true]
  exact ⟨rfl, rfl, rfl, rfl, rfl, rfl, rfl, rfl, rfl, rfl, rfl, rfl, rfl, rfl, rfl, rfl⟩

theorem serverCommands_word : ∀ c ∈ serverCommands, c.1 ≠ [] ∧ ' ' ∉ c.1 ∧
    serverCommands.lookup c.1 = some c.2 ∧ parseLine c.1 = serverArgs c.2 [] := by
  decide

theorem parseLine_server (h : (keyword type, type) ∈ serverCommands) (rest : Text) :
    parseLine (keyword type ++ ' ' :: rest) = serverArgs type rest := by
  obtain ⟨hne, hspace, hlookup, -⟩ := serverCommands_word _ h
  rw [parseLine, preParse_server rest _ h]
  simp only [if_true]
  rw [parseIncomingCommandServer, strtokSpace_word ⟨hne, hspace⟩]
  simp only [hlookup]

/-- The commands of the first parser with an argument. -/
def argCommands : List CmdType :=
  [.revokeSession, .createPrivate, .unblock, .unmute, .block, .mute, .ban, .read, .decline, .demote,
    .invite, .accept]

theorem preParse_arg (rest : Text) : ∀ type ∈ argCommands,
    preParseSrijalCommands (keyword type ++ ' ' :: rest) = parseArgs type (' ' :: rest) := by
  simp only [argCommands, List.forall_mem_cons, List.not_mem_nil, false_imp_iff, implies_true,
    and_true]
  exact ⟨rfl, rfl, rfl, rfl, rfl, rfl, rfl, rfl, rfl, rfl, rfl, rfl⟩

theorem parseArgs_word (type : CmdType) (h : ArgKind.word.Allows s) :
    parseArgs type (' ' :: s) = { type, arg1 := some s } := by
  obtain ⟨hne, hspace, hreturn, hnewline, -⟩ := h
  obtain ⟨c, s, rfl⟩ := List.exists_cons_of_ne_nil hne
  simp only [List.mem_cons, not_or] at hspace hreturn hnewline
  have hskip : (' ' :: c :: s).dropWhile (· = ' ') = c :: s := by
    simp [Ne.symm hspace.1]
  have hend : (c :: s).dropWhile (· ≠ ' ') = [] := by
    rw [List.dropWhile_eq_nil_iff]
    intro d hd
    refine decide_eq_true fun heq => ?_
    rcases List.mem_cons.mp hd with rfl | hd
    · exact hspace.1 heq.symm
    · exact hspace.2 (heq ▸ hd)
  unfold parseArgs
  rw [hskip]
  split
  · rename_i heq
    cases heq
  · rename_i heq
    exact absurd (List.cons.inj heq).1 (Ne.symm hnewline.1)
  · rename_i heq
    exact absurd (List.cons.inj heq).1 (Ne.symm hreturn.1)
  · rw [hend]

theorem parseLine_arg (h : type ∈ argCommands) (hs : ArgKind.word.Allows s) :
    parseLine (keyword type ++ ' ' :: s) = { type, arg1 := some s } := by
  have hvalid : ∀ type ∈ argCommands, type ≠ .invalid := by decide
  rw [parseLine, preParse_arg s type h, parseArgs_word type hs]
  simp only [if_neg (hvalid type h)]

theorem ArgKind.Allows.isWord (h : ArgKind.word.Allows s) : IsWord s := ⟨h.1, h.2.1⟩

theorem render_nil (type : CmdType) : render type [] = keyword type := by
  simp [render, List.intercalate]

theorem render_one (type : CmdType) (s : Text) : render type [s] = keyword type ++ ' ' :: s := by
  simp [render, List.intercalate]

theorem render_two (type : CmdType) (s t : Text) :
    render type [s, t] = keyword type ++ ' ' :: (s ++ ' ' :: t) := by
  simp [render, List.intercalate]

theorem render_three (type : CmdType) (s t u : Text) :
    render type [s, t, u] = keyword type ++ ' ' :: (s ++ ' ' :: (t ++ ' ' :: u)) := by
  simp [render, List.intercalate]

section Shape

variable {args : List Text} {k k' : ArgKind}

theorem Shaped.nil (hshapes : shapes type = [[]]) (h : Shaped type args) : args = [] := by
  obtain ⟨shape, hshape, hargs⟩ := h
  rw [hshapes, List.mem_singleton] at hshape
  subst hshape
  cases hargs
  rfl

theorem Shaped.one (hshapes : shapes type = [[k]]) (h : Shaped type args) :
    ∃ s, args = [s] ∧ k.Allows s := by
  obtain ⟨shape, hshape, hargs⟩ := h
  rw [hshapes, List.mem_singleton] at hshape
  subst hshape
  cases hargs with
  | cons hs hrest =>
    cases hrest
    exact ⟨_, rfl, hs⟩

theorem Shaped.two (hshapes : shapes type = [[k, k']]) (h : Shaped type args) :
    ∃ s t, args = [s, t] ∧ k.Allows s ∧ k'.Allows t := by
  obtain ⟨shape, hshape, hargs⟩ := h
  rw [hshapes, List.mem_singleton] at hshape
  subst hshape
  cases hargs with
  | cons hs hrest =>
    cases hrest with
    | cons ht hrest =>
      cases hrest
      exact ⟨_, _, rfl, hs, ht⟩

end Shape

theorem parseLine_word (htype : type ∈ [CmdType.reconnect, .create, .join, .kick, .promote, .status,
    .delete]) (hs : ArgKind.word.Allows s) :
    parseLine (render type [s]) = { type, arg1 := some s } := by
  have hserver : ∀ type ∈ [CmdType.reconnect, .create, .join, .kick, .promote, .status, .delete],
      (keyword type, type) ∈ serverCommands ∧
        serverArgs type s = { type, arg1 := (strtokSpace s).1 } := by
    simp only [List.forall_mem_cons, List.not_mem_nil, false_imp_iff, implies_true, and_true]
    refine ⟨⟨?_, rfl⟩, ⟨?_, rfl⟩, ⟨?_, rfl⟩, ⟨?_, rfl⟩, ⟨?_, rfl⟩, ⟨?_, rfl⟩, ⟨?_, rfl⟩⟩ <;> decide
  obtain ⟨hmem, hargs⟩ := hserver type htype
  rw [render_one, parseLine_server hmem, hargs, strtokSpace_last hs.isWord]

theorem parseLine_text (htype : type = .pm ∨ type = .edit) (hs : ArgKind.word.Allows s)
    (ht : ArgKind.text.Allows t) :
    parseLine (render type [s, t]) = { type, arg1 := some s, arg2 := some t } := by
  have hserver : (keyword type, type) ∈ serverCommands ∧
      serverArgs type (s ++ ' ' :: t) =
        { type
          arg1 := (strtokSpace (s ++ ' ' :: t)).1
          arg2 := strtokRest (strtokSpace (s ++ ' ' :: t)).2 } := by
    rcases htype with rfl | rfl <;> exact ⟨by decide, rfl⟩
  rw [render_two, parseLine_server hserver.1, hserver.2, strtokSpace_word hs.isWord,
    strtokRest_eq ht.1]

theorem parseLine_words (htype : type ∈ [CmdType.register, .login, .who, .rooms])
    (hs : ArgKind.word.Allows s) (ht : ArgKind.word.Allows t) :
    parseLine (render type [s, t]) = { type, arg1 := some s, arg2 := some t } := by
  have hserver : ∀ type ∈ [CmdType.register, .login, .who, .rooms],
      (keyword type, type) ∈ serverCommands ∧
        serverArgs type (s ++ ' ' :: t) =
          { type
            arg1 := (strtokSpace (s ++ ' ' :: t)).1
            arg2 := (strtokSpace (strtokSpace (s ++ ' ' :: t)).2).1 } := by
    simp only [List.forall_mem_cons, List.not_mem_nil, false_imp_iff, implies_true, and_true]
    refine ⟨⟨?_, rfl⟩, ⟨?_, rfl⟩, ⟨?_, rfl⟩, ⟨?_, rfl⟩⟩ <;> decide
  obtain ⟨hmem, hargs⟩ := hserver type htype
  rw [render_two, parseLine_server hmem, hargs, strtokSpace_word hs.isWord,
    strtokSpace_last ht.isWord]

theorem parseLine_list {args : List Text} (htype : type = .who ∨ type = .rooms)
    (h : Shaped type args) :
    parseLine (render type args) =
      { type, arg1 := args[0]?, arg2 := args[1]?, arg3 := args[2]? } := by
  have hshapes : shapes type = [[], [.word], [.word, .word]] := by
    rcases htype with rfl | rfl <;> rfl
  have hmem : type ∈ [CmdType.register, .login, .who, .rooms] := by
    rcases htype with rfl | rfl <;> decide
  have hserver (rest : Text) : (keyword type, type) ∈ serverCommands ∧
      parseLine (keyword type) = { type } ∧
      serverArgs type rest =
        { type
          arg1 := (strtokSpace rest).1
          arg2 := (strtokSpace (strtokSpace rest).2).1 } := by
    rcases htype with rfl | rfl <;> exact ⟨by decide, by decide, rfl⟩
  obtain ⟨shape, hshape, hargs⟩ := h
  rw [hshapes] at hshape
  simp only [List.mem_cons, List.not_mem_nil, or_false] at hshape
  rcases hshape with rfl | rfl | rfl
  · obtain rfl := List.forall₂_nil_left_iff.mp hargs
    rw [render_nil]
    exact (hserver []).2.1
  · obtain ⟨s, args₁, hs, hargs₁, rfl⟩ := List.forall₂_cons_left_iff.mp hargs
    obtain rfl := List.forall₂_nil_left_iff.mp hargs₁
    rw [render_one, parseLine_server (hserver s).1, (hserver s).2.2, strtokSpace_last hs.isWord]
    rfl
  · obtain ⟨s, args₁, hs, hargs₁, rfl⟩ := List.forall₂_cons_left_iff.mp hargs
    obtain ⟨t, args₂, ht, hargs₂, rfl⟩ := List.forall₂_cons_left_iff.mp hargs₁
    obtain rfl := List.forall₂_nil_left_iff.mp hargs₂
    exact parseLine_words hmem hs ht

theorem parseLine_history {args : List Text} (h : Shaped .history args) :
    parseLine (render .history args) =
      { type := .history, arg1 := args[0]?, arg2 := args[1]?, arg3 := args[2]? } := by
  have hserver (rest : Text) : serverArgs .history rest =
      { type := .history
        arg1 := (strtokSpace rest).1
        arg2 := (strtokSpace (strtokSpace rest).2).1
        arg3 := (strtokSpace (strtokSpace (strtokSpace rest).2).2).1 } := rfl
  have hmem : (keyword .history, CmdType.history) ∈ serverCommands := by decide
  obtain ⟨shape, hshape, hargs⟩ := h
  simp only [shapes, List.mem_cons, List.not_mem_nil, or_false] at hshape
  rcases hshape with rfl | rfl | rfl
  · obtain ⟨s, args₁, hs, hargs₁, rfl⟩ := List.forall₂_cons_left_iff.mp hargs
    obtain rfl := List.forall₂_nil_left_iff.mp hargs₁
    rw [render_one, parseLine_server hmem, hserver, strtokSpace_last hs.isWord]
    rfl
  · obtain ⟨s, args₁, hs, hargs₁, rfl⟩ := List.forall₂_cons_left_iff.mp hargs
    obtain ⟨t, args₂, ht, hargs₂, rfl⟩ := List.forall₂_cons_left_iff.mp hargs₁
    obtain rfl := List.forall₂_nil_left_iff.mp hargs₂
    rw [render_two, parseLine_server hmem, hserver, strtokSpace_word hs.isWord]
    simp only [strtokSpace_last ht.isWord]
    rfl
  · obtain ⟨s, args₁, hs, hargs₁, rfl⟩ := List.forall₂_cons_left_iff.mp hargs
    obtain ⟨t, args₂, ht, hargs₂, rfl⟩ := List.forall₂_cons_left_iff.mp hargs₁
    obtain ⟨u, args₃, hu, hargs₃, rfl⟩ := List.forall₂_cons_left_iff.mp hargs₂
    obtain rfl := List.forall₂_nil_left_iff.mp hargs₃
    rw [render_three, parseLine_server hmem, hserver, strtokSpace_word hs.isWord]
    simp only [strtokSpace_word ht.isWord, strtokSpace_last hu.isWord]
    rfl

/--
The parsers give back the command and its arguments, whatever the names, numbers
and texts are.
-/
theorem parseLine_render (type : CmdType) (args : List Text) (h : Shaped type args) :
    parseLine (render type args) =
      { type, arg1 := args[0]?, arg2 := args[1]?, arg3 := args[2]? } := by
  cases type with
  | leave | logout | logoutAll | sessions | typing | stopTyping =>
    obtain rfl := h.nil rfl
    rw [render_nil]
    decide
  | register | login =>
    obtain ⟨s, t, rfl, hs, ht⟩ := h.two rfl
    exact parseLine_words (by decide) hs ht
  | msg =>
    obtain ⟨s, rfl, hs⟩ := h.one rfl
    rw [render_one, parseLine_server (by decide)]
    exact congrArg (fun t => { type := CmdType.msg, arg1 := t : Cmd }) (strtokRest_eq hs.1)
  | pm | edit =>
    obtain ⟨s, t, rfl, hs, ht⟩ := h.two rfl
    exact parseLine_text (by decide) hs ht
  | who | rooms => exact parseLine_list (by decide) h
  | history => exact parseLine_history h
  | invalid =>
    obtain ⟨shape, hshape, -⟩ := h
    exact absurd hshape List.not_mem_nil
  | reconnect | create | join | kick | promote | status | delete =>
    obtain ⟨s, rfl, hs⟩ := h.one rfl
    exact parseLine_word (by decide) hs
  | revokeSession | read | block | unblock | mute | unmute | ban | demote | createPrivate
    | invite | accept | decline =>
    obtain ⟨s, rfl, hs⟩ := h.one rfl
    rw [render_one]
    exact parseLine_arg (by decide) hs

/-- A private message keeps the spaces of its text. -/
theorem parseLine_render_pm :
    parseLine (render .pm ["bob".toList, "  two  words ".toList]) =
      { type := .pm, arg1 := some "bob".toList, arg2 := some "  two  words ".toList } :=
  parseLine_render .pm ["bob".toList, "  two  words ".toList]
    ⟨[.word, .text], by decide, .cons (by unfold ArgKind.Allows; decide)
      (.cons (by unfold ArgKind.Allows; decide) .nil)⟩

end ChatServer
