import Mathlib.Data.List.Basic
import ChatServer.Protocol.Parse

/-! # Tokenizers on a buffer

`process_line` gets a pointer into the buffer of the connection. Its tokenizers
cut the line where it is: they write a NUL over the space behind an argument.
A pointer is an offset into the buffer.
-/

namespace ChatServer

/-- The C string at the start of some bytes. -/
def cstr (buf : List Char) : Text := buf.takeWhile (· ≠ '\x00')

/-- `strchr(buf + p, c)`. -/
def strchr (buf : List Char) (p : ℕ) (c : Char) : Option ℕ :=
  let s := cstr (buf.drop p)
  let i := (s.takeWhile (· ≠ c)).length
  if i < s.length then some (p + i) else none

/-- `cmd`, with its arguments as pointers. -/
structure CmdAt where
  type : CmdType
  arg1 : Option ℕ := none
  arg2 : Option ℕ := none
  arg3 : Option ℕ := none
  deriving DecidableEq, Repr

/-- `PARSE_ARGS`. -/
def parseArgsAt (type : CmdType) (buf : List Char) (p : ℕ) : CmdAt × List Char :=
  let r := p + ((cstr (buf.drop p)).takeWhile (· = ' ')).length
  match cstr (buf.drop r) with
  | [] => ({ type }, buf)
  | '\n' :: _ => ({ type }, buf)
  | '\r' :: _ => ({ type }, buf)
  | _ =>
    match strchr buf r ' ' with
    | none => ({ type, arg1 := some r }, buf)
    | some sp =>
      let buf := buf.set sp '\x00'
      match strchr buf (sp + 1) ' ' with
      | none => ({ type, arg1 := some r, arg2 := some (sp + 1) }, buf)
      | some sp2 =>
        ({ type, arg1 := some r, arg2 := some (sp + 1), arg3 := some (sp2 + 1) },
          buf.set sp2 '\x00')

/--
One call of `strtok` that starts at `p`: the token, the buffer with the
delimiter behind the token overwritten, and where the next call starts.
-/
def strtokAt (delim : Char → Bool) (buf : List Char) (p : ℕ) : Option ℕ × List Char × ℕ :=
  let q := p + ((cstr (buf.drop p)).takeWhile delim).length
  let s := cstr (buf.drop q)
  let i := (s.takeWhile fun c => !delim c).length
  if s = [] then (none, buf, q)
  else if i < s.length then (some q, buf.set (q + i) '\x00', q + i + 1)
  else (some q, buf, q + i)

/-- The delimiters of the calls of `strtok` after the command word. -/
def serverDelims : CmdType → List (Char → Bool)
  | .who | .rooms | .register | .login => [(· = ' '), (· = ' ')]
  | .edit | .pm => [(· = ' '), fun _ => false]
  | .history => [(· = ' '), (· = ' '), (· = ' ')]
  | .msg => [fun _ => false]
  | _ => [(· = ' ')]

/-- Some calls of `strtok`, each from where the one before stopped. -/
def strtokAllAt : List (Char → Bool) → List Char → ℕ → List (Option ℕ) × List Char
  | [], buf, _ => ([], buf)
  | delim :: delims, buf, p =>
    let (token, buf, p) := strtokAt delim buf p
    let (tokens, buf) := strtokAllAt delims buf p
    (token :: tokens, buf)

/-- `parse_incoming_command_server`. -/
def parseIncomingAt (buf : List Char) : CmdAt × List Char :=
  match strtokAt (· = ' ') buf 0 with
  | (none, buf, _) => ({ type := .invalid }, buf)
  | (some command, buf, p) =>
    match serverCommands.lookup (cstr (buf.drop command)) with
    | none => ({ type := .invalid }, buf)
    | some type =>
      let (tokens, buf) := strtokAllAt (serverDelims type) buf p
      ({ type, arg1 := tokens[0]?.join, arg2 := tokens[1]?.join, arg3 := tokens[2]?.join }, buf)

/-- The two stages of `process_line` on the line at the start of the buffer. -/
def parseLineAt (buf : List Char) : CmdAt × List Char :=
  match srijalKeywords.find? (·.matches (cstr buf)) with
  | some k =>
    if k.takesArgs then parseArgsAt k.type buf k.word.length else ({ type := k.type }, buf)
  | none => parseIncomingAt buf

/-- The buffer from offset `k` on, and its size, are the same. -/
structure SameFrom (k : ℕ) (buf buf' : List Char) : Prop where
  length : buf'.length = buf.length
  drop : buf'.drop k = buf.drop k

variable {k p i : ℕ} {buf buf' buf'' : List Char} {c : Char}

@[refl] theorem SameFrom.refl (k : ℕ) (buf : List Char) : SameFrom k buf buf := ⟨rfl, rfl⟩

theorem SameFrom.trans (h₁ : SameFrom k buf buf') (h₂ : SameFrom k buf' buf'') :
    SameFrom k buf buf'' := ⟨h₂.length.trans h₁.length, h₂.drop.trans h₁.drop⟩

theorem sameFrom_set (h : i < k) : SameFrom k buf (buf.set i c) :=
  ⟨List.length_set, List.drop_set_of_lt h⟩

theorem SameFrom.nulAt (h : SameFrom k buf buf') (hn : buf[k]? = some '\x00') :
    buf'[k]? = some '\x00' := by
  have hdrop := congrArg (·[0]?) h.drop
  simp only [List.getElem?_drop, Nat.add_zero] at hdrop
  rw [hdrop, hn]

theorem length_takeWhile_le (q : Char → Bool) (s : Text) : (s.takeWhile q).length ≤ s.length :=
  (List.takeWhile_sublist q).length_le

theorem length_cstr_le (h : buf[k]? = some '\x00') (hp : p ≤ k) :
    p + (cstr (buf.drop p)).length ≤ k := by
  induction buf generalizing k p with
  | nil => cases h
  | cons b buf ih =>
    cases p with
    | succ p =>
      cases k with
      | zero => omega
      | succ k =>
        have hle := ih (k := k) (p := p) (by simpa using h) (by omega)
        simp only [List.drop_succ_cons]
        omega
    | zero =>
      by_cases hb : b = '\x00'
      · simp [cstr, hb]
      · cases k with
        | zero => exact absurd (by simpa using h) hb
        | succ k =>
          have hle := ih (k := k) (p := 0) (by simpa using h) (by omega)
          simp only [List.drop_zero, cstr] at hle ⊢
          rw [List.takeWhile_cons_of_pos (by simpa using hb), List.length_cons]
          omega

theorem strchr_lt (hn : buf[k]? = some '\x00') (hp : p ≤ k) (h : strchr buf p c = some i) :
    i < k := by
  have hle := length_cstr_le hn hp
  unfold strchr at h
  simp only at h
  split_ifs at h with hlt
  obtain rfl := Option.some.inj h
  omega

theorem sameFrom_parseArgsAt {type : CmdType} (hn : buf[k]? = some '\x00') (hp : p ≤ k) :
    SameFrom k buf (parseArgsAt type buf p).2 := by
  have hspaces := length_takeWhile_le (· = ' ') (cstr (buf.drop p))
  have hr := length_cstr_le hn hp
  unfold parseArgsAt
  simp only
  split
  · rfl
  · rfl
  · rfl
  · split
    · rfl
    · rename_i sp hsp
      have hlt := strchr_lt hn (by omega) hsp
      have hset : SameFrom k buf (buf.set sp '\x00') := sameFrom_set hlt
      split
      · exact hset
      · rename_i sp2 hsp2
        exact hset.trans (sameFrom_set (strchr_lt (hset.nulAt hn) hlt hsp2))

theorem sameFrom_strtokAt (delim : Char → Bool) (hn : buf[k]? = some '\x00') (hp : p ≤ k) :
    SameFrom k buf (strtokAt delim buf p).2.1 ∧ (strtokAt delim buf p).2.2 ≤ k := by
  have hspan := length_takeWhile_le delim (cstr (buf.drop p))
  have hp' := length_cstr_le hn hp
  have hq := length_cstr_le hn (p := p + ((cstr (buf.drop p)).takeWhile delim).length) (by omega)
  unfold strtokAt
  simp only
  split_ifs with hnil hlt
  · exact ⟨.refl _ _, by simp only; omega⟩
  · exact ⟨sameFrom_set (by omega), by simp only; omega⟩
  · have htoken := length_takeWhile_le (fun c => !delim c)
      (cstr (buf.drop (p + ((cstr (buf.drop p)).takeWhile delim).length)))
    exact ⟨.refl _ _, by simp only; omega⟩

theorem sameFrom_strtokAllAt {delims : List (Char → Bool)} (hn : buf[k]? = some '\x00')
    (hp : p ≤ k) : SameFrom k buf (strtokAllAt delims buf p).2 := by
  induction delims generalizing buf p with
  | nil => rfl
  | cons delim delims ih =>
    obtain ⟨hsame, hle⟩ := sameFrom_strtokAt delim hn hp
    exact hsame.trans (ih (hsame.nulAt hn) hle)

theorem sameFrom_parseIncomingAt (hn : buf[k]? = some '\x00') :
    SameFrom k buf (parseIncomingAt buf).2 := by
  obtain ⟨hsame, hle⟩ := sameFrom_strtokAt (· = ' ') hn (Nat.zero_le k)
  unfold parseIncomingAt
  split
  · rename_i hfirst
    rwa [hfirst] at hsame
  · rename_i hfirst
    rw [hfirst] at hsame hle
    split
    · exact hsame
    · exact hsame.trans (sameFrom_strtokAllAt (hsame.nulAt hn) hle)

/-- The tokenizers of `process_line` write before the end of the line only. -/
theorem sameFrom_parseLineAt (hn : buf[k]? = some '\x00') :
    SameFrom k buf (parseLineAt buf).2 := by
  unfold parseLineAt
  split
  · rename_i kw hfind
    split_ifs
    · have hmatch := List.find?_some hfind
      simp only [Keyword.matches, Bool.and_eq_true] at hmatch
      have hword := (List.isPrefixOf_iff_prefix.mp hmatch.1).length_le
      have hline := length_cstr_le hn (Nat.zero_le k)
      simp only [List.drop_zero] at hline
      exact sameFrom_parseArgsAt hn (by omega)
    · rfl
  · exact sameFrom_parseIncomingAt hn

/-- A command whose arguments are read where its pointers point. -/
def CmdAt.read (command : CmdAt) (buf : List Char) : Cmd where
  type := command.type
  arg1 := command.arg1.map fun p => cstr (buf.drop p)
  arg2 := command.arg2.map fun p => cstr (buf.drop p)
  arg3 := command.arg3.map fun p => cstr (buf.drop p)

theorem drop_length_takeWhile (q : Char → Bool) (s : Text) :
    s.drop (s.takeWhile q).length = s.dropWhile q := by
  induction s with
  | nil => rfl
  | cons c s ih => by_cases hc : q c <;> simp [hc, ih]

theorem take_length_takeWhile (q : Char → Bool) (s : Text) :
    s.take (s.takeWhile q).length = s.takeWhile q := by
  exact (List.prefix_iff_eq_take.mp (List.takeWhile_prefix q)).symm

theorem cstr_drop (h : i ≤ (cstr buf).length) : cstr (buf.drop i) = (cstr buf).drop i := by
  induction buf generalizing i with
  | nil => simp [cstr]
  | cons b buf ih =>
    cases i with
    | zero => rfl
    | succ i =>
      by_cases hb : b = '\x00'
      · simp [cstr, hb] at h
      · have hcons : cstr (b :: buf) = b :: cstr buf :=
          List.takeWhile_cons_of_pos (by simpa using hb)
        rw [hcons, List.length_cons] at h
        rw [hcons, List.drop_succ_cons, List.drop_succ_cons]
        exact ih (by omega)

theorem cstr_set : cstr (buf.set i '\x00') = (cstr buf).take i := by
  induction buf generalizing i with
  | nil => simp [cstr]
  | cons b buf ih =>
    cases i with
    | zero => simp [cstr]
    | succ i =>
      by_cases hb : b = '\x00'
      · simp [cstr, hb]
      · have hcons : ∀ l, cstr (b :: l) = b :: cstr l := fun l =>
          List.takeWhile_cons_of_pos (by simpa using hb)
        rw [List.set_cons_succ, hcons, hcons, ih, List.take_succ_cons]

theorem cstr_set_drop (h : p ≤ i) :
    cstr ((buf.set i '\x00').drop p) = (cstr (buf.drop p)).take (i - p) := by
  rw [List.drop_set, if_neg (by omega), cstr_set]

theorem strchr_eq_none (h : strchr buf p c = none) :
    (cstr (buf.drop p)).dropWhile (· ≠ c) = [] := by
  unfold strchr at h
  simp only at h
  split_ifs at h with hlt
  rw [← drop_length_takeWhile]
  exact List.drop_eq_nil_of_le (by omega)

theorem strchr_eq_some (h : strchr buf p c = some i) :
    p + ((cstr (buf.drop p)).takeWhile (· ≠ c)).length = i ∧
      cstr ((buf.set i '\x00').drop p) = (cstr (buf.drop p)).takeWhile (· ≠ c) ∧
      (cstr (buf.drop p)).dropWhile (· ≠ c) = c :: cstr (buf.drop (i + 1)) := by
  unfold strchr at h
  simp only at h
  split_ifs at h with hlt
  obtain rfl := Option.some.inj h
  refine ⟨rfl, ?_, ?_⟩
  · rw [cstr_set_drop (Nat.le_add_right _ _), Nat.add_sub_cancel_left, take_length_takeWhile]
  · have hrest : cstr (buf.drop (p + ((cstr (buf.drop p)).takeWhile (· ≠ c)).length + 1)) =
        ((cstr (buf.drop p)).dropWhile (· ≠ c)).tail := by
      rw [Nat.add_assoc, ← List.drop_drop, cstr_drop (by omega), ← List.drop_drop,
        drop_length_takeWhile, List.drop_one]
    rw [hrest]
    cases hd : (cstr (buf.drop p)).dropWhile (· ≠ c) with
    | nil =>
      rw [← drop_length_takeWhile, List.drop_eq_nil_iff] at hd
      omega
    | cons d ds =>
      have hnot := List.head_dropWhile_not (· ≠ c) (l := cstr (buf.drop p))
        (by rw [hd]; exact List.cons_ne_nil _ _)
      simp only [hd, List.head_cons] at hnot
      obtain rfl : d = c := by simpa using hnot
      rfl

theorem parseArgs_of_arg {type : CmdType} {rest t : Text} (ht : rest.dropWhile (· = ' ') = t)
    (hnil : t ≠ []) (hlf : ∀ u, t ≠ '\n' :: u) (hcr : ∀ u, t ≠ '\r' :: u) :
    parseArgs type rest = match t.dropWhile (· ≠ ' ') with
      | [] => { type, arg1 := some t }
      | _ :: r₂ =>
        match r₂.dropWhile (· ≠ ' ') with
        | [] => { type, arg1 := some (t.takeWhile (· ≠ ' ')), arg2 := some r₂ }
        | _ :: r₃ =>
          { type
            arg1 := some (t.takeWhile (· ≠ ' '))
            arg2 := some (r₂.takeWhile (· ≠ ' '))
            arg3 := some r₃ } := by
  unfold parseArgs
  rw [ht]
  split
  · exact absurd rfl hnil
  · exact absurd rfl (hlf _)
  · exact absurd rfl (hcr _)
  · rfl

/-- The arguments that `PARSE_ARGS` cuts in place are those of the text of the line. -/
theorem parseArgsAt_read (type : CmdType) (buf : List Char) (p : ℕ) :
    (parseArgsAt type buf p).1.read (parseArgsAt type buf p).2 =
      parseArgs type (cstr (buf.drop p)) := by
  have hr : (cstr (buf.drop p)).dropWhile (· = ' ') =
      cstr (buf.drop (p + ((cstr (buf.drop p)).takeWhile (· = ' ')).length)) := by
    rw [← List.drop_drop, cstr_drop (length_takeWhile_le _ _), drop_length_takeWhile]
  unfold parseArgsAt
  simp only
  generalize p + ((cstr (buf.drop p)).takeWhile (· = ' ')).length = r at hr
  split
  · rename_i ht
    simp only [parseArgs, hr, ht]
    rfl
  · rename_i ht
    simp only [parseArgs, hr, ht]
    rfl
  · rename_i ht
    simp only [parseArgs, hr, ht]
    rfl
  · rename_i hnil hlf hcr
    rw [parseArgs_of_arg hr hnil hlf hcr]
    split
    · rename_i hsp
      simp only [strchr_eq_none hsp]
      rfl
    · rename_i sp hsp
      obtain ⟨hlen, harg1, hrest⟩ := strchr_eq_some hsp
      have hdrop : (buf.set sp '\x00').drop (sp + 1) = buf.drop (sp + 1) :=
        List.drop_set_of_lt (by omega)
      simp only [hrest]
      split
      · rename_i hsp2
        have hnone := strchr_eq_none hsp2
        rw [hdrop] at hnone
        simp only [hnone, CmdAt.read, Option.map_some, Option.map_none, harg1, hdrop]
      · rename_i sp2 hsp2
        obtain ⟨hlen2, harg2, hrest2⟩ := strchr_eq_some hsp2
        have harg1' : cstr (((buf.set sp '\x00').set sp2 '\x00').drop r) =
            (cstr (buf.drop r)).takeWhile (· ≠ ' ') := by
          rw [cstr_set_drop (by omega), harg1]
          exact List.take_of_length_le (by omega)
        have hdrop2 : ((buf.set sp '\x00').set sp2 '\x00').drop (sp2 + 1) =
            (buf.set sp '\x00').drop (sp2 + 1) := List.drop_set_of_lt (by omega)
        rw [hdrop] at harg2 hrest2
        simp only [hrest2, CmdAt.read, Option.map_some, harg1', harg2, hdrop2]

theorem strtokAt_keeps (delim : Char → Bool) {q : ℕ}
    (hq : q + (cstr (buf.drop q)).length ≤ p) :
    p ≤ (strtokAt delim buf p).2.2 ∧
      cstr ((strtokAt delim buf p).2.1.drop q) = cstr (buf.drop q) := by
  unfold strtokAt
  simp only
  split_ifs with hnil hlt
  · exact ⟨Nat.le_add_right _ _, rfl⟩
  · refine ⟨by simp only; omega, ?_⟩
    simp only
    rw [cstr_set_drop (by omega)]
    exact List.take_of_length_le (by omega)
  · exact ⟨by simp only; omega, rfl⟩

theorem strtokAllAt_keeps {delims : List (Char → Bool)} {q : ℕ}
    (hq : q + (cstr (buf.drop q)).length ≤ p) :
    cstr ((strtokAllAt delims buf p).2.drop q) = cstr (buf.drop q) := by
  induction delims generalizing buf p with
  | nil => rfl
  | cons delim delims ih =>
    obtain ⟨hle, hkeep⟩ := strtokAt_keeps delim hq
    have hnext : q + (cstr ((strtokAt delim buf p).2.1.drop q)).length ≤
        (strtokAt delim buf p).2.2 := by
      rw [hkeep]
      omega
    exact (ih hnext).trans hkeep

theorem strtok_of_token {delim : Char → Bool} {s t : Text} (ht : s.dropWhile delim = t)
    (hnil : t ≠ []) : strtok delim s =
      (some (t.takeWhile fun c => !delim c), (t.dropWhile fun c => !delim c).tail) := by
  unfold strtok
  rw [ht]
  split
  · exact absurd rfl hnil
  · rfl

theorem strtokAt_read (delim : Char → Bool) {s : Text} (hs : cstr (buf.drop p) = s) :
    ((strtokAt delim buf p).1.map fun q => cstr ((strtokAt delim buf p).2.1.drop q)) =
        (strtok delim s).1 ∧
      cstr ((strtokAt delim buf p).2.1.drop (strtokAt delim buf p).2.2) = (strtok delim s).2 ∧
      ∀ q ∈ (strtokAt delim buf p).1,
        q + (cstr ((strtokAt delim buf p).2.1.drop q)).length ≤ (strtokAt delim buf p).2.2 := by
  subst hs
  have ht : (cstr (buf.drop p)).dropWhile delim =
      cstr (buf.drop (p + ((cstr (buf.drop p)).takeWhile delim).length)) := by
    rw [← List.drop_drop, cstr_drop (length_takeWhile_le _ _), drop_length_takeWhile]
  unfold strtokAt
  simp only
  generalize p + ((cstr (buf.drop p)).takeWhile delim).length = q at ht
  have htoken := length_takeWhile_le (fun c => !delim c) (cstr (buf.drop q))
  split_ifs with hnil hlt
  · simp only [strtok, ht, hnil]
    exact ⟨rfl, trivial, nofun⟩
  · rw [strtok_of_token ht hnil]
    have hcut : cstr ((buf.set (q + ((cstr (buf.drop q)).takeWhile fun c => !delim c).length)
        '\x00').drop q) = (cstr (buf.drop q)).takeWhile fun c => !delim c := by
      rw [cstr_set_drop (Nat.le_add_right _ _), Nat.add_sub_cancel_left, take_length_takeWhile]
    refine ⟨congrArg some hcut, ?_, ?_⟩
    · simp only
      rw [List.drop_set_of_lt (by omega), Nat.add_assoc, ← List.drop_drop,
        cstr_drop (by omega), ← List.drop_drop, drop_length_takeWhile, List.drop_one]
    · rintro _ ⟨⟩
      simp only [hcut]
      omega
  · rw [strtok_of_token ht hnil]
    have hend : ((cstr (buf.drop q)).takeWhile fun c => !delim c).length =
        (cstr (buf.drop q)).length := by omega
    have hall : ((cstr (buf.drop q)).takeWhile fun c => !delim c) = cstr (buf.drop q) :=
      (List.takeWhile_sublist _).eq_of_length hend
    have hnone : ((cstr (buf.drop q)).dropWhile fun c => !delim c) = [] := by
      rw [← drop_length_takeWhile, hend, List.drop_length]
    refine ⟨congrArg some hall.symm, ?_, ?_⟩
    · simp only
      rw [← List.drop_drop, cstr_drop htoken, drop_length_takeWhile, hnone]
      rfl
    · rintro _ ⟨⟩
      simp only [hall]
      omega

/-- Some calls of `strtok` on a text. -/
def strtokAll : List (Char → Bool) → Text → List (Option Text)
  | [], _ => []
  | delim :: delims, s => (strtok delim s).1 :: strtokAll delims (strtok delim s).2

theorem strtokAllAt_read {delims : List (Char → Bool)} {s : Text}
    (hs : cstr (buf.drop p) = s) :
    ((strtokAllAt delims buf p).1.map fun token =>
      token.map fun q => cstr ((strtokAllAt delims buf p).2.drop q)) = strtokAll delims s := by
  induction delims generalizing buf p s with
  | nil => rfl
  | cons delim delims ih =>
    obtain ⟨htoken, hnext, hend⟩ := strtokAt_read delim hs
    simp only [strtokAllAt, strtokAll, List.map_cons]
    rw [ih hnext, ← htoken]
    congr 1
    cases hfirst : (strtokAt delim buf p).1 with
    | none => rfl
    | some q => exact congrArg some (strtokAllAt_keeps (hend q hfirst))

theorem serverArgs_eq (type : CmdType) (rest : Text) :
    serverArgs type rest =
      { type
        arg1 := (strtokAll (serverDelims type) rest)[0]?.join
        arg2 := (strtokAll (serverDelims type) rest)[1]?.join
        arg3 := (strtokAll (serverDelims type) rest)[2]?.join } := by
  cases type <;> rfl

theorem parseIncomingAt_read (buf : List Char) :
    (parseIncomingAt buf).1.read (parseIncomingAt buf).2 =
      parseIncomingCommandServer (cstr buf) := by
  have hbuf : cstr (buf.drop 0) = cstr buf := rfl
  obtain ⟨htoken, hnext, -⟩ := strtokAt_read (· = ' ') hbuf
  unfold parseIncomingAt parseIncomingCommandServer strtokSpace
  rcases hat : strtokAt (· = ' ') buf 0 with ⟨first, buf₁, p₁⟩
  rcases htext : strtok (· = ' ') (cstr buf) with ⟨command, rest⟩
  rw [hat, htext] at htoken hnext
  cases first with
  | none =>
    obtain rfl : none = command := htoken
    rfl
  | some q =>
    obtain rfl : some (cstr (buf₁.drop q)) = command := htoken
    simp only
    cases serverCommands.lookup (cstr (buf₁.drop q)) with
    | none => rfl
    | some type =>
      simp only [serverArgs_eq, ← strtokAllAt_read hnext, List.getElem?_map, CmdAt.read,
        Option.join_map_eq_map_join]

theorem srijalKeywords_valid : ∀ k ∈ srijalKeywords, k.type ≠ .invalid := by decide

/-- The command that is cut in place is the command of the text of the line. -/
theorem parseLineAt_read (buf : List Char) :
    (parseLineAt buf).1.read (parseLineAt buf).2 = parseLine (cstr buf) := by
  unfold parseLineAt parseLine preParseSrijalCommands
  simp only
  cases hfind : srijalKeywords.find? (·.matches (cstr buf)) with
  | none =>
    simp only
    rw [parseIncomingAt_read, if_pos]
    split
    · rfl
    · split <;> rfl
  | some k =>
    have hvalid := srijalKeywords_valid k (List.mem_of_find?_eq_some hfind)
    have hmatch := List.find?_some hfind
    simp only [Keyword.matches, Bool.and_eq_true] at hmatch
    have hword := (List.isPrefixOf_iff_prefix.mp hmatch.1).length_le
    simp only
    by_cases hargs : k.takesArgs = true
    · rw [if_pos hargs, if_pos hargs, if_neg (by rwa [parseArgs_type]), parseArgsAt_read,
        cstr_drop hword]
    · rw [if_neg hargs, if_neg hargs, if_neg hvalid]
      rfl

end ChatServer
