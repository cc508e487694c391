import ChatServer.Library.Keyed
import ChatServer.Startup.Config

/-! # The grammar of the configuration file

The file is read line by line: a line that is not blank, not a comment and has
an equals sign assigns to the field it names, and the last assignment stays.
The loader follows this on what its window shows it, which is the lines as long
as they fit.
-/

namespace ChatServer

open Library

/-- The fields of the configuration. -/
inductive Field where
  | port | threadPoolSize | maxClients | maxRooms | maxMembers | historySize
  | rateBucketMax | rateRefillRate | rateMsgCost | tlsCert | tlsKey
  | poolShrinkIdleSec | poolMinThreads | logLevel | logFile
  deriving DecidableEq, Repr

/-- What a field holds. -/
inductive Value (D : Type*) where
  | int (n : ℤ)
  | double (x : D)
  | text (s : Text)
  deriving DecidableEq

namespace Field

/-- The name of the field in the file. -/
def key : Field → Text
  | port => "port".toList
  | threadPoolSize => "thread_pool_size".toList
  | maxClients => "max_clients".toList
  | maxRooms => "max_rooms".toList
  | maxMembers => "max_members".toList
  | historySize => "history_size".toList
  | rateBucketMax => "rate_bucket_max".toList
  | rateRefillRate => "rate_refill_rate".toList
  | rateMsgCost => "rate_msg_cost".toList
  | tlsCert => "tls_cert".toList
  | tlsKey => "tls_key".toList
  | poolShrinkIdleSec => "pool_shrink_idle_sec".toList
  | poolMinThreads => "pool_min_threads".toList
  | logLevel => "log_level".toList
  | logFile => "log_file".toList

variable {D : Type*}

/-- The value that a text denotes. -/
def read (atof : Text → D) (f : Field) (v : Text) : Value D :=
  match f with
  | rateRefillRate => .double (atof v)
  | tlsCert | tlsKey | logFile => .text (v.take 255)
  | logLevel => .text (v.take 15)
  | _ => .int (atoi v)

/-- The value of a field that no line assigns. -/
def default [One D] : Field → Value D
  | port => .int 8888
  | threadPoolSize => .int 16
  | maxClients => .int 64
  | maxRooms => .int 16
  | maxMembers => .int 16
  | historySize => .int 10
  | rateBucketMax => .int 5
  | rateRefillRate => .double 1
  | rateMsgCost => .int 1
  | tlsCert => .text "server.crt".toList
  | tlsKey => .text "server.key".toList
  | poolShrinkIdleSec => .int 30
  | poolMinThreads => .int 2
  | logLevel => .text "INFO".toList
  | logFile => .text []

def all : List Field :=
  [port, threadPoolSize, maxClients, maxRooms, maxMembers, historySize, rateBucketMax,
    rateRefillRate, rateMsgCost, tlsCert, tlsKey, poolShrinkIdleSec, poolMinThreads, logLevel,
    logFile]

theorem mem_all (f : Field) : f ∈ all := by
  cases f <;> decide

theorem key_injective : Function.Injective key := fun f g h =>
  have hnodup : (all.map key).Nodup := by decide +kernel
  List.inj_on_of_nodup_map hnodup (mem_all f) (mem_all g) h

end Field

/-- What the fields of a configuration hold. -/
def ServerConfig.settings {D : Type*} (cfg : ServerConfig D) : Field → Value D
  | .port => .int cfg.port
  | .threadPoolSize => .int cfg.threadPoolSize
  | .maxClients => .int cfg.maxClients
  | .maxRooms => .int cfg.maxRooms
  | .maxMembers => .int cfg.maxMembers
  | .historySize => .int cfg.historySize
  | .rateBucketMax => .int cfg.rateBucketMax
  | .rateRefillRate => .double cfg.rateRefillRate
  | .rateMsgCost => .int cfg.rateMsgCost
  | .tlsCert => .text cfg.tlsCert.str
  | .tlsKey => .text cfg.tlsKey.str
  | .poolShrinkIdleSec => .int cfg.poolShrinkIdleSec
  | .poolMinThreads => .int cfg.poolMinThreads
  | .logLevel => .text cfg.logLevel.str
  | .logFile => .text cfg.logFile.str

/-- The assignment that a line makes: a key and a value. -/
def assignment (line : Text) : Option (Text × Text) :=
  if trim line = [] ∨ (trim line).head? = some '#' ∨ (trim line).head? = some '[' ∨ '=' ∉ line then
    none
  else some (trim (line.takeWhile (· ≠ '=')), trim (line.dropWhile (· ≠ '=')).tail)

variable {D : Type*} (atof : Text → D)

/-- The settings that some lines make, from the defaults on. -/
def grammar [One D] (lines : List Text) : Field → Value D :=
  (lines.filterMap assignment).foldl
    (fun s a f => if f.key = a.1 then f.read atof a.2 else s f) Field.default

/-- The text lines of a file, the one after the last line end included. -/
def textLines (content : List Char) : List Text :=
  (terminated '\n' content ++ [unterminated '\n' content]).map cstr

/-- What `fgets` leaves in the buffer, round after round. -/
def bufferLines (content : List Char) : List Text :=
  (pieces '\n' 511 content.length content).map cstr

/-- The last value that some lines assign to a field. -/
def lastValue (lines : List Text) (f : Field) : Option Text :=
  lastOf f.key (lines.filterMap assignment)

/-- What the last value of a field denotes, or its default. -/
def reading [One D] (lines : List Text) (f : Field) : Value D :=
  ((lastValue lines f).map (f.read atof)).getD f.default

theorem grammar_eq_reading [One D] (lines : List Text) : grammar atof lines = reading atof lines :=
  funext fun f => foldl_assign Field.key (Field.read atof) Field.default f

section Trim

variable {s t line pre suf : Text}

theorem trim_append (h : ∀ c ∈ suf, isSpace c = true) : trim (s ++ suf) = trim s := by
  unfold trim
  rw [List.dropWhile_append]
  split_ifs with hs
  · rw [List.isEmpty_iff.mp hs, List.dropWhile_eq_nil_iff.mpr h]
  · rw [List.rdropWhile, List.reverse_append,
      List.dropWhile_append_of_pos fun c hc => h c (List.mem_reverse.mp hc), List.rdropWhile]

theorem trim_prepend (h : ∀ c ∈ pre, isSpace c = true) : trim (pre ++ s) = trim s := by
  rw [trim, List.dropWhile_append_of_pos h, trim]

/-- A line is its trimmed text between white space. -/
theorem exists_eq_trim (line : Text) : ∃ pre suf, line = pre ++ trim line ++ suf ∧
    (∀ c ∈ pre, isSpace c = true) ∧ ∀ c ∈ suf, isSpace c = true :=
  ⟨line.takeWhile isSpace, (line.dropWhile isSpace).rtakeWhile isSpace,
    by rw [List.append_assoc, trim, List.rdropWhile_append_rtakeWhile,
      List.takeWhile_append_dropWhile],
    fun _ => List.mem_takeWhile_imp, fun _ => List.mem_rtakeWhile_imp⟩

theorem mem_of_mem_trim {c : Char} (h : c ∈ trim s) : c ∈ s :=
  (List.dropWhile_suffix isSpace).subset ((List.rdropWhile_prefix isSpace _).subset h)

theorem equals_not_mem (h : ∀ c ∈ s, isSpace c = true) : '=' ∉ s := fun hs =>
  absurd (h '=' hs) (by decide)

theorem mem_trim_iff : '=' ∈ trim line ↔ '=' ∈ line := by
  obtain ⟨pre, suf, heq, hpre, hsuf⟩ := exists_eq_trim line
  constructor
  · exact mem_of_mem_trim
  · intro h
    rw [heq] at h
    simpa [equals_not_mem hpre, equals_not_mem hsuf] using h

theorem halves_eq (h : '=' ∉ s) : (s ++ '=' :: t).takeWhile (· ≠ '=') = s ∧
    ((s ++ '=' :: t).dropWhile (· ≠ '=')).tail = t := by
  have hs : ∀ c ∈ s, decide (c ≠ '=') = true := fun c hc =>
    decide_eq_true fun hce => h (hce ▸ hc)
  rw [List.takeWhile_append_of_pos hs, List.dropWhile_append_of_pos hs]
  simp

theorem trim_halves (h : '=' ∈ line) :
    trim ((trim line).takeWhile (· ≠ '=')) = trim (line.takeWhile (· ≠ '=')) ∧
      trim ((trim line).dropWhile (· ≠ '=')).tail = trim (line.dropWhile (· ≠ '=')).tail := by
  obtain ⟨pre, suf, heq, hpre, hsuf⟩ := exists_eq_trim line
  obtain ⟨a, b, hmid, ha⟩ := List.eq_append_cons_of_mem (mem_trim_iff.mpr h)
  have hline : line = (pre ++ a) ++ '=' :: (b ++ suf) := by rw [heq, hmid]; simp
  have hpa : '=' ∉ pre ++ a := by simp [equals_not_mem hpre, ha]
  obtain ⟨hkey, hval⟩ := halves_eq (t := b) ha
  obtain ⟨hkey', hval'⟩ := halves_eq (t := b ++ suf) hpa
  rw [hmid, hkey, hval, hline, hkey', hval', trim_prepend hpre, trim_append hsuf]
  exact ⟨rfl, rfl⟩

theorem assignment_append (h : ∀ c ∈ suf, isSpace c = true) :
    assignment (s ++ suf) = assignment s := by
  have hmem : '=' ∈ s ++ suf ↔ '=' ∈ s := by simp [equals_not_mem h]
  unfold assignment
  simp only [trim_append h, hmem]
  split_ifs with hs
  · rfl
  · have hs : '=' ∈ s := by simpa using (not_or.mp (not_or.mp (not_or.mp hs).2).2).2
    have hs' : '=' ∈ s ++ suf := hmem.mpr hs
    rw [← (trim_halves hs).1, ← (trim_halves hs).2, ← (trim_halves hs').1, ← (trim_halves hs').2,
      trim_append h]

theorem mem_of_assignment {a : Text × Text} {c : Char} (h : assignment line = some a)
    (hc : c ∈ a.2) : c ∈ line := by
  unfold assignment at h
  split_ifs at h
  cases h
  exact (List.dropWhile_suffix _).subset (List.mem_of_mem_tail (mem_of_mem_trim hc))

theorem null_not_mem_cstr (buf : List Char) : '\x00' ∉ cstr buf := fun h => by
  simpa using List.mem_takeWhile_imp h

end Trim

namespace CharArray

variable {n : ℕ} {v : Text}

/-- The string at the last byte, which `strncpy` leaves. -/
def last (a : CharArray n) : Text := cstr (a.bytes.drop (n - 1))

@[simp] theorem last_copy (a : CharArray n) (v : Text) : (a.copy v).last = a.last := by
  unfold last copy
  have h : (v.take (n - 1) ++ List.replicate (n - 1 - v.length) '\x00').length = n - 1 := by
    simp only [List.length_append, List.length_take, List.length_replicate]
    omega
  simp only [List.drop_left' h]

/-- Padding ends the string; a text that fills the space in front runs into the rest. -/
theorem cstr_padded (h : '\x00' ∉ v) (m : ℕ) (rest : List Char) :
    cstr (v.take m ++ List.replicate (m - v.length) '\x00' ++ rest) =
      v.take m ++ if v.length < m then [] else cstr rest := by
  have hv : ∀ c ∈ v.take m, decide (c ≠ '\x00') = true := fun c hc =>
    decide_eq_true fun hce => h (hce ▸ List.mem_of_mem_take hc)
  unfold cstr
  rw [List.append_assoc, List.takeWhile_append_of_pos hv]
  congr 1
  split_ifs with hlen
  · obtain ⟨k, hk⟩ := Nat.exists_eq_add_of_lt hlen
    rw [show m - v.length = k + 1 by omega, List.replicate_succ, List.cons_append,
      List.takeWhile_cons_of_neg (by simp)]
  · rw [show m - v.length = 0 by omega, List.replicate_zero, List.nil_append]

theorem str_copy (a : CharArray n) (h : '\x00' ∉ v) :
    (a.copy v).str = v.take (n - 1) ++ if v.length < n - 1 then [] else a.last :=
  cstr_padded h (n - 1) (a.bytes.drop (n - 1))

theorem str_copy_terminate (a : CharArray n) (h : '\x00' ∉ v) (hlen : v.length < n - 1) :
    ((a.copy v).terminate (n - 1)).str = v := by
  have hfront : (v.take (n - 1) ++ List.replicate (n - 1 - v.length) '\x00').length = n - 1 := by
    simp only [List.length_append, List.length_take, List.length_replicate]
    omega
  unfold str terminate copy
  simp only
  rw [List.set_append_right _ _ hfront.le, cstr_padded h, if_pos hlen, List.append_nil,
    List.take_of_length_le hlen.le]

theorem last_terminate_last (a : CharArray n) : (a.terminate (n - 1)).last = [] := by
  unfold last terminate
  simp only [List.drop_set, lt_irrefl, if_false, Nat.sub_self]
  cases a.bytes.drop (n - 1) with
  | nil => rfl
  | cons b bytes => simp [cstr]

theorem last_terminate_of_lt (a : CharArray n) {i : ℕ} (h : i < n - 1) :
    (a.terminate i).last = a.last := by
  unfold last terminate
  simp only [List.drop_set_of_lt h]

theorem str_terminate_zero (a : CharArray n) : (a.terminate 0).str = [] := by
  obtain ⟨bytes, h⟩ := a
  cases bytes with
  | nil => rfl
  | cons b bytes => rfl

end CharArray

/-- What assigning to a field leaves in it; the log file's last byte is not written. -/
def Field.stored (last : Text) (f : Field) (v : Text) : Value D :=
  if f = .logFile then .text (v.take 255 ++ if v.length < 255 then [] else last)
  else f.read atof v

namespace ServerConfig

/-- Assign to one field. -/
def store (f : Field) (v : Text) (cfg : ServerConfig D) : ServerConfig D :=
  match f with
  | .port => { cfg with port := atoi v }
  | .threadPoolSize => { cfg with threadPoolSize := atoi v }
  | .maxClients => { cfg with maxClients := atoi v }
  | .maxRooms => { cfg with maxRooms := atoi v }
  | .maxMembers => { cfg with maxMembers := atoi v }
  | .historySize => { cfg with historySize := atoi v }
  | .rateBucketMax => { cfg with rateBucketMax := atoi v }
  | .rateRefillRate => { cfg with rateRefillRate := atof v }
  | .rateMsgCost => { cfg with rateMsgCost := atoi v }
  | .tlsCert => { cfg with tlsCert := cfg.tlsCert.copy v }
  | .tlsKey => { cfg with tlsKey := cfg.tlsKey.copy v }
  | .poolShrinkIdleSec => { cfg with poolShrinkIdleSec := atoi v }
  | .poolMinThreads => { cfg with poolMinThreads := atoi v }
  | .logLevel => { cfg with logLevel := cfg.logLevel.copy v }
  | .logFile => { cfg with logFile := cfg.logFile.copy v }

variable {atof} {cfg : ServerConfig D} {f g : Field} {k v last line : Text} {lines : List Text}

theorem assign_key : cfg.assign atof f.key v = cfg.store atof f v := by
  cases f <;> rfl

theorem assign_unknown (h : ∀ f : Field, f.key ≠ k) : cfg.assign atof k v = cfg := by
  have hne : ∀ f : Field, k ≠ f.key := fun f => (h f).symm
  exact (if_neg (hne .port)).trans <| (if_neg (hne .threadPoolSize)).trans <|
    (if_neg (hne .maxClients)).trans <| (if_neg (hne .maxRooms)).trans <|
    (if_neg (hne .maxMembers)).trans <| (if_neg (hne .historySize)).trans <|
    (if_neg (hne .rateBucketMax)).trans <| (if_neg (hne .rateRefillRate)).trans <|
    (if_neg (hne .rateMsgCost)).trans <| (if_neg (hne .tlsCert)).trans <|
    (if_neg (hne .tlsKey)).trans <| (if_neg (hne .poolShrinkIdleSec)).trans <|
    (if_neg (hne .poolMinThreads)).trans <| (if_neg (hne .logLevel)).trans <|
    if_neg (hne .logFile)

/-- The last bytes of the arrays: only that of the log file may be anything. -/
structure Lasts (last : Text) (cfg : ServerConfig D) : Prop where
  tlsCert : cfg.tlsCert.last = []
  tlsKey : cfg.tlsKey.last = []
  logLevel : cfg.logLevel.last = []
  logFile : cfg.logFile.last = last

theorem lasts_setDefaults [One D] : Lasts cfg.logFile.last cfg.setDefaults where
  tlsCert := CharArray.last_terminate_last _
  tlsKey := CharArray.last_terminate_last _
  logLevel := CharArray.last_terminate_last _
  logFile := CharArray.last_terminate_of_lt _ (by decide)

theorem settings_setDefaults [One D] : cfg.setDefaults.settings = Field.default := by
  funext f
  cases f with
  | tlsCert =>
    exact congrArg Value.text (CharArray.str_copy_terminate _ (by decide) (by decide))
  | tlsKey =>
    exact congrArg Value.text (CharArray.str_copy_terminate _ (by decide) (by decide))
  | logLevel =>
    exact congrArg Value.text (CharArray.str_copy_terminate _ (by decide) (by decide))
  | logFile => exact congrArg Value.text (CharArray.str_terminate_zero _)
  | _ => rfl

theorem Lasts.store (h : Lasts last cfg) : Lasts last (cfg.store atof f v) := by
  obtain ⟨hcert, hkey, hlevel, hfile⟩ := h
  cases f <;> constructor <;> simp [ServerConfig.store, *]

theorem Lasts.settings_store (h : Lasts last cfg) (hv : '\x00' ∉ v) :
    (cfg.store atof g v).settings f =
      if f = g then f.stored atof last v else cfg.settings f := by
  split_ifs with hfg
  · subst hfg
    cases f <;>
      simp [ServerConfig.store, settings, Field.stored, Field.read, CharArray.str_copy _ hv,
        h.tlsCert, h.tlsKey, h.logLevel, h.logFile]
  · cases g <;> cases f <;> first | rfl | exact absurd rfl hfg

theorem Lasts.assign (h : Lasts last cfg) : Lasts last (cfg.assign atof k v) := by
  by_cases hk : ∃ f : Field, f.key = k
  · obtain ⟨f, rfl⟩ := hk
    rw [assign_key]
    exact h.store
  · rwa [assign_unknown (not_exists.mp hk)]

theorem Lasts.settings_assign (h : Lasts last cfg) (hv : '\x00' ∉ v) :
    (cfg.assign atof k v).settings f =
      if f.key = k then f.stored atof last v else cfg.settings f := by
  by_cases hk : ∃ f : Field, f.key = k
  · obtain ⟨g, rfl⟩ := hk
    rw [assign_key, h.settings_store hv]
    simp only [Field.key_injective.eq_iff]
  · rw [assign_unknown (not_exists.mp hk), if_neg (not_exists.mp hk f)]

theorem loadLine_eq : cfg.loadLine atof line =
    ((assignment line).map fun a => cfg.assign atof a.1 a.2).getD cfg := by
  unfold loadLine assignment
  simp only [mem_trim_iff]
  by_cases hcomment : trim line = [] ∨ (trim line).head? = some '#' ∨ (trim line).head? = some '['
  · rw [if_pos hcomment, if_pos (by tauto)]
    rfl
  · rw [if_neg hcomment]
    by_cases heq : '=' ∈ line
    · rw [if_neg (not_not.mpr heq), if_neg (by tauto), (trim_halves heq).1, (trim_halves heq).2]
      rfl
    · rw [if_pos heq, if_pos (by tauto)]
      rfl

theorem Lasts.settings_foldl (h : Lasts last cfg) (hnul : ∀ line ∈ lines, '\x00' ∉ line) :
    (lines.foldl (fun cfg line => cfg.loadLine atof line) cfg).settings =
      (lines.filterMap assignment).foldl
        (fun s a f => if f.key = a.1 then f.stored atof last a.2 else s f) cfg.settings := by
  induction lines generalizing cfg with
  | nil => rfl
  | cons line lines ih =>
    obtain ⟨hline, hnul⟩ := List.forall_mem_cons.mp hnul
    rw [List.foldl_cons, loadLine_eq]
    cases ha : assignment line with
    | none =>
      rw [List.filterMap_cons_none ha]
      exact ih h hnul
    | some a =>
      have hv : '\x00' ∉ a.2 := fun hmem => hline (mem_of_assignment ha hmem)
      rw [List.filterMap_cons_some ha, List.foldl_cons]
      refine (ih h.assign hnul).trans ?_
      congr 1
      funext f
      exact h.settings_assign hv

theorem loadLoop_eq (fuel : ℕ) (stream : List Char) (cfg : ServerConfig D) :
    cfg.loadLoop atof fuel stream = ((pieces '\n' 511 fuel stream).map cstr).foldl
      (fun cfg line => cfg.loadLine atof line) cfg := by
  induction fuel generalizing stream cfg with
  | zero => rfl
  | succ fuel ih =>
    cases stream with
    | nil => rfl
    | cons x stream => exact ih _ _

end ServerConfig

theorem bufferLines_no_null {content : List Char} {line : Text} (h : line ∈ bufferLines content) :
    '\x00' ∉ line := by
  obtain ⟨piece, -, rfl⟩ := List.mem_map.mp h
  exact null_not_mem_cstr piece

theorem settings_configLoad [One D] (content : List Char) (cfg : ServerConfig D) (f : Field) :
    (configLoad atof (some content) cfg).2.settings f =
      ((lastValue (bufferLines content) f).map
        (f.stored atof cfg.logFile.last)).getD f.default := by
  have hload : (configLoad atof (some content) cfg).2 =
      (bufferLines content).foldl (fun cfg line => cfg.loadLine atof line) cfg.setDefaults :=
    ServerConfig.loadLoop_eq _ _ _
  rw [hload, ServerConfig.lasts_setDefaults.settings_foldl fun _ => bufferLines_no_null,
    ServerConfig.settings_setDefaults]
  exact foldl_assign Field.key (Field.stored atof cfg.logFile.last) Field.default f

theorem filterMap_bufferLines {content : List Char}
    (hlines : ∀ line ∈ terminated '\n' content, line.length < 511)
    (hrest : (unterminated '\n' content).length ≤ 511) :
    (bufferLines content).filterMap assignment = (textLines content).filterMap assignment := by
  have hline : ∀ line : List Char,
      assignment (cstr (line ++ ['\n'])) = assignment (cstr line) := by
    intro line
    unfold cstr
    rw [List.takeWhile_append]
    split_ifs with h
    · have hspace : ∀ c ∈ ['\n'].takeWhile (· ≠ '\x00'), isSpace c = true := by
        intro c hc
        obtain rfl := List.mem_singleton.mp ((List.takeWhile_sublist _).subset hc)
        rfl
      rw [(List.takeWhile_sublist _).eq_of_length h]
      exact assignment_append hspace
    · rfl
  unfold bufferLines textLines
  rw [pieces_eq_lines le_rfl hlines hrest]
  simp only [List.map_append, List.map_map, List.filterMap_append, List.filterMap_map,
    Function.comp_def, hline]
  congr 1
  split_ifs with h
  · rw [h]
    rfl
  · rfl

variable {atof}

theorem CharArray.last_eq_nil_iff {n : ℕ} (a : CharArray (n + 1)) :
    a.last = [] ↔ a.bytes[n]? = some '\x00' := by
  have hlt : n < a.bytes.length := by rw [a.length_eq]; exact n.lt_succ_self
  have hdrop : a.bytes.drop n = [a.bytes[n]] := by
    rw [List.drop_eq_getElem_cons hlt, List.drop_of_length_le a.length_eq.le]
  rw [List.getElem?_eq_getElem hlt, last, Nat.add_sub_cancel, hdrop, Option.some_inj]
  by_cases h : a.bytes[n] = '\x00'
  · simp [h, cstr]
  · simp [h, cstr]

/-- A text that fills the log file's array is not ended, and no line denotes that. -/
theorem stored_ne_read [One D] {last s : Text} (hlast : last ≠ []) (hs : ¬s.length < 255)
    (w : Option Text) : Field.stored atof last .logFile s ≠
      (w.map (Field.logFile.read atof)).getD Field.logFile.default := by
  intro h
  have hlen : ∀ w : Option Text, ∃ t, t.length ≤ 255 ∧
      (w.map (Field.logFile.read atof)).getD Field.logFile.default = .text t := by
    intro w
    cases w with
    | none => exact ⟨[], Nat.zero_le _, rfl⟩
    | some w => exact ⟨w.take 255, List.length_take_le 255 w, rfl⟩
  obtain ⟨t, ht, hw⟩ := hlen w
  rw [hw, Field.stored, if_pos rfl, if_neg hs, Value.text.injEq] at h
  have hpos := List.length_pos_iff.mpr hlast
  rw [← h, List.length_append, List.length_take] at ht
  omega

theorem getD_stored_eq_iff [One D] {last : Text} (v w : Option Text) (f : Field) :
    (v.map (f.stored atof last)).getD f.default = (w.map (f.read atof)).getD f.default ↔
      (v.map (f.read atof)).getD f.default = (w.map (f.read atof)).getD f.default ∧
        (f = .logFile → last = [] ∨ ∀ s ∈ v, s.length < 255) := by
  by_cases hf : f = .logFile
  · subst hf
    cases v with
    | none => simp
    | some s =>
      by_cases hs : last = [] ∨ s.length < 255
      · have hstored : Field.stored atof last .logFile s = Field.logFile.read atof s := by
          obtain rfl | hs := hs <;> simp [Field.stored, Field.read, *]
        simp [hstored, hs]
      · obtain ⟨hlast, hs⟩ := not_or.mp hs
        simp [stored_ne_read hlast hs, hlast, hs]
  · have hstored : Field.stored atof last f = f.read atof := by
      funext s
      rw [Field.stored, if_neg hf]
    simp [hstored, hf]

/--
The loader follows the grammar exactly if the buffers assign last what the
lines do, which holds of lines that fit a buffer, and the log file's text
leaves room for the byte that ends it, or that byte is there already.
-/
theorem configLoad_grammar_iff [One D] (content : List Char) (cfg : ServerConfig D) :
    ((configLoad atof (some content) cfg).2.settings = grammar atof (textLines content) ↔
      (∀ f : Field,
        ((lastValue (bufferLines content) f).map (f.read atof)).getD f.default =
          ((lastValue (textLines content) f).map (f.read atof)).getD f.default) ∧
      (cfg.logFile.bytes[255]? = some '\x00' ∨
        ∀ v ∈ lastValue (bufferLines content) .logFile, v.length < 255)) ∧
    ((∀ line ∈ terminated '\n' content, line.length < 511) →
      (unterminated '\n' content).length ≤ 511 →
      ∀ f : Field, lastValue (bufferLines content) f = lastValue (textLines content) f) := by
  constructor
  · rw [grammar_eq_reading, funext_iff, ← CharArray.last_eq_nil_iff]
    simp only [settings_configLoad, reading, getD_stored_eq_iff, forall_and, forall_eq]
  · intro hlines hrest f
    rw [lastValue, lastValue, filterMap_bufferLines hlines hrest]

/-- A comment of 511 bytes and what follows it on its line. -/
def longComment : List Char := '#' :: List.replicate 510 'x' ++ "port=1".toList

/-- A configuration in memory that is all zero. -/
def zeroConfig : ServerConfig ℤ where
  port := 0
  threadPoolSize := 0
  maxClients := 0
  maxRooms := 0
  maxMembers := 0
  historySize := 0
  rateBucketMax := 0
  rateRefillRate := 0
  rateMsgCost := 0
  tlsCert := ⟨List.replicate 256 '\x00', List.length_replicate⟩
  tlsKey := ⟨List.replicate 256 '\x00', List.length_replicate⟩
  poolShrinkIdleSec := 0
  poolMinThreads := 0
  logLevel := ⟨List.replicate 16 '\x00', List.length_replicate⟩
  logFile := ⟨List.replicate 256 '\x00', List.length_replicate⟩

/-- The tail of a long comment is read as a line and sets the port. -/
theorem configLoad_not_grammar : ¬∀ (content : List Char) (cfg : ServerConfig ℤ),
    (configLoad atoi (some content) cfg).2.settings = grammar atoi (textLines content) := by
  intro h
  have hport := congrFun (h longComment zeroConfig) .port
  rw [settings_configLoad, grammar_eq_reading] at hport
  have hcode : lastValue (bufferLines longComment) .port = some "1".toList := by decide +kernel
  have hspec : lastValue (textLines longComment) .port = none := by decide +kernel
  rw [hcode, reading, hspec] at hport
  exact absurd hport (by decide)

end ChatServer
