import Mathlib.Data.List.Chain
import Mathlib.Data.List.DropRight
import Mathlib.Data.List.Flatten

/-! # Tokens of a list

The tokens of a list are its maximal runs without separators. A list that is
cut in pieces keeps its tokens exactly if no cut has a token on both sides.
-/

namespace ChatServer.Library

variable {α : Type*} {sep : α → Bool} {a b l t : List α} {c x : α}

def tokens (sep : α → Bool) (l : List α) : List (List α) :=
  (l.splitOnP sep).filter fun t => !t.isEmpty

@[simp] theorem tokens_nil : tokens sep [] = [] := by
  simp [tokens]

theorem tokens_append_cons (hc : sep c) :
    tokens sep (a ++ c :: b) = tokens sep a ++ tokens sep b := by
  rw [tokens, List.splitOnP_append_cons _ _ hc, List.filter_append]
  rfl

theorem tokens_cons (hc : sep c) : tokens sep (c :: l) = tokens sep l := by
  have h := tokens_append_cons (a := []) (b := l) hc
  rwa [List.nil_append, tokens_nil] at h

theorem tokens_eq_singleton (hne : t ≠ []) (ht : ∀ x ∈ t, sep x = false) :
    tokens sep t = [t] := by
  simp [tokens, List.splitOnP_eq_singleton ht, hne]

theorem tokens_token (hne : t ≠ []) (ht : ∀ x ∈ t, sep x = false) (hc : sep c) :
    tokens sep (t ++ c :: l) = t :: tokens sep l := by
  rw [tokens_append_cons hc, tokens_eq_singleton hne ht, List.singleton_append]

theorem tokens_seps (ha : ∀ x ∈ a, sep x) : tokens sep (a ++ l) = tokens sep l := by
  induction a with
  | nil => rfl
  | cons x a ih =>
    rw [List.cons_append, tokens_cons (ha x List.mem_cons_self)]
    exact ih fun y hy => ha y (List.mem_cons_of_mem x hy)

/-- The cut between two lists has no separator on either side. -/
def Inside (sep : α → Bool) (a b : List α) : Prop :=
  ∃ x ∈ a.getLast?, ∃ y ∈ b.head?, sep x = false ∧ sep y = false

theorem tokens_append (h : ¬ Inside sep a b) :
    tokens sep (a ++ b) = tokens sep a ++ tokens sep b := by
  rcases List.eq_nil_or_concat a with rfl | ⟨a, x, rfl⟩
  · simp
  cases b with
  | nil => simp
  | cons y b =>
    rw [List.concat_eq_append] at h ⊢
    by_cases hx : sep x
    · rw [List.append_assoc, List.singleton_append, tokens_append_cons hx, tokens_append_cons hx,
        tokens_nil, List.append_nil]
    · have hy : sep y := by
        by_contra hy
        exact h ⟨x, by simp, y, by simp, by simpa using hx, by simpa using hy⟩
      rw [tokens_append_cons hy, tokens_cons hy]

theorem exists_last_token (h : x ∈ a.getLast?) (hx : sep x = false) :
    ∃ p t, a = p ++ t ∧ t ≠ [] ∧ (∀ y ∈ t, sep y = false) ∧ ∀ y ∈ p.getLast?, sep y := by
  refine ⟨a.rdropWhile fun y => !sep y, a.rtakeWhile fun y => !sep y,
    List.rdropWhile_append_rtakeWhile.symm, fun hnil => ?_, fun y hy => ?_, fun y hy => ?_⟩
  · obtain ⟨hne, rfl⟩ := List.mem_getLast?_eq_getLast h
    exact List.rtakeWhile_eq_nil_iff.mp hnil hne (by simp [hx])
  · simpa using List.mem_rtakeWhile_imp hy
  · obtain ⟨hne, rfl⟩ := List.mem_getLast?_eq_getLast hy
    simpa using List.rdropWhile_last_not _ _ hne

theorem exists_first_token (h : x ∈ b.head?) (hx : sep x = false) :
    ∃ t q, b = t ++ q ∧ t ≠ [] ∧ (∀ y ∈ t, sep y = false) ∧ ∀ y ∈ q.head?, sep y := by
  refine ⟨b.takeWhile fun y => !sep y, b.dropWhile fun y => !sep y,
    List.takeWhile_append_dropWhile.symm, fun hnil => ?_, fun y hy => ?_, fun y hy => ?_⟩
  · cases b with
    | nil => simp at h
    | cons y b =>
      obtain rfl : y = x := by simpa using h
      simp [hx] at hnil
  · simpa using List.mem_takeWhile_imp hy
  · have hnot := List.head?_dropWhile_not (fun y => !sep y) b
    rw [Option.mem_def.mp hy] at hnot
    simpa using hnot

theorem tokens_append_of_last (h : ∀ x ∈ a.getLast?, sep x) :
    tokens sep (a ++ b) = tokens sep a ++ tokens sep b := by
  refine tokens_append ?_
  rintro ⟨x, hx, -, -, hsep, -⟩
  simp [h x hx] at hsep

/-- A cut within a token makes two of it. -/
theorem length_tokens_append (h : Inside sep a b) :
    (tokens sep (a ++ b)).length + 1 = (tokens sep a).length + (tokens sep b).length := by
  obtain ⟨x, hx, y, hy, hsx, hsy⟩ := h
  obtain ⟨p, t, rfl, ht, htsep, hp⟩ := exists_last_token hx hsx
  obtain ⟨u, q, rfl, hu, husep, hq⟩ := exists_first_token hy hsy
  have hleft (l : List α) : tokens sep (p ++ l) = tokens sep p ++ tokens sep l :=
    tokens_append_of_last hp
  have hright (l : List α) : tokens sep (l ++ q) = tokens sep l ++ tokens sep q := by
    refine tokens_append ?_
    rintro ⟨-, -, z, hz, -, hsz⟩
    simp [hq z hz] at hsz
  have hmid : ∀ z ∈ t ++ u, sep z = false := fun z hz =>
    (List.mem_append.mp hz).elim (htsep z) (husep z)
  have hwhole : p ++ t ++ (u ++ q) = p ++ (t ++ u ++ q) := by simp
  rw [hwhole, hleft, hright, hleft, hright, tokens_eq_singleton (by simp [ht]) hmid,
    tokens_eq_singleton ht htsep, tokens_eq_singleton hu husep]
  simp only [List.length_append, List.length_singleton]
  omega

theorem flatten_tokens (l : List α) : (tokens sep l).flatten = l.filter fun x => !sep x := by
  induction l using List.reverseRecOn with
  | nil => simp
  | append_singleton l x ih =>
    rw [List.filter_append, ← ih]
    by_cases hx : sep x
    · rw [tokens_append_cons hx]
      simp [hx]
    · rw [Bool.not_eq_true] at hx
      have hsingle : tokens sep [x] = [[x]] := tokens_eq_singleton (by simp) (by simpa using hx)
      by_cases hcut : Inside sep l [x]
      · obtain ⟨y, hy, -, -, hsy, -⟩ := hcut
        obtain ⟨p, t, rfl, ht, htsep, hp⟩ := exists_last_token hy hsy
        have htx : ∀ z ∈ t ++ [x], sep z = false := by
          simpa [or_imp, forall_and, hx] using htsep
        rw [List.append_assoc, tokens_append_of_last hp, tokens_append_of_last hp,
          tokens_eq_singleton ht htsep, tokens_eq_singleton (by simp) htx]
        simp [hx]
      · rw [tokens_append hcut, hsingle]
        simp [hx]

theorem flatten_flatMap_tokens (chunks : List (List α)) :
    (chunks.flatMap (tokens sep)).flatten = chunks.flatten.filter fun x => !sep x := by
  induction chunks with
  | nil => rfl
  | cons c chunks ih =>
    rw [List.flatMap_cons, List.flatten_append, List.flatten_cons, List.filter_append, ih,
      flatten_tokens]

theorem tokens_eq_nil_iff : tokens sep l = [] ↔ ∀ x ∈ l, sep x := by
  constructor
  · intro h x hx
    have hflat : (tokens sep l).flatten = _ := flatten_tokens l
    rw [h, List.flatten_nil, eq_comm, List.filter_eq_nil_iff] at hflat
    simpa using hflat x hx
  · intro h
    rw [← List.append_nil l, tokens_seps h, tokens_nil]

theorem flatMap_tokens_eq_nil_iff {chunks : List (List α)} :
    chunks.flatMap (tokens sep) = [] ↔ chunks.flatten.filter (fun x => !sep x) = [] := by
  rw [List.flatMap_eq_nil_iff, List.filter_eq_nil_iff]
  simp only [tokens_eq_nil_iff, List.mem_flatten, Bool.not_eq_true', Bool.not_eq_false]
  exact ⟨fun h x ⟨c, hc, hx⟩ => h c hc x hx, fun h c hc x hx => h x ⟨c, hc, hx⟩⟩

theorem tokens_lines {lines : List (List α)} (hc : sep c)
    (h : ∀ l ∈ lines, ∀ x ∈ l, sep x = false) :
    tokens sep (lines.flatMap (· ++ [c])) = lines.filter fun l => !l.isEmpty := by
  induction lines with
  | nil => simp
  | cons l lines ih =>
    have hl := h l List.mem_cons_self
    rw [List.flatMap_cons, List.append_assoc, List.singleton_append, tokens_append_cons hc,
      ih fun m hm => h m (List.mem_cons_of_mem l hm)]
    cases l with
    | nil => simp
    | cons x l => rw [tokens_eq_singleton (by simp) hl]; simp

theorem length_tokens_flatten_le (chunks : List (List α)) :
    (tokens sep chunks.flatten).length ≤ (chunks.flatMap (tokens sep)).length := by
  induction chunks with
  | nil => simp
  | cons c chunks ih =>
    rw [List.flatten_cons, List.flatMap_cons, List.length_append]
    by_cases h : Inside sep c chunks.flatten
    · have hlen := length_tokens_append h
      omega
    · rw [tokens_append h, List.length_append]
      omega

theorem head?_flatten_of_ne_nil {chunks : List (List α)} (h : ∀ c ∈ chunks, c ≠ []) :
    chunks.flatten.head? = chunks.head?.bind List.head? := by
  cases chunks with
  | nil => rfl
  | cons c chunks =>
    obtain ⟨x, c, rfl⟩ := List.exists_cons_of_ne_nil (h c List.mem_cons_self)
    rfl

/-- Pieces have the tokens of the whole exactly if no cut is inside a token. -/
theorem flatMap_tokens_eq_iff {chunks : List (List α)} (h : ∀ c ∈ chunks, c ≠ []) :
    chunks.flatMap (tokens sep) = tokens sep chunks.flatten ↔
      chunks.IsChain fun a b => ¬ Inside sep a b := by
  induction chunks with
  | nil => simp
  | cons c chunks ih =>
    have hrest : ∀ c ∈ chunks, c ≠ [] := fun d hd => h d (List.mem_cons_of_mem c hd)
    have hinside : Inside sep c chunks.flatten ↔ ∃ d ∈ chunks.head?, Inside sep c d := by
      unfold Inside
      rw [head?_flatten_of_ne_nil hrest]
      cases chunks <;> simp
    rw [List.flatten_cons, List.flatMap_cons, List.isChain_cons, ← ih hrest]
    by_cases hcut : Inside sep c chunks.flatten
    · refine iff_of_false (fun heq => ?_) fun hall => ?_
      · have hlen := length_tokens_append hcut
        have hle : (tokens sep chunks.flatten).length ≤ _ := length_tokens_flatten_le chunks
        have := congrArg List.length heq
        rw [List.length_append] at this
        omega
      · obtain ⟨d, hd, hcd⟩ := hinside.mp hcut
        exact hall.1 d hd hcd
    · rw [tokens_append hcut, List.append_cancel_left_eq]
      exact (and_iff_right fun d hd hcd => hcut (hinside.mpr ⟨d, hd, hcd⟩)).symm

end ChatServer.Library
