import Mathlib.Data.List.Induction

/-! # Runs of a deterministic step function

A run folds a step function over a list of inputs. An invariant kept by every
step holds after every run; an invariant kept by the steps that meet a
condition holds after every run all of whose steps meet it.
-/

namespace ChatServer.Library

variable {σ ε : Type*} (step : σ → ε → σ)

/-- The state after a list of inputs. -/
def run (s : σ) (es : List ε) : σ := es.foldl step s

@[simp] theorem run_nil (s : σ) : run step s [] = s := rfl

@[simp] theorem run_cons (s : σ) (e : ε) (es : List ε) :
    run step s (e :: es) = run step (step s e) es := rfl

theorem run_append (s : σ) (es fs : List ε) :
    run step s (es ++ fs) = run step (run step s es) fs := List.foldl_append

theorem run_concat (s : σ) (es : List ε) (e : ε) :
    run step s (es ++ [e]) = step (run step s es) e := by
  rw [run_append]; rfl

/-- Every step of the run meets a condition on its input and the state before it. -/
def Along (C : σ → ε → Prop) : σ → List ε → Prop
  | _, [] => True
  | s, e :: es => C s e ∧ Along C (step s e) es

instance Along.decidable {C : σ → ε → Prop} [∀ s e, Decidable (C s e)] :
    (s : σ) → (es : List ε) → Decidable (Along step C s es)
  | _, [] => isTrue trivial
  | s, e :: es =>
    have : Decidable (Along step C (step s e) es) := Along.decidable (step s e) es
    inferInstanceAs (Decidable (C s e ∧ Along step C (step s e) es))

variable {step}

theorem along_append {C : σ → ε → Prop} {s : σ} {es fs : List ε} :
    Along step C s (es ++ fs) ↔ Along step C s es ∧ Along step C (run step s es) fs := by
  induction es generalizing s with
  | nil => simp [Along]
  | cons e es ih => simp only [List.cons_append, Along, ih, run_cons, and_assoc]

theorem along_iff_forall {C : σ → ε → Prop} {s : σ} {es : List ε} :
    Along step C s es ↔ ∀ pre e, pre ++ [e] <+: es → C (run step s pre) e := by
  induction es generalizing s with
  | nil => simp [Along]
  | cons e es ih =>
    constructor
    · rintro ⟨hc, hcs⟩ pre e' hpre
      cases pre with
      | nil =>
        obtain ⟨rfl, -⟩ := List.cons_prefix_cons.mp hpre
        exact hc
      | cons f pre =>
        obtain ⟨rfl, htail⟩ := List.cons_prefix_cons.mp hpre
        exact ih.mp hcs pre e' htail
    · intro h
      refine ⟨h [] e ⟨es, rfl⟩, ih.mpr fun pre e' hpre => h (e :: pre) e' ?_⟩
      exact List.cons_prefix_cons.mpr ⟨rfl, hpre⟩

theorem along_of_forall {C : ε → Prop} {s : σ} {es : List ε} (h : ∀ e ∈ es, C e) :
    Along step (fun _ => C) s es := by
  induction es generalizing s with
  | nil => trivial
  | cons e es ih =>
    exact ⟨h e List.mem_cons_self, ih fun e he => h e (List.mem_cons_of_mem _ he)⟩

theorem run_invariant_along {C : σ → ε → Prop} {I : σ → Prop}
    (h : ∀ s e, I s → C s e → I (step s e)) {s : σ} {es : List ε} (hs : I s)
    (hc : Along step C s es) : I (run step s es) := by
  induction es generalizing s with
  | nil => exact hs
  | cons e es ih => exact ih (h s e hs hc.1) hc.2

theorem along_of_invariant {C : σ → ε → Prop} {I : σ → Prop}
    (h : ∀ s e, I s → C s e → I (step s e)) {s : σ} {es : List ε} (hs : I s)
    (hc : Along step C s es) : Along step (fun s _ => I s) s es := by
  induction es generalizing s with
  | nil => trivial
  | cons e es ih => exact ⟨hs, ih (h s e hs hc.1) hc.2⟩

theorem run_invariant {I : σ → Prop} (h : ∀ s e, I s → I (step s e)) {s : σ} (hs : I s)
    (es : List ε) : I (run step s es) := by
  induction es generalizing s with
  | nil => exact hs
  | cons e es ih => exact ih (h s e hs)

theorem Along.imp {C D : σ → ε → Prop} {I : σ → Prop} (hI : ∀ s e, I s → I (step s e))
    (h : ∀ s e, I s → C s e → D s e) {s : σ} (hs : I s) {es : List ε}
    (hc : Along step C s es) : Along step D s es := by
  induction es generalizing s with
  | nil => trivial
  | cons e es ih => exact ⟨h s e hs hc.1, ih (hI s e hs) hc.2⟩

theorem along_congr {C D : σ → ε → Prop} {I : σ → Prop}
    (hkeep : ∀ s e, I s → C s e → I (step s e)) (h : ∀ s e, I s → (C s e ↔ D s e)) {s : σ}
    (hs : I s) {es : List ε} : Along step C s es ↔ Along step D s es := by
  induction es generalizing s with
  | nil => exact Iff.rfl
  | cons e es ih =>
    constructor
    · rintro ⟨hc, hcs⟩
      exact ⟨(h s e hs).mp hc, (ih (hkeep s e hs hc)).mp hcs⟩
    · rintro ⟨hd, hds⟩
      have hc := (h s e hs).mpr hd
      exact ⟨hc, (ih (hkeep s e hs hc)).mpr hds⟩

/--
If steps keep a property when they meet a condition and break it when they do
not, it holds in every state a run reaches exactly if every step meets the
condition. The inputs may be restricted, and the states to those of an invariant.
-/
theorem along_iff_prefixes_of {P : ε → Prop} {C : σ → ε → Prop} {I J : σ → Prop}
    (hJ : ∀ s e, P e → J s → J (step s e))
    (hkeep : ∀ s e, P e → J s → I s → C s e → I (step s e))
    (hbreak : ∀ s e, P e → J s → I s → ¬ C s e → ¬ I (step s e)) {s : σ} (hs : J s) (hi : I s)
    {es : List ε} (hes : ∀ e ∈ es, P e) :
    Along step C s es ↔ ∀ fs, fs <+: es → I (run step s fs) := by
  induction es generalizing s with
  | nil =>
    refine ⟨fun _ fs hfs => ?_, fun _ => trivial⟩
    rw [List.prefix_nil.mp hfs]
    exact hi
  | cons e es ih =>
    obtain ⟨he, hrest⟩ := List.forall_mem_cons.mp hes
    constructor
    · rintro ⟨hc, hcs⟩ fs hfs
      cases fs with
      | nil => exact hi
      | cons f fs =>
        obtain ⟨rfl, hpre⟩ := List.cons_prefix_cons.mp hfs
        exact (ih (hJ s f he hs) (hkeep s f he hs hi hc) hrest).mp hcs fs hpre
    · intro h
      have hstep : I (step s e) := h [e] ⟨es, rfl⟩
      have hc : C s e := by
        by_contra hc
        exact hbreak s e he hs hi hc hstep
      refine ⟨hc, (ih (hJ s e he hs) hstep hrest).mpr fun fs hfs => h (e :: fs) ?_⟩
      exact List.cons_prefix_cons.mpr ⟨rfl, hfs⟩

theorem along_iff_prefixes {C : σ → ε → Prop} {I J : σ → Prop}
    (hJ : ∀ s e, J s → J (step s e)) (hkeep : ∀ s e, J s → I s → C s e → I (step s e))
    (hbreak : ∀ s e, J s → I s → ¬ C s e → ¬ I (step s e)) {s : σ} (hs : J s) (hi : I s)
    {es : List ε} : Along step C s es ↔ ∀ fs, fs <+: es → I (run step s fs) :=
  along_iff_prefixes_of (P := fun _ => True) (fun s e _ => hJ s e) (fun s e _ => hkeep s e)
    (fun s e _ => hbreak s e) hs hi fun _ _ => trivial

variable (step) in
/--
The origin of a property: if a step can only establish it, or keep it unless
the input ends it, then wherever it holds some input of the run established
it and no later one ended it.
-/
theorem run_origin {Q J : σ → Prop} {M : σ → ε → Prop} {E : ε → Prop}
    (hJ : ∀ s e, J s → J (step s e))
    (h : ∀ s e, J s → Q (step s e) → M s e ∨ (Q s ∧ ¬ E e)) {s : σ} (hs : J s) (h₀ : ¬ Q s)
    (es : List ε) (hq : Q (run step s es)) :
    ∃ pre e post, es = pre ++ e :: post ∧ M (run step s pre) e ∧ ∀ x ∈ post, ¬ E x := by
  induction es using List.reverseRecOn with
  | nil => exact absurd hq h₀
  | append_singleton es e ih =>
    rw [run_concat] at hq
    rcases h _ e (run_invariant hJ hs es) hq with hm | ⟨hq', he⟩
    · exact ⟨es, e, [], rfl, hm, by simp⟩
    · obtain ⟨pre, e', post, rfl, hm, hpost⟩ := ih hq'
      refine ⟨pre, e', post ++ [e], by simp, hm, fun x hx => ?_⟩
      rcases List.mem_append.mp hx with hx | hx
      · exact hpost x hx
      · rw [List.mem_singleton.mp hx]
        exact he

variable (step) in
/--
The last origin of a property that a step can only keep or establish: from
some step on that established it, it held in every state of the run.
-/
theorem run_origin_kept {Q : σ → Prop} {M : σ → ε → Prop} {s : σ} {es : List ε} (h₀ : ¬ Q s)
    (h : ∀ pre e, pre ++ [e] <+: es → Q (step (run step s pre) e) →
      M (run step s pre) e ∨ Q (run step s pre))
    (hq : Q (run step s es)) :
    ∃ pre e post, es = pre ++ e :: post ∧ M (run step s pre) e ∧
      ∀ fs, fs <+: post → Q (run step s (pre ++ e :: fs)) := by
  induction es using List.reverseRecOn with
  | nil => exact absurd hq h₀
  | append_singleton es e ih =>
    have hlast := h es e List.prefix_rfl (run_concat step s es e ▸ hq)
    rcases hlast with hm | hq'
    · refine ⟨es, e, [], rfl, hm, fun fs hfs => ?_⟩
      rw [List.prefix_nil.mp hfs]
      exact hq
    · obtain ⟨pre, e', post, rfl, hm, hpost⟩ :=
        ih (fun pre e' hpre => h pre e' (hpre.trans (List.prefix_append _ _))) hq'
      refine ⟨pre, e', post ++ [e], by simp, hm, fun fs hfs => ?_⟩
      rcases List.prefix_concat_iff.mp hfs with rfl | hfs
      · simpa using hq
      · exact hpost fs hfs

variable (step) in
/-- Some steps, each meeting a condition on its input and the state before it, lead to `t`. -/
def Execution (C : σ → ε → Prop) (s t : σ) : Prop := ∃ es, Along step C s es ∧ run step s es = t

namespace Execution

variable {C D : σ → ε → Prop} {s t u : σ}

@[refl] theorem refl (s : σ) : Execution step C s s := ⟨[], trivial, rfl⟩

theorem single {e : ε} (h : C s e) : Execution step C s (step s e) := ⟨[e], ⟨h, trivial⟩, rfl⟩

theorem trans (h₁ : Execution step C s t) (h₂ : Execution step C t u) : Execution step C s u := by
  obtain ⟨es, hes, rfl⟩ := h₁
  obtain ⟨fs, hfs, rfl⟩ := h₂
  exact ⟨es ++ fs, along_append.mpr ⟨hes, hfs⟩, run_append step s es fs⟩

theorem tail {e : ε} (h₁ : Execution step C s t) (h₂ : C t e) : Execution step C s (step t e) :=
  h₁.trans (single h₂)

theorem invariant {I : σ → Prop} (h : ∀ s e, I s → C s e → I (step s e))
    (hp : Execution step C s t) (hs : I s) : I t := by
  obtain ⟨es, hes, rfl⟩ := hp
  exact run_invariant_along h hs hes

theorem mono (h : ∀ s e, C s e → D s e) (hp : Execution step C s t) : Execution step D s t := by
  obtain ⟨es, hes, rfl⟩ := hp
  exact ⟨es, hes.imp (I := fun _ => True) (fun _ _ _ => trivial) (fun s e _ => h s e) trivial, rfl⟩

theorem exists_flip {P : σ → Prop} (hp : Execution step C s t) (hs : ¬ P s) (ht : P t) :
    ∃ u e, C u e ∧ ¬ P u ∧ P (step u e) := by
  obtain ⟨es, hes, rfl⟩ := hp
  induction es generalizing s with
  | nil => exact absurd ht hs
  | cons e es ih =>
    by_cases hstep : P (step s e)
    · exact ⟨s, e, hes.1, hs, hstep⟩
    · exact ih hstep hes.2 ht

theorem exists_change {P : σ → Prop} (hp : Execution step C s t) (h : ¬ (P s ↔ P t)) :
    ∃ u e, C u e ∧ ¬ (P u ↔ P (step u e)) := by
  by_cases hs : P s
  · have ht : ¬ P t := fun ht => h (iff_of_true hs ht)
    obtain ⟨u, e, hc, hu, hstep⟩ := hp.exists_flip (P := fun s => ¬ P s) (not_not_intro hs) ht
    exact ⟨u, e, hc, fun hiff => hu fun hP => hstep (hiff.mp hP)⟩
  · have ht : P t := by
      by_contra ht
      exact h (iff_of_false hs ht)
    obtain ⟨u, e, hc, hu, hstep⟩ := hp.exists_flip hs ht
    exact ⟨u, e, hc, fun hiff => hu (hiff.mpr hstep)⟩

end Execution

end ChatServer.Library
