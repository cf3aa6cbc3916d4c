import Cocos.Lib.Lists
import Mathlib.Data.List.Basic
import Mathlib.Data.List.Induction

namespace Cocos.Lib

/-!
# Labelled machines

A machine takes one labelled event at a time; an event that is not enabled has no
successor.  Everything nondeterministic (who moves next, what a clock reads) is in the
label, so a run is a list of events and an interleaving of several parties is nothing
but the order of their events in that list.

* `run` — the state a list of events leads to, if each of them was enabled, and `exists_run`,
  for one that is evaluated;
* `run_concat`, `run_append_eq_some`, `run_split` — a run cut before its last event, and anywhere;
* `run_induction` — the one induction over runs: a property of the events so far and
  the state they led to, preserved by each step;
* `invariant_run` / `related_run` — its two common cases, an invariant of the state and
  a preorder between the first state and the last;
* `related_runs` — two runs by events of one kind each, in step with each other;
* `followed_run` — a run that another machine follows, step by step;
* `Along` — a condition met by every step of a run, and `invariant_along`, the invariant
  rule for the runs that meet it; `along_iff`, `along_iff_of_forall` — a condition that cannot be
  weaker;
* `Since` — a step of the run met a condition and nothing after it undid it, and
  `since_iff`: what one step says of a flag, the run says of its end.
-/

universe u v

variable {σ : Type u} {ε : Type v}

/-- A machine: the successor of a state under an event, `none` when it is not enabled. -/
structure Machine (σ : Type u) (ε : Type v) where
  step : σ → ε → Option σ

namespace Machine

variable (M : Machine σ ε)

/-- The state reached from `s` by the events `es`, if each was enabled in its turn. -/
def run (s : σ) : List ε → Option σ
  | [] => some s
  | e :: es => (M.step s e).bind fun s' => run s' es

@[simp] theorem run_nil (s : σ) : M.run s [] = some s := rfl

theorem run_cons (s : σ) (e : ε) (es : List ε) :
    M.run s (e :: es) = (M.step s e).bind fun s' => M.run s' es := rfl

theorem run_append (s : σ) (es fs : List ε) :
    M.run s (es ++ fs) = (M.run s es).bind fun s' => M.run s' fs := by
  induction es generalizing s with
  | nil => rfl
  | cons e es ih =>
    simp only [List.cons_append, run_cons]
    cases M.step s e with
    | none => rfl
    | some s₁ => exact ih s₁

/-- A run that begins with one more event is a step and a run. -/
theorem run_cons_eq_some {s s' : σ} {e : ε} {es : List ε} :
    M.run s (e :: es) = some s' ↔ ∃ s₁, M.step s e = some s₁ ∧ M.run s₁ es = some s' := by
  rw [run_cons, Option.bind_eq_some_iff]

/-- A run, and a run from where it ends. -/
theorem run_append_eq_some {s s' : σ} {es fs : List ε} :
    M.run s (es ++ fs) = some s' ↔ ∃ s₁, M.run s es = some s₁ ∧ M.run s₁ fs = some s' := by
  rw [run_append, Option.bind_eq_some_iff]

theorem run_trans {s s₁ s' : σ} {es fs : List ε} (hes : M.run s es = some s₁)
    (hfs : M.run s₁ fs = some s') : M.run s (es ++ fs) = some s' :=
  M.run_append_eq_some.mpr ⟨s₁, hes, hfs⟩

/-- A run that ends in one more event is a run and a step. -/
theorem run_concat {s s' : σ} {es : List ε} {e : ε} :
    M.run s (es ++ [e]) = some s' ↔ ∃ s₁, M.run s es = some s₁ ∧ M.step s₁ e = some s' := by
  rw [run_append_eq_some]
  simp [run_cons]

/-- A run with an event in the middle of it. -/
theorem run_split {s s' : σ} {es fs : List ε} {e : ε} :
    M.run s (es ++ e :: fs) = some s' ↔
      ∃ s₁ s₂, M.run s es = some s₁ ∧ M.step s₁ e = some s₂ ∧ M.run s₂ fs = some s' := by
  rw [run_append_eq_some]
  simp only [run_cons_eq_some, exists_and_left]

/-- What is left of a run after a step in the middle of it. -/
theorem run_rest {s s₁ s₂ s' : σ} {es fs : List ε} {e : ε}
    (hrun : M.run s (es ++ e :: fs) = some s') (hes : M.run s es = some s₁)
    (he : M.step s₁ e = some s₂) : M.run s₂ fs = some s' := by
  obtain ⟨t₁, t₂, ht₁, ht₂, hfs⟩ := M.run_split.mp hrun
  obtain rfl := Option.some.inj (hes.symm.trans ht₁)
  obtain rfl := Option.some.inj (he.symm.trans ht₂)
  exact hfs

/-- A run that is evaluated, and what is decided of its end. -/
theorem exists_run (s : σ) (es : List ε) {P : σ → Prop} [DecidablePred P]
    (h : (M.run s es).any fun s' => decide (P s')) : ∃ s', M.run s es = some s' ∧ P s' := by
  obtain ⟨s', hs', hP⟩ := (Option.any_eq_true _ _).mp h
  exact ⟨s', hs', of_decide_eq_true hP⟩

/-- **Induction over runs.** A property of the events taken and the state they led to holds
    at the end of every run if it holds at the start and every step preserves it. -/
theorem run_induction {s₀ : σ} {P : List ε → σ → Prop} (h₀ : P [] s₀)
    (hstep : ∀ es s e s', M.run s₀ es = some s → P es s → M.step s e = some s' →
      P (es ++ [e]) s') :
    ∀ {es s}, M.run s₀ es = some s → P es s := by
  intro es
  induction es using List.reverseRecOn with
  | nil =>
    intro s h
    rw [run_nil, Option.some.injEq] at h
    exact h ▸ h₀
  | append_singleton es e ih =>
    intro s' h
    obtain ⟨s, hs, he⟩ := (M.run_concat).mp h
    exact hstep es s e s' hs (ih hs) he

/-- An invariant of the step is an invariant of the run. -/
theorem invariant_run {I : σ → Prop}
    (hstep : ∀ {s e s'}, I s → M.step s e = some s' → I s') {s s' : σ} {es : List ε}
    (h : I s) (hrun : M.run s es = some s') : I s' :=
  M.run_induction (P := fun _ s => I s) h (fun _ _ _ _ _ hi he => hstep hi he) hrun

/-- A preorder that every step from an `I`-state respects relates the ends of a run. -/
theorem related_run {I : σ → Prop} {R : σ → σ → Prop}
    (hstep : ∀ {s e s'}, I s → M.step s e = some s' → I s')
    (hrefl : ∀ s, R s s) (htrans : ∀ {a b c}, R a b → R b c → R a c)
    (hrel : ∀ {s e s'}, I s → M.step s e = some s' → R s s') {s s' : σ} {es : List ε}
    (h : I s) (hrun : M.run s es = some s') : R s s' := by
  have key : I s' ∧ R s s' :=
    M.run_induction (P := fun _ t => I t ∧ R s t) ⟨h, hrefl s⟩
      (fun _ _ _ _ _ hi he => ⟨hstep hi.1 he, htrans hi.2 (hrel hi.1 he)⟩) hrun
  exact key.2

/-- **Two runs in step.**  If steps by events of one kind lead from related states to related
    states, so do runs by as many events of one kind each. -/
theorem related_runs {κ : Type*} (kind : ε → κ) {R : σ → σ → Prop}
    (hstep : ∀ {s t e f s' t'}, R s t → kind e = kind f → M.step s e = some s' →
      M.step t f = some t' → R s' t') {s t s' t' : σ} {es fs : List ε} (h : R s t)
    (hkinds : es.map kind = fs.map kind) (hes : M.run s es = some s')
    (hfs : M.run t fs = some t') : R s' t' := by
  induction es generalizing s t fs with
  | nil =>
    obtain rfl := List.map_eq_nil_iff.mp hkinds.symm
    rw [run_nil, Option.some.injEq] at hes hfs
    exact hes ▸ hfs ▸ h
  | cons e es ih =>
    cases fs with
    | nil => cases hkinds
    | cons f fs =>
      obtain ⟨hkind, hrest⟩ := List.cons.inj hkinds
      obtain ⟨s₁, he, hes⟩ := M.run_cons_eq_some.mp hes
      obtain ⟨t₁, hf, hfs⟩ := M.run_cons_eq_some.mp hfs
      exact ih (hstep h hkind he hf) hrest hes hfs

/-- **A run that is followed.**  If another machine can follow every step from an `I`-state by an
    event of which `Q` holds, in as many steps of its own as it takes, it can follow the run. -/
theorem followed_run {τ : Type*} {δ : Type*} (N : Machine τ δ) {I : σ → Prop} {Q : ε → Prop}
    {R : σ → τ → Prop} (hI : ∀ {s e s'}, I s → M.step s e = some s' → I s')
    (hstep : ∀ {s e s' t}, I s → Q e → R s t → M.step s e = some s' →
      ∃ fs t', N.run t fs = some t' ∧ R s' t') {s s' : σ} {t : τ} {es : List ε} (h : I s)
    (hR : R s t) (hes : ∀ e ∈ es, Q e) (hrun : M.run s es = some s') :
    ∃ fs t', N.run t fs = some t' ∧ R s' t' := by
  induction es generalizing s t with
  | nil =>
    rw [run_nil, Option.some.injEq] at hrun
    exact ⟨[], t, rfl, hrun ▸ hR⟩
  | cons e es ih =>
    obtain ⟨s₁, he, hrest⟩ := M.run_cons_eq_some.mp hrun
    obtain ⟨fs, t₁, hfs, hR₁⟩ := hstep h (hes e List.mem_cons_self) hR he
    obtain ⟨gs, t', hgs, hR'⟩ :=
      ih (hI h he) hR₁ (fun e' he' => hes e' (List.mem_cons_of_mem e he')) hrest
    exact ⟨fs ++ gs, t', N.run_trans hfs hgs, hR'⟩

/-- Every step of the run `es` from `s` meets `P`, a condition on the state before the step
    and the event taken there. -/
def Along (P : σ → ε → Prop) (s : σ) : List ε → Prop
  | [] => True
  | e :: es => P s e ∧ ∀ s', M.step s e = some s' → Along P s' es

/-- A run meets a condition step by step. -/
theorem along_cons {P : σ → ε → Prop} {s s₁ : σ} {e : ε} {es : List ε} (h : P s e)
    (he : M.step s e = some s₁) (hrest : M.Along P s₁ es) : M.Along P s (e :: es) :=
  ⟨h, fun _ hs => Option.some.inj (he.symm.trans hs) ▸ hrest⟩

/-- One more step meets the condition, and so did all before it. -/
theorem along_concat {P : σ → ε → Prop} {s s₁ : σ} {es : List ε} {e : ε}
    (hrun : M.run s es = some s₁) (halong : M.Along P s es) (h : P s₁ e) :
    M.Along P s (es ++ [e]) := by
  induction es generalizing s with
  | nil =>
    rw [run_nil, Option.some.injEq] at hrun
    exact ⟨hrun ▸ h, fun _ _ => trivial⟩
  | cons e' es ih =>
    obtain ⟨s₂, he, hrest⟩ := M.run_cons_eq_some.mp hrun
    exact M.along_cons halong.1 he (ih hrest (halong.2 s₂ he))

/-- The last step of a run that meets a condition meets it. -/
theorem along_last {P : σ → ε → Prop} {s s₁ : σ} {es : List ε} {e : ε}
    (hrun : M.run s es = some s₁) (halong : M.Along P s (es ++ [e])) : P s₁ e := by
  induction es generalizing s with
  | nil =>
    rw [run_nil, Option.some.injEq] at hrun
    exact hrun ▸ halong.1
  | cons e' es ih =>
    obtain ⟨s₂, he, hrest⟩ := M.run_cons_eq_some.mp hrun
    exact ih hrest (halong.2 s₂ he)

/-- A condition that can be decided step by step can be decided of a run. -/
instance decidableAlong (P : σ → ε → Prop) [∀ s e, Decidable (P s e)] :
    ∀ s es, Decidable (M.Along P s es)
  | _, [] => isTrue trivial
  | s, e :: es =>
    match h : M.step s e with
    | none => decidable_of_iff (P s e) ⟨fun hP => ⟨hP, fun _ h' => by simp [h] at h'⟩, And.left⟩
    | some s' =>
      have := decidableAlong P s' es
      decidable_of_iff (P s e ∧ M.Along P s' es)
        ⟨fun hP => M.along_cons hP.1 h hP.2, fun hP => ⟨hP.1, hP.2 s' h⟩⟩

/-- **The guarded invariant rule.** An invariant preserved by the steps that meet `P` holds at
    the end of every run whose steps all meet `P`. -/
theorem invariant_along {I : σ → Prop} {P : σ → ε → Prop}
    (hstep : ∀ {s e s'}, I s → P s e → M.step s e = some s' → I s') {s s' : σ} {es : List ε}
    (h : I s) (halong : M.Along P s es) (hrun : M.run s es = some s') : I s' := by
  induction es generalizing s with
  | nil =>
    rw [run_nil, Option.some.injEq] at hrun
    exact hrun ▸ h
  | cons e es ih =>
    obtain ⟨s₁, he, hrest⟩ := M.run_cons_eq_some.mp hrun
    exact ih (hstep h halong.1 he) (halong.2 s₁ he) hrest

/-- A run that meets two conditions. -/
theorem along_and {P Q : σ → ε → Prop} {s : σ} {es : List ε} (hP : M.Along P s es)
    (hQ : M.Along Q s es) : M.Along (fun s e => P s e ∧ Q s e) s es := by
  induction es generalizing s with
  | nil => trivial
  | cons e es ih => exact ⟨⟨hP.1, hQ.1⟩, fun s₁ he => ih (hP.2 s₁ he) (hQ.2 s₁ he)⟩

/-- A condition on events alone. -/
theorem along_of_forall {Q : ε → Prop} {s : σ} {es : List ε} (h : ∀ e ∈ es, Q e) :
    M.Along (fun _ e => Q e) s es := by
  induction es generalizing s with
  | nil => trivial
  | cons e es ih =>
    obtain ⟨hhead, htail⟩ := List.forall_mem_cons.mp h
    exact ⟨hhead, fun _ _ => ih htail⟩

/-- A run that meets a condition met it from its start on. -/
theorem along_of_prefix {P : σ → ε → Prop} {s : σ} {es fs : List ε} (halong : M.Along P s fs)
    (h : es <+: fs) : M.Along P s es := by
  induction es generalizing s fs with
  | nil => trivial
  | cons e es ih =>
    obtain ⟨fs, rfl, hrest⟩ := List.cons_prefix_iff.mp h
    exact ⟨halong.1, fun s₁ he => ih (halong.2 s₁ he) hrest⟩

/-- What the steps of an invariant's states meet, all steps of a run meet. -/
theorem along_mono {I : σ → Prop} {P Q : σ → ε → Prop}
    (hstep : ∀ {s e s'}, I s → P s e → M.step s e = some s' → I s') (h : ∀ s e, I s → P s e → Q s e)
    {s : σ} {es : List ε} (hi : I s) (halong : M.Along P s es) : M.Along Q s es := by
  induction es generalizing s with
  | nil => trivial
  | cons e es ih =>
    exact ⟨h s e hi halong.1, fun s₁ he => ih (hstep hi halong.1 he) (halong.2 s₁ he)⟩

section Congr

variable {M M' : Machine σ ε} {P Q : σ → ε → Prop} {s : σ} {es : List ε}

/-- **Two machines that take the same steps where a condition is met** run alike where it is. -/
theorem run_congr (h : ∀ s e, P s e → M.step s e = M'.step s e) (halong : M.Along P s es) :
    M.run s es = M'.run s es := by
  induction es generalizing s with
  | nil => rfl
  | cons e es ih =>
    rw [run_cons, run_cons, ← h s e halong.1]
    cases he : M.step s e with
    | none => rfl
    | some s₁ => exact ih (halong.2 s₁ he)

/-- And meet the same conditions on the way. -/
theorem along_congr (h : ∀ s e, P s e → M.step s e = M'.step s e) (halong : M.Along P s es) :
    M.Along Q s es ↔ M'.Along Q s es := by
  induction es generalizing s with
  | nil => exact Iff.rfl
  | cons e es ih =>
    refine and_congr_right fun _ => forall_congr' fun s₁ => ?_
    rw [← h s e halong.1]
    exact imp_congr_right fun he => ih (halong.2 s₁ he)

end Congr

/-- A run meets a condition, or has a first step that does not. -/
theorem along_or_break {C : σ → ε → Prop} {s s' : σ} {es : List ε} (hrun : M.run s es = some s') :
    M.Along C s es ∨ ∃ fs e s₁ s₂, fs ++ [e] <+: es ∧ M.Along C s fs ∧ M.run s fs = some s₁ ∧
      ¬C s₁ e ∧ M.step s₁ e = some s₂ := by
  induction es using List.reverseRecOn generalizing s' with
  | nil => exact .inl trivial
  | append_singleton es e ih =>
    obtain ⟨s₁, hs₁, he⟩ := (M.run_concat).mp hrun
    rcases ih hs₁ with halong | ⟨fs, e', s₂, s₃, hfs, hbreak⟩
    · by_cases hC : C s₁ e
      · exact .inl (M.along_concat hs₁ halong hC)
      · exact .inr ⟨es, e, s₁, s', List.prefix_refl _, halong, hs₁, hC, he⟩
    · exact .inr ⟨fs, e', s₂, s₃, hfs.trans (List.prefix_append _ _), hbreak⟩

section Exactness

variable {I T : σ → Prop} {C : σ → ε → Prop} {s₀ s : σ} {es : List ε}

/-- A run whose steps all meet a condition, if none of them can be the first that does not. -/
theorem along_of_no_break (h₀ : I s₀)
    (hstep : ∀ {s e s'}, I s → C s e → M.step s e = some s' → I s') (hrun : M.run s₀ es = some s)
    (hno : ∀ fs s₁ e s₂, fs <+: es → M.run s₀ fs = some s₂ → I s₁ → ¬C s₁ e →
      M.step s₁ e ≠ some s₂) : M.Along C s₀ es := by
  rcases M.along_or_break hrun with halong | ⟨fs, e, s₁, s₂, hfs, halong, hs₁, hC, he⟩
  · exact halong
  · have hi := M.invariant_along hstep h₀ halong hs₁
    exact absurd he (hno _ s₁ e s₂ hfs ((M.run_concat).mpr ⟨s₁, hs₁, he⟩) hi hC)

/-- **A condition that cannot be weaker.**  The steps that meet `C` keep an invariant that gives `T`,
    and after the first step that does not meet it some run that does leads to where `T` fails. -/
theorem along_iff (h₀ : I s₀) (hstep : ∀ {s e s'}, I s → C s e → M.step s e = some s' → I s')
    (hgives : ∀ {s}, I s → T s)
    (hbreak : ∀ {s e s'}, I s → ¬C s e → M.step s e = some s' →
      ∃ gs s'', M.Along C s' gs ∧ M.run s' gs = some s'' ∧ ¬T s'')
    (hrun : M.run s₀ es = some s) :
    M.Along C s₀ es ↔ ∀ fs gs s₁ s', fs <+: es → M.run s₀ fs = some s₁ → M.Along C s₁ gs →
      M.run s₁ gs = some s' → T s' := by
  constructor
  · intro halong fs gs s₁ s' hfs hs₁ hgs hrun'
    have hi := M.invariant_along hstep h₀ (M.along_of_prefix halong hfs) hs₁
    exact hgives (M.invariant_along hstep hi hgs hrun')
  · intro h
    refine M.along_of_no_break h₀ hstep hrun fun fs s₁ e s₂ hfs hs₂ hi hC he => ?_
    obtain ⟨gs, s'', hgs, hrun', hT⟩ := hbreak hi hC he
    exact hT (h fs gs s₂ s'' hfs hs₂ hgs hrun')

/-- The same, with events of a kind that always meets the condition for what happens next. -/
theorem along_iff_of_forall {Q : ε → Prop} (h₀ : I s₀)
    (hstep : ∀ {s e s'}, I s → C s e → M.step s e = some s' → I s') (hgives : ∀ {s}, I s → T s)
    (hquiet : ∀ s e, Q e → C s e)
    (hbreak : ∀ {s e s'}, I s → ¬C s e → M.step s e = some s' →
      ∃ gs s'', (∀ g ∈ gs, Q g) ∧ M.run s' gs = some s'' ∧ ¬T s'')
    (hrun : M.run s₀ es = some s) :
    M.Along C s₀ es ↔ ∀ fs gs s', fs <+: es → (∀ g ∈ gs, Q g) → M.run s₀ (fs ++ gs) = some s' →
      T s' := by
  have hclear : ∀ {gs s}, (∀ g ∈ gs, Q g) → M.Along C s gs := fun hgs =>
    M.along_mono (I := fun _ => True) (fun _ _ _ => trivial) (fun s e _ => hquiet s e) trivial
      (M.along_of_forall hgs)
  constructor
  · intro halong fs gs s' hfs hgs hrun'
    obtain ⟨s₁, hs₁, hrest⟩ := M.run_append_eq_some.mp hrun'
    have hi := M.invariant_along hstep h₀ (M.along_of_prefix halong hfs) hs₁
    exact hgives (M.invariant_along hstep hi (hclear hgs) hrest)
  · intro h
    refine M.along_of_no_break h₀ hstep hrun fun fs s₁ e s₂ hfs hs₂ hi hC he => ?_
    obtain ⟨gs, s'', hgs, hrun', hT⟩ := hbreak hi hC he
    exact hT (h fs gs s'' hfs hgs (M.run_trans hs₂ hrun'))

end Exactness

/-- Some step of the run `es` from `s` met `P`, and no event after it meets `Q`. -/
def Since (P : σ → ε → Prop) (Q : ε → Prop) (s : σ) (es : List ε) : Prop :=
  ∃ fs e gs s₁, es = fs ++ e :: gs ∧ M.run s fs = some s₁ ∧ P s₁ e ∧ ∀ g ∈ gs, ¬Q g

/-- One more step meets `P` itself, or leaves an earlier one standing. -/
theorem since_concat {P : σ → ε → Prop} {Q : ε → Prop} {s s₁ : σ} {es : List ε} {e : ε}
    (hrun : M.run s es = some s₁) :
    M.Since P Q s (es ++ [e]) ↔ P s₁ e ∨ M.Since P Q s es ∧ ¬Q e := by
  constructor
  · rintro ⟨fs, e', gs, s₂, heq, hfs, hP, hQ⟩
    rcases concat_eq_append_cons.mp heq with ⟨-, rfl, rfl⟩ | ⟨gs', rfl, rfl⟩
    -- the step that met `P` is the last one
    · rw [hrun, Option.some.injEq] at hfs
      exact .inl (hfs ▸ hP)
    · refine .inr ⟨⟨fs, e', gs', s₂, rfl, hfs, hP, fun g hg => hQ g ?_⟩, hQ e ?_⟩
      · exact List.mem_append_left _ hg
      · exact List.mem_append_right _ List.mem_cons_self
  · rintro (hP | ⟨⟨fs, e', gs, s₂, rfl, hfs, hP, hQ⟩, he⟩)
    · exact ⟨es, e, [], s₁, rfl, hrun, hP, by simp⟩
    · refine ⟨fs, e', gs ++ [e], s₂, by simp, hfs, hP, fun g hg => ?_⟩
      rcases List.mem_append.mp hg with hg | hg
      · exact hQ g hg
      · rw [List.mem_singleton.mp hg]
        exact he

/-- **A flag says what happened last.**  If a step raises the flag exactly when it meets `P`, and
    otherwise lowers it exactly when it meets `Q`, the flag is up at the end of a run exactly
    when a step of it met `P` and none after it met `Q`. -/
theorem since_iff {I F : σ → Prop} {P : σ → ε → Prop} {Q : ε → Prop}
    (hstep : ∀ {s e s'}, I s → M.step s e = some s' → I s')
    (hflag : ∀ {s e s'}, I s → M.step s e = some s' → (F s' ↔ P s e ∨ F s ∧ ¬Q e)) {s s' : σ}
    {es : List ε} (hi : I s) (hdown : ¬F s) (hrun : M.run s es = some s') :
    F s' ↔ M.Since P Q s es := by
  have key : I s' ∧ (F s' ↔ M.Since P Q s es) := by
    refine M.run_induction (P := fun fs t => I t ∧ (F t ↔ M.Since P Q s fs)) ⟨hi, ?_⟩
      (fun fs t e t' hfs h he => ⟨hstep h.1 he, ?_⟩) hrun
    · refine iff_of_false hdown ?_
      rintro ⟨fs, e, gs, s₁, heq, -⟩
      simp at heq
    · rw [hflag h.1 he, h.2, M.since_concat hfs]
  exact key.2

end Machine

end Cocos.Lib
