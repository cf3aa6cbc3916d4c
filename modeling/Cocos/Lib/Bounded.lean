import Cocos.Lib.Machine
import Mathlib.Algebra.Order.BigOperators.Group.List

namespace Cocos.Lib

/-!
# Runs that come to an end

A machine whose steps are of separate accounts, each step spending at least one unit of its own.

* `Spends` — what every step does to the units left;
* `Spends.length_le` — **a run is no longer than what its accounts had left**;
* `countP_add_le`, `Spends.countP_le` — the same of one account, where steps of others come in
  between;
* `exists_maximal_run` — where runs are bounded in length, one of them goes as far as it can.
-/

namespace Machine

universe u v w

variable {σ : Type u} {ε : Type v} {κ : Type w} (M : Machine σ ε)

/-- A step spends a unit of the account it is of, and adds to none. -/
def Spends (account : ε → κ) (left : σ → κ → Nat) : Prop :=
  ∀ {s e s'}, M.step s e = some s' →
    left s' (account e) < left s (account e) ∧ ∀ k, left s' k ≤ left s k

/-- **A run is no longer than what its accounts had left.** -/
theorem Spends.length_le {M : Machine σ ε} {account : ε → κ} {left : σ → κ → Nat}
    (h : M.Spends account left) {s s' : σ} {es : List ε} {ks : List κ}
    (hks : ∀ e ∈ es, account e ∈ ks) (hrun : M.run s es = some s') :
    es.length ≤ (ks.map (left s)).sum := by
  induction es generalizing s with
  | nil => exact Nat.zero_le _
  | cons e es ih =>
    obtain ⟨s₁, he, hrest⟩ := M.run_cons_eq_some.mp hrun
    obtain ⟨hown, hall⟩ := h he
    have hlt : (ks.map (left s₁)).sum < (ks.map (left s)).sum :=
      List.sum_lt_sum _ _ (fun k _ => hall k) ⟨_, hks e List.mem_cons_self, hown⟩
    have hrest := ih (fun e he => hks e (List.mem_cons_of_mem _ he)) hrest
    rw [List.length_cons]
    omega

/-- **The steps of one account are no more than what it had left**, whatever comes in between:
    where each of them spends a unit, and none that meets `Q` adds any. -/
theorem countP_add_le {M : Machine σ ε} {own : ε → Bool} {left : σ → Int} {I : σ → Prop}
    {Q : ε → Prop} (hinv : ∀ {s e s'}, I s → M.step s e = some s' → I s')
    (hstep : ∀ {s e s'}, I s → Q e → M.step s e = some s' →
      left s' + (if own e then 1 else 0) ≤ left s)
    {s s' : σ} {es : List ε} (h : I s) (hQ : ∀ e ∈ es, Q e) (hrun : M.run s es = some s') :
    es.countP own + left s' ≤ left s := by
  induction es generalizing s with
  | nil =>
    cases hrun
    exact (zero_add _).le
  | cons e es ih =>
    obtain ⟨s₁, he, hrest⟩ := M.run_cons_eq_some.mp hrun
    have hfirst := hstep h (hQ e List.mem_cons_self) he
    have hrest := ih (hinv h he) (fun e he => hQ e (List.mem_cons_of_mem _ he)) hrest
    rw [List.countP_cons]
    split at hfirst <;> rename_i hown <;> simp only [hown] <;> push_cast <;> omega

/-- **Each account is spent from by no more steps than it had units left.** -/
theorem Spends.countP_le [DecidableEq κ] {M : Machine σ ε} {account : ε → κ}
    {left : σ → κ → Nat} (h : M.Spends account left) {s s' : σ} {es : List ε}
    (hrun : M.run s es = some s') (k : κ) :
    es.countP (fun e => account e = k) + left s' k ≤ left s k := by
  have hstep : ∀ {s e s'}, True → True → M.step s e = some s' →
      (left s' k : Int) + (if decide (account e = k) then 1 else 0) ≤ left s k := by
    intro s e s' _ _ he
    obtain ⟨hown, hall⟩ := h he
    by_cases hk : account e = k
    · subst hk
      simp only [decide_true, if_true]
      omega
    · have := hall k
      simp only [hk, decide_false, Bool.false_eq_true, if_false]
      omega
  have hle := @countP_add_le σ ε M (fun e => account e = k) (fun s => (left s k : Int))
    (fun _ => True) (fun _ => True) (fun _ _ => trivial) hstep s s' es trivial
    (fun _ _ => trivial) hrun
  exact_mod_cast hle

/-- **A run that goes as far as it can**, where those of `Q`-events are bounded in length. -/
theorem exists_maximal_run {Q : ε → Prop} {s : σ} {n : Nat}
    (hbound : ∀ es s', (∀ e ∈ es, Q e) → M.run s es = some s' → es.length ≤ n) :
    ∃ es s', (∀ e ∈ es, Q e) ∧ M.run s es = some s' ∧ ∀ e, Q e → M.step s' e = none := by
  induction n generalizing s with
  | zero =>
    refine ⟨[], s, by simp, rfl, fun e hQ => ?_⟩
    cases he : M.step s e with
    | none => rfl
    | some s₁ =>
      have hone := hbound [e] s₁ (by simpa using hQ) (by rw [run_cons, he]; rfl)
      simp at hone
  | succ n ih =>
    by_cases hstuck : ∀ e, Q e → M.step s e = none
    · exact ⟨[], s, by simp, rfl, hstuck⟩
    · push Not at hstuck
      obtain ⟨e, hQ, hne⟩ := hstuck
      obtain ⟨s₁, he⟩ := Option.ne_none_iff_exists'.mp hne
      have hcons : ∀ {es s'}, M.run s₁ es = some s' → M.run s (e :: es) = some s' :=
        fun hes => M.run_cons_eq_some.mpr ⟨s₁, he, hes⟩
      obtain ⟨es, s', hes, hrun, hmax⟩ := ih (s := s₁) fun es s' hes hrun => by
        have hlen := hbound (e :: es) s' (List.forall_mem_cons.mpr ⟨hQ, hes⟩) (hcons hrun)
        rw [List.length_cons] at hlen
        omega
      exact ⟨e :: es, s', List.forall_mem_cons.mpr ⟨hQ, hes⟩, hcons hrun, hmax⟩

end Machine

end Cocos.Lib
