import Cocos.Lib.Machine

namespace Cocos.Lib

/-!
# Serialising a machine over an atomic object

An atomic object executes one operation at a time and replies to it.  A concurrent machine
is serialised over such an object by naming, for each of its steps, the operations that
take effect in it (`points`); the operations `collected` over a run are the serial history of
that run.

* `final`, `replies` — the state and the replies of executing operations one at a time;
* `collected_concat` — the history grows by the points of the last step;
* `final_replies_filter` — operations whose reply shows that they changed nothing can be left
  out of a history: the others keep their replies and the final state is the same;
* `final_map`, `replies_map` — a map of states, operations and replies that respects every
  execution respects a history.
-/

universe u v w x

/-- An object that executes operations atomically, replying to each. -/
structure AtomicObject (α : Type u) (ο : Type v) (ρ : Type w) where
  exec : α → ο → α × ρ

namespace AtomicObject

variable {α : Type u} {ο : Type v} {ρ : Type w} (O : AtomicObject α ο ρ)

/-- The state after executing `os` one at a time. -/
def final (a : α) (os : List ο) : α := os.foldl (fun a o => (O.exec a o).1) a

/-- Each operation of `os` with the reply it gets when they are executed one at a time. -/
def replies (a : α) : List ο → List (ο × ρ)
  | [] => []
  | o :: os => (o, (O.exec a o).2) :: replies (O.exec a o).1 os

@[simp] theorem final_nil (a : α) : O.final a [] = a := rfl

@[simp] theorem final_cons (a : α) (o : ο) (os : List ο) :
    O.final a (o :: os) = O.final (O.exec a o).1 os := rfl

@[simp] theorem final_append (a : α) (os ps : List ο) :
    O.final a (os ++ ps) = O.final (O.final a os) ps := by
  simp [final, List.foldl_append]

@[simp] theorem replies_nil (a : α) : O.replies a [] = [] := rfl

@[simp] theorem replies_cons (a : α) (o : ο) (os : List ο) :
    O.replies a (o :: os) = (o, (O.exec a o).2) :: O.replies (O.exec a o).1 os := rfl

@[simp] theorem replies_append (a : α) (os ps : List ο) :
    O.replies a (os ++ ps) = O.replies a os ++ O.replies (O.final a os) ps := by
  induction os generalizing a with
  | nil => rfl
  | cons o os ih => simp [ih]

@[simp] theorem map_fst_replies (a : α) (os : List ο) : (O.replies a os).map Prod.fst = os := by
  induction os generalizing a with
  | nil => rfl
  | cons o os ih => simp [ih]

/-- An operation that is replied to is one of the history. -/
theorem mem_of_mem_replies {a : α} {os : List ο} {o : ο} {r : ρ} (h : (o, r) ∈ O.replies a os) :
    o ∈ os := by
  rw [← O.map_fst_replies a os]
  exact List.mem_map_of_mem h

/-- **Leaving out the operations that changed nothing.**  If a quiet reply means an unchanged
    state and every operation that `keep` drops got a quiet reply, then the operations that
    are kept lead to the same state, each with the reply it had. -/
theorem final_replies_filter {Quiet : ρ → Prop} {keep : ο → Bool}
    (hquiet : ∀ a o, Quiet (O.exec a o).2 → (O.exec a o).1 = a) {a : α} {os : List ο}
    (hdrop : ∀ p ∈ O.replies a os, keep p.1 = false → Quiet p.2) :
    O.final a (os.filter keep) = O.final a os ∧
      O.replies a (os.filter keep) = (O.replies a os).filter fun p => keep p.1 := by
  induction os generalizing a with
  | nil => simp
  | cons o os ih =>
    have htail := ih (a := (O.exec a o).1) fun p hp => hdrop p (List.mem_cons_of_mem _ hp)
    cases hk : keep o with
    | true => simpa [hk] using htail
    | false =>
      have hsame : (O.exec a o).1 = a := hquiet a o (hdrop _ List.mem_cons_self hk)
      rw [hsame] at htail
      simpa [hk, hsame] using htail

section Map

variable {α' : Type*} {ο' : Type*} {ρ' : Type*} {O} {P : AtomicObject α' ο' ρ'} {f : α → α'}
  {g : ο → ο'} {h : ρ → ρ'}

/-- A map that respects every execution respects the state a history leads to, -/
theorem final_map (hexec : ∀ a o, P.exec (f a) (g o) = (f (O.exec a o).1, h (O.exec a o).2))
    (a : α) (os : List ο) : P.final (f a) (os.map g) = f (O.final a os) := by
  induction os generalizing a with
  | nil => rfl
  | cons o os ih => rw [List.map_cons, final_cons, final_cons, hexec, ih]

/-- and its replies. -/
theorem replies_map (hexec : ∀ a o, P.exec (f a) (g o) = (f (O.exec a o).1, h (O.exec a o).2))
    (a : α) (os : List ο) :
    P.replies (f a) (os.map g) = (O.replies a os).map fun p => (g p.1, h p.2) := by
  induction os generalizing a with
  | nil => rfl
  | cons o os ih => rw [List.map_cons, replies_cons, replies_cons, hexec, ih, List.map_cons]

end Map

end AtomicObject

namespace Machine

variable {σ : Type u} {ε : Type v} {ο : Type w} (M : Machine σ ε) (points : σ → ε → List ο)

/-- The operations that take effect along the run `es` from `s`, in order. -/
def collected (s : σ) : List ε → List ο
  | [] => []
  | e :: es => points s e ++ ((M.step s e).map fun s' => collected s' es).getD []

@[simp] theorem collected_nil (s : σ) : M.collected points s [] = [] := rfl

theorem collected_concat {s s' : σ} {es : List ε} (h : M.run s es = some s') (e : ε) :
    M.collected points s (es ++ [e]) = M.collected points s es ++ points s' e := by
  induction es generalizing s with
  | nil =>
    rw [run_nil, Option.some.injEq] at h
    subst h
    cases hs : M.step s e <;> simp [collected, hs]
  | cons f es ih =>
    obtain ⟨s₁, hf, hrest⟩ := M.run_cons_eq_some.mp h
    simp [collected, hf, ih hrest]

variable {α : Type x} {ρ : Type*} (O : AtomicObject α ο ρ) (abs : σ → α)

end Machine

end Cocos.Lib
