import Mathlib.Data.List.Nodup
import Mathlib.Data.List.Perm.Subperm
import Mathlib.Logic.Function.Basic
import Mathlib.Tactic.Common

namespace Cocos.Lib

/-!
# Messages to many recipients, some of which fail

A message is offered to every recipient in turn.  One that cannot take it is dropped for good, and
the others are told at once, which is a message of its own, offered in the middle of the first.

* `Fanout` — the recipients, those that were dropped, all that was ever said, and what each
  recipient was handed;
* `Fanout.send`, `Fanout.drop` — a message, and the loss of a recipient;
* `Handed` — what a stretch of messages comes to, recipient by recipient;
* `handed_send`, `handed_drop` — **whoever is left was handed every message, once**, and each
  loss was told once.

The number of recipients bounds how deep the messages nest.
-/

universe u v w

/-- Recipients, and what they were handed. -/
structure Fanout (κ : Type u) (μ : Type v) where
  live : List κ
  dropped : List κ
  /-- All that was said, in order. -/
  log : List μ
  inbox : κ → List μ

namespace Fanout

variable {κ : Type u} {μ : Type v} {ε : Type w}

def empty : Fanout κ μ := ⟨[], [], [], fun _ => []⟩

variable [DecidableEq κ] (fails : κ → μ → Option ε) (notice : κ → ε → List μ → μ)

/-- A recipient is handed a message. -/
def deliver (s : Fanout κ μ) (k : κ) (m : μ) : Fanout κ μ :=
  { s with inbox := Function.update s.inbox k (s.inbox k ++ [m]) }

/-- A recipient is lost, and the others are told, who do not include it any more. -/
def dropWith (tell : μ → Fanout κ μ → Fanout κ μ) (s : Fanout κ μ) (k : κ) (error : ε) :
    Fanout κ μ :=
  if k ∈ s.dropped then s
  else tell (notice k error s.log)
    { s with live := s.live.erase k, dropped := s.dropped ++ [k] }

/-- A recipient that is still there takes a message, or is lost. -/
def offer (tell : μ → Fanout κ μ → Fanout κ μ) (m : μ) (s : Fanout κ μ) (k : κ) : Fanout κ μ :=
  if k ∈ s.live then
    match fails k m with
    | none => s.deliver k m
    | some error => s.dropWith notice tell k error
  else s

/-- A message is said, and offered to whoever is there; it nests `depth` deep at most. -/
def sendWithin : (depth : Nat) → μ → Fanout κ μ → Fanout κ μ
  | 0, m, s => { s with log := s.log ++ [m] }
  | depth + 1, m, s =>
    s.live.foldl (offer fails notice (sendWithin depth) m) { s with log := s.log ++ [m] }

/-- A message. -/
def send (s : Fanout κ μ) (m : μ) : Fanout κ μ := sendWithin fails notice s.live.length m s

/-- The loss of a recipient. -/
def drop (s : Fanout κ μ) (k : κ) (error : ε) : Fanout κ μ :=
  s.dropWith notice (sendWithin fails notice s.live.length) k error

/-- A new recipient. -/
def join (s : Fanout κ μ) (k : κ) : Fanout κ μ :=
  { s with live := if k ∈ s.live then s.live else s.live ++ [k] }

/-- A recipient leaves, and nobody is told. -/
def leave (s : Fanout κ μ) (k : κ) : Fanout κ μ := { s with live := s.live.erase k }

/-! ### What is handed to whom -/

/-- Nobody is there twice, or was dropped. -/
structure Sound (s : Fanout κ μ) : Prop where
  live : s.live.Nodup
  dropped : s.dropped.Nodup
  apart : ∀ k ∈ s.live, k ∉ s.dropped

/-- From one state to another these recipients failed and were lost, and this was said, of which
    everybody was due a part. -/
structure Handed (s s' : Fanout κ μ) (lost : List κ) (said : List μ) (due : κ → List μ) :
    Prop where
  log : s'.log = s.log ++ said
  dropped : s'.dropped = s.dropped ++ lost
  live : s'.live = s.live.filter (· ∉ lost)
  nodup : lost.Nodup
  were : ∀ k ∈ lost, k ∈ s.live
  failed : ∀ k ∈ lost, ∃ m, fails k m ≠ none
  /-- Whoever is left was handed all it was due. -/
  all : ∀ k ∈ s'.live, ∃ new, s'.inbox k = s.inbox k ++ new ∧ new.Perm (due k)
  /-- Whoever was lost was handed a part of it, and whoever was not there nothing. -/
  part : ∀ k, ∃ new, s'.inbox k = s.inbox k ++ new ∧ new.Subperm (due k) ∧
    (k ∉ s.live → new = [])

variable {fails notice} {s s₁ s' : Fanout κ μ} {lost lost' : List κ} {said said' : List μ}
  {due due' : κ → List μ}

theorem Handed.refl (s : Fanout κ μ) : Handed fails s s [] [] fun _ => [] where
  log := (List.append_nil _).symm
  dropped := (List.append_nil _).symm
  live := by simp
  nodup := .nil
  were := by simp
  failed := by simp
  all k _ := ⟨[], (List.append_nil _).symm, .nil⟩
  part k := ⟨[], (List.append_nil _).symm, .refl _, fun _ => rfl⟩

/-- One stretch after another. -/
theorem Handed.trans (h : Handed fails s s₁ lost said due)
    (h' : Handed fails s₁ s' lost' said' due') :
    Handed fails s s' (lost ++ lost') (said ++ said') fun k => due k ++ due' k where
  log := by rw [h'.log, h.log, List.append_assoc]
  dropped := by rw [h'.dropped, h.dropped, List.append_assoc]
  live := by
    rw [h'.live, h.live, List.filter_filter]
    refine List.filter_congr fun k _ => ?_
    simp [List.mem_append, not_or, Bool.and_comm]
  nodup := by
    refine List.nodup_append.mpr ⟨h.nodup, h'.nodup, fun a ha b hb hab => ?_⟩
    have hlive := h'.were b hb
    rw [h.live] at hlive
    exact of_decide_eq_true (List.mem_filter.mp hlive).2 (hab ▸ ha)
  were := by
    refine List.forall_mem_append.mpr ⟨h.were, fun k hk => ?_⟩
    have hlive := h'.were k hk
    rw [h.live] at hlive
    exact (List.mem_filter.mp hlive).1
  failed := List.forall_mem_append.mpr ⟨h.failed, h'.failed⟩
  all := by
    intro k hk
    have hk₁ : k ∈ s₁.live := by
      rw [h'.live] at hk
      exact (List.mem_filter.mp hk).1
    obtain ⟨new, hnew, hperm⟩ := h.all k hk₁
    obtain ⟨new', hnew', hperm'⟩ := h'.all k hk
    exact ⟨new ++ new', by rw [hnew', hnew, List.append_assoc], hperm.append hperm'⟩
  part := by
    intro k
    obtain ⟨new, hnew, hsub, hnone⟩ := h.part k
    obtain ⟨new', hnew', hsub', hnone'⟩ := h'.part k
    refine ⟨new ++ new', by rw [hnew', hnew, List.append_assoc], hsub.append hsub', fun hk => ?_⟩
    have hk₁ : k ∉ s₁.live := fun hk₁ => by
      rw [h.live] at hk₁
      exact hk (List.mem_filter.mp hk₁).1
    rw [hnone hk, hnone' hk₁, List.append_nil]

/-- What was due may be listed in another order, and be more to whoever was lost. -/
theorem Handed.mono (h : Handed fails s s' lost said due)
    (hall : ∀ k ∈ s'.live, (due k).Perm (due' k))
    (hpart : ∀ k ∈ s.live, (due k).Subperm (due' k)) : Handed fails s s' lost said due' where
  log := h.log
  dropped := h.dropped
  live := h.live
  nodup := h.nodup
  were := h.were
  failed := h.failed
  all k hk := by
    obtain ⟨new, hnew, hperm⟩ := h.all k hk
    exact ⟨new, hnew, hperm.trans (hall k hk)⟩
  part k := by
    obtain ⟨new, hnew, hsub, hnone⟩ := h.part k
    refine ⟨new, hnew, ?_, hnone⟩
    by_cases hk : k ∈ s.live
    · exact hsub.trans (hpart k hk)
    · rw [hnone hk]
      exact List.nil_subperm

theorem Handed.length_le (h : Handed fails s s' lost said due) :
    s'.live.length ≤ s.live.length := by
  rw [h.live]
  exact List.length_filter_le ..

theorem Sound.handed (h : s.Sound) (hhanded : Handed fails s s' lost said due) : s'.Sound where
  live := by
    rw [hhanded.live]
    exact h.live.filter _
  dropped := by
    rw [hhanded.dropped]
    refine List.nodup_append.mpr ⟨h.dropped, hhanded.nodup, fun a ha b hb hab => ?_⟩
    exact h.apart b (hhanded.were b hb) (hab ▸ ha)
  apart := by
    rw [hhanded.live, hhanded.dropped]
    intro k hk hdropped
    obtain ⟨hk, hnotLost⟩ := List.mem_filter.mp hk
    rcases List.mem_append.mp hdropped with hdropped | hdropped
    · exact h.apart k hk hdropped
    · exact of_decide_eq_true hnotLost hdropped

/-- A recipient is moved among those that were dropped. -/
theorem Sound.erase (h : s.Sound) {k : κ} (hk : k ∉ s.dropped) :
    Sound { s with live := s.live.erase k, dropped := s.dropped ++ [k] } where
  live := h.live.erase k
  dropped := by
    refine List.nodup_append.mpr ⟨h.dropped, List.nodup_singleton k, fun i hi j hj hij => ?_⟩
    rw [List.mem_singleton.mp hj] at hij
    exact hk (hij ▸ hi)
  apart := by
    intro j hj hdropped
    rcases List.mem_append.mp hdropped with hdropped | hdropped
    · exact h.apart j (List.mem_of_mem_erase hj) hdropped
    · rw [List.mem_singleton.mp hdropped] at hj
      exact h.live.not_mem_erase hj

theorem Sound.join (h : s.Sound) {k : κ} (hk : k ∉ s.dropped) : (s.join k).Sound := by
  by_cases hlive : k ∈ s.live
  · rw [Fanout.join, if_pos hlive]
    exact h
  · rw [Fanout.join, if_neg hlive]
    refine ⟨List.nodup_append.mpr ⟨h.live, List.nodup_singleton k, ?_⟩, h.dropped, ?_⟩
    · rintro i hi j hj rfl
      exact hlive (List.mem_singleton.mp hj ▸ hi)
    · refine List.forall_mem_append.mpr ⟨h.apart, ?_⟩
      exact List.forall_mem_singleton.mpr hk

theorem Sound.leave (h : s.Sound) (k : κ) : (s.leave k).Sound :=
  ⟨h.live.erase k, h.dropped, fun j hj => h.apart j (List.mem_of_mem_erase hj)⟩

theorem handed_deliver (s : Fanout κ μ) (k : κ) (m : μ) (hk : k ∈ s.live) :
    Handed fails s (s.deliver k m) [] [] fun j => if j = k then [m] else [] := by
  have hinbox : ∀ j, (s.deliver k m).inbox j = s.inbox j ++ if j = k then [m] else [] := by
    intro j
    by_cases hj : j = k
    · rw [hj, if_pos rfl]
      exact Function.update_self ..
    · rw [if_neg hj, List.append_nil]
      exact Function.update_of_ne hj ..
  refine { Handed.refl s with
    all := fun j _ => ⟨_, hinbox j, .rfl⟩
    part := fun j => ⟨_, hinbox j, .refl _,
      fun hj => if_neg fun hjk : j = k => hj (hjk ▸ hk)⟩ }

variable (notice) in
/-- Each loss was told once, in order, when all this had been said. -/
inductive Told : List μ → List κ → List μ → Prop
  | nil (log : List μ) : Told log [] []
  | cons (k : κ) (error : ε) {log : List μ} {lost : List κ} {notices : List μ}
      (rest : Told (log ++ [notice k error log]) lost notices) :
      Told log (k :: lost) (notice k error log :: notices)

omit [DecidableEq κ] in
theorem Told.append {log notices notices' : List μ} (h : Told notice log lost notices)
    (h' : Told notice (log ++ notices) lost' notices') :
    Told notice log (lost ++ lost') (notices ++ notices') := by
  induction h with
  | nil => rwa [List.append_nil] at h'
  | cons k error rest ih =>
    refine .cons k error (ih ?_)
    rwa [List.append_assoc]

variable (fails notice) in
/-- What `tell` has to do: whoever is left gets the message, and is told of the losses. -/
def Tells (tell : μ → Fanout κ μ → Fanout κ μ) (s : Fanout κ μ) (m : μ) : Prop :=
  ∃ lost notices, Told notice (s.log ++ [m]) lost notices ∧
    Handed fails s (tell m s) lost (m :: notices) fun _ => m :: notices

/-- **The loss of a recipient**: it is lost, and the others are told, and of whoever is lost
    then. -/
theorem handed_dropWith {tell : μ → Fanout κ μ → Fanout κ μ} {k : κ} (hs : s.Sound)
    (hk : k ∈ s.live) {m : μ} {error : ε} (hfails : fails k m = some error)
    (htell : ∀ m, Tells fails notice tell
      { s with live := s.live.erase k, dropped := s.dropped ++ [k] } m) :
    ∃ lost notices, Told notice s.log (k :: lost) notices ∧
      Handed fails s (s.dropWith notice tell k error) (k :: lost) notices fun _ => notices := by
  obtain ⟨lost, notices, htold, hhanded⟩ := htell (notice k error s.log)
  refine ⟨lost, notice k error s.log :: notices, .cons k error htold, ?_⟩
  rw [dropWith, if_neg (hs.apart k hk)]
  have herase : s.live.erase k = s.live.filter (· ≠ k) :=
    (hs.live.erase_eq_filter k).trans (List.filter_congr fun j _ => by
      by_cases hj : j = k <;> simp [hj])
  have hmem : ∀ {j}, j ∈ s.live.erase k ↔ j ∈ s.live ∧ j ≠ k := fun {j} => by
    rw [herase, List.mem_filter, decide_eq_true_eq]
  constructor
  · exact hhanded.log
  · rw [hhanded.dropped, List.append_assoc]
    rfl
  · rw [hhanded.live]
    show (s.live.erase k).filter _ = _
    rw [herase, List.filter_filter]
    refine List.filter_congr fun j _ => ?_
    simp [List.mem_cons, not_or, Bool.and_comm]
  · exact List.nodup_cons.mpr ⟨fun hmem' => (hmem.mp (hhanded.were k hmem')).2 rfl, hhanded.nodup⟩
  · exact List.forall_mem_cons.mpr ⟨hk, fun j hj => (hmem.mp (hhanded.were j hj)).1⟩
  · exact List.forall_mem_cons.mpr ⟨⟨m, hfails ▸ Option.some_ne_none error⟩, hhanded.failed⟩
  · exact hhanded.all
  · intro j
    obtain ⟨new, hnew, hsub, hnone⟩ := hhanded.part j
    exact ⟨new, hnew, hsub, fun hj => hnone fun hj' => hj (hmem.mp hj').1⟩

variable (fails) in
/-- Once everybody in a list was offered a message. -/
theorem handed_offers {tell : μ → Fanout κ μ → Fanout κ μ} {m : μ} {depth : Nat}
    (htell : ∀ (s : Fanout κ μ) m, s.Sound → s.live.length ≤ depth →
      Tells fails notice tell s m) {rest : List κ} (hrest : rest.Nodup) (hs : s.Sound)
    (hlength : s.live.length ≤ depth + 1) :
    ∃ lost notices, Told notice s.log lost notices ∧
      Handed fails s (rest.foldl (offer fails notice tell m) s) lost notices fun k =>
        (if k ∈ rest then [m] else []) ++ notices := by
  induction rest generalizing s with
  | nil => exact ⟨[], [], .nil _, .refl s⟩
  | cons k rest ih =>
    obtain ⟨hnotMem, hrest⟩ := List.nodup_cons.mp hrest
    rw [List.foldl_cons]
    -- the rest is offered it whatever became of the first
    have hgoes : ∀ {s₁ lost₁ notices₁ due₁}, Told notice s.log lost₁ notices₁ →
        Handed fails s s₁ lost₁ notices₁ due₁ →
        (∀ j ∈ s.live, (due₁ j).Subperm ((if j = k then [m] else []) ++ notices₁)) →
        (∀ j ∈ s₁.live, (due₁ j).Perm ((if j = k then [m] else []) ++ notices₁)) →
        ∃ lost notices, Told notice s.log lost notices ∧
          Handed fails s (rest.foldl (offer fails notice tell m) s₁) lost notices fun j =>
            (if j ∈ k :: rest then [m] else []) ++ notices := by
      intro s₁ lost₁ notices₁ due₁ htold₁ hfirst hpart hall
      obtain ⟨lost₂, notices₂, htold₂, hsecond⟩ :=
        ih hrest (hs.handed hfirst) (Nat.le_trans hfirst.length_le hlength)
      have hshuffle : ∀ j, ((if j = k then [m] else []) ++ notices₁ ++
          ((if j ∈ rest then [m] else []) ++ notices₂)).Perm
            ((if j ∈ k :: rest then [m] else []) ++ (notices₁ ++ notices₂)) := by
        intro j
        by_cases hj : j = k
        · subst hj
          simp [hnotMem]
        · by_cases hmem : j ∈ rest
          · simp [hj, hmem]
          · simp [hj, hmem]
      refine ⟨_, _, htold₁.append (hfirst.log ▸ htold₂), (hfirst.trans hsecond).mono
        (fun j hj => ?_) fun j hj => ?_⟩
      · have hj₁ : j ∈ s₁.live := by
          rw [hsecond.live] at hj
          exact (List.mem_filter.mp hj).1
        exact ((hall j hj₁).append_right _).trans (hshuffle j)
      · exact ((hpart j hj).append (.refl _)).trans (hshuffle j).subperm
    unfold offer
    by_cases hk : k ∈ s.live
    · rw [if_pos hk]
      cases hfails : fails k m with
      | none =>
        have hperm : ∀ j, (if j = k then [m] else []).Perm ((if j = k then [m] else []) ++ []) :=
          fun j => by rw [List.append_nil]
        exact hgoes (.nil _) (handed_deliver s k m hk) (fun j _ => (hperm j).subperm)
          fun j _ => hperm j
      | some error =>
        obtain ⟨lost₁, notices₁, htold₁, hfirst⟩ := handed_dropWith hs hk hfails fun m' => by
          refine htell _ m' (hs.erase (hs.apart k hk)) ?_
          have hlen := List.length_erase_of_mem hk
          have hpos := List.length_pos_of_mem hk
          show (s.live.erase k).length ≤ depth
          omega
        refine hgoes htold₁ hfirst (fun j _ => ?_) fun j hj => ?_
        · exact (List.sublist_append_right _ _).subperm
        · have hne : j ≠ k := by
            rintro rfl
            rw [hfirst.live] at hj
            exact of_decide_eq_true (List.mem_filter.mp hj).2 List.mem_cons_self
          rw [if_neg hne, List.nil_append]
    · rw [if_neg hk]
      refine hgoes (.nil _) (.refl s) (fun j _ => List.nil_subperm) fun j hj => ?_
      rw [if_neg fun hjk : j = k => hk (hjk ▸ hj)]
      exact .nil

variable (fails) in
/-- **A message**: whoever is left was handed it, and told of whoever was lost on the way. -/
theorem handed_sendWithin {depth : Nat} (m : μ) (hs : s.Sound) (hlength : s.live.length ≤ depth) :
    Tells fails notice (sendWithin fails notice depth) s m := by
  induction depth generalizing s m with
  | zero =>
    have hnone : s.live = [] := List.length_eq_zero_iff.mp (Nat.le_zero.mp hlength)
    refine ⟨[], [], .nil _, ?_⟩
    exact { Handed.refl s with
      log := rfl
      all := fun k hk => absurd (show k ∈ s.live from hk) (hnone ▸ List.not_mem_nil)
      part := fun k => ⟨[], (List.append_nil _).symm, List.nil_subperm, fun _ => rfl⟩ }
  | succ depth ih =>
    have hs₀ : Sound { s with log := s.log ++ [m] } := ⟨hs.live, hs.dropped, hs.apart⟩
    obtain ⟨lost, notices, htold, hhanded⟩ := handed_offers fails (m := m)
      (fun s m hs hlength => ih m hs hlength) hs.live hs₀ hlength
    refine ⟨lost, notices, htold, ?_⟩
    have hdue : ∀ k ∈ s.live, ((if k ∈ s.live then [m] else []) ++ notices) = m :: notices :=
      fun k hk => by rw [if_pos hk, List.singleton_append]
    have hleft : ∀ k ∈ (sendWithin fails notice (depth + 1) m s).live, k ∈ s.live := fun k hk => by
      rw [sendWithin, hhanded.live] at hk
      exact (List.mem_filter.mp hk).1
    have hsaid : Handed fails _ (sendWithin fails notice (depth + 1) m s) lost notices
        fun _ => m :: notices :=
      hhanded.mono (fun k hk => hdue k (hleft k hk) ▸ .refl _) fun k hk => hdue k hk ▸ .refl _
    exact { hsaid with log := hhanded.log.trans (List.append_assoc ..) }

variable (fails notice)

theorem handed_send (hs : s.Sound) (m : μ) :
    ∃ lost notices, Told notice (s.log ++ [m]) lost notices ∧
      Handed fails s (s.send fails notice m) lost (m :: notices) fun _ => m :: notices :=
  handed_sendWithin fails m hs (Nat.le_refl _)

/-- **A recipient fails**, be it there or not: it is not there any more, and the others are
    told. -/
theorem handed_drop (hs : s.Sound) {k : κ} (hk : k ∉ s.dropped) (error : ε) :
    ∃ lost notices, Told notice s.log (k :: lost) notices ∧
      Handed fails { s with live := s.live.erase k, dropped := s.dropped ++ [k] }
        (s.drop fails notice k error) lost notices fun _ => notices := by
  obtain ⟨lost, notices, htold, hhanded⟩ := handed_sendWithin fails
    (notice k error s.log) (hs.erase hk) (List.length_erase_le ..)
  refine ⟨lost, _, .cons k error htold, ?_⟩
  rw [drop, dropWith, if_neg hk]
  exact hhanded

theorem drop_of_dropped {k : κ} (hk : k ∈ s.dropped) (error : ε) :
    s.drop fails notice k error = s := if_pos hk

end Fanout

end Cocos.Lib
