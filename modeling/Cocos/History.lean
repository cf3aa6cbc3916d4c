import Cocos.Freshness
import Cocos.Lib.Lists

namespace Cocos

open Cocos.Lib

/-!
# What becomes of a row

The rows a run leaves are the rows it started from and the rows its placements committed, in
that order, each as it was inserted but for the cancel of a resting one.

* `Since` — what a row has become of, and the cancel that is to blame if it changed;
* `History` — the rows as they were inserted (`start ++ made`), who made which, and which of
  them each placement answered;
* `History.step`, `history_run` — **every run has a history**.
-/

/-- What a placement answers, from the moment it is determined by committed rows. -/
def Phase.placed : Phase → Option Placed
  | .replaying placed | .committed placed => some placed
  | _ => none

theorem placed_inserting (orders : Orders) (r : Request) (q : Sized) (cash held id : Int)
    (now : Timestamp) : (inserting orders r q cash held id now).placed = none := by
  rcases inserting_cases orders r q cash held id now with ⟨thrown, h⟩ | ⟨order, -, -, h⟩ <;>
    rw [h] <;> rfl

/-- The `UPDATE` of cancel `c`, aimed at order `id`, matched. -/
def State.Cancelled (s : State) (c : Nat) (id : Int) : Prop :=
  ∃ row, s.cancels c = some ⟨id, .returned row⟩

/-- `row` is what `born` has become: it is as it was, or was resting and a cancel matched. -/
def Since (s : State) (born row : OrderRow) : Prop :=
  row = born ∨ born.status = some OrderStatus.NEW.text ∧ row = born.cancelled ∧
    ∃ c, s.Cancelled c born.id

namespace Since

variable {s s' : State} {born row : OrderRow}

theorem id_eq (h : Since s born row) : row.id = born.id := by
  rcases h with rfl | ⟨-, rfl, -⟩ <;> rfl

theorem hasKey_eq (h : Since s born row) (u : Int) (key : String) :
    row.hasKey u key = born.hasKey u key := by
  rcases h with rfl | ⟨-, rfl, -⟩ <;> rfl

/-- The cancels that have matched go on having matched. -/
theorem mono (h : Since s born row) (hc : ∀ c id, s.Cancelled c id → s'.Cancelled c id) :
    Since s' born row := by
  rcases h with h | ⟨hnew, hrow, c, hcancelled⟩
  · exact .inl h
  · exact .inr ⟨hnew, hrow, c, hc c _ hcancelled⟩

/-- One more cancel changes a row only where it is to blame. -/
theorem afterCancel (h : Since s born row) (hc : ∀ c id, s.Cancelled c id → s'.Cancelled c id)
    {id : Int} (hblame : row.id = id → row.status = some OrderStatus.NEW.text →
      ∃ c, s'.Cancelled c id) : Since s' born (row.afterCancel id) := by
  rcases afterCancel_eq_or id row with hsame | ⟨hid, hnew, hcancelled⟩
  · rw [hsame]
    exact h.mono hc
  · rcases h with rfl | ⟨-, rfl, -⟩
    · exact .inr ⟨hnew, hcancelled, hid ▸ hblame hid hnew⟩
    · simp [OrderRow.cancelled, OrderStatus.text] at hnew

end Since

/-- The rows as they were inserted: the `start` of the run and those its placements `made`. -/
structure History (start made : Orders) (s : State) : Prop where
  /-- Every row is still there, in its place. -/
  rows : List.Forall₂ (Since s) (start ++ made) s.orders
  /-- A made row is a new order that fits the table. -/
  births : ∀ b ∈ made, ∃ r q cash held id now,
    (newOrder r q cash held).fits = true ∧ b = (newOrder r q cash held).row id now
  /-- A placement that answers a new order made it, under the id it drew. -/
  created : ∀ {t a order}, s.placements t = some a → a.phase.placed = some ⟨order, false⟩ →
    ∃ b ∈ made, b.hasKey a.user a.request.key = true ∧ view b = .ok order ∧ a.drawn = some b.id
  /-- Every made row was made by a placement that committed it. -/
  creator : ∀ b ∈ made, ∃ t r order drawn,
    s.placements t = some ⟨r, .committed ⟨order, false⟩, drawn⟩ ∧
      b.hasKey r.order.userId r.key = true ∧ view b = .ok order
  /-- A placement that answers a replay answers what the row of its key has become. -/
  replayed : ∀ {t a order}, s.placements t = some a → a.phase.placed = some ⟨order, true⟩ →
    ∃ b ∈ start ++ made, b.hasKey a.user a.request.key = true ∧
      ∃ row, Since s b row ∧ view row = .ok order

theorem history_initial (start : Orders) (sequence : Int) :
    History start [] (.initial start sequence) where
  rows := by
    rw [List.append_nil]
    exact List.forall₂_same.mpr fun _ _ => .inl rfl
  births := by simp
  created h := by cases h
  creator := by simp
  replayed h := by cases h

namespace History

variable {m : Market} {start made : Orders} {s s' : State}

/-- A placement that has not committed moves on. -/
theorem put (h : History start made s) {t : Nat} {a : Attempt}
    (hopen : ∀ r placed drawn, s.placements t ≠ some ⟨r, .committed placed, drawn⟩)
    (hcreated : ∀ order, a.phase.placed = some ⟨order, false⟩ → ∃ b ∈ made,
      b.hasKey a.user a.request.key = true ∧ view b = .ok order ∧ a.drawn = some b.id)
    (hreplayed : ∀ order, a.phase.placed = some ⟨order, true⟩ → ∃ b ∈ start ++ made,
      b.hasKey a.user a.request.key = true ∧ ∃ row, Since s b row ∧ view row = .ok order) :
    History start made (s.put t a) where
  rows := h.rows
  births := h.births
  created ht' hp := by
    rcases (s.put_eq_some t a).mp ht' with ⟨rfl, rfl⟩ | ⟨-, hold⟩
    · exact hcreated _ hp
    · exact h.created hold hp
  creator b hb := by
    obtain ⟨t', r, order, drawn, ht', hrest⟩ := h.creator b hb
    -- the creator has committed, and this placement has not
    have hne : t' ≠ t := fun heq => hopen _ _ _ (heq ▸ ht')
    exact ⟨t', r, order, drawn, (s.put_eq_some t a).mpr (.inr ⟨hne, ht'⟩), hrest⟩
  replayed ht' hp := by
    rcases (s.put_eq_some t a).mp ht' with ⟨rfl, rfl⟩ | ⟨-, hold⟩
    · exact hreplayed _ hp
    · exact h.replayed hold hp

/-- A placement moves on to a phase that answers nothing yet. -/
theorem putSilent (h : History start made s) {t : Nat} {a : Attempt}
    (hopen : ∀ r placed drawn, s.placements t ≠ some ⟨r, .committed placed, drawn⟩)
    (hsilent : a.phase.placed = none) : History start made (s.put t a) :=
  h.put hopen (by simp [hsilent]) (by simp [hsilent])

/-- The commit of a row appends it to the made ones. -/
theorem commitRow (h : History start made s) (hinv : Inv m s) {t : Nat} {r : Request}
    {row : OrderRow} {placed : Placed} {drawn : Option Int}
    (ht : s.placements t = some ⟨r, .inserted row placed, drawn⟩) :
    History start (made ++ [row])
      { s.put t ⟨r, .committed placed, drawn⟩ with orders := s.orders ++ [row] } := by
  obtain ⟨q, cash, held, id, now, order, -, hfits, hrow, hview, rfl⟩ := hinv.readings ht
  have hdrawn : drawn = some row.id := (hinv.pending ht rfl).1
  have hkey : row.hasKey r.order.userId r.key = true := by
    rw [hrow]
    simp [OrderRow.hasKey, NewOrder.row, newOrder]
  refine ⟨?_, fun b hb => ?_, fun {t' a' order'} ht' hp => ?_, fun b hb => ?_,
    fun {t' a' order'} ht' hp => ?_⟩
  · rw [← List.append_assoc]
    exact List.rel_append h.rows (.cons (.inl rfl) .nil)
  · rcases List.mem_append.mp hb with hb | hb
    · exact h.births b hb
    · exact ⟨r, q, cash, held, id, now, hfits, (List.mem_singleton.mp hb).trans hrow⟩
  · rcases (s.put_eq_some _ _).mp ht' with ⟨rfl, rfl⟩ | ⟨-, hold⟩
    · cases hp
      exact ⟨row, by simp, hkey, hview, hdrawn⟩
    · obtain ⟨b, hb, hrest⟩ := h.created hold hp
      exact ⟨b, List.mem_append_left _ hb, hrest⟩
  · rcases List.mem_append.mp hb with hb | hb
    · obtain ⟨t', r', order', drawn', ht', hrest⟩ := h.creator b hb
      have hne : t' ≠ t := by
        rintro rfl
        cases ht.symm.trans ht'
      exact ⟨t', r', order', drawn', (s.put_eq_some _ _).mpr (.inr ⟨hne, ht'⟩), hrest⟩
    · cases List.mem_singleton.mp hb
      exact ⟨t, r, order, drawn, (s.put_eq_some _ _).mpr (.inl ⟨rfl, rfl⟩), hkey, hview⟩
  · rcases (s.put_eq_some _ _).mp ht' with ⟨rfl, rfl⟩ | ⟨-, hold⟩
    · cases hp
    · obtain ⟨b, hb, hrest⟩ := h.replayed hold hp
      exact ⟨b, by rw [← List.append_assoc]; exact List.mem_append_left _ hb, hrest⟩

/-- A cancel that has matched nothing moves on. -/
theorem putCancel (h : History start made s) {c : Nat} {b : CancelAttempt}
    (hmono : ∀ c' id, s.Cancelled c' id → (s.putCancel c b).Cancelled c' id) :
    History start made (s.putCancel c b) where
  rows := h.rows.imp fun _ _ hsince => hsince.mono hmono
  births := h.births
  created := h.created
  creator := h.creator
  replayed ht hp := by
    obtain ⟨b, hb, hkey, row, hsince, hview⟩ := h.replayed ht hp
    exact ⟨b, hb, hkey, row, hsince.mono hmono, hview⟩

/-- A cancel changes the row it matches, and is to blame for it. -/
theorem cancel (h : History start made s) {c : Nat} (hc : s.cancels c = none) (id : Int) :
    History start made { s.putCancel c ⟨id, updated (cancelOrder s.orders id CANCELLABLE).1⟩ with
      orders := s.orders.map (OrderRow.afterCancel id) } := by
  have hmono : ∀ c' id', s.Cancelled c' id' → State.Cancelled
      { s.putCancel c ⟨id, updated (cancelOrder s.orders id CANCELLABLE).1⟩ with
        orders := s.orders.map (OrderRow.afterCancel id) } c' id' := by
    rintro c' id' ⟨row, hrow⟩
    refine ⟨row, (s.putCancel_eq_some _ _).mpr (.inr ⟨?_, hrow⟩)⟩
    rintro rfl
    cases hc.symm.trans hrow
  refine ⟨?_, h.births, h.created, h.creator, fun ht hp => ?_⟩
  · rw [List.forall₂_map_right_iff]
    refine forall₂_imp_mem h.rows fun b row hrow hsince => hsince.afterCancel hmono
      fun hid hnew => ⟨c, ?_⟩
    obtain ⟨found, hfound⟩ := Option.isSome_iff_exists.mp
      (List.find?_isSome.mpr ⟨row, hrow, cancellable_iff.mpr ⟨hid, hnew⟩⟩)
    refine ⟨found.cancelled, (s.putCancel_eq_some _ _).mpr (.inl ⟨rfl, ?_⟩)⟩
    simp only [cancelOrder, hfound, Option.map_some, updated]
  · obtain ⟨b, hb, hkey, row, hsince, hview⟩ := h.replayed ht hp
    exact ⟨b, hb, hkey, row, hsince.mono hmono, hview⟩

/-- **Every step extends the history.** -/
theorem step (h : History start made s) (hinv : Inv m s) {e : Event}
    (hstep : (service m).step s e = some s') : ∃ new, History start (made ++ new) s' := by
  -- a commit is the only step that makes a row
  have hsame : History start made s' → ∃ new, History start (made ++ new) s' := fun h' =>
    ⟨[], by rwa [List.append_nil]⟩
  cases took_of_step hstep with
  | begun ht => exact hsame (h.putSilent (by simp [ht]) rfl)
  | locked ht hfree =>
    rename_i t r drawn
    have h' : History start made (s.put t ⟨r, .locked, drawn⟩) := h.putSilent (by simp [ht]) rfl
    exact hsame ⟨h'.rows, h'.births, h'.created, h'.creator, h'.replayed⟩
  | @read t r phase drawn phase' ht heq =>
    have hread := read_of_eq heq
    have hopen : ∀ r' placed d, s.placements t ≠ some ⟨r', .committed placed, d⟩ := by
      rintro r' placed d hc
      cases ht.symm.trans hc
      cases hread
    cases hread with
    | @replay row order hrow hview =>
      refine hsame (h.put hopen (by simp [Phase.placed]) fun order' hp => ?_)
      simp only [Phase.placed, Option.some.injEq, Placed.mk.injEq, and_true] at hp
      -- the row found is what an inserted one has become
      obtain ⟨hmem, hkey⟩ := byIdempotencyKey_eq_some hrow
      obtain ⟨b, hb, hsince⟩ := exists_left_of_forall₂ h.rows hmem
      exact ⟨b, hb, hsince.hasKey_eq _ _ ▸ hkey, row, hsince, hp ▸ hview⟩
    | _ => exact hsame (h.putSilent hopen rfl)
  | @inserted t now r q cash held drawn ht =>
    have h' : History start made (s.put t ⟨r, inserting s.orders r q cash held (s.sequence + 1)
        now, some (s.sequence + 1)⟩) := h.putSilent (by simp [ht]) (placed_inserting ..)
    exact hsame ⟨h'.rows, h'.births, h'.created, h'.creator, h'.replayed⟩
  | committed ht => exact ⟨_, h.commitRow hinv ht⟩
  | replayed ht =>
    have hcreated := fun order => @h.created _ _ order ht
    have hreplayed := fun order => @h.replayed _ _ order ht
    exact hsame (h.put (by simp [ht]) hcreated hreplayed)
  | rolledBack ht => exact hsame (h.putSilent (by simp [ht]) rfl)
  | @timedOut t r phase drawn ht hphase =>
    refine hsame (h.putSilent ?_ rfl)
    rintro r' placed d hc
    cases ht.symm.trans hc
    cases hphase
  | unlocked => exact hsame ⟨h.rows, h.births, h.created, h.creator, h.replayed⟩
  | cancelled hc => exact hsame (h.cancel hc _)
  | @refused c id hc =>
    refine hsame (h.putCancel fun c' id' => ?_)
    rintro ⟨row, hrow⟩
    refine ⟨row, (s.putCancel_eq_some _ _).mpr (.inr ⟨?_, hrow⟩)⟩
    rintro rfl
    cases hc.symm.trans hrow

end History

/-- **Every run has a history.** -/
theorem history_run {m : Market} {start : Orders} {sequence : Int} {es : List Event} {s : State}
    (hrun : (service m).run (.initial start sequence) es = some s) :
    ∃ made, History start made s := by
  have key : Inv m s ∧ ∃ made, History start made s :=
    (service m).invariant_run (I := fun s => Inv m s ∧ ∃ made, History start made s)
      (fun ⟨hinv, made, h⟩ hstep =>
        ⟨hinv.step hstep, (h.step hinv hstep).elim fun new h' => ⟨made ++ new, h'⟩⟩)
      ⟨inv_initial m start sequence, [], history_initial start sequence⟩ hrun
  exact key.2

end Cocos
