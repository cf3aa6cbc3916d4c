import Cocos.Lib.Tally
import Cocos.Tools.Sends

namespace Cocos.Tools

open Cocos.Lib

/-!
# The books of the gateway

What chaos has done to a call is on the row of the call, is counted by the engine, and is written
down by the engine beside it.

* `DropOnFile`, `RetryOnFile` — what there is on file of an answer that was hidden, and of a retry;
* `LogAgrees`, `LogAgrees.follow` — what the rows say of each other, and that they still do where
  others join them;
* `FirstRow`, `CallsAgree` — the row of a call, and what calls and rows say of each other;
* `Books`, `books_run` — **the books agree in every state a run reaches**.
-/

/-! ### What a row says -/

namespace Attempt

def delayedMs (row : Attempt) : Option Int := row.chaos.bind (·.delayedMs)

def droppedStatus (row : Attempt) : Option Nat := row.chaos.bind (·.droppedStatus)

def retryOf (row : Attempt) : Option Nat := row.chaos.bind (·.retryOf)

def retriedBy (row : Attempt) : Option Nat := row.chaos.bind (·.retriedBy)

/-- The row is one of the engine's, about a mode, and says `body`. -/
structure Notes (event : Attempt) (mode : ChaosMode) (body : Option Body) : Prop where
  method : event.method = "CHAOS"
  path : event.path = "chaos:" ++ mode.text
  body : event.body = body

/-- `row'` is the row with what was written onto it later: the retry it got, and, where it is no
    retry itself, what a client made of it. -/
structure Keeps (row row' : Attempt) : Prop where
  id : row'.id = row.id
  method : row'.method = row.method
  path : row'.path = row.path
  status : row'.status = row.status
  ok : row'.ok = row.ok
  sent : row'.sent = row.sent
  body : row'.body = row.body
  key : row'.idempotencyKey = row.idempotencyKey
  delayedMs : row'.delayedMs = row.delayedMs
  droppedStatus : row'.droppedStatus = row.droppedStatus
  retryOf : row'.retryOf = row.retryOf
  orderId : row.retryOf.isSome = true → row'.orderId = row.orderId

theorem Keeps.refl (row : Attempt) : row.Keeps row :=
  ⟨rfl, rfl, rfl, rfl, rfl, rfl, rfl, rfl, rfl, rfl, rfl, fun _ => rfl⟩

end Attempt

/-- The answer of a call was hidden: it had one, and the row beside it says which. -/
structure DropOnFile (log : List Attempt) (row : Attempt) (status : Nat) : Prop where
  came : status ≠ 0
  lost : row.status = 0
  body : row.body = some DROPPED
  placement : isOrderPlacement row.method row.path = true
  event : ∃ event ∈ log, event.id = row.id + 1 ∧
    event.Notes .response_drop (droppedResponse row.id status 0).body

/-- The row is the retry of a placement that got no answer: the same request under the same key,
    and the row beside it says what came of it. -/
structure RetryOnFile (log : List Attempt) (row : Attempt) (k : Nat) : Prop where
  after : k < row.id
  key : row.idempotencyKey.isSome = true
  lost : ∃ lost ∈ log, lost.id = k ∧ lost.status = 0 ∧ lost.retryOf = none ∧
    isOrderPlacement lost.method lost.path = true ∧ row.method = lost.method ∧
    row.path = lost.path ∧ row.sent = lost.sent ∧ row.idempotencyKey = lost.idempotencyKey
  event : ∃ event ∈ log, event.id = row.id + 1 ∧ event.Notes .client_retry
    (retriedOrder k row.sent ⟨row.id, row.status, row.orderId⟩ 0).body

/-- The retry a row is told of: the recorder still had it, or it is told of none. -/
def retryTold (row : Attempt) (k : Nat) : Option Nat :=
  if row.id < k + ATTEMPTS_CAPACITY then some row.id else none

/-- What the rows of a log say of each other. -/
structure LogAgrees (log : List Attempt) : Prop where
  dropped : ∀ row ∈ log, ∀ status, row.droppedStatus = some status → DropOnFile log row status
  retried : ∀ row ∈ log, ∀ k, row.retryOf = some k → RetryOnFile log row k
  /-- No attempt is sent again twice. -/
  once : ∀ a ∈ log, ∀ b ∈ log, ∀ k, a.retryOf = some k → b.retryOf = some k → a = b
  /-- The link to the lost attempt goes both ways. -/
  linked : ∀ row ∈ log, ∀ k, row.retryOf = some k → ∀ lost ∈ log, lost.id = k →
    lost.retriedBy = retryTold row k
  retriedBy : ∀ row ∈ log, ∀ r, row.retriedBy = some r →
    ∃ retry ∈ log, retry.id = r ∧ retry.retryOf = some row.id

section Follow

variable {log : List Attempt} {row : Attempt}

theorem DropOnFile.follow {status : Nat} (h : DropOnFile log row status) {f : Attempt → Attempt}
    (hf : ∀ row ∈ log, row.Keeps (f row)) (hrow : row ∈ log) (new : List Attempt) :
    DropOnFile (log.map f ++ new) (f row) status where
  came := h.came
  lost := (hf row hrow).status.trans h.lost
  body := (hf row hrow).body.trans h.body
  placement := by
    rw [(hf row hrow).method, (hf row hrow).path]
    exact h.placement
  event := by
    obtain ⟨event, hevent, hid, hnotes⟩ := h.event
    have hkeep := hf event hevent
    refine ⟨f event, List.mem_append_left _ (List.mem_map_of_mem hevent), ?_, ?_⟩
    · rw [hkeep.id, hid, (hf row hrow).id]
    · rw [(hf row hrow).id]
      exact ⟨hkeep.method.trans hnotes.method, hkeep.path.trans hnotes.path,
        hkeep.body.trans hnotes.body⟩

theorem RetryOnFile.follow {k : Nat} (h : RetryOnFile log row k) (hretry : row.retryOf = some k)
    {f : Attempt → Attempt} (hf : ∀ row ∈ log, row.Keeps (f row)) (hrow : row ∈ log)
    (new : List Attempt) : RetryOnFile (log.map f ++ new) (f row) k where
  after := (hf row hrow).id ▸ h.after
  key := by
    rw [(hf row hrow).key]
    exact h.key
  lost := by
    obtain ⟨lost, hlost, hid, hstatus, hof, hplace, hmethod, hpath, hsent, hkey⟩ := h.lost
    have hkeep := hf lost hlost
    refine ⟨f lost, List.mem_append_left _ (List.mem_map_of_mem hlost), hkeep.id.trans hid,
      hkeep.status.trans hstatus, hkeep.retryOf.trans hof, ?_, ?_, ?_, ?_, ?_⟩
    · rw [hkeep.method, hkeep.path]
      exact hplace
    · rw [(hf row hrow).method, hkeep.method, hmethod]
    · rw [(hf row hrow).path, hkeep.path, hpath]
    · rw [(hf row hrow).sent, hkeep.sent, hsent]
    · rw [(hf row hrow).key, hkeep.key, hkey]
  event := by
    obtain ⟨event, hevent, hid, hnotes⟩ := h.event
    have hkeep := hf event hevent
    refine ⟨f event, List.mem_append_left _ (List.mem_map_of_mem hevent), ?_, ?_⟩
    · rw [hkeep.id, hid, (hf row hrow).id]
    · rw [(hf row hrow).id, (hf row hrow).sent, (hf row hrow).status,
        (hf row hrow).orderId (by rw [hretry]; rfl)]
      exact ⟨hkeep.method.trans hnotes.method, hkeep.path.trans hnotes.path,
        hkeep.body.trans hnotes.body⟩

/-- What is asked of rows that join a log, whose own rows `f` has annotated. -/
structure Joins (log : List Attempt) (f : Attempt → Attempt) (new : List Attempt) : Prop where
  fresh : ∀ row ∈ new, ∀ old ∈ log, old.id < row.id
  dropped : ∀ row ∈ new, ∀ status, row.droppedStatus = some status →
    DropOnFile (log.map f ++ new) row status
  retried : ∀ row ∈ new, ∀ k, row.retryOf = some k → RetryOnFile (log.map f ++ new) row k ∧
    (∀ old ∈ log, old.retryOf ≠ some k) ∧
    ∀ lost ∈ log.map f ++ new, lost.id = k → lost.retriedBy = retryTold row k
  once : ∀ a ∈ new, ∀ b ∈ new, a.retryOf.isSome = true → b.retryOf.isSome = true → a = b
  retriedBy : ∀ row ∈ new, row.retriedBy = none
  /-- A row is told of a new retry, if of any. -/
  told : ∀ row ∈ log, (f row).retriedBy = row.retriedBy ∨
    (∀ old ∈ log, old.retryOf ≠ some row.id) ∧ ∀ r, (f row).retriedBy = some r →
      ∃ retry ∈ new, retry.id = r ∧ retry.retryOf = some row.id

/-- **The rows still agree** where others join them. -/
theorem LogAgrees.follow (h : LogAgrees log) {f : Attempt → Attempt} {new : List Attempt}
    (hf : ∀ row ∈ log, row.Keeps (f row)) (hnew : Joins log f new) :
    LogAgrees (log.map f ++ new) := by
  have hcases : ∀ {row}, row ∈ log.map f ++ new → (∃ old ∈ log, f old = row) ∨ row ∈ new :=
    fun hrow => (List.mem_append.mp hrow).imp_left List.mem_map.mp
  refine ⟨fun row hrow status hstatus => ?_, fun row hrow k hk => ?_, fun a ha b hb k hka hkb => ?_,
    fun row hrow k hk lost hlost hid => ?_, fun row hrow r hr => ?_⟩
  · rcases hcases hrow with ⟨old, hold, rfl⟩ | hrow
    · rw [(hf old hold).droppedStatus] at hstatus
      exact (h.dropped old hold status hstatus).follow hf hold new
    · exact hnew.dropped row hrow status hstatus
  · rcases hcases hrow with ⟨old, hold, rfl⟩ | hrow
    · rw [(hf old hold).retryOf] at hk
      exact (h.retried old hold k hk).follow hk hf hold new
    · exact (hnew.retried row hrow k hk).1
  · rcases hcases ha with ⟨a₀, ha₀, rfl⟩ | ha₀ <;> rcases hcases hb with ⟨b₀, hb₀, rfl⟩ | hb₀
    · rw [(hf a₀ ha₀).retryOf] at hka
      rw [(hf b₀ hb₀).retryOf] at hkb
      rw [h.once a₀ ha₀ b₀ hb₀ k hka hkb]
    · rw [(hf a₀ ha₀).retryOf] at hka
      exact absurd hka ((hnew.retried b hb₀ k hkb).2.1 a₀ ha₀)
    · rw [(hf b₀ hb₀).retryOf] at hkb
      exact absurd hkb ((hnew.retried a ha₀ k hka).2.1 b₀ hb₀)
    · exact hnew.once a ha₀ b hb₀ (by rw [hka]; rfl) (by rw [hkb]; rfl)
  · rcases hcases hrow with ⟨old, hold, rfl⟩ | hrow
    · rw [(hf old hold).retryOf] at hk
      have hafter := (h.retried old hold k hk).after
      rcases hcases hlost with ⟨lost₀, hlost₀, rfl⟩ | hlost₀
      · rw [(hf lost₀ hlost₀).id] at hid
        -- it was told already, and nobody tells it again
        rcases hnew.told lost₀ hlost₀ with htold | ⟨hnone, -⟩
        · rw [htold, h.linked old hold k hk lost₀ hlost₀ hid]
          simp only [retryTold, (hf old hold).id]
        · exact absurd (hid ▸ hk) (hnone old hold)
      · have := hnew.fresh lost hlost₀ old hold
        omega
    · exact (hnew.retried row hrow k hk).2.2 lost hlost hid
  · rcases hcases hrow with ⟨old, hold, rfl⟩ | hrow
    · rw [(hf old hold).id]
      rcases hnew.told old hold with htold | ⟨-, htold⟩
      · rw [htold] at hr
        obtain ⟨retry, hretry, hid, hof⟩ := h.retriedBy old hold r hr
        have hkeep := hf retry hretry
        exact ⟨f retry, List.mem_append_left _ (List.mem_map_of_mem hretry),
          hkeep.id.trans hid, hkeep.retryOf.trans hof⟩
      · obtain ⟨retry, hretry, hid, hof⟩ := htold r hr
        exact ⟨retry, List.mem_append_right _ hretry, hid, hof⟩
    · rw [hnew.retriedBy row hrow] at hr
      cases hr

end Follow

/-! ### Calls and their rows -/

/-- The row of a call: it says what the caller was told, what chaos did, and what the target had
    answered. -/
structure FirstRow (c : Send) (result : GatewayResult) (came : Came) (row : Attempt) : Prop where
  id : row.id = result.attemptId
  method : row.method = c.method
  path : row.path = c.path
  sent : row.sent = c.sent
  key : row.idempotencyKey = c.key
  told : row.status = result.answer.status
  retryOf : row.retryOf = none
  delayedMs : row.delayedMs = c.mark.delayedMs
  truth : row.droppedStatus.getD row.status = came.answer.status
  answer : row.droppedStatus = none → row.body = came.answer.body ∧ row.ok = came.answer.ok

theorem FirstRow.keeps {c : Send} {result : GatewayResult} {came : Came} {row row' : Attempt}
    (h : FirstRow c result came row) (hkeep : row.Keeps row') : FirstRow c result came row' where
  id := hkeep.id.trans h.id
  method := hkeep.method.trans h.method
  path := hkeep.path.trans h.path
  sent := hkeep.sent.trans h.sent
  key := hkeep.key.trans h.key
  told := hkeep.status.trans h.told
  retryOf := hkeep.retryOf.trans h.retryOf
  delayedMs := hkeep.delayedMs.trans h.delayedMs
  truth := by
    rw [hkeep.droppedStatus, hkeep.status]
    exact h.truth
  answer hnone := by
    obtain ⟨hbody, hok⟩ := h.answer (hkeep.droppedStatus ▸ hnone)
    exact ⟨hkeep.body.trans hbody, hkeep.ok.trans hok⟩

namespace Send

/-- The row of a call, once it has one. -/
def attemptId (c : Send) : Option Nat := c.stage.result.map (·.attemptId)

/-- A call is on file as far as it has got. -/
structure OnFile (log : List Attempt) (c : Send) : Prop where
  key : c.key.isSome = c.isPlacement
  unanswered : c.stage.result = none → c.came = none
  first : ∀ result, c.stage.result = some result →
    ∃ came, c.came = some came ∧ ∃ row ∈ log, FirstRow c result came row
  retrying : ∀ lost mark sentAt, c.stage = .retrying lost mark sentAt →
    lost.answer.status = 0 ∧ c.isPlacement = true ∧ mark.retryOf = none ∧
      ∀ row ∈ log, row.id = lost.attemptId →
        row.delayedMs = mark.delayedMs ∧ row.droppedStatus = mark.droppedStatus

/-- A call that has not gone out is on file. -/
theorem onFile_held {log : List Attempt} {c : Send} (hkey : c.key.isSome = c.isPlacement)
    (hstage : c.stage.result = none) (hcame : c.came = none) : c.OnFile log where
  key := hkey
  unanswered _ := hcame
  first result hresult := by
    rw [hstage] at hresult
    cases hresult
  retrying lost mark sentAt hretrying := by
    rw [hretrying] at hstage
    cases hstage

theorem OnFile.follow {log : List Attempt} {c : Send} (h : c.OnFile log) {f : Attempt → Attempt}
    {new : List Attempt} (hf : ∀ row ∈ log, row.Keeps (f row))
    (hfresh : ∀ row ∈ new, ∀ old ∈ log, old.id < row.id) : c.OnFile (log.map f ++ new) where
  key := h.key
  unanswered := h.unanswered
  first result hresult := by
    obtain ⟨came, hcame, row, hrow, hfirst⟩ := h.first result hresult
    exact ⟨came, hcame, f row, List.mem_append_left _ (List.mem_map_of_mem hrow),
      hfirst.keeps (hf row hrow)⟩
  retrying lost mark sentAt hstage := by
    obtain ⟨hstatus, hplace, hof, hmark⟩ := h.retrying lost mark sentAt hstage
    refine ⟨hstatus, hplace, hof, fun row hrow hid => ?_⟩
    rcases List.mem_append.mp hrow with hrow | hrow
    · obtain ⟨old, hold, rfl⟩ := List.mem_map.mp hrow
      have hkeep := hf old hold
      rw [hkeep.delayedMs, hkeep.droppedStatus]
      exact hmark old hold (hkeep.id.symm.trans hid)
    -- the lost row is there already, and newer rows have other ids
    · obtain ⟨came, -, first, hfirst, hrowOf⟩ := h.first lost (by rw [hstage]; rfl)
      have hlt := hfresh row hrow first hfirst
      rw [hrowOf.id, hid] at hlt
      exact absurd hlt (lt_irrefl _)

end Send

/-- What the calls and the rows of a log say of each other. -/
structure CallsAgree (calls : List Send) (log : List Attempt) : Prop where
  filed : ∀ c ∈ calls, c.OnFile log
  ids : (calls.filterMap Send.attemptId).Nodup
  keys : (calls.filterMap Send.key).Nodup
  /-- Only calls that are over have been sent again. -/
  retried : ∀ row ∈ log, ∀ k, row.retryOf = some k →
    ∃ c ∈ calls, ∃ result, c.stage = .returned result ∧ result.attemptId = k
  /-- A row with a key is that of a call or of its retry. -/
  origin : ∀ row ∈ log, row.idempotencyKey.isSome = true →
    ∃ c ∈ calls, ∃ id, c.attemptId = some id ∧ (row.id = id ∨ row.retryOf = some id)

section Calls

variable {calls : List Send} {log : List Attempt} {f : Attempt → Attempt}

/-- Rows join that are of no call, or annotations are made. -/
theorem CallsAgree.follow (h : CallsAgree calls log) (new : List Attempt)
    (hf : ∀ row ∈ log, row.Keeps (f row))
    (hfresh : ∀ row ∈ new, ∀ old ∈ log, old.id < row.id)
    (hnew : ∀ row ∈ new, row.retryOf = none ∧ row.idempotencyKey = none) :
    CallsAgree calls (log.map f ++ new) where
  filed c hc := (h.filed c hc).follow hf hfresh
  ids := h.ids
  keys := h.keys
  retried row hrow k hk := by
    rcases List.mem_append.mp hrow with hrow | hrow
    · obtain ⟨old, hold, rfl⟩ := List.mem_map.mp hrow
      exact h.retried old hold k ((hf old hold).retryOf.symm.trans hk)
    · rw [(hnew row hrow).1] at hk
      cases hk
  origin row hrow hkey := by
    rcases List.mem_append.mp hrow with hrow | hrow
    · obtain ⟨old, hold, rfl⟩ := List.mem_map.mp hrow
      have hkeep := hf old hold
      rw [hkeep.id, hkeep.retryOf]
      exact h.origin old hold (hkeep.key ▸ hkey)
    · rw [(hnew row hrow).2] at hkey
      cases hkey

/-- A call begins, whose key, if it has one, no other call has. -/
theorem CallsAgree.begun (h : CallsAgree calls log) {c : Send}
    (hplaces : c.key.isSome = c.isPlacement) (hkey : ∀ b ∈ calls, ∀ key, c.key = some key →
      b.key ≠ some key) (hstage : c.stage.result = none) (hcame : c.came = none) :
    CallsAgree (calls ++ [c]) log where
  filed := forall_mem_concat h.filed (Send.onFile_held hplaces hstage hcame)
  ids := by
    rw [filterMap_concat_of_none _ (by rw [Send.attemptId, hstage]; rfl)]
    exact h.ids
  keys := by
    cases hcase : c.key with
    | none =>
      rw [filterMap_concat_of_none _ hcase]
      exact h.keys
    | some key =>
      rw [List.filterMap_append, List.filterMap_cons_some hcase]
      refine List.nodup_append.mpr ⟨h.keys, List.nodup_singleton key, fun a ha b hb => ?_⟩
      obtain ⟨d, hd, hda⟩ := List.mem_filterMap.mp ha
      rw [List.mem_singleton.mp hb]
      exact fun hab => hkey d hd key hcase (hab ▸ hda)
  retried row hrow k hk := by
    obtain ⟨b, hb, hrest⟩ := h.retried row hrow k hk
    exact ⟨b, List.mem_append_left _ hb, hrest⟩
  origin row hrow hkey := by
    obtain ⟨b, hb, hrest⟩ := h.origin row hrow hkey
    exact ⟨b, List.mem_append_left _ hb, hrest⟩

/-- Rows join that are of one call, which moves on. -/
theorem CallsAgree.moveOn (h : CallsAgree calls log) (new : List Attempt) (c' : Send)
    (hf : ∀ row ∈ log, row.Keeps (f row))
    (hfresh : ∀ row ∈ new, ∀ old ∈ log, old.id < row.id) {j : Nat} {c : Send}
    (hj : calls[j]? = some c) (hopen : ∀ result, c.stage ≠ .returned result)
    (hkey : c'.key = c.key) (hfiled : c'.OnFile (log.map f ++ new))
    (hid : c'.attemptId = c.attemptId ∨
      c.attemptId = none ∧ ∃ id, c'.attemptId = some id ∧ ∀ old ∈ log, old.id < id)
    (hretried : ∀ row ∈ new, ∀ k, row.retryOf = some k →
      ∃ result, c'.stage = .returned result ∧ result.attemptId = k)
    (horigin : ∀ row ∈ new, row.idempotencyKey.isSome = true →
      ∃ id, c'.attemptId = some id ∧ (row.id = id ∨ row.retryOf = some id)) :
    CallsAgree (calls.set j c') (log.map f ++ new) := by
  obtain ⟨hlt, -⟩ := List.getElem?_eq_some_iff.mp hj
  have hmem : c' ∈ calls.set j c' := List.mem_set hlt c'
  refine ⟨?_, ?_, ?_, fun row hrow k hk => ?_, fun row hrow hkey => ?_⟩
  · exact forall_mem_set (fun c hc => (h.filed c hc).follow hf hfresh) hfiled j
  · rcases hid with hsame | ⟨hnone, id, hsome, hnewer⟩
    · rw [filterMap_set_of_eq hj hsame]
      exact h.ids
    · refine (filterMap_set_perm hj hnone hsome).nodup_iff.mpr (List.nodup_cons.mpr ⟨?_, h.ids⟩)
      -- the ids given so far are of rows that are there
      intro hin
      obtain ⟨b, hb, hbid⟩ := List.mem_filterMap.mp hin
      obtain ⟨result, hresult, rfl⟩ := Option.map_eq_some_iff.mp hbid
      obtain ⟨came, -, row, hrow, hfirst⟩ := (h.filed b hb).first result hresult
      have hlt := hnewer row hrow
      rw [hfirst.id] at hlt
      exact absurd hlt (lt_irrefl _)
  · rw [filterMap_set_of_eq hj hkey]
    exact h.keys
  · rcases List.mem_append.mp hrow with hrow | hrow
    · obtain ⟨old, hold, rfl⟩ := List.mem_map.mp hrow
      obtain ⟨b, hb, result, hstage, hk⟩ := h.retried old hold k
        ((hf old hold).retryOf.symm.trans hk)
      refine ⟨b, (mem_set_or hb j c').resolve_right fun hbj => ?_, result, hstage, hk⟩
      cases hj.symm.trans hbj
      exact hopen result hstage
    · obtain ⟨result, hstage, hk⟩ := hretried row hrow k hk
      exact ⟨c', hmem, result, hstage, hk⟩
  · rcases List.mem_append.mp hrow with hrow | hrow
    · obtain ⟨old, hold, rfl⟩ := List.mem_map.mp hrow
      have hkeep := hf old hold
      rw [hkeep.id, hkeep.retryOf]
      refine exists_mem_set hj (h.origin old hold (hkeep.key ▸ hkey)) fun ⟨id, hcid, hof⟩ => ?_
      rcases hid with hsame | ⟨hnone, -⟩
      · exact ⟨id, hsame.trans hcid, hof⟩
      · rw [hnone] at hcid
        cases hcid
    · obtain ⟨id, hcid, hof⟩ := horigin row hrow hkey
      exact ⟨c', hmem, id, hcid, hof⟩

end Calls

/-! ### The engine -/

namespace ChaosService

/-- Rows are added to those of the engine, and what it did to calls is counted as before. -/
structure Logged (s s' : ChaosService) : Prop where
  events : ∃ new, s'.events = s.events ++ new
  delays : s'.counters.delays = s.counters.delays
  drops : s'.counters.drops = s.counters.drops
  retries : s'.counters.retries = s.counters.retries

theorem Logged.refl (s : ChaosService) : Logged s s :=
  ⟨⟨[], (List.append_nil _).symm⟩, rfl, rfl, rfl⟩

theorem Logged.trans {s s₁ s' : ChaosService} (h : Logged s s₁) (h' : Logged s₁ s') :
    Logged s s' where
  events := by
    obtain ⟨new, hnew⟩ := h.events
    obtain ⟨new', hnew'⟩ := h'.events
    exact ⟨new ++ new', by rw [hnew', hnew, List.append_assoc]⟩
  delays := h'.delays.trans h.delays
  drops := h'.drops.trans h.drops
  retries := h'.retries.trans h.retries

theorem logged_event (s : ChaosService) (event : ChaosEvent) : Logged s (s.event event) :=
  ⟨⟨[event], rfl⟩, rfl, rfl, rfl⟩

theorem logged_of_eq {s s' : ChaosService} (hevents : s'.events = s.events)
    (hdelays : s'.counters.delays = s.counters.delays)
    (hdrops : s'.counters.drops = s.counters.drops)
    (hretries : s'.counters.retries = s.counters.retries) : Logged s s' :=
  ⟨⟨[], by rw [hevents, List.append_nil]⟩, hdelays, hdrops, hretries⟩

theorem logged_pauseDb (s : ChaosService) (seconds : ℚ) (now : Int) :
    Logged s (s.pauseDb seconds now).1 := by
  unfold pauseDb
  split
  · exact .refl s
  · exact logged_of_eq rfl rfl rfl rfl

theorem logged_configure {s s' : ChaosService} {patch : ChaosConfigDto} {now : Int}
    {cycle : Option PauseCycle} (h : s.configure patch now = .ok (s', cycle)) : Logged s s' := by
  unfold configure at h
  dsimp only at h
  cases hcheck : check patch.mode (patch.intensity.getD (s.modes patch.mode).intensity) with
  | error message =>
    rw [hcheck] at h
    cases h
  | ok _ =>
    rw [hcheck] at h
    replace h := Except.ok.inj h
    have hswitched : Logged s ((s.switch patch.mode
        ⟨patch.enabled.getD (s.modes patch.mode).enabled,
          patch.intensity.getD (s.modes patch.mode).intensity⟩ now).event
        ⟨patch.mode, true, .toggle (patch.enabled.getD (s.modes patch.mode).enabled)
          (patch.intensity.getD (s.modes patch.mode).intensity), now, 0⟩) := by
      refine .trans ?_ (logged_event ..)
      exact logged_of_eq rfl rfl rfl rfl
    split at h
    · obtain rfl : _ = s' := congrArg Prod.fst h
      exact hswitched.trans (logged_pauseDb ..)
    · obtain rfl : _ = s' := congrArg Prod.fst h
      exact hswitched

theorem logged_finish (s : ChaosService) (seconds : ℚ) (down : Bool) (now : Int) :
    Logged s (s.finish seconds down now) :=
  logged_of_eq rfl rfl rfl rfl

theorem logged_failed (s : ChaosService) (seconds : ℚ) (down : Bool) (message : String)
    (now : Int) : Logged s (s.failed seconds down message now) :=
  ⟨⟨[⟨.db_pause, false, .failed seconds message, now, 0⟩], rfl⟩, rfl, rfl, rfl⟩

end ChaosService

/-- The engine adds to its rows, whatever happens to it. -/
theorem PauseWorld.logged_step {s s' : PauseWorld} {e : PauseEvent} (hone : s.cycles.length ≤ 1)
    (h : dbPause.step s e = some s') : s.service.Logged s'.service := by
  cases e with
  | configure patch =>
    simp only [dbPause, PauseWorld.step] at h
    split at h
    · cases h
      exact .refl _
    · rename_i hok
      cases h
      exact ChaosService.logged_configure hok
  | tick now =>
    cases took_of_step hone h
    exact .refl _
  | land k => cases took_of_step hone h <;> exact .refl _
  | wake k =>
    cases took_of_step hone h
    exact .refl _
  | answer k failure =>
    cases took_of_step hone h with
    | paused => exact ChaosService.logged_event ..
    | unpaused => exact (ChaosService.logged_event ..).trans (ChaosService.logged_finish ..)
    | pauseFailed | unpauseFailed => exact ChaosService.logged_failed ..

/-! ### The books -/

/-- One for a call that was held back. -/
def Send.heldBack (c : Send) : Int := if c.delayedMs > 0 then 1 else 0

/-- One for a call that was recorded. -/
def Send.onRecord (c : Send) : Int := if c.attemptId.isSome then 1 else 0

theorem Send.onRecord_of_none {c : Send} (h : c.stage.result = none) : c.onRecord = 0 := by
  rw [Send.onRecord, Send.attemptId, h]
  rfl

theorem Send.onRecord_of_some {c : Send} (result : GatewayResult)
    (h : c.stage.result = some result) : c.onRecord = 1 := by
  rw [Send.onRecord, Send.attemptId, h]
  rfl

/-- What the rows, the counters and the calls say of each other. -/
structure Entries (s : GatewayWorld) : Prop where
  /-- The recorder has the end of the log. -/
  holds : s.store.Holds s.log
  rows : LogAgrees s.log
  calls : CallsAgree s.calls s.log
  delays : (s.counters.delays : Int) = tally Send.heldBack s.calls
  drops : s.counters.drops = s.log.countP fun row => row.droppedStatus.isSome
  retries : s.counters.retries = s.log.countP fun row => row.retryOf.isSome

/-- **The books**: the entries agree, and every row is of a call, of a retry, or of the engine. -/
structure Books (s : GatewayWorld) : Prop extends Entries s where
  length : (s.log.length : Int) = s.pause.service.events.length + s.counters.drops +
    2 * s.counters.retries + tally Send.onRecord s.calls

theorem books_initial (now : Int) : Books (.initial now) where
  holds := AttemptsStore.holds_empty
  rows := by constructor <;> simp [GatewayWorld.initial]
  calls := by constructor <;> simp [GatewayWorld.initial]
  delays := rfl
  drops := rfl
  retries := rfl
  length := rfl

/-- A marked row is the row with that mark, which reads as one where nothing was done. -/
theorem marked_chaos (attempt : Attempt) (chaos : ChaosMark) (h : attempt.chaos = none) :
    (marked attempt chaos).delayedMs = chaos.delayedMs ∧
    (marked attempt chaos).droppedStatus = chaos.droppedStatus ∧
    (marked attempt chaos).retryOf = chaos.retryOf ∧
    (marked attempt chaos).retriedBy = chaos.retriedBy := by
  unfold marked Attempt.delayedMs Attempt.droppedStatus Attempt.retryOf Attempt.retriedBy
  split
  · rename_i hnone
    rw [h, hnone]
    exact ⟨rfl, rfl, rfl, rfl⟩
  · exact ⟨rfl, rfl, rfl, rfl⟩

/-- A mark leaves the rest of a row alone. -/
theorem marked_rest (attempt : Attempt) (chaos : ChaosMark) :
    (marked attempt chaos).method = attempt.method ∧ (marked attempt chaos).path = attempt.path ∧
    (marked attempt chaos).status = attempt.status ∧ (marked attempt chaos).ok = attempt.ok ∧
    (marked attempt chaos).sent = attempt.sent ∧ (marked attempt chaos).body = attempt.body ∧
    (marked attempt chaos).idempotencyKey = attempt.idempotencyKey := by
  unfold marked
  split <;> exact ⟨rfl, rfl, rfl, rfl, rfl, rfl, rfl⟩

namespace Books

variable {json : EventBody → Body} {s : GatewayWorld}

theorem begun (h : Books s) {method path : String} {sent : Option OrderKey} {key : String}
    {delay : Roll} (hkey : ∀ c ∈ s.calls, c.key ≠ some key) :
    Books (s.begun method path sent key delay) := by
  have hplaces : (if isOrderPlacement method path then some key else none).isSome =
      isOrderPlacement method path := by
    cases isOrderPlacement method path <;> rfl
  have hown : ∀ b ∈ s.calls, ∀ k, (if isOrderPlacement method path then some key else none) =
      some k → b.key ≠ some k := fun b hb k hk => by
    obtain ⟨-, hk⟩ := Option.ite_none_right_eq_some.mp hk
    exact hk ▸ hkey b hb
  have hcalls := h.calls.begun (c := ⟨method, path, sent,
    if isOrderPlacement method path then some key else none, s.modes.delay delay, .held, none⟩)
    hplaces hown rfl rfl
  have hlength := h.length
  by_cases hdelay : s.modes.delay delay > 0
  · rw [GatewayWorld.begun, if_pos hdelay]
    refine ⟨⟨h.holds, h.rows, hcalls, ?_, h.drops, h.retries⟩, ?_⟩
    · rw [tally_concat, Send.heldBack, if_pos hdelay, ← h.delays]
      rfl
    · rw [tally_concat, Send.onRecord_of_none rfl, Int.add_zero]
      exact hlength
  · rw [GatewayWorld.begun, if_neg hdelay]
    refine ⟨⟨h.holds, h.rows, hcalls, ?_, h.drops, h.retries⟩, ?_⟩
    · rw [tally_concat, Send.heldBack, if_neg hdelay, ← h.delays]
      exact (Int.add_zero _).symm
    · rw [tally_concat, Send.onRecord_of_none rfl, Int.add_zero]
      exact hlength

theorem posted (h : Books s) {j : Nat} {c : Send} (hj : s.calls[j]? = some c)
    (hstage : c.stage = .held) (sentAt : Int) :
    Books (s.setCall j { c with stage := .out sentAt }) := by
  have hc := h.calls.filed c (List.mem_of_getElem? hj)
  have hcalls := h.calls.moveOn (f := id) [] { c with stage := .out sentAt }
    (fun row _ => .refl row) (by simp) hj (fun result => by rw [hstage]; nofun) rfl
    (Send.onFile_held hc.key rfl (hc.unanswered (by rw [hstage]; rfl)))
    (.inl (by rw [Send.attemptId, Send.attemptId, hstage]; rfl)) (by simp) (by simp)
  rw [List.map_id, List.append_nil] at hcalls
  refine ⟨⟨h.holds, h.rows, hcalls, ?_, h.drops, h.retries⟩, ?_⟩
  · exact h.delays.trans (tally_set_of_eq (y := { c with stage := .out sentAt }) hj rfl).symm
  · have hsame : Send.onRecord { c with stage := .out sentAt } = Send.onRecord c := by
      rw [Send.onRecord_of_none rfl, Send.onRecord_of_none (by rw [hstage]; rfl)]
    exact h.length.trans (congrArg _ (tally_set_of_eq hj hsame).symm)

end Books

section Plain

variable {json : EventBody → Body} {s : GatewayWorld}

/-- A row joins whose answer was not hidden, and that is no retry. -/
theorem joins_plain {log : List Attempt} {row : Attempt} (hfresh : ∀ old ∈ log, old.id < row.id)
    (hdropped : row.droppedStatus = none) (hretry : row.retryOf = none)
    (hretried : row.retriedBy = none) : Joins log id [row] := by
  constructor
  · simpa using hfresh
  · simp [hdropped]
  · simp [hretry]
  · simp
  · simpa using hretried
  · exact fun _ _ => .inl rfl

/-- A row joins whose answer was hidden, with the row that says so. -/
theorem joins_dropped {log : List Attempt} {row event : Attempt} {status : Nat}
    (hfresh : ∀ old ∈ log, old.id < row.id) (hstatus : row.droppedStatus = some status)
    (hretry : row.retryOf = none) (hretried : row.retriedBy = none) (hchaos : event.chaos = none)
    (hfile : DropOnFile [event] row status) : Joins log id [row, event] := by
  have hnone : event.droppedStatus = none ∧ event.retryOf = none ∧ event.retriedBy = none := by
    simp [Attempt.droppedStatus, Attempt.retryOf, Attempt.retriedBy, hchaos]
  obtain ⟨event', hevent, hid, hnotes⟩ := hfile.event
  obtain rfl := List.mem_singleton.mp hevent
  have hall : ∀ {P : Attempt → Prop}, P row → P event' → ∀ a ∈ [row, event'], P a := by
    simp +contextual
  refine ⟨hall hfresh fun old hold => ?_, hall (fun status' h => ?_) (by simp [hnone]),
    hall (by simp [hretry]) (by simp [hnone]), ?_, hall hretried hnone.2.2,
    fun _ _ => .inl rfl⟩
  · have := hfresh old hold
    omega
  · obtain rfl := Option.some.inj (hstatus.symm.trans h)
    exact { hfile with event := ⟨event', by simp, hid, hnotes⟩ }
  · exact hall (by simp [hretry]) (by simp [hnone])

/-- The retry of an attempt joins, with the row that says so, and the attempt is told of it. -/
theorem joins_retry {log : List Attempt} {first retry event : Attempt} {f : Attempt → Attempt}
    (hids : ∀ a ∈ log, ∀ b ∈ log, a.id = b.id → a = b) (hfirst : first ∈ log)
    (hfresh : ∀ old ∈ log, old.id < retry.id) (hof : retry.retryOf = some first.id)
    (hdropped : retry.droppedStatus = none) (hretried : retry.retriedBy = none)
    (hevent : event.id = retry.id + 1) (hchaos : event.chaos = none)
    (hfile : RetryOnFile (log.map f ++ [retry, event]) retry first.id)
    (hnever : ∀ old ∈ log, old.retryOf ≠ some first.id) (hf : ∀ row ∈ log, row.Keeps (f row))
    (htold : (f first).retriedBy = retryTold retry first.id)
    (hothers : ∀ row ∈ log, row.id ≠ first.id → (f row).retriedBy = row.retriedBy) :
    Joins log f [retry, event] := by
  have hnone : event.droppedStatus = none ∧ event.retryOf = none ∧ event.retriedBy = none := by
    simp [Attempt.droppedStatus, Attempt.retryOf, Attempt.retriedBy, hchaos]
  have hall : ∀ {P : Attempt → Prop}, P retry → P event → ∀ a ∈ [retry, event], P a := by
    simp +contextual
  refine ⟨hall hfresh fun old hold => ?_, hall (by simp [hdropped]) (by simp [hnone]),
    hall (fun k hk => ?_) (by simp [hnone]), ?_, hall hretried hnone.2.2, fun row hrow => ?_⟩
  · have := hfresh old hold
    omega
  · obtain rfl := Option.some.inj (hof.symm.trans hk)
    refine ⟨hfile, hnever, fun lost hlost hid => ?_⟩
    have hlt := hfresh first hfirst
    rcases List.mem_append.mp hlost with hlost | hlost
    · obtain ⟨old, hold, rfl⟩ := List.mem_map.mp hlost
      rw [(hf old hold).id] at hid
      rw [hids old hold first hfirst hid]
      exact htold
    · rcases List.mem_cons.mp hlost with rfl | hlost
      · omega
      · rw [List.mem_singleton.mp hlost] at hid
        omega
  · exact hall (hall (fun _ _ => rfl) (by simp [hnone])) (by simp [hnone])
  · by_cases hid : row.id = first.id
    · rw [hids row hrow first hfirst hid]
      refine .inr ⟨hnever, fun r hr => ⟨retry, List.mem_cons_self, ?_, hof⟩⟩
      rw [htold, retryTold] at hr
      exact (Option.ite_none_right_eq_some.mp hr).2 |> Option.some.inj
    · exact .inl (hothers row hrow hid)

/-- The entries agree once a row of the engine is recorded. -/
theorem Entries.record (h : Entries s) (attempt : Attempt) (hchaos : attempt.chaos = none)
    (hkey : attempt.idempotencyKey = none) : Entries (s.record attempt) := by
  have hfresh : ∀ old ∈ s.log, old.id < s.store.nextId := fun _ hold => h.holds.id_lt hold
  have hjoins : Joins s.log id [{ attempt with id := s.store.nextId }] :=
    joins_plain hfresh (by simp [Attempt.droppedStatus, hchaos])
      (by simp [Attempt.retryOf, hchaos]) (by simp [Attempt.retriedBy, hchaos])
  have hrows := h.rows.follow (f := id) (fun row _ => .refl row) hjoins
  have hcalls := h.calls.follow (f := id) [{ attempt with id := s.store.nextId }]
    (fun row _ => .refl row) (by simpa using hfresh)
    (by simp [Attempt.retryOf, hchaos, hkey])
  rw [List.map_id] at hrows hcalls
  refine ⟨h.holds.record attempt, hrows, hcalls, h.delays, ?_, ?_⟩
  · show s.counters.drops = (s.log ++ [{ attempt with id := s.store.nextId }]).countP _
    rw [List.countP_append, ← h.drops]
    simp [Attempt.droppedStatus, hchaos]
  · show s.counters.retries = (s.log ++ [{ attempt with id := s.store.nextId }]).countP _
    rw [List.countP_append, ← h.retries]
    simp [Attempt.retryOf, hchaos]

/-- The engine records its rows. -/
theorem Entries.recordAll (h : Entries s) (json : EventBody → Body) (events : List ChaosEvent) :
    let s' := (events.map (ChaosEvent.row json)).foldl GatewayWorld.record s
    Entries s' ∧ s'.log.length = s.log.length + events.length ∧ s'.calls = s.calls ∧
      s'.pause = s.pause := by
  induction events generalizing s with
  | nil => exact ⟨h, rfl, rfl, rfl⟩
  | cons event events ih =>
    obtain ⟨hentries, hlength, hcalls, hpause⟩ := ih (h.record (event.row json) rfl rfl)
    refine ⟨hentries, hlength.trans ?_, hcalls, hpause⟩
    simp only [GatewayWorld.record, List.length_append, List.length_cons, List.length_nil]
    omega

end Plain

namespace Books

variable {json : EventBody → Body} {s : GatewayWorld}

/-- The engine moves. -/
theorem moved (h : Books s) {pause : PauseWorld} (hlogged : s.pause.service.Logged pause.service) :
    Books (s.engine json pause) := by
  have hentries : Entries { s with pause := pause } :=
    ⟨h.holds, h.rows, h.calls, by
        rw [← h.delays]
        exact congrArg Int.ofNat hlogged.delays,
      hlogged.drops.trans h.drops, hlogged.retries.trans h.retries⟩
  obtain ⟨new, hnew⟩ := hlogged.events
  obtain ⟨hall, hlength, hcalls, hpause⟩ := hentries.recordAll json
    (pause.service.events.drop s.pause.service.events.length)
  have hlength : (s.engine json pause).log.length = s.log.length +
      (pause.service.events.drop s.pause.service.events.length).length := hlength
  have hcalls : (s.engine json pause).calls = s.calls := hcalls
  have hpause : (s.engine json pause).pause = pause := hpause
  refine ⟨hall, ?_⟩
  have hold := h.length
  simp only [GatewayWorld.counters] at hold ⊢
  rw [hlength, hcalls, hpause, hlogged.drops, hlogged.retries, hnew, List.drop_left,
    List.length_append]
  push_cast
  omega

/-- A client annotates the row of a call that is over. -/
theorem annotated (h : Books s) {j : Nat} {c : Send} {result : GatewayResult} {details : Details}
    (hj : s.calls[j]? = some c) (hstage : c.stage = .returned result)
    (hdetails : details.chaos = none) : Books (s.annotate result.attemptId details.write) := by
  obtain ⟨came, -, first, hfirst, hrow⟩ :=
    (h.calls.filed c (List.mem_of_getElem? hj)).first result (by rw [hstage]; rfl)
  let f : Attempt → Attempt := fun row => if row.id = result.attemptId ∧
    s.log.length < result.attemptId + ATTEMPTS_CAPACITY then details.write row else row
  have hchaos : ∀ row, (details.write row).chaos = row.chaos := fun row => by
    show details.chaos.or row.chaos = row.chaos
    rw [hdetails, Option.none_or]
  have hkeeps : ∀ row ∈ s.log, row.Keeps (f row) := fun row hmem => by
    by_cases hcond : row.id = result.attemptId ∧
        s.log.length < result.attemptId + ATTEMPTS_CAPACITY
    · simp only [f, if_pos hcond]
      -- the row of a call is no retry
      obtain rfl := h.holds.eq_of_id hmem hfirst (hcond.1.trans hrow.id.symm)
      refine ⟨rfl, rfl, rfl, rfl, rfl, rfl, rfl, rfl, ?_, ?_, ?_, fun hretry => ?_⟩
      · rw [Attempt.delayedMs, hchaos, Attempt.delayedMs]
      · rw [Attempt.droppedStatus, hchaos, Attempt.droppedStatus]
      · rw [Attempt.retryOf, hchaos, Attempt.retryOf]
      · rw [hrow.retryOf] at hretry
        cases hretry
    · simp only [f, if_neg hcond]
      exact .refl row
  have hretried : ∀ row, (f row).retriedBy = row.retriedBy := fun row => by
    simp only [f]
    split
    · rw [Attempt.retriedBy, hchaos, Attempt.retriedBy]
    · rfl
  have hjoins : Joins s.log f [] :=
    ⟨by simp, by simp, by simp, by simp, by simp, fun row _ => .inl (hretried row)⟩
  have hrows := h.rows.follow hkeeps hjoins
  have hcalls := h.calls.follow [] hkeeps (by simp) (by simp)
  rw [List.append_nil] at hrows hcalls
  have hcount : ∀ p : Attempt → Bool, (∀ row ∈ s.log, p (f row) = p row) →
      s.log.countP p = (s.log.map f).countP p := fun p hp => by
    rw [List.countP_map]
    exact List.countP_congr fun row hmem => by rw [Function.comp_apply, hp row hmem]
  refine ⟨⟨h.holds.annotated _ _ fun _ => rfl, hrows, hcalls, h.delays, ?_, ?_⟩, ?_⟩
  · exact h.drops.trans (hcount _ fun row hmem => by rw [(hkeeps row hmem).droppedStatus])
  · exact h.retries.trans (hcount _ fun row hmem => by rw [(hkeeps row hmem).retryOf])
  · show ((AttemptsStore.annotated s.log _ _).length : Int) = _
    rw [AttemptsStore.length_annotated]
    exact h.length

end Books

section Recorded

variable {s : GatewayWorld} {c : Send} {sentAt : Int} {came : Came} {drop : Roll}

/-- What `recorded` leaves: the row of the call, and what joins the log with it. -/
structure CallRecorded (s : GatewayWorld) (c : Send) (came : Came) (s' : GatewayWorld)
    (lost : GatewayResult) (mark : ChaosMark) (row : Attempt) (events : List Attempt) : Prop where
  attemptId : lost.attemptId = s.store.nextId
  log : s'.log = s.log ++ row :: events
  holds : s'.store.Holds s'.log
  calls : s'.calls = s.calls
  engine : s'.pause.service.events = s.pause.service.events
  joins : Joins s.log id (row :: events)
  first : FirstRow c lost came row
  marked : row.delayedMs = mark.delayedMs ∧ row.droppedStatus = mark.droppedStatus ∧
    mark.retryOf = none
  beside : ∀ event ∈ events, row.id < event.id ∧ event.chaos = none ∧ event.idempotencyKey = none
  delays : s'.counters.delays = s.counters.delays
  drops : s'.counters.drops = s.counters.drops + if row.droppedStatus.isSome then 1 else 0
  retries : s'.counters.retries = s.counters.retries
  length : events.length = if row.droppedStatus.isSome then 1 else 0

/-- **What is recorded of a call.** -/
theorem callRecorded (h : Entries s) (c : Send) (sentAt : Int) (came : Came) (drop : Roll) :
    ∃ row events, CallRecorded s c came (s.recorded c sentAt came drop).1
      (s.recorded c sentAt came drop).2.1 (s.recorded c sentAt came drop).2.2 row events := by
  have hfresh : ∀ old ∈ s.log, old.id < s.store.nextId := fun _ hold => h.holds.id_lt hold
  unfold GatewayWorld.recorded
  by_cases hdrop : s.Drops c came drop
  · rw [if_pos hdrop]
    let attempt : Attempt := { c.call sentAt s.pause.clock came.answer with
      latencyMs := (c.call sentAt s.pause.clock came.answer).latencyMs + c.delayedMs
      status := Answer.hidden.status
      ok := Answer.hidden.ok
      body := Answer.hidden.body }
    let mark : ChaosMark := { c.mark with droppedStatus := some came.answer.status }
    let row : Attempt := { marked attempt mark with id := s.store.nextId }
    let event : Attempt := { droppedResponse s.store.nextId came.answer.status s.pause.clock with
      id := s.store.nextId + 1 }
    obtain ⟨hdelayed, hdropped, hretry, hretried⟩ := marked_chaos attempt mark rfl
    obtain ⟨hmethod, hpath, hstatus, -, hsent, hbody, hkey⟩ := marked_rest attempt mark
    have hfile : DropOnFile [event] row came.answer.status :=
      { came := hdrop.1
        lost := hstatus
        body := hbody
        placement := by
          show isOrderPlacement (marked attempt mark).method (marked attempt mark).path = true
          rw [hmethod, hpath]
          exact hdrop.2.1
        event := ⟨event, List.mem_singleton_self _, rfl, rfl, rfl, rfl⟩ }
    have hsome : row.droppedStatus = some came.answer.status := hdropped
    refine ⟨row, [event], rfl, ?_, ?_, rfl, rfl,
      joins_dropped hfresh hdropped hretry hretried rfl hfile, ?_, ⟨hdelayed, hdropped, rfl⟩, ?_,
      rfl, ?_, rfl, ?_⟩
    · exact List.append_assoc s.log [row] [event]
    · exact (h.holds.record _).record _
    · refine ⟨rfl, hmethod, hpath, hsent, hkey, hstatus, hretry, hdelayed, ?_, fun hnone => ?_⟩
      · rw [hsome]
        rfl
      · rw [hsome] at hnone
        cases hnone
    · simp [event, droppedResponse, chaosEvent, row]
    · rw [hsome]
      rfl
    · rw [hsome]
      rfl
  · rw [if_neg hdrop]
    let attempt : Attempt := { c.call sentAt s.pause.clock came.answer with
      latencyMs := (c.call sentAt s.pause.clock came.answer).latencyMs + c.delayedMs }
    let row : Attempt := { marked attempt c.mark with id := s.store.nextId }
    obtain ⟨hdelayed, hdropped, hretry, hretried⟩ := marked_chaos attempt c.mark rfl
    obtain ⟨hmethod, hpath, hstatus, hok, hsent, hbody, hkey⟩ := marked_rest attempt c.mark
    have hnone : row.droppedStatus = none := hdropped
    refine ⟨row, [], rfl, rfl, h.holds.record _, rfl, rfl,
      joins_plain hfresh hdropped hretry hretried, ?_, ⟨hdelayed, hdropped, rfl⟩, by simp, rfl,
      ?_, rfl, ?_⟩
    · refine ⟨rfl, hmethod, hpath, hsent, hkey, hstatus, hretry, hdelayed, ?_, fun _ => ?_⟩
      · rw [hnone]
        exact hstatus
      · exact ⟨hbody, hok⟩
    · rw [hnone]
      rfl
    · rw [hnone]
      rfl

end Recorded

namespace Books

variable {s : GatewayWorld} {j : Nat} {c : Send}

/-- A call is through, and was lost or not. -/
theorem answered (h : Books s) (hj : s.calls[j]? = some c) {sentAt : Int}
    (hstage : c.stage = .out sentAt) (came : Came) (drop retry : Roll) :
    Books (s.answered j c sentAt came drop retry) := by
  obtain ⟨row, events, hr⟩ := callRecorded h.toEntries c sentAt came drop
  unfold GatewayWorld.answered
  generalize s.recorded c sentAt came drop = recorded at hr ⊢
  obtain ⟨s', lost, mark⟩ := recorded
  dsimp only at hr ⊢
  generalize hnext : (if lost.answer.status = 0 ∧ c.isPlacement ∧
    (s.modes .client_retry).rolls retry then SendStage.retrying lost mark s.pause.clock
    else .returned lost) = stage
  have hresult : stage.result = some lost := by
    rw [← hnext]
    split <;> rfl
  have hopen : c.attemptId = none := by rw [Send.attemptId, hstage]; rfl
  have hc := h.calls.filed c (List.mem_of_getElem? hj)
  have hfresh := hr.joins.fresh
  have hlog : s'.log = s.log.map id ++ row :: events := by rw [List.map_id, hr.log]
  have hfirst : FirstRow { c with stage := stage, came := some came } lost came row :=
    { hr.first with }
  have hfiled : Send.OnFile s'.log { c with stage := stage, came := some came } := by
    refine ⟨hc.key, fun hnone => ?_, fun result hres => ?_, fun lost' mark' at' hretrying => ?_⟩
    · rw [hresult] at hnone
      cases hnone
    · obtain rfl := Option.some.inj (hresult.symm.trans hres)
      exact ⟨came, rfl, row, by rw [hr.log]; simp, hfirst⟩
    · have hretrying : stage = .retrying lost' mark' at' := hretrying
      rw [← hnext] at hretrying
      split at hretrying <;> cases hretrying
      rename_i hcond
      refine ⟨hcond.1, hcond.2.1, hr.marked.2.2, fun row' hrow' hid => ?_⟩
      rw [hr.log] at hrow'
      -- the rows before it are older, and those beside it newer
      rcases List.mem_append.mp hrow' with hold | hnew
      · have hlt := hfresh row List.mem_cons_self row' hold
        rw [hid, hr.first.id] at hlt
        exact absurd hlt (lt_irrefl _)
      · rcases List.mem_cons.mp hnew with rfl | hevent
        · exact ⟨hr.marked.1, hr.marked.2.1⟩
        · have hlt := (hr.beside row' hevent).1
          rw [hid, hr.first.id] at hlt
          exact absurd hlt (lt_irrefl _)
  have hrows := h.rows.follow (f := id) (fun row _ => .refl row) hr.joins
  have hcalls := h.calls.moveOn (f := id) (row :: events)
    { c with stage := stage, came := some came } (fun row _ => .refl row) hfresh hj
    (fun result => by rw [hstage]; nofun) rfl (hlog ▸ hfiled)
    (.inr ⟨hopen, lost.attemptId, by rw [Send.attemptId, hresult]; rfl, fun old hold => by
      rw [← hr.first.id]
      exact hfresh row List.mem_cons_self old hold⟩)
    (fun row' hrow' k hk => by
      rcases List.mem_cons.mp hrow' with rfl | hevent
      · rw [hr.first.retryOf] at hk
        cases hk
      · rw [Attempt.retryOf, (hr.beside row' hevent).2.1] at hk
        cases hk)
    (fun row' hrow' hkey => by
      rcases List.mem_cons.mp hrow' with rfl | hevent
      · exact ⟨lost.attemptId, by rw [Send.attemptId, hresult]; rfl, .inl hr.first.id⟩
      · rw [(hr.beside row' hevent).2.2] at hkey
        cases hkey)
  rw [← hlog] at hrows hcalls
  have hevents : ∀ p : Attempt → Bool, (∀ event : Attempt, event.chaos = none → p event = false) →
      events.countP p = 0 := fun p hp =>
    List.countP_eq_zero.mpr fun event hevent => by
      rw [hp event (hr.beside event hevent).2.1]
      exact Bool.false_ne_true
  refine ⟨⟨hr.holds, hrows, ?_, ?_, ?_, ?_⟩, ?_⟩
  · show CallsAgree (s'.calls.set j _) s'.log
    rw [hr.calls]
    exact hcalls
  · show (s'.counters.delays : Int) = tally Send.heldBack (s'.calls.set j _)
    rw [hr.calls, hr.delays, h.delays]
    exact (tally_set_of_eq (f := Send.heldBack)
      (y := { c with stage := stage, came := some came }) hj rfl).symm
  · show s'.counters.drops = s'.log.countP _
    rw [hr.drops, hr.log, List.countP_append, List.countP_cons, ← h.drops,
      hevents _ fun event hnone => by rw [Attempt.droppedStatus, hnone]; rfl]
    omega
  · show s'.counters.retries = s'.log.countP _
    rw [hr.retries, hr.log, List.countP_append, List.countP_cons, ← h.retries,
      hevents _ fun event hnone => by rw [Attempt.retryOf, hnone]; rfl, hr.first.retryOf]
    rfl
  · show (s'.log.length : Int) = s'.pause.service.events.length + s'.counters.drops +
      2 * s'.counters.retries + tally Send.onRecord (s'.calls.set j _)
    have hold := h.length
    rw [hr.calls, tally_set hj, Send.onRecord_of_none (by rw [hstage]; rfl),
      Send.onRecord_of_some lost hresult, hr.engine, hr.drops, hr.retries, hr.log,
      List.length_append, List.length_cons, hr.length]
    push_cast
    omega

/-- A retry is through. -/
theorem probed (h : Books s) (hj : s.calls[j]? = some c) {lost : GatewayResult}
    {mark : ChaosMark} {sentAt : Int} (hstage : c.stage = .retrying lost mark sentAt)
    (came : Came) : Books (s.probed j c lost mark sentAt came) := by
  have hmem := List.mem_of_getElem? hj
  have hc := h.calls.filed c hmem
  obtain ⟨came₀, hcame₀, first, hfirst, hrow⟩ := hc.first lost (by rw [hstage]; rfl)
  obtain ⟨hstatus, hplace, hmark, hsame⟩ := hc.retrying lost mark sentAt hstage
  obtain ⟨hdelayed, hdropped⟩ := hsame first hfirst hrow.id
  have hid : c.attemptId = some lost.attemptId := by rw [Send.attemptId, hstage]; rfl
  have hfresh : ∀ old ∈ s.log, old.id < s.store.nextId := fun _ hold => h.holds.id_lt hold
  -- nobody has sent it again before
  have hnever : ∀ old ∈ s.log, old.retryOf ≠ some lost.attemptId := fun old hold hof => by
    obtain ⟨b, hb, result, hreturned, hbid⟩ := h.calls.retried old hold _ hof
    have hbc : b.attemptId = some lost.attemptId := by
      rw [Send.attemptId, hreturned]
      exact congrArg some hbid
    rw [eq_of_filterMap_nodup h.calls.ids hb hmem hbc hid, hstage] at hreturned
    cases hreturned
  have huntold : first.retriedBy = none := by
    cases hby : first.retriedBy with
    | none => rfl
    | some r =>
      obtain ⟨old, hold, -, hof⟩ := h.rows.retriedBy first hfirst r hby
      exact absurd (hrow.id ▸ hof) (hnever old hold)
  have hnewer : lost.attemptId ≠ s.store.nextId := fun heq => by
    have hlt := hfresh first hfirst
    rw [hrow.id, heq] at hlt
    exact absurd hlt (lt_irrefl _)
  let retry : Attempt := { c.call sentAt s.pause.clock came.answer with
    id := s.store.nextId
    orderId := came.answer.orderId
    chaos := some ⟨none, none, some lost.attemptId, none⟩ }
  let event : Attempt := { retriedOrder lost.attemptId c.sent
    ⟨s.store.nextId, came.answer.status, came.answer.orderId⟩ s.pause.clock with
      id := s.store.nextId + 1 }
  let write : Attempt → Attempt := fun row =>
    { row with chaos := some { mark with retriedBy := some s.store.nextId } }
  let f : Attempt → Attempt := fun row => if row.id = lost.attemptId ∧
    s.log.length + 1 < lost.attemptId + ATTEMPTS_CAPACITY then write row else row
  have hlog : (s.probed j c lost mark sentAt came).log = s.log.map f ++ [retry, event] := by
    show AttemptsStore.annotated (s.log ++ [retry]) lost.attemptId write ++ [event] = _
    rw [AttemptsStore.annotated, List.map_append, List.length_append, List.length_singleton,
      List.append_assoc]
    congr 1
    show [if s.store.nextId = lost.attemptId ∧ _ then write retry else retry] ++ [event] = _
    rw [if_neg fun hcond => hnewer hcond.1.symm]
    rfl
  have hkeeps : ∀ row ∈ s.log, row.Keeps (f row) := fun row hmem' => by
    by_cases hcond : row.id = lost.attemptId ∧
        s.log.length + 1 < lost.attemptId + ATTEMPTS_CAPACITY
    · simp only [f, if_pos hcond]
      obtain rfl := h.holds.eq_of_id hmem' hfirst (hcond.1.trans hrow.id.symm)
      exact ⟨rfl, rfl, rfl, rfl, rfl, rfl, rfl, rfl, hdelayed.symm, hdropped.symm,
        hmark.trans hrow.retryOf.symm, fun _ => rfl⟩
    · simp only [f, if_neg hcond]
      exact .refl row
  have hnext : s.store.nextId = s.log.length + 1 := h.holds.nextId
  have htold : (f first).retriedBy = retryTold retry first.id := by
    simp only [f, retryTold, hrow.id, true_and, show retry.id = s.log.length + 1 from hnext]
    split
    · exact congrArg some hnext
    · exact huntold
  have hothers : ∀ row ∈ s.log, row.id ≠ first.id → (f row).retriedBy = row.retriedBy :=
    fun row _ hne => by
      have hcond : ¬(row.id = lost.attemptId ∧
          s.log.length + 1 < lost.attemptId + ATTEMPTS_CAPACITY) :=
        fun hcond => hne (hcond.1.trans hrow.id.symm)
      simp only [f, if_neg hcond]
  clear_value f
  have hfile : RetryOnFile (s.log.map f ++ [retry, event]) retry first.id :=
    { after := hfresh first hfirst
      key := hc.key.trans hplace
      lost := by
        have hkeep := hkeeps first hfirst
        refine ⟨f first, List.mem_append_left _ (List.mem_map_of_mem hfirst), hkeep.id,
          hkeep.status.trans (hrow.told.trans hstatus), hkeep.retryOf.trans hrow.retryOf, ?_,
          (hkeep.method.trans hrow.method).symm, (hkeep.path.trans hrow.path).symm,
          (hkeep.sent.trans hrow.sent).symm, (hkeep.key.trans hrow.key).symm⟩
        rw [hkeep.method, hkeep.path, hrow.method, hrow.path]
        exact hplace
      event := ⟨event, by simp, rfl, rfl, rfl, by rw [hrow.id]; rfl⟩ }
  have hjoins := joins_retry (fun a ha b hb => h.holds.eq_of_id ha hb) hfirst
    (show ∀ old ∈ s.log, old.id < retry.id from hfresh)
    (show retry.retryOf = some first.id from congrArg some hrow.id.symm) rfl rfl
    (show event.id = retry.id + 1 from rfl) rfl hfile (hrow.id ▸ hnever) hkeeps htold hothers
  have hrows := h.rows.follow hkeeps hjoins
  have hfiled : Send.OnFile (s.log.map f ++ [retry, event]) { c with stage := .returned lost } :=
    { key := hc.key
      unanswered := fun hnone => by cases hnone
      first := fun result hresult => by
        obtain rfl : lost = result := Option.some.inj hresult
        exact ⟨came₀, hcame₀, f first, List.mem_append_left _ (List.mem_map_of_mem hfirst),
          ({ hrow with } : FirstRow { c with stage := .returned lost } lost came₀ first).keeps
            (hkeeps first hfirst)⟩
      retrying := fun _ _ _ hretrying => by cases hretrying }
  have hcalls := h.calls.moveOn [retry, event] { c with stage := .returned lost } hkeeps
    hjoins.fresh hj (fun result => by rw [hstage]; nofun) rfl hfiled (.inl hid.symm)
    (by
      simp only [List.mem_cons, List.not_mem_nil, or_false, forall_eq_or_imp, forall_eq]
      exact ⟨fun k hk => ⟨lost, rfl, Option.some.inj hk⟩, nofun⟩)
    (by
      simp only [List.mem_cons, List.not_mem_nil, or_false, forall_eq_or_imp, forall_eq]
      exact ⟨fun _ => ⟨lost.attemptId, rfl, .inr rfl⟩, nofun⟩)
  rw [← hlog] at hrows hcalls
  have hcount : ∀ p : Attempt → Bool, (∀ row ∈ s.log, p (f row) = p row) →
      (s.log.map f).countP p = s.log.countP p := fun p hp => by
    rw [List.countP_map]
    exact List.countP_congr fun row hrow' => by rw [Function.comp_apply, hp row hrow']
  refine ⟨⟨?_, hrows, hcalls, ?_, ?_, ?_⟩, ?_⟩
  · exact ((h.holds.record retry).annotated lost.attemptId write fun _ => rfl).record event
  · exact h.delays.trans (tally_set_of_eq (f := Send.heldBack)
      (y := { c with stage := .returned lost }) hj rfl).symm
  · rw [hlog, List.countP_append,
      hcount _ fun row hrow' => by rw [(hkeeps row hrow').droppedStatus]]
    exact h.drops
  · rw [hlog, List.countP_append, hcount _ fun row hrow' => by rw [(hkeeps row hrow').retryOf]]
    exact congrArg (· + 1) h.retries
  · have hold := h.length
    have hsame : Send.onRecord { c with stage := .returned lost } = Send.onRecord c := by
      rw [Send.onRecord_of_some lost rfl,
        Send.onRecord_of_some lost (by rw [hstage]; rfl)]
    have htally := tally_set_of_eq (f := Send.onRecord) (y := { c with stage := .returned lost }) hj
      hsame
    show ((s.probed j c lost mark sentAt came).log.length : Int) =
      s.pause.service.events.length + s.counters.drops +
        2 * ((s.counters.retries + 1 : Nat) : Int) +
        tally Send.onRecord (s.calls.set j { c with stage := .returned lost })
    rw [hlog, htally, List.length_append, List.length_map, List.length_cons,
      List.length_singleton]
    push_cast
    omega

end Books

/-! ### Runs -/

section Runs

variable {json : EventBody → Body} {s s' : GatewayWorld}

/-- The engine has one cycle of a pause at most, and the books agree. -/
structure InOrder (s : GatewayWorld) : Prop extends Books s where
  marked : s.pause.Marked

/-- What is recorded does not touch the cycles. -/
theorem cycles_recorded (s : GatewayWorld) (c : Send) (sentAt : Int) (came : Came) (drop : Roll) :
    ∃ service, (s.recorded c sentAt came drop).1.pause = { s.pause with service := service } ∧
      service.pausedUntil = s.pause.service.pausedUntil := by
  unfold GatewayWorld.recorded
  dsimp only
  split
  · exact ⟨_, rfl, rfl⟩
  · exact ⟨_, rfl, rfl⟩

/-- The cycles are marked whatever else the engine does. -/
theorem PauseWorld.Marked.withService {pause : PauseWorld} (h : pause.Marked)
    {service : ChaosService} (hmark : service.pausedUntil = pause.service.pausedUntil) :
    PauseWorld.Marked { pause with service := service } :=
  ⟨h.one, fun c hc => hmark ▸ h.marked c hc, h.down⟩

/-- The engine is where it moved to. -/
theorem pause_engine (json : EventBody → Body) (s : GatewayWorld) (pause : PauseWorld) :
    (s.engine json pause).pause = pause := by
  have hall : ∀ (rows : List Attempt) (t : GatewayWorld),
      (rows.foldl GatewayWorld.record t).pause = t.pause := by
    intro rows
    induction rows with
    | nil => exact fun _ => rfl
    | cons row rows ih => exact fun t => ih (t.record row)
  exact hall _ _

/-- **Every step keeps the books in order.** -/
theorem InOrder.step (h : InOrder s) {e : GatewayEvent}
    (hstep : (gatewayMachine json).step s e = some s') : InOrder s' := by
  cases GatewayWorld.took_of_step hstep with
  | @begun method path sent key delay hkey =>
    refine ⟨h.toBooks.begun hkey, ?_⟩
    unfold GatewayWorld.begun
    dsimp only
    split
    · exact h.marked.withService rfl
    · exact h.marked
  | posted hj hstage => exact ⟨h.toBooks.posted hj hstage _, h.marked⟩
  | @answered j c sentAt came drop retry hj hstage =>
    refine ⟨h.toBooks.answered hj hstage came drop retry, ?_⟩
    obtain ⟨service, hpause, hmark⟩ := cycles_recorded s c sentAt came drop
    show PauseWorld.Marked (s.recorded c sentAt came drop).1.pause
    rw [hpause]
    exact h.marked.withService hmark
  | @probed j c lost mark sentAt came hj hstage =>
    exact ⟨h.toBooks.probed hj hstage came, h.marked.withService rfl⟩
  | @moved e pause hpause =>
    refine ⟨h.toBooks.moved (PauseWorld.logged_step h.marked.one hpause), ?_⟩
    rw [pause_engine]
    exact h.marked.step hpause
  | annotated hj hstage hdetails => exact ⟨h.toBooks.annotated hj hstage hdetails, h.marked⟩

theorem inOrder_run {now : Int} {es : List GatewayEvent}
    (hrun : (gatewayMachine json).run (.initial now) es = some s) : InOrder s :=
  (gatewayMachine json).invariant_run (I := InOrder) (fun h => h.step)
    ⟨books_initial now, PauseWorld.marked_initial now⟩ hrun

/-- Two rows under one key are a call and its retry. -/
theorem Books.keys (h : Books s) {a b : Attempt} (ha : a ∈ s.log) (hb : b ∈ s.log) {key : String}
    (hka : a.idempotencyKey = some key) (hkb : b.idempotencyKey = some key) (hlt : a.id < b.id) :
    b.retryOf = some a.id := by
  -- a row with a key has that of the call it is of
  have hcall : ∀ row ∈ s.log, row.idempotencyKey = some key → ∃ c ∈ s.calls, c.key = some key ∧
      ∃ id, c.attemptId = some id ∧ (row.id = id ∨ row.retryOf = some id) := by
    intro row hrow hkey
    obtain ⟨c, hc, id, hid, hof⟩ := h.calls.origin row hrow (by rw [hkey]; rfl)
    obtain ⟨result, hresult, rfl⟩ := Option.map_eq_some_iff.mp hid
    obtain ⟨came, -, first, hfirst, hrowOf⟩ := (h.calls.filed c hc).first result hresult
    refine ⟨c, hc, ?_, result.attemptId, hid, hof⟩
    rcases hof with hsame | hretry
    · rw [← hrowOf.key, ← h.holds.eq_of_id hrow hfirst (hsame.trans hrowOf.id.symm), hkey]
    · obtain ⟨lost, hlost, hlostId, -, -, -, -, -, -, hlostKey⟩ :=
        (h.rows.retried row hrow _ hretry).lost
      rw [← hrowOf.key, ← h.holds.eq_of_id hlost hfirst (hlostId.trans hrowOf.id.symm), ← hlostKey,
        hkey]
  obtain ⟨c, hc, hck, id, hid, hofa⟩ := hcall a ha hka
  obtain ⟨c', hc', hck', id', hid', hofb⟩ := hcall b hb hkb
  obtain rfl := eq_of_filterMap_nodup h.calls.keys hc hc' hck hck'
  obtain rfl := Option.some.inj (hid.symm.trans hid')
  rcases hofb with hsame | hretryb
  · exfalso
    rcases hofa with hsame' | hretrya
    · omega
    · have := (h.rows.retried a ha id hretrya).after
      omega
  · rcases hofa with rfl | hretrya
    · exact hretryb
    · rw [h.rows.once a ha b hb id hretrya hretryb] at hlt
      exact absurd hlt (lt_irrefl _)

/-- **The books agree in every state a run reaches.**  Whatever is sent, answered, lost, retried and
    configured, in any order: the counters are those of the rows; a hidden answer and a retry are on
    file, each with the row that says so; an attempt and its retry name each other; the row of a
    call says what the target had answered; and two rows under one key are a call and its retry. -/
theorem books_run {now : Int} {es : List GatewayEvent}
    (hrun : (gatewayMachine json).run (.initial now) es = some s) : Books s ∧
      ∀ a ∈ s.log, ∀ b ∈ s.log, ∀ key, a.idempotencyKey = some key →
        b.idempotencyKey = some key → a.id < b.id → b.retryOf = some a.id :=
  have h := (inOrder_run hrun).toBooks
  ⟨h, fun _ ha _ hb _ hka hkb hlt => h.keys ha hb hka hkb hlt⟩

/-- A die that always hits, and no delay. -/
def lowest : Roll := Draw.zero

/-- The status of a placement that was stored. -/
def CREATED : {status : Nat // status ≠ 0} := ⟨201, Nat.succ_ne_zero 200⟩

/-- A placement whose answer is hidden and which is sent again, and a read beside it. -/
def hiddenAndRetried : List GatewayEvent :=
  [.engine (.configure ⟨.response_drop, some true, some 1⟩),
    .engine (.configure ⟨.client_retry, some true, none⟩),
    .send "POST" "/orders" none "k" lowest, .send "GET" "/portfolio/1" none "k2" lowest,
    .post 0, .post 1,
    .answer 0 (.response ⟨201, Nat.succ_ne_zero 200⟩ none (some 1) none) lowest lowest,
    .retryAnswer 0 (.response ⟨200, Nat.succ_ne_zero 199⟩ none (some 1) none),
    .answer 1 (.nothing "gone") lowest lowest]

/-- One answer was hidden, one placement sent again, and the books agree. -/
theorem books_run_hiddenAndRetried : ∃ s,
    (gatewayMachine fun _ => DROPPED).run (.initial 0) hiddenAndRetried = some s ∧
      s.counters.drops = 1 ∧ s.counters.retries = 1 ∧ Books s := by
  obtain ⟨s, hs, hdrops, hretries⟩ := (gatewayMachine fun _ => DROPPED).exists_run (.initial 0)
    hiddenAndRetried (P := fun s => s.counters.drops = 1 ∧ s.counters.retries = 1) (by decide)
  exact ⟨s, hs, hdrops, hretries, (books_run hs).1⟩

end Runs

end Cocos.Tools
