import Cocos.Lib.Machine
import Cocos.Tools.Backoffice
import Cocos.Tools.Gateway

namespace Cocos.Tools

open Cocos.Lib

/-!
# The sweeps of the back-office

Every ten seconds, and whenever a client looks, the back-office goes over the rows that were recorded
since, and asks the database about the placements whose answer never came.

* `Scans`, `Scans.judged_eq` — **what a scan hands to the rules is what is between the cursor and
  where it stops**, but for the chaos engine's own rows;
* `Office`, `office` — the recorder, the back-office and its sweep under way, which waits for the
  database at each placement and for the target at the end;
* `Unlost` — a row is only overwritten once it is scanned;
* `Judging`, `Reconciling` — what has been judged, what waits, and what has been reconciled;
* `judged_and_reconciled_once` — **each call is judged once and each loss is reconciled once**.
-/

/-! ### A scan -/

/-- The rows that a scan hands to the rules. -/
def handed (settled : Int) (scanned : Nat) : List Attempt → List Attempt
  | [] => []
  | attempt :: rest =>
    if attempt.id ≤ scanned then handed settled scanned rest
    else if attempt.sentAt + attempt.latencyMs > settled then []
    else if isChaosEvent attempt then handed settled attempt.id rest
    else attempt :: handed settled attempt.id rest

/-- A scan of some rows from one state leads to another, and hands these rows to the rules. -/
inductive Scans (settled : Int) : Backoffice → List Attempt → List Attempt → Backoffice → Prop
  | through (b : Backoffice) : Scans settled b [] [] b
  | seen {b b' : Backoffice} {attempt : Attempt} {rest judged : List Attempt}
    (h : attempt.id ≤ b.scanned) (hrest : Scans settled b rest judged b') :
    Scans settled b (attempt :: rest) judged b'
  | young {b : Backoffice} {attempt : Attempt} (rest : List Attempt) (h : b.scanned < attempt.id)
    (hyoung : settled < attempt.sentAt + attempt.latencyMs) :
    Scans settled b (attempt :: rest) [] b
  | chaos {b b' : Backoffice} {attempt : Attempt} {rest judged : List Attempt}
    (h : b.scanned < attempt.id) (hchaos : isChaosEvent attempt = true)
    (hrest : Scans settled { b with scanned := attempt.id } rest judged b') :
    Scans settled b (attempt :: rest) judged b'
  | judged {b b' : Backoffice} {attempt : Attempt} {rest judged : List Attempt}
    (h : b.scanned < attempt.id) (hchaos : isChaosEvent attempt = false)
    (hsettled : attempt.sentAt + attempt.latencyMs ≤ settled)
    (hrest : Scans settled (b.inspect attempt) rest judged b') :
    Scans settled b (attempt :: rest) (attempt :: judged) b'

theorem scans_scanRows (settled : Int) (b : Backoffice) (rows : List Attempt) :
    Scans settled b rows (handed settled b.scanned rows) (Backoffice.scanRows settled b rows) := by
  induction rows generalizing b with
  | nil => exact .through b
  | cons attempt rest ih =>
    unfold handed Backoffice.scanRows
    split_ifs with hseen hyoung hchaos
    · exact .seen hseen (ih b)
    · exact .young rest (not_le.mp hseen) hyoung
    · exact .chaos (not_le.mp hseen) hchaos (ih { b with scanned := attempt.id })
    · exact .judged (not_le.mp hseen) (Bool.eq_false_iff.mpr hchaos) (not_lt.mp hyoung)
        (ih (b.inspect attempt))

namespace Scans

variable {settled : Int} {b b' : Backoffice} {rows judged : List Attempt}

theorem context (h : Scans settled b rows judged b') : b'.context = b.context := by
  induction h with
  | through b => rfl
  | seen _ _ ih => exact ih
  | young _ _ _ => rfl
  | chaos _ _ _ ih => exact ih
  | judged _ _ _ _ ih => exact ih

/-- The rules find what they find in each of the rows. -/
theorem anomalies (h : Scans settled b rows judged b') : b'.anomalies = b.anomalies ++
    judged.flatMap fun row => (findings row b.context).map fun f => (row.id, f) := by
  induction h with
  | through b => simp
  | seen _ _ ih => exact ih
  | young _ _ _ => simp
  | chaos _ _ _ ih => exact ih
  | judged _ _ _ _ ih =>
    rw [ih, List.flatMap_cons, ← List.append_assoc]
    rfl

/-- Those that were lost wait to be reconciled. -/
theorem pending (h : Scans settled b rows judged b') : b'.pending = b.pending ++
    judged.filterMap fun row => (lostCandidate row).map fun lost => (row, lost) := by
  induction h with
  | through b => simp
  | seen _ _ ih => exact ih
  | young _ _ _ => simp
  | chaos _ _ _ ih => exact ih
  | @judged b b' attempt _ _ _ _ _ _ ih =>
    rw [ih]
    show b.pending ++ ((lostCandidate attempt).map fun lost => (attempt, lost)).toList ++ _ = _
    cases hlost : lostCandidate attempt with
    | none => simp [hlost]
    | some lost => simp [hlost]

/-- Each of them is old enough. -/
theorem old_enough (h : Scans settled b rows judged b') {row : Attempt} (hrow : row ∈ judged) :
    row.sentAt + row.latencyMs ≤ settled := by
  induction h with
  | through b => cases hrow
  | seen _ _ ih => exact ih hrow
  | young _ _ _ => cases hrow
  | chaos _ _ _ ih => exact ih hrow
  | judged _ _ hsettled _ ih =>
    rcases List.mem_cons.mp hrow with rfl | hrow
    · exact hsettled
    · exact ih hrow

theorem scanned_le (h : Scans settled b rows judged b') : b.scanned ≤ b'.scanned := by
  induction h with
  | through b => exact le_rfl
  | seen _ _ ih => exact ih
  | young _ _ _ => exact le_rfl
  | chaos hlater _ _ ih => exact hlater.le.trans ih
  | judged hlater _ _ _ ih => exact hlater.le.trans ih

/-- The cursor stops at a row. -/
theorem scanned_mem (h : Scans settled b rows judged b') :
    b'.scanned = b.scanned ∨ ∃ row ∈ rows, row.id = b'.scanned := by
  induction h with
  | through b => exact .inl rfl
  | seen _ _ ih =>
    exact ih.imp_right fun ⟨row, hrow, hid⟩ => ⟨row, List.mem_cons_of_mem _ hrow, hid⟩
  | young _ _ _ => exact .inl rfl
  | chaos _ _ _ ih | judged _ _ _ _ ih =>
    refine .inr ?_
    rcases ih with hsame | ⟨row, hrow, hid⟩
    · exact ⟨_, List.mem_cons_self, hsame.symm⟩
    · exact ⟨row, List.mem_cons_of_mem _ hrow, hid⟩

/-- **The rows that are judged are those between the old cursor and the new**, but for the
    chaos engine's own, in their order and with none left out. -/
theorem judged_eq (h : Scans settled b rows judged b')
    (hsorted : rows.Pairwise fun a b => a.id < b.id) :
    judged = rows.filter fun row =>
      !isChaosEvent row && (decide (b.scanned < row.id) && decide (row.id ≤ b'.scanned)) := by
  induction h with
  | through b => rfl
  | seen hseen _ ih =>
    rw [List.filter_cons_of_neg (by simp [hseen])]
    exact ih (List.pairwise_cons.mp hsorted).2
  | young rest _ _ =>
    symm
    rw [List.filter_eq_nil_iff]
    intro row _
    simp only [Bool.and_eq_true, decide_eq_true_eq]
    omega
  | @chaos b b' attempt rest judged hlater hchaos hrest ih =>
    obtain ⟨hfirst, hsorted⟩ := List.pairwise_cons.mp hsorted
    rw [List.filter_cons_of_neg (by simp [hchaos]), ih hsorted]
    refine List.filter_congr fun row hrow => ?_
    have hafter := hfirst row hrow
    simp [hafter, hlater.trans hafter]
  | @judged b b' attempt rest judged hlater hchaos hsettled hrest ih =>
    obtain ⟨hfirst, hsorted⟩ := List.pairwise_cons.mp hsorted
    have hle : attempt.id ≤ b'.scanned := hrest.scanned_le
    rw [List.filter_cons_of_pos (by simp [hchaos, hlater, hle]), ih hsorted]
    congr 1
    refine List.filter_congr fun row hrow => ?_
    have hafter := hfirst row hrow
    show (_ && (decide (attempt.id < row.id) && _)) = _
    simp [hafter, hlater.trans hafter]

end Scans

/-! ### The machine -/

/-- How far a sweep has got: nowhere, asking the database about the placements that are due, through
    with them, or comparing balances. -/
inductive SweepPhase
  | idle
  | reconciling (now : Int) (due : List (Attempt × LostPlacement)) (acknowledged : List Int)
  | reconciled
  | comparing (before : List ShadowUserSnapshot)

/-- With nothing left to ask about the sweep is through with it. -/
def SweepPhase.asking (now : Int) (due : List (Attempt × LostPlacement)) (acknowledged : List Int) :
    SweepPhase :=
  if due.isEmpty then .reconciled else .reconciling now due acknowledged

/-- A row as it was handed to the rules, what they were told, and the clock of the scan. -/
structure Judged where
  row : Attempt
  context : DetectorContext
  now : Int

/-- The recorder, the back-office, and its sweep under way.  The last three fields are read by
    nobody: the rows that were recorded, those that were handed to the rules, and those that were
    reconciled, each with the clock of its sweep. -/
structure Office where
  store : AttemptsStore
  backoffice : Backoffice
  phase : SweepPhase
  driftCheckedAt : Nat
  drifts : List Finding
  rows : List Attempt
  judged : List Judged
  reconciled : List (Attempt × Int)

/-- Nothing recorded yet. -/
def Office.initial : Office := ⟨.empty, .initial, .idle, 0, [], [], [], []⟩

def DRIFT_EVERY_ORDERS : Nat := 25

/-- A call is recorded or its row annotated, the load engine or a client of the back-office changes
    something, or the sweep moves on.  Its start reads the clock three times; then the database
    answers or fails, and the balances are compared. -/
inductive OfficeEvent
  | record (attempt : Attempt)
  | annotate (id : Nat) (details : Details)
  | setLoadRunning (running simulationRunning : Bool) (now : Int)
  | configure (latencyThresholdMs : Int)
  | sweep (simulationRunning : Bool) (now now' now'' : Int)
  | read (found : List DbOrder)
  | readFailed
  | checkDrift (before : List ShadowUserSnapshot)
  | compareDrift (after : List ShadowUserSnapshot) (apiCash : JsMap Int String)

/-- An annotation of a row that is still in the ring shows wherever the row is held. -/
def AttemptsStore.rewrite (store : AttemptsStore) (id : Nat) (details : Details)
    (p : Attempt × LostPlacement) : Attempt × LostPlacement :=
  if p.1.id = id ∧ store.nextId ≤ id + ATTEMPTS_CAPACITY then (details.write p.1, p.2) else p

/-- The placements a sweep is still to ask about, changed in place. -/
def SweepPhase.map (f : Attempt × LostPlacement → Attempt × LostPlacement) : SweepPhase → SweepPhase
  | .reconciling now due acknowledged => .reconciling now (due.map f) acknowledged
  | phase => phase

/-- One step, `none` where it is not enabled: there is one sweep at a time. -/
def Office.step (s : Office) : OfficeEvent → Option Office
  | .record attempt => some { s with
      store := s.store.record attempt
      rows := s.rows ++ [{ attempt with id := s.store.nextId }] }
  | .annotate id details => some { s with
      store := s.store.annotate id details.write
      backoffice := { s.backoffice with
        pending := s.backoffice.pending.map (s.store.rewrite id details) }
      phase := s.phase.map (s.store.rewrite id details)
      rows := AttemptsStore.annotated s.rows id details.write }
  | .setLoadRunning running simulationRunning now => some { s with
      backoffice := s.backoffice.setLoadRunning running simulationRunning now }
  | .configure latencyThresholdMs => some { s with
      backoffice := { s.backoffice with latencyThresholdMs := latencyThresholdMs } }
  | .sweep simulationRunning now now' now'' =>
    match s.phase with
    | .idle =>
      let marked := s.backoffice.markQuiet simulationRunning now
      let rows := handed (now' - Backoffice.SETTLE_MS) marked.scanned
        (s.store.recent ATTEMPTS_CAPACITY).reverse
      let scanned := marked.scan s.store now'
      some { s with
        backoffice := scanned
        phase := .asking now'' (scanned.due now'') (Backoffice.acknowledged s.store)
        judged := s.judged ++ rows.map fun row => ⟨row, marked.context, now'⟩ }
    | _ => none
  | .read found =>
    match s.phase with
    | .reconciling now ((attempt, _) :: rest) acknowledged => some { s with
        backoffice := s.backoffice.reconcileOne attempt found acknowledged
        phase := .asking now rest acknowledged
        reconciled := s.reconciled ++ [(attempt, now)] }
    | _ => none
  | .readFailed =>
    match s.phase with
    | .reconciling _ _ _ => some { s with phase := .reconciled }
    | _ => none
  | .checkDrift before =>
    match s.phase with
    | .reconciled =>
      let early := s.backoffice.simulatedOrders < s.driftCheckedAt + DRIFT_EVERY_ORDERS
      let readable := before.filter ShadowUserSnapshot.settled
      some { s with phase := if early ∨ readable = [] then .idle else .comparing before }
    | _ => none
  | .compareDrift after apiCash =>
    match s.phase with
    | .comparing before =>
      let (compared, found) := driftFindings before after apiCash
      if compared = 0 then some { s with phase := .idle }
      else some { s with
        phase := .idle
        driftCheckedAt := s.backoffice.simulatedOrders
        drifts := s.drifts ++ found }
    | _ => none

/-- The machine of the office. -/
def office : Machine Office OfficeEvent := ⟨Office.step⟩

namespace Office

/-- The placement that the database is being asked about. -/
def asked (s : Office) : Option Nat :=
  match s.phase with
  | .reconciling _ ((attempt, _) :: _) _ => some attempt.id
  | _ => none

/-- The placement whose key is read, if the step is a read that succeeds. -/
def reads (s : Office) : OfficeEvent → Option Nat
  | .read _ => s.asked
  | _ => none

/-- All that is filed on the rows. -/
def files (s : Office) : AttemptsStore × Nat × List (Attempt × LostPlacement) ×
    List (Nat × Finding) × List Attempt × List Judged × List (Attempt × Int) :=
  (s.store, s.backoffice.scanned, s.backoffice.pending, s.backoffice.anomalies, s.rows, s.judged,
    s.reconciled)

/-- What one step does: four events file something, and the others do not. -/
inductive Worked (s : Office) : OfficeEvent → Office → Prop
  | record (attempt : Attempt) : Worked s (.record attempt) { s with
      store := s.store.record attempt
      rows := s.rows ++ [{ attempt with id := s.store.nextId }] }
  | annotate (id : Nat) (details : Details) : Worked s (.annotate id details) { s with
      store := s.store.annotate id details.write
      backoffice := { s.backoffice with
        pending := s.backoffice.pending.map (s.store.rewrite id details) }
      phase := s.phase.map (s.store.rewrite id details)
      rows := AttemptsStore.annotated s.rows id details.write }
  | sweep (simulationRunning : Bool) (now now' now'' : Int) {marked scanned : Backoffice}
    {judged : List Attempt} (hmarked : marked = s.backoffice.markQuiet simulationRunning now)
    (hscans : Scans (now' - Backoffice.SETTLE_MS) marked (s.store.recent ATTEMPTS_CAPACITY).reverse
      judged scanned) :
    Worked s (.sweep simulationRunning now now' now'') { s with
      backoffice := scanned
      phase := .asking now'' (scanned.due now'') (Backoffice.acknowledged s.store)
      judged := s.judged ++ judged.map fun row => ⟨row, marked.context, now'⟩ }
  | read {now : Int} {attempt : Attempt} {lost : LostPlacement}
    {rest : List (Attempt × LostPlacement)} {acknowledged : List Int} (found : List DbOrder)
    (hphase : s.phase = .reconciling now ((attempt, lost) :: rest) acknowledged) :
    Worked s (.read found) { s with
      backoffice := s.backoffice.reconcileOne attempt found acknowledged
      phase := .asking now rest acknowledged
      reconciled := s.reconciled ++ [(attempt, now)] }
  | other {e : OfficeEvent} {s' : Office} (hreads : s.reads e = none) (hfiles : s'.files = s.files)
    (hphase : s'.phase = s.phase ∨ ∀ now due ack, s'.phase ≠ .reconciling now due ack)
    (hdrifts : ∀ f ∈ s'.drifts, f ∈ s.drifts ∨ f.rule = "balance_drift") : Worked s e s'

/-- The findings about balances are of one rule. -/
theorem rule_of_driftFindings {before after : List ShadowUserSnapshot} {apiCash : JsMap Int String}
    {f : Finding} (hf : f ∈ (driftFindings before after apiCash).2) : f.rule = "balance_drift" := by
  simp only [driftFindings, List.mem_filterMap, id_eq, exists_eq_right] at hf
  obtain ⟨user, -, hdrift⟩ := hf
  unfold drift at hdrift
  split at hdrift
  · split at hdrift
    · cases hdrift
    · split at hdrift <;> cases hdrift
      rfl
  · cases hdrift

theorem worked_of_step {s s' : Office} {e : OfficeEvent} (hstep : office.step s e = some s') :
    s.Worked e s' := by
  have hold : ∀ f ∈ s.drifts, f ∈ s.drifts ∨ f.rule = "balance_drift" := fun _ hf => .inl hf
  cases e with
  | record attempt =>
    cases hstep
    exact .record attempt
  | annotate id details =>
    cases hstep
    exact .annotate id details
  | setLoadRunning running simulationRunning now =>
    cases hstep
    exact .other rfl rfl (.inl rfl) hold
  | configure latencyThresholdMs =>
    cases hstep
    exact .other rfl rfl (.inl rfl) hold
  | sweep simulationRunning now now' now'' =>
    simp only [office, Office.step] at hstep
    split at hstep
    · cases hstep
      exact .sweep simulationRunning now now' now'' rfl (scans_scanRows _ _ _)
    · cases hstep
  | read found =>
    simp only [office, Office.step] at hstep
    split at hstep
    · rename_i hphase
      cases hstep
      exact .read found hphase
    · cases hstep
  | readFailed =>
    simp only [office, Office.step] at hstep
    split at hstep
    · cases hstep
      exact .other rfl rfl (.inr fun _ _ _ h => (by cases h)) hold
    · cases hstep
  | checkDrift before =>
    simp only [office, Office.step] at hstep
    split at hstep
    · cases hstep
      refine .other rfl rfl (.inr fun _ _ _ h => ?_) hold
      split at h <;> cases h
    · cases hstep
  | compareDrift after apiCash =>
    simp only [office, Office.step] at hstep
    split at hstep
    · split at hstep
      · cases hstep
        exact .other rfl rfl (.inr fun _ _ _ h => (by cases h)) hold
      · cases hstep
        refine .other rfl rfl (.inr fun _ _ _ h => (by cases h)) fun f hf => ?_
        exact (List.mem_append.mp hf).imp_right rule_of_driftFindings
    · cases hstep

/-! ### The recorder -/

/-- A row is only overwritten once it is scanned. -/
def Unlost (s : Office) : OfficeEvent → Prop
  | .record _ => s.store.nextId ≤ s.backoffice.scanned + ATTEMPTS_CAPACITY
  | _ => True

instance decidableUnlost (s : Office) : ∀ e, Decidable (s.Unlost e)
  | .record _ =>
    inferInstanceAs (Decidable (s.store.nextId ≤ s.backoffice.scanned + ATTEMPTS_CAPACITY))
  | .annotate .. | .setLoadRunning .. | .configure _ | .sweep .. | .read _ | .readFailed
  | .checkDrift _ | .compareDrift .. => isTrue trivial

/-- The store holds the rows, and what is not scanned yet is still in its ring. -/
structure Recorded (s : Office) : Prop where
  holds : s.store.Holds s.rows
  window : s.rows.length ≤ s.backoffice.scanned + ATTEMPTS_CAPACITY
  behind : s.backoffice.scanned ≤ s.rows.length

theorem recorded_initial : initial.Recorded where
  holds := AttemptsStore.holds_empty
  window := Nat.zero_le _
  behind := le_rfl

theorem Recorded.step {s s' : Office} {e : OfficeEvent} (h : s.Recorded) (hunlost : s.Unlost e)
    (hstep : s.Worked e s') : s'.Recorded := by
  obtain ⟨hholds, hwindow, hbehind⟩ := h
  cases hstep with
  | record attempt =>
    have hnext := hholds.nextId
    have hunlost : s.store.nextId ≤ s.backoffice.scanned + ATTEMPTS_CAPACITY := hunlost
    refine ⟨hholds.record attempt, ?_, ?_⟩
    · show (s.rows ++ [_]).length ≤ s.backoffice.scanned + ATTEMPTS_CAPACITY
      rw [List.length_append, List.length_singleton]
      omega
    · show s.backoffice.scanned ≤ (s.rows ++ [_]).length
      rw [List.length_append, List.length_singleton]
      omega
  | annotate id details =>
    refine ⟨hholds.annotated id details.write fun _ => rfl, ?_, ?_⟩ <;>
      rw [AttemptsStore.length_annotated] <;> assumption
  | sweep simulationRunning now now' now'' hmarked hscans =>
    have hle := hscans.scanned_le
    rw [hmarked] at hle
    refine ⟨hholds, hwindow.trans (Nat.add_le_add_right hle _), ?_⟩
    rcases hscans.scanned_mem with hsame | ⟨row, hrow, hid⟩
    · rw [hmarked] at hsame
      exact hsame.le.trans hbehind
    · have hmem := hholds.id_lt (hholds.mem_of_recent (List.mem_reverse.mp hrow))
      rw [hholds.nextId, hid] at hmem
      exact Nat.le_of_lt_succ hmem
  | read found hphase => exact ⟨hholds, hwindow, hbehind⟩
  | other _ hfiles _ _ =>
    simp only [files, Prod.mk.injEq] at hfiles
    obtain ⟨hstore, hscanned, -, -, hrows, -⟩ := hfiles
    exact ⟨by rw [hstore, hrows]; exact hholds, by rw [hrows, hscanned]; exact hwindow,
      by rw [hrows, hscanned]; exact hbehind⟩

/-! ### What is judged -/

/-- The rows are in the order of their ids. -/
theorem Recorded.sorted {s : Office} (h : s.Recorded) : s.rows.Pairwise fun a b => a.id < b.id := by
  rw [List.pairwise_iff_getElem]
  intro i j hi hj hij
  have hids := h.holds.ids
  rw [hids i _ (List.getElem?_eq_getElem hi), hids j _ (List.getElem?_eq_getElem hj)]
  omega

/-- The row is a call's, and the cursor has passed it. -/
def passed (n : Nat) (row : Attempt) : Bool := !isChaosEvent row && decide (row.id ≤ n)

/-- An annotation leaves a row's id and its path as they are. -/
theorem ids_passed_annotated (rows : List Attempt) (id : Nat) (details : Details) (n : Nat) :
    ((AttemptsStore.annotated rows id details.write).filter (passed n)).map (·.id) =
      (rows.filter (passed n)).map (·.id) := by
  unfold AttemptsStore.annotated
  rw [List.filter_map, List.map_map]
  have hsame : ∀ row ∈ rows, (passed n ∘ fun row : Attempt =>
      if row.id = id ∧ rows.length < id + ATTEMPTS_CAPACITY then details.write row else row) row =
        passed n row := by
    intro row _
    simp only [Function.comp]
    split <;> rfl
  rw [List.filter_congr hsame]
  refine List.map_congr_left fun row _ => ?_
  simp only [Function.comp]
  split <;> rfl

/-- What is shown of the rows is all that the cursor has not passed. -/
theorem Recorded.filter_recent {s : Office} (h : s.Recorded) (n : Nat) :
    ((s.store.recent ATTEMPTS_CAPACITY).reverse.filter fun row =>
        !isChaosEvent row && (decide (s.backoffice.scanned < row.id) && decide (row.id ≤ n))) =
      s.rows.filter fun row =>
        !isChaosEvent row && (decide (s.backoffice.scanned < row.id) && decide (row.id ≤ n)) := by
  have hshown : (s.store.recent ATTEMPTS_CAPACITY).reverse =
      s.rows.drop (s.rows.length - ATTEMPTS_CAPACITY) := by
    rw [h.holds.recent_eq, Nat.min_self, List.reverse_take, List.reverse_reverse,
      List.length_reverse]
  have hgone : ((s.rows.take (s.rows.length - ATTEMPTS_CAPACITY)).filter fun row =>
      !isChaosEvent row && (decide (s.backoffice.scanned < row.id) && decide (row.id ≤ n))) =
        [] := by
    rw [List.filter_eq_nil_iff]
    intro row hrow
    obtain ⟨i, hi⟩ := List.mem_iff_getElem?.mp hrow
    obtain ⟨hlt, -⟩ := List.getElem?_eq_some_iff.mp hi
    rw [List.length_take] at hlt
    rw [List.getElem?_take_of_lt (by omega)] at hi
    have hid := h.holds.ids i row hi
    have hwindow := h.window
    simp only [Bool.and_eq_true, decide_eq_true_eq]
    omega
  conv_rhs => rw [← List.take_append_drop (s.rows.length - ATTEMPTS_CAPACITY) s.rows,
    List.filter_append, hgone, List.nil_append, ← hshown]

/-- The rules about an order that was never answered. -/
def RECONCILED_RULES : List String := ["lost_order", "duplicate_execution"]

/-- The rules about a row are others. -/
theorem rule_of_mem_findings {row : Attempt} {context : DetectorContext} {f : Finding}
    (hf : f ∈ findings row context) : f.rule ∉ RECONCILED_RULES := by
  rcases mem_findings_iff.mp hf with h | h | h | h
  · rw [rule_latencyHigh h]
    decide
  · rw [rule_http5xx h]
    decide
  · rw [(unexpectedShedding_spec h).1]
    decide
  · rw [rule_unexpectedStatus h]
    decide

/-- And those are these two. -/
theorem rule_of_mem_reconciledFindings {attempt : Attempt} {found : List MatchedOrder}
    {f : Finding} (hf : f ∈ reconciledFindings attempt found) : f.rule ∈ RECONCILED_RULES := by
  simp only [reconciledFindings, RECONCILED_DETECTORS, List.mem_filterMap, List.mem_cons,
    List.not_mem_nil, or_false] at hf
  obtain ⟨detect, rfl | rfl, hdetect⟩ := hf
  · cases hdetect
    exact List.mem_cons_self
  · unfold duplicateExecution at hdetect
    split at hdetect
    · split at hdetect <;> cases hdetect
      exact List.mem_cons_of_mem _ List.mem_cons_self
    · cases hdetect

/-- What the rules found in a judged row, each finding under the id of the row. -/
def Judged.found (j : Judged) : List (Nat × Finding) :=
  (findings j.row j.context).map fun f => (j.row.id, f)

/-- The finding is about a row, and not about an order that was never answered. -/
def ofRow (a : Nat × Finding) : Bool := a.2.rule ∉ RECONCILED_RULES

/-- What has been judged is what the cursor has passed. -/
structure Judging (s : Office) : Prop where
  ids : s.judged.map (·.row.id) = (s.rows.filter (passed s.backoffice.scanned)).map (·.id)
  settled : ∀ j ∈ s.judged, j.row.sentAt + j.row.latencyMs + Backoffice.SETTLE_MS ≤ j.now
  found : s.backoffice.anomalies.filter ofRow = s.judged.flatMap Judged.found

theorem judging_initial : initial.Judging where
  ids := rfl
  settled _ hj := by cases hj
  found := rfl

theorem Judging.step {s s' : Office} {e : OfficeEvent} (h : s.Judging) (hrec : s.Recorded)
    (hstep : s.Worked e s') : s'.Judging := by
  cases hstep with
  | record attempt =>
    refine ⟨?_, h.settled, h.found⟩
    have hnext := hrec.holds.nextId
    have hbehind := hrec.behind
    -- the cursor cannot be past a row that is only now recorded
    have hnew : passed s.backoffice.scanned { attempt with id := s.store.nextId } = false := by
      have hlater : ¬s.store.nextId ≤ s.backoffice.scanned := by omega
      simp [passed, hlater]
    show _ = ((s.rows ++ [_]).filter _).map _
    rw [List.filter_append, List.filter_cons_of_neg (by simp [hnew]), List.filter_nil,
      List.append_nil]
    exact h.ids
  | annotate id details =>
    refine ⟨?_, h.settled, h.found⟩
    exact h.ids.trans (ids_passed_annotated s.rows id details _).symm
  | @sweep simulationRunning now now' now'' marked scanned judged hmarked hscans =>
    have hcursor : marked.scanned = s.backoffice.scanned := by rw [hmarked]; rfl
    have hanomalies : marked.anomalies = s.backoffice.anomalies := by rw [hmarked]; rfl
    have hle := hscans.scanned_le
    rw [hcursor] at hle
    have hshown : (s.store.recent ATTEMPTS_CAPACITY).reverse.Pairwise fun a b => a.id < b.id := by
      rw [hrec.holds.recent_eq, Nat.min_self, List.reverse_take, List.reverse_reverse]
      exact hrec.sorted.sublist (List.drop_sublist _ _)
    refine ⟨?_, fun j hj => ?_, ?_⟩
    · show (s.judged ++ judged.map fun row => (⟨row, marked.context, now'⟩ : Judged)).map _ = _
      have hjudged := hscans.judged_eq hshown
      rw [hcursor, hrec.filter_recent] at hjudged
      unfold passed
      rw [← filter_le_append_filter_between hrec.sorted (fun row => !isChaosEvent row) hle,
        ← hjudged, List.map_append, List.map_append, List.map_map]
      exact congrArg (· ++ _) h.ids
    · rcases List.mem_append.mp hj with hj | hj
      · exact h.settled j hj
      · obtain ⟨row, hrow, rfl⟩ := List.mem_map.mp hj
        have hold := hscans.old_enough hrow
        show row.sentAt + row.latencyMs + Backoffice.SETTLE_MS ≤ now'
        omega
    · show scanned.anomalies.filter ofRow = (s.judged ++ judged.map _).flatMap Judged.found
      rw [hscans.anomalies, hanomalies, List.filter_append, h.found, List.flatMap_append,
        List.flatMap_map]
      congr 1
      refine List.filter_eq_self.mpr fun a ha => ?_
      obtain ⟨row, -, hrow⟩ := List.mem_flatMap.mp ha
      obtain ⟨f, hf, rfl⟩ := List.mem_map.mp hrow
      exact decide_eq_true (rule_of_mem_findings hf)
  | @read now attempt lost rest acknowledged found hphase =>
    refine ⟨h.ids, h.settled, ?_⟩
    show (s.backoffice.anomalies ++ _).filter ofRow = _
    rw [List.filter_append, h.found]
    convert List.append_nil _
    rw [List.filter_eq_nil_iff]
    intro a ha
    obtain ⟨f, hf, rfl⟩ := List.mem_map.mp ha
    simpa [ofRow] using rule_of_mem_reconciledFindings hf
  | other _ hfiles _ _ =>
    simp only [files, Prod.mk.injEq] at hfiles
    obtain ⟨-, hscanned, -, hanomalies, hrows, hjudged, -⟩ := hfiles
    exact ⟨by rw [hjudged, hrows, hscanned]; exact h.ids, by rw [hjudged]; exact h.settled,
      by rw [hanomalies, hjudged]; exact h.found⟩

/-! ### What is reconciled -/

/-- The placements that wait to be reconciled. -/
def pendingIds (s : Office) : List Nat := s.backoffice.pending.map (·.1.id)

/-- Those that have been. -/
def reconciledIds (s : Office) : List Nat := s.reconciled.map (·.1.id)

/-- Of some judged rows, those of placements that were lost. -/
def lostAmong (judged : List Judged) : List Nat :=
  (judged.filter fun j => (lostCandidate j.row).isSome).map (·.row.id)

/-- The placements that an order was found lost for, once for each finding. -/
def foundLost (anomalies : List (Nat × Finding)) : List Nat :=
  (anomalies.filter fun a => a.2.rule = "lost_order").map Prod.fst

/-- Every placement that was lost waits or has been reconciled, with a finding for each of these. -/
structure Reconciling (s : Office) : Prop where
  once : (s.pendingIds ++ s.reconciledIds).Perm (lostAmong s.judged)
  found : foundLost s.backoffice.anomalies = s.reconciledIds
  late : ∀ r ∈ s.reconciled, reconcilableAt r.1 ≤ r.2
  keys : ∀ p ∈ s.backoffice.pending, lostCandidate p.1 = some p.2
  /-- What the sweep asks about still waits, and its window has closed. -/
  asked : ∀ now due acknowledged, s.phase = .reconciling now due acknowledged →
    (due.map (·.1.id)).Nodup ∧ ∀ p ∈ due, p ∈ s.backoffice.pending ∧ reconcilableAt p.1 ≤ now

theorem reconciling_initial : initial.Reconciling where
  once := .nil
  found := rfl
  late _ hr := by cases hr
  keys _ hp := by cases hp
  asked _ _ _ h := by cases h

/-- No row is judged twice. -/
theorem Judging.nodup {s : Office} (h : s.Judging) (hrec : s.Recorded) :
    (s.judged.map (·.row.id)).Nodup := by
  rw [h.ids]
  refine List.Pairwise.map _ (fun a b hab => ?_) (hrec.sorted.filter _)
  exact hab.ne

theorem Judging.nodup_lost {s : Office} (h : s.Judging) (hrec : s.Recorded) :
    (lostAmong s.judged).Nodup :=
  (h.nodup hrec).sublist (List.filter_sublist.map _)

theorem Reconciling.nodup {s : Office} (h : s.Reconciling) (hjudging : s.Judging)
    (hrec : s.Recorded) : (s.pendingIds ++ s.reconciledIds).Nodup :=
  h.once.nodup_iff.mpr (hjudging.nodup_lost hrec)

theorem asking_eq_reconciling {now now' : Int} {due due' : List (Attempt × LostPlacement)}
    {acknowledged acknowledged' : List Int}
    (h : SweepPhase.asking now due acknowledged = .reconciling now' due' acknowledged') :
    now = now' ∧ due = due' := by
  unfold SweepPhase.asking at h
  split at h <;> cases h
  exact ⟨rfl, rfl⟩

theorem rewrite_id (store : AttemptsStore) (id : Nat) (details : Details)
    (p : Attempt × LostPlacement) : (store.rewrite id details p).1.id = p.1.id := by
  unfold AttemptsStore.rewrite
  split <;> rfl

theorem rewrite_reconcilableAt (store : AttemptsStore) (id : Nat) (details : Details)
    (p : Attempt × LostPlacement) :
    reconcilableAt (store.rewrite id details p).1 = reconcilableAt p.1 := by
  unfold AttemptsStore.rewrite
  split <;> rfl

theorem rewrite_lostCandidate (store : AttemptsStore) (id : Nat) (details : Details)
    {p : Attempt × LostPlacement} (h : lostCandidate p.1 = some p.2) :
    lostCandidate (store.rewrite id details p).1 = some (store.rewrite id details p).2 := by
  unfold AttemptsStore.rewrite
  split <;> exact h

theorem map_rewrite_id (store : AttemptsStore) (id : Nat) (details : Details)
    (ps : List (Attempt × LostPlacement)) :
    (ps.map (store.rewrite id details)).map (·.1.id) = ps.map (·.1.id) := by
  rw [List.map_map]
  exact List.map_congr_left fun p _ => rewrite_id store id details p

/-- A placement that is held against the database gives one finding that its order was lost. -/
theorem foundLost_reconcile (attempt : Attempt) (found : List MatchedOrder) :
    foundLost ((reconciledFindings attempt found).map fun f => (attempt.id, f)) = [attempt.id] := by
  have hduplicate : ∀ f, duplicateExecution attempt found = some f → f.rule ≠ "lost_order" := by
    intro f hf
    unfold duplicateExecution at hf
    split at hf
    · split at hf <;> cases hf
      show "duplicate_execution" ≠ "lost_order"
      decide
    · cases hf
  have hlost : (lostOrder attempt found).rule = "lost_order" := rfl
  unfold foundLost reconciledFindings RECONCILED_DETECTORS
  cases hdup : duplicateExecution attempt found with
  | none => simp [hdup, hlost]
  | some f => simp [hdup, hlost, hduplicate f hdup]

theorem foundLost_append (as bs : List (Nat × Finding)) :
    foundLost (as ++ bs) = foundLost as ++ foundLost bs := by
  simp [foundLost]

/-- The rules about a row find no order lost. -/
theorem foundLost_findings (rows : List Attempt) (context : DetectorContext) :
    foundLost (rows.flatMap fun row => (findings row context).map fun f => (row.id, f)) = [] := by
  unfold foundLost
  rw [List.map_eq_nil_iff, List.filter_eq_nil_iff]
  intro a ha
  obtain ⟨row, -, hrow⟩ := List.mem_flatMap.mp ha
  obtain ⟨f, hf, rfl⟩ := List.mem_map.mp hrow
  have hrule := rule_of_mem_findings hf
  simp only [RECONCILED_RULES, List.mem_cons, not_or] at hrule
  simpa using hrule.1

theorem lostAmong_append (as bs : List Judged) :
    lostAmong (as ++ bs) = lostAmong as ++ lostAmong bs := by
  simp [lostAmong]

/-- The rows that a scan leaves waiting are those of placements that were lost. -/
theorem ids_lost (rows : List Attempt) (context : DetectorContext) (now : Int) :
    (rows.filterMap fun row => (lostCandidate row).map fun lost => (row, lost)).map (·.1.id) =
      lostAmong (rows.map fun row => ⟨row, context, now⟩) := by
  induction rows with
  | nil => rfl
  | cons row rows ih =>
    unfold lostAmong at ih ⊢
    cases hlost : lostCandidate row <;> simp [hlost, ih]

/-- Reconciling takes a placement out of those that wait. -/
theorem pending_reconcileOne (b : Backoffice) (attempt : Attempt) (found : List DbOrder)
    (acknowledged : List Int) :
    (b.reconcileOne attempt found acknowledged).pending.map (·.1.id) =
      (b.pending.map (·.1.id)).filter (· ≠ attempt.id) := by
  rw [List.filter_map]
  rfl

theorem perm_reconcileOne {b : Backoffice} {attempt : Attempt} {lost : LostPlacement}
    (hmem : (attempt, lost) ∈ b.pending) (hnodup : (b.pending.map (·.1.id)).Nodup)
    (found : List DbOrder) (acknowledged : List Int) :
    (b.pending.map (·.1.id)).Perm
      (attempt.id :: (b.reconcileOne attempt found acknowledged).pending.map (·.1.id)) := by
  have hid : attempt.id ∈ b.pending.map (·.1.id) := List.mem_map_of_mem hmem
  have herase : (b.pending.map (·.1.id)).filter (· ≠ attempt.id) =
      (b.pending.map (·.1.id)).erase attempt.id := by
    rw [hnodup.erase_eq_filter]
    refine List.filter_congr fun id _ => ?_
    rw [Bool.eq_iff_iff]
    simp
  rw [pending_reconcileOne, herase]
  exact List.perm_cons_erase hid

/-- What a sweep adds to those that wait. -/
theorem pending_sweep {s : Office} {simulationRunning : Bool} {now : Int}
    {marked scanned : Backoffice} {rows judged : List Attempt} {settled : Int}
    (hmarked : marked = s.backoffice.markQuiet simulationRunning now)
    (hscans : Scans settled marked rows judged scanned) (now' : Int) :
    scanned.pending.map (·.1.id) = s.pendingIds ++
      lostAmong (judged.map fun row => ⟨row, marked.context, now'⟩) := by
  rw [hscans.pending, List.map_append, ids_lost, hmarked]
  rfl

theorem foundLost_sweep {s : Office} {simulationRunning : Bool} {now : Int}
    {marked scanned : Backoffice} {rows judged : List Attempt} {settled : Int}
    (hmarked : marked = s.backoffice.markQuiet simulationRunning now)
    (hscans : Scans settled marked rows judged scanned) :
    foundLost scanned.anomalies = foundLost s.backoffice.anomalies := by
  rw [hscans.anomalies, foundLost_append, foundLost_findings, List.append_nil, hmarked]
  rfl

theorem Reconciling.step {s s' : Office} {e : OfficeEvent} (h : s.Reconciling)
    (hjudging : s.Judging) (hrec : s.Recorded) (hjudging' : s'.Judging) (hrec' : s'.Recorded)
    (hstep : s.Worked e s') : s'.Reconciling := by
  cases hstep with
  | record attempt => exact ⟨h.once, h.found, h.late, h.keys, h.asked⟩
  | annotate id details =>
    refine ⟨?_, h.found, h.late, fun p hp => ?_, fun now due acknowledged hphase => ?_⟩
    · show ((s.backoffice.pending.map (s.store.rewrite id details)).map (·.1.id) ++
        s.reconciledIds).Perm (lostAmong s.judged)
      rw [map_rewrite_id]
      exact h.once
    · obtain ⟨q, hq, rfl⟩ := List.mem_map.mp hp
      exact rewrite_lostCandidate _ _ _ (h.keys q hq)
    · cases hold : s.phase with
      | reconciling now₀ due₀ acknowledged₀ =>
        simp only [hold, SweepPhase.map, SweepPhase.reconciling.injEq] at hphase
        obtain ⟨rfl, rfl, rfl⟩ := hphase
        obtain ⟨hnodup, hdue⟩ := h.asked _ _ _ hold
        refine ⟨by rw [map_rewrite_id]; exact hnodup, fun p hp => ?_⟩
        obtain ⟨q, hq, rfl⟩ := List.mem_map.mp hp
        rw [rewrite_reconcilableAt]
        exact ⟨List.mem_map_of_mem (hdue q hq).1, (hdue q hq).2⟩
      | idle | reconciled | comparing before => simp [hold, SweepPhase.map] at hphase
  | @sweep simulationRunning now now' now'' marked scanned judged hmarked hscans =>
    have honce : (scanned.pending.map (·.1.id) ++ s.reconciledIds).Perm
        (lostAmong (s.judged ++ judged.map fun row => ⟨row, marked.context, now'⟩)) := by
      rw [pending_sweep hmarked hscans now', lostAmong_append, List.append_assoc]
      refine (List.perm_append_comm.append_left _).trans ?_
      rw [← List.append_assoc]
      exact h.once.append_right _
    refine ⟨honce, ?_, h.late, fun p hp => ?_, fun now₀ due acknowledged hphase => ?_⟩
    · exact (foundLost_sweep hmarked hscans).trans h.found
    · change p ∈ scanned.pending at hp
      rw [hscans.pending, hmarked] at hp
      rcases List.mem_append.mp hp with hold | hnew
      · exact h.keys p hold
      · obtain ⟨row, -, hrow⟩ := List.mem_filterMap.mp hnew
        obtain ⟨lost, hlost, rfl⟩ := Option.map_eq_some_iff.mp hrow
        exact hlost
    · obtain ⟨rfl, rfl⟩ := asking_eq_reconciling hphase
      have hnodup := (honce.nodup_iff.mpr (hjudging'.nodup_lost hrec')).of_append_left
      have hperm : (scanned.due now'').Perm
          (scanned.pending.filter fun p => reconcilableAt p.1 ≤ now'') :=
        List.perm_insertionSort _ _
      refine ⟨(hperm.map _).nodup_iff.mpr (hnodup.sublist (List.filter_sublist.map _)),
        fun p hp => ?_⟩
      exact Backoffice.mem_due.mp hp
  | @read now attempt lost rest acknowledged found hphase =>
    obtain ⟨hnodup, hdue⟩ := h.asked _ _ _ hphase
    rw [List.map_cons, List.nodup_cons] at hnodup
    obtain ⟨hmem, hclosed⟩ := hdue _ List.mem_cons_self
    have hperm := perm_reconcileOne hmem (h.nodup hjudging hrec).of_append_left found acknowledged
    refine ⟨?_, ?_, fun r hr => ?_, fun p hp => h.keys p (List.mem_of_mem_filter hp),
      fun now₀ due acknowledged₀ hphase' => ?_⟩
    · show ((s.backoffice.reconcileOne attempt found acknowledged).pending.map (·.1.id) ++
        (s.reconciled ++ [(attempt, now)]).map (·.1.id)).Perm (lostAmong s.judged)
      refine List.Perm.trans ?_ h.once
      rw [List.map_append, List.map_singleton, ← List.append_assoc]
      refine List.perm_append_comm.trans ?_
      exact (hperm.symm.append_right _)
    · show foundLost (s.backoffice.anomalies ++ _) = (s.reconciled ++ [(attempt, now)]).map (·.1.id)
      rw [foundLost_append, foundLost_reconcile, h.found, List.map_append]
      rfl
    · rcases List.mem_append.mp hr with hr | hr
      · exact h.late r hr
      · rw [List.mem_singleton.mp hr]
        exact hclosed
    · obtain ⟨rfl, rfl⟩ := asking_eq_reconciling hphase'
      refine ⟨hnodup.2, fun p hp => ?_⟩
      obtain ⟨hwaits, hwindow⟩ := hdue p (List.mem_cons_of_mem _ hp)
      refine ⟨List.mem_filter.mpr ⟨hwaits, ?_⟩, hwindow⟩
      -- it is not the placement that has just been reconciled
      have hne : p.1.id ≠ attempt.id := fun heq => hnodup.1 (heq ▸ List.mem_map_of_mem hp)
      simpa using hne
  | other _ hfiles hphase _ =>
    simp only [files, Prod.mk.injEq] at hfiles
    obtain ⟨-, -, hpending, hanomalies, -, hjudged, hreconciled⟩ := hfiles
    refine ⟨?_, by rw [hanomalies, reconciledIds, hreconciled]; exact h.found,
      by rw [hreconciled]; exact h.late, by rw [hpending]; exact h.keys,
      fun now due acknowledged hphase' => ?_⟩
    · rw [pendingIds, reconciledIds, hpending, hjudged, hreconciled]
      exact h.once
    · rw [hpending]
      rcases hphase with hphase | hphase
      · exact h.asked now due acknowledged (hphase ▸ hphase')
      · exact absurd hphase' (hphase now due acknowledged)

/-! ### Once each -/

/-- What a step does to the placements that wait. -/
structure Moves (s : Office) (e : OfficeEvent) (s' : Office) : Prop where
  /-- One joins them when its row is judged, -/
  entered : ∀ id, id ∉ s.pendingIds →
    (id ∈ s'.pendingIds ↔ id ∈ lostAmong s'.judged ∧ id ∉ lostAmong s.judged)
  /-- and leaves them exactly when the database is read for it. -/
  left : ∀ id ∈ s.pendingIds, (id ∉ s'.pendingIds ↔ s.reads e = some id)
  /-- That, and nothing else, finds that an order was lost. -/
  found : foundLost s'.backoffice.anomalies = foundLost s.backoffice.anomalies ++ (s.reads e).toList

/-- A step that leaves those that wait, what was judged and what was found as it is. -/
theorem moves_of_eq {s s' : Office} {e : OfficeEvent} (hreads : s.reads e = none)
    (hpending : s'.pendingIds = s.pendingIds) (hjudged : s'.judged = s.judged)
    (hanomalies : s'.backoffice.anomalies = s.backoffice.anomalies) : s.Moves e s' where
  entered id hid := by
    rw [hpending, hjudged]
    exact iff_of_false hid fun h => h.2 h.1
  left id hid := by
    rw [hpending, hreads]
    simpa using hid
  found := by rw [hanomalies, hreads, Option.toList_none, List.append_nil]

theorem moves_of_worked {s s' : Office} {e : OfficeEvent} (hnodup : (lostAmong s'.judged).Nodup)
    (hstep : s.Worked e s') : s.Moves e s' := by
  cases hstep with
  | record attempt => exact moves_of_eq rfl rfl rfl rfl
  | annotate id details => exact moves_of_eq rfl (map_rewrite_id _ _ _ _) rfl rfl
  | @sweep simulationRunning now now' now'' marked scanned judged hmarked hscans =>
    have hpending := pending_sweep hmarked hscans now'
    refine ⟨fun id hid => ?_, fun id hid => ?_, ?_⟩
    · show id ∈ scanned.pending.map (·.1.id) ↔ id ∈ lostAmong (s.judged ++ _) ∧ _
      change (lostAmong (s.judged ++ _)).Nodup at hnodup
      rw [lostAmong_append] at hnodup ⊢
      rw [hpending, List.mem_append, List.mem_append]
      constructor
      · rintro (hold | hnew)
        · exact absurd hold hid
        · exact ⟨.inr hnew, fun hold => (List.disjoint_of_nodup_append hnodup) hold hnew⟩
      · rintro ⟨hold | hnew, hnot⟩
        · exact absurd hold hnot
        · exact .inr hnew
    · have hstays : id ∈ scanned.pending.map (·.1.id) := by
        rw [hpending]
        exact List.mem_append_left _ hid
      exact iff_of_false (fun h => h hstays) fun h => (by cases h)
    · exact (foundLost_sweep hmarked hscans).trans (List.append_nil _).symm
  | @read now attempt lost rest acknowledged found hphase =>
    have hreads : s.reads (.read found) = some attempt.id := by simp [reads, asked, hphase]
    refine ⟨fun id hid => ?_, fun id hid => ?_, ?_⟩
    · show id ∈ (s.backoffice.reconcileOne attempt found acknowledged).pending.map (·.1.id) ↔ _
      rw [pending_reconcileOne]
      exact iff_of_false (fun h => hid (List.mem_of_mem_filter h)) fun h => h.2 h.1
    · show id ∉ (s.backoffice.reconcileOne attempt found acknowledged).pending.map (·.1.id) ↔ _
      rw [pending_reconcileOne, hreads, List.mem_filter, Option.some.injEq, decide_eq_true_eq]
      constructor
      · intro h
        by_contra hne
        exact h ⟨hid, Ne.symm hne⟩
      · rintro rfl h
        exact h.2 rfl
    · show foundLost (s.backoffice.anomalies ++ _) = _
      rw [foundLost_append, foundLost_reconcile, hreads]
      rfl
  | other hreads hfiles _ _ =>
    simp only [files, Prod.mk.injEq] at hfiles
    obtain ⟨-, -, hpending, hanomalies, -, hjudged, -⟩ := hfiles
    exact moves_of_eq hreads (by rw [pendingIds, hpending, pendingIds]) hjudged hanomalies

/-- What holds of every state a run leads to. -/
structure Inv (s : Office) : Prop where
  recorded : s.Recorded
  judging : s.Judging
  reconciling : s.Reconciling
  drifts : ∀ f ∈ s.drifts, f.rule = "balance_drift"

theorem inv_initial : initial.Inv :=
  ⟨recorded_initial, judging_initial, reconciling_initial, fun _ hf => (by cases hf)⟩

theorem Inv.step {s s' : Office} {e : OfficeEvent} (h : s.Inv) (hunlost : s.Unlost e)
    (hstep : s.Worked e s') : s'.Inv where
  recorded := h.recorded.step hunlost hstep
  judging := h.judging.step h.recorded hstep
  reconciling := h.reconciling.step h.judging h.recorded (h.judging.step h.recorded hstep)
    (h.recorded.step hunlost hstep) hstep
  drifts := by
    cases hstep with
    | other _ _ _ hnew => exact fun f hf => (hnew f hf).elim (h.drifts f) id
    | _ => exact h.drifts

/-- What is judged once and reconciled once. -/
structure Once (s : Office) : Prop where
  /-- The rows that were judged are those of calls that the cursor has passed, none left out, -/
  judged : s.judged.map (·.row.id) = (s.rows.filter (passed s.backoffice.scanned)).map (·.id)
  /-- each once and in the order of the ids, -/
  increasing : (s.judged.map (·.row.id)).Pairwise (· < ·)
  /-- no sooner than they are old enough, -/
  settled : ∀ j ∈ s.judged, j.row.sentAt + j.row.latencyMs + Backoffice.SETTLE_MS ≤ j.now
  /-- and what was found in rows is what the rules found in these. -/
  found : s.backoffice.anomalies.filter ofRow = s.judged.flatMap Judged.found
  /-- Every placement that was lost waits, or has been reconciled, and not both, -/
  reconciled : (s.pendingIds ++ s.reconciledIds).Perm (lostAmong s.judged)
  nodup : (s.pendingIds ++ s.reconciledIds).Nodup
  /-- no sooner than its window has closed, -/
  late : ∀ r ∈ s.reconciled, reconcilableAt r.1 ≤ r.2
  /-- by a read for its own key, -/
  keys : ∀ now due acknowledged, s.phase = .reconciling now due acknowledged →
    ∀ p ∈ due, p ∈ s.backoffice.pending ∧ lostCandidate p.1 = some p.2
  /-- with one finding that its order was lost for each that has been reconciled. -/
  lost : foundLost s.backoffice.anomalies = s.reconciledIds
  drifts : ∀ f ∈ s.drifts, f.rule ≠ "lost_order"
  /-- Whatever comes next moves a placement in and out as it should. -/
  moves : ∀ e s', s.Unlost e → office.step s e = some s' → s.Moves e s'

/-- **Each call is judged once and each loss reconciled once**, in every run in which no row is
    overwritten before it is scanned. -/
theorem judged_and_reconciled_once {es : List OfficeEvent} {s : Office}
    (hunlost : office.Along Unlost .initial es) (hrun : office.run .initial es = some s) :
    s.Once := by
  have hinv : s.Inv := office.invariant_along
    (fun h hunlost hstep => h.step hunlost (worked_of_step hstep)) inv_initial hunlost hrun
  refine ⟨hinv.judging.ids, ?_, hinv.judging.settled, hinv.judging.found, hinv.reconciling.once,
    hinv.reconciling.nodup hinv.judging hinv.recorded, hinv.reconciling.late,
    fun now due acknowledged hphase p hp => ?_, hinv.reconciling.found, fun f hf => ?_,
    fun e s' hunlost hstep => ?_⟩
  · rw [hinv.judging.ids]
    exact List.Pairwise.map _ (fun _ _ hab => hab) (hinv.recorded.sorted.filter _)
  · have hwaits := ((hinv.reconciling.asked _ _ _ hphase).2 p hp).1
    exact ⟨hwaits, hinv.reconciling.keys p hwaits⟩
  · rw [hinv.drifts f hf]
    decide
  · have hinv' := hinv.step hunlost (worked_of_step hstep)
    exact moves_of_worked (hinv'.judging.nodup_lost hinv'.recorded) (worked_of_step hstep)

/-- A placement that was sent at the start and never answered. -/
def neverAnswered : Attempt :=
  ⟨0, 0, "POST", "/orders", 10000, 0, false, some ⟨1, 1, "BUY", 1, "MARKET"⟩, none, none, none, none,
    some "k", none⟩

/-- It is scanned before its window has closed, and asked about twice after. -/
def askedTwice : List OfficeEvent :=
  [.record neverAnswered, .sweep false 11000 11000 11000, .checkDrift [],
    .sweep false 16000 16000 16000, .readFailed, .checkDrift [], .sweep false 17000 17000 17000,
    .read []]

/-- The database that could not be read cost it nothing: it is found lost, once. -/
theorem judged_and_reconciled_once_askedTwice : ∃ s, office.run .initial askedTwice = some s ∧
    s.pendingIds = [] ∧ foundLost s.backoffice.anomalies = [1] := by
  obtain ⟨s, hrun, hpending, hreconciled⟩ := office.exists_run .initial askedTwice
    (P := fun s => s.pendingIds = [] ∧ s.reconciledIds = [1]) (by decide +kernel)
  have h := judged_and_reconciled_once (by decide +kernel) hrun
  exact ⟨s, hrun, hpending, h.lost.trans hreconciled⟩

end Office

end Cocos.Tools
