import Cocos.Lib.JsMap
import Cocos.Lib.Ring
import Cocos.Tools.Chaos

namespace Cocos.Tools

open Cocos.Lib

/-!
# The anomalies

`tools/src/backoffice/anomalies.store.ts`: every finding, with an id, the moment it was made and
what chaos was being injected then, in a ring of the newest five hundred that a client can clear.

* `Anomaly`, `Finding.stamped` — a finding as it is kept;
* `AnomaliesStore.record`, `recent`, `size`, `clear` — the store;
* `AnomalyCall`, `afterCalls` — a sequence of calls, and what `record` answered with;
* `ring_across_clears` — **the store shows what was recorded since the last clear**, under ids that
  are never used again.
-/

/-! ### What is kept of a finding -/

/-- What the context of an anomaly holds under a name. -/
inductive Noted
  | modes (active : List ChaosMode)
  | datum (d : Datum)
deriving DecidableEq, Repr

/-- A finding as it is kept. -/
structure Anomaly where
  id : Nat
  foundAt : Int
  rule : String
  severity : Severity
  message : String
  context : JsMap String Noted

/-- `{ chaosActive: …, ...finding.context }`. -/
def Finding.noted (finding : Finding) (active : List ChaosMode) : JsMap String Noted :=
  .ofEntries (("chaosActive", .modes active) ::
    finding.context.map fun entry => (entry.1, .datum entry.2))

/-- A finding with its id, its moment and the modes that were active. -/
def Finding.stamped (finding : Finding) (id : Nat) (active : List ChaosMode) (now : Int) :
    Anomaly where
  id := id
  foundAt := now
  rule := finding.rule
  severity := finding.severity
  message := finding.message
  context := finding.noted active

/-- **The stamp is there to be read**, on a finding that has no `chaosActive` of its own. -/
theorem Finding.get?_noted {finding : Finding} (h : "chaosActive" ∉ finding.context.map Prod.fst)
    (active : List ChaosMode) :
    (finding.noted active).get? "chaosActive" = some (.modes active) := by
  apply JsMap.get?_ofEntries_cons
  rwa [List.map_map]

/-! ### The store -/

def ANOMALIES_CAPACITY : Nat := 500

/-- The ring of anomalies, and the id the next one gets. -/
structure AnomaliesStore where
  ring : RingBuffer Anomaly
  nextId : Nat

namespace AnomaliesStore

/-- A store nothing was recorded in. -/
def empty : AnomaliesStore := ⟨.empty, 1⟩

/-- Records a finding, with the modes that are active now. -/
def record (store : AnomaliesStore) (finding : Finding) (active : List ChaosMode) (now : Int) :
    Anomaly × AnomaliesStore :=
  let anomaly := finding.stamped store.nextId active now
  (anomaly, ⟨store.ring.push ANOMALIES_CAPACITY anomaly, store.nextId + 1⟩)

/-- The newest anomalies, the newest first. -/
def recent (store : AnomaliesStore) (limit : Nat) : List Anomaly := store.ring.recent limit

def size (store : AnomaliesStore) : Nat := store.ring.buffer.length

/-- Drops every anomaly, and says how many there were; the ids keep counting. -/
def clear (store : AnomaliesStore) : Nat × AnomaliesStore :=
  (store.ring.buffer.length, { store with ring := .empty })

end AnomaliesStore

/-! ### Sequences of calls -/

/-- A call of the store; a recording reads the chaos engine and the clock. -/
inductive AnomalyCall
  | record (finding : Finding) (active : List ChaosMode) (now : Int)
  | clear

/-- One call: the store after it, and the anomalies `record` has answered with so far. -/
def AnomalyCall.answer (s : AnomaliesStore × List Anomaly) :
    AnomalyCall → AnomaliesStore × List Anomaly
  | .record finding active now =>
    let (anomaly, store) := s.1.record finding active now
    (store, s.2 ++ [anomaly])
  | .clear => (s.1.clear.2, s.2)

/-- What a sequence of calls leaves and was answered with. -/
def afterCalls (cs : List AnomalyCall) : AnomaliesStore × List Anomaly :=
  cs.foldl AnomalyCall.answer (.empty, [])

def AnomalyCall.isRecord : AnomalyCall → Bool
  | .record .. => true
  | .clear => false

/-- What a call records. -/
def AnomalyCall.found : AnomalyCall → Option (Finding × List ChaosMode × Int)
  | .record finding active now => some (finding, active, now)
  | .clear => none

/-- The findings that were recorded, each with its place in the whole sequence as its id. -/
def recordedOf (cs : List AnomalyCall) : List Anomaly :=
  (cs.filterMap AnomalyCall.found).mapIdx fun i found => found.1.stamped (i + 1) found.2.1 found.2.2

/-- How many of them were recorded since the last clear. -/
def sinceClear (cs : List AnomalyCall) : Nat := (cs.reverse.takeWhile AnomalyCall.isRecord).length

theorem sinceClear_record {cs : List AnomalyCall} {c : AnomalyCall} (h : c.isRecord = true) :
    sinceClear (cs ++ [c]) = sinceClear cs + 1 := by
  simp [sinceClear, h]

theorem sinceClear_clear (cs : List AnomalyCall) : sinceClear (cs ++ [.clear]) = 0 := by
  simp [sinceClear, AnomalyCall.isRecord]

theorem recordedOf_record (cs : List AnomalyCall) (finding : Finding) (active : List ChaosMode)
    (now : Int) : recordedOf (cs ++ [.record finding active now]) =
      recordedOf cs ++ [finding.stamped ((recordedOf cs).length + 1) active now] := by
  simp [recordedOf, AnomalyCall.found, List.filterMap_append, List.mapIdx_append]

theorem recordedOf_clear (cs : List AnomalyCall) : recordedOf (cs ++ [.clear]) = recordedOf cs := by
  rw [recordedOf, List.filterMap_append]
  exact congrArg _ (List.append_nil _)

/-- What the store holds and was answered, after a sequence of calls. -/
structure KeepsAnomalies (cs : List AnomalyCall) (s : AnomaliesStore × List Anomaly) : Prop where
  recorded : s.2 = recordedOf cs
  nextId : s.1.nextId = s.2.length + 1
  ids : s.2.map (·.id) = List.range' 1 s.2.length
  since : sinceClear cs ≤ s.2.length
  ring : s.1.ring.Holds ANOMALIES_CAPACITY (s.2.drop (s.2.length - sinceClear cs))

/-- **One call keeps it so.** -/
theorem KeepsAnomalies.answer {cs : List AnomalyCall} {s : AnomaliesStore × List Anomaly}
    (h : KeepsAnomalies cs s) (c : AnomalyCall) : KeepsAnomalies (cs ++ [c]) (c.answer s) := by
  have hlength := congrArg List.length h.recorded
  cases c with
  | record finding active now =>
    have hsince : sinceClear (cs ++ [.record finding active now]) = sinceClear cs + 1 :=
      sinceClear_record rfl
    have hpush := h.ring.push (by decide) (finding.stamped s.1.nextId active now)
    constructor
    · rw [recordedOf_record, ← hlength, ← h.nextId, ← h.recorded]
      rfl
    · show s.1.nextId + 1 = (s.2 ++ [_]).length + 1
      rw [h.nextId, List.length_append, List.length_singleton]
    · show (s.2 ++ [_]).map _ = List.range' 1 (s.2 ++ [_]).length
      rw [List.map_append, h.ids, List.length_append, List.length_singleton, List.range'_concat,
        Nat.one_mul, Nat.add_comm 1, ← h.nextId]
      rfl
    · show sinceClear _ ≤ (s.2 ++ [_]).length
      rw [hsince, List.length_append, List.length_singleton]
      exact Nat.succ_le_succ h.since
    · show RingBuffer.Holds _ _ ((s.2 ++ [_]).drop ((s.2 ++ [_]).length - sinceClear _))
      rw [hsince, List.length_append, List.length_singleton, Nat.add_sub_add_right,
        List.drop_append_of_le_length (Nat.sub_le ..)]
      exact hpush
  | clear =>
    constructor
    · rw [recordedOf_clear]
      exact h.recorded
    · exact h.nextId
    · exact h.ids
    · rw [sinceClear_clear]
      exact Nat.zero_le _
    · show RingBuffer.Holds _ .empty (s.2.drop (s.2.length - sinceClear _))
      rw [sinceClear_clear, Nat.sub_zero, List.drop_length]
      exact RingBuffer.holds_empty

theorem keepsAnomalies (cs : List AnomalyCall) : KeepsAnomalies cs (afterCalls cs) := by
  induction cs using List.reverseRecOn with
  | nil => exact ⟨rfl, rfl, rfl, le_rfl, RingBuffer.holds_empty⟩
  | append_singleton cs c ih =>
    rw [afterCalls, List.foldl_append]
    exact ih.answer c

/-- **The ring stays right across clears.**  After any calls the store shows the newest of the
    findings recorded since the last clear, newest first and five hundred at most; that is how many
    it says it holds, and how many a clear says it dropped.  The ids count all that was ever
    recorded. -/
theorem ring_across_clears (cs : List AnomalyCall) :
    let (store, recorded) := afterCalls cs
    recorded = recordedOf cs ∧
    (∀ k, store.recent k = recorded.reverse.take (min k (min (sinceClear cs) ANOMALIES_CAPACITY)) ∧
      (store.recent k).length = min k (min (sinceClear cs) ANOMALIES_CAPACITY)) ∧
    store.size = min (sinceClear cs) ANOMALIES_CAPACITY ∧ store.clear.1 = store.size ∧
    (recorded.map (·.id)).Pairwise (· < ·) := by
  have h := keepsAnomalies cs
  have hsince := h.since
  have hsize : (afterCalls cs).1.size = min (sinceClear cs) ANOMALIES_CAPACITY := by
    rw [AnomaliesStore.size, h.ring.length, List.length_drop]
    omega
  have hrecent : ∀ k, (afterCalls cs).1.recent k =
      (afterCalls cs).2.reverse.take (min k (min (sinceClear cs) ANOMALIES_CAPACITY)) := fun k => by
    rw [AnomaliesStore.recent, h.ring.recent_eq, List.reverse_drop, List.take_take]
    congr 1
    omega
  refine ⟨h.recorded, fun k => ⟨hrecent k, ?_⟩, hsize, rfl, ?_⟩
  · show ((afterCalls cs).1.recent k).length = _
    rw [hrecent k, List.length_take, List.length_reverse]
    omega
  · show ((afterCalls cs).2.map (·.id)).Pairwise (· < ·)
    rw [h.ids]
    exact List.pairwise_lt_range'

end Cocos.Tools
