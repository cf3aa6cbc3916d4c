import Cocos.Thrown
import Cocos.Tools.Instants
import Cocos.Tools.LoadService

namespace Cocos.Tools

open Cocos.Lib

/-!
# The list of the runs

`list`, `manifest` and `read` of `tools/src/history/history.service.ts`: a run is a directory under
its id with a manifest in it, which is written when the run opens and again when it is over.  A
write may be slow, may come after a later one and may fail, and there may be other things beside the
directories.

* `Opened.runId`, `runId_injective` — the id of a run, which is its instant and its mode;
* `digitBefore_runId` — **of two runs the earlier has the id that is less**, from a digit on;
* `manifest`, `list` — what is read of the disk;
* `Shelf`, `shelf` — the directories, the runs that are open and the writes on their way;
* `list_newestFirst` — **every run with a manifest is listed once, the newest first**.

`localeCompare` is the comparison of texts in the locale of the process.
-/

/-! ### Ids -/

/-- What a run is opened for. -/
inductive RunMode
  | sim
  | load (mode : LoadMode)
deriving DecidableEq

def RunMode.text : RunMode → String
  | .sim => "sim"
  | .load mode => "load-" ++ mode.text

theorem RunMode.text_injective : Function.Injective RunMode.text := by
  rintro (_ | _ | _ | _) (_ | _ | _ | _) h <;>
    first | rfl | simp [RunMode.text, LoadMode.text] at h

/-- A run that was opened, at an instant. -/
structure Opened where
  mode : RunMode
  openedAt : Int
deriving DecidableEq

def Opened.runId (run : Opened) : String := runIdFor run.mode.text (toISOString run.openedAt)

/-- `/[0-9A-Za-z-]/`. -/
def isIdChar (c : Char) : Bool := c.isAlphanum || c = '-'

/-- `RUN_ID.test(runId)`. -/
def RUN_ID (runId : String) : Bool := runId.toList ≠ [] && runId.toList.all isIdChar

/-- How an instant is written in an id. -/
def idForm : List (Nat × List Char) :=
  [(4, ['-']), (2, ['-']), (2, ['T']), (2, ['-']), (2, ['-']), (2, ['-']), (3, ['Z'])]

section Ids

variable {run run' : Opened}

theorem fits_idForm (h : FourDigits run.openedAt) : Fits idForm (fields run.openedAt) := by
  have hwidths : idForm.map Prod.fst = isoForm.map Prod.fst := rfl
  exact h.fits.of_widths hwidths

/-- An id is the record of the instant, and the mode. -/
theorem toList_runId (h : FourDigits run.openedAt) :
    run.runId.toList = record idForm (fields run.openedAt) ++ '-' :: run.mode.text.toList := by
  rw [Opened.runId, runIdFor, toISOString_eq h, String.toList_append, String.toList_append,
    String.toList_ofList, String.toList_ofList, List.append_assoc, map_record]
  · rfl
  · intro c hc
    refine if_neg ?_
    rintro (rfl | rfl) <;> cases hc

/-- **Of two runs the earlier has the id that is less**, from a digit on. -/
theorem digitBefore_runId (h : FourDigits run.openedAt) (h' : FourDigits run'.openedAt)
    (hlt : run.openedAt < run'.openedAt) : DigitBefore run.runId.toList run'.runId.toList := by
  rw [toList_runId h, toList_runId h']
  exact (digitBefore_record (fits_idForm h) (fits_idForm h') (fields_lt h hlt)).append _ _

/-- **An id is the instant and the mode of its run.** -/
theorem runId_injective (h : FourDigits run.openedAt) (h' : FourDigits run'.openedAt)
    (heq : run.runId = run'.runId) : run = run' := by
  obtain ⟨mode, ms⟩ := run
  obtain ⟨mode', ms'⟩ := run'
  have hlists := congrArg String.toList heq
  rcases Int.lt_trichotomy ms ms' with hlt | rfl | hlt
  · exact absurd hlists (digitBefore_runId h h' hlt).ne
  · rw [toList_runId h, toList_runId h', List.append_cancel_left_eq, List.cons_inj_right,
      String.toList_inj] at hlists
    exact congrArg (Opened.mk · ms) (RunMode.text_injective hlists)
  · exact absurd hlists.symm (digitBefore_runId h' h hlt).ne

/-- **Every run can be asked for by its id.** -/
theorem RUN_ID_runId (h : FourDigits run.openedAt) : RUN_ID run.runId = true := by
  have hmode : ∀ mode : RunMode, mode.text.toList.all isIdChar = true
    | .sim => by decide
    | .load .burst => by decide
    | .load .ramp => by decide
    | .load .contention => by decide
  rw [RUN_ID, toList_runId h, Bool.and_eq_true, decide_eq_true_eq, List.all_append, List.all_cons,
    hmode run.mode, Bool.and_true]
  refine ⟨List.append_ne_nil_of_right_ne_nil _ (List.cons_ne_nil _ _), ?_⟩
  rw [Bool.and_eq_true, List.all_eq_true]
  refine ⟨fun c hc => ?_, rfl⟩
  rcases mem_record hc with hdigit | ⟨field, hfield, hafter⟩
  · simp [isIdChar, Char.isAlphanum, hdigit]
  · have hform : (idForm.all fun field => field.2.all isIdChar) = true := by decide
    exact List.all_eq_true.mp (List.all_eq_true.mp hform field hfield) c hafter

end Ids

/-! ### What is read of the disk -/

/-- The name of a run and the ends of its window. -/
structure RunManifest where
  runId : String
  mode : String
  startedAt : String
  finishedAt : Option String
deriving DecidableEq

/-- What `manifest.json` holds: a write may be cut short. -/
inductive ManifestFile
  | missing
  | torn
  | whole (manifest : RunManifest)
deriving DecidableEq

inductive DirEntry
  | file
  | directory (manifest : ManifestFile)
deriving DecidableEq

def DirEntry.isDirectory : DirEntry → Bool
  | .file => false
  | .directory _ => true

/-- What a manifest that cannot be had is answered with. -/
inductive ReadError
  | thrown (error : Thrown)
  | syntaxError
deriving DecidableEq

namespace HistoryService

/-- `read` of the manifest, and what is parsed of it. -/
def manifest (root : JsMap String DirEntry) (runId : String) : Except ReadError RunManifest :=
  if RUN_ID runId then
    match root.get? runId with
    | some (.directory (.whole manifest)) => .ok manifest
    | some (.directory .torn) => .error .syntaxError
    | _ => .error (.thrown (.notFound s!"No manifest was written for run {runId}"))
  else .error (.thrown (.badRequest s!"{runId} is not a run id"))

/-- The runs, of what is in the directory of them all, as `readdir` has it. -/
def list (localeCompare : String → String → Ordering) (root : JsMap String DirEntry)
    (entries : List (String × DirEntry)) : List RunManifest :=
  sortBy (fun a b => localeCompare b.runId a.runId) <|
    (entries.filter (·.2.isDirectory)).filterMap fun entry => (manifest root entry.1).toOption

end HistoryService

section Manifest

variable {root : JsMap String DirEntry} {runId : String} {m : RunManifest}

theorem manifest_eq_ok : HistoryService.manifest root runId = .ok m ↔
    RUN_ID runId = true ∧ root.get? runId = some (.directory (.whole m)) := by
  unfold HistoryService.manifest
  by_cases hid : RUN_ID runId = true
  · rw [if_pos hid, and_iff_right hid]
    cases root.get? runId with
    | none => simp
    | some entry =>
      cases entry with
      | file => simp
      | directory file => cases file <;> simp
  · rw [if_neg hid]
    exact ⟨nofun, fun h => absurd h.1 hid⟩

theorem toOption_manifest : (HistoryService.manifest root runId).toOption = some m ↔
    RUN_ID runId = true ∧ root.get? runId = some (.directory (.whole m)) := by
  rw [← manifest_eq_ok]
  cases HistoryService.manifest root runId <;> simp [Except.toOption]

end Manifest

/-! ### The disk and the writes -/

/-- How far a write has come: the file is cut, or it has all that was to be written, or the disk
    gave way. -/
inductive WriteProgress
  | begun
  | done
  | failed

/-- What is written of a run when it opens. -/
def Opened.manifest (run : Opened) : RunManifest :=
  ⟨run.runId, run.mode.text, toISOString run.openedAt, none⟩

/-- What is in the directory of the runs, the runs that are open with their manifests, and the writes
    of manifests on their way.  What was opened is read by nobody. -/
structure Shelf where
  root : JsMap String DirEntry
  running : JsMap String RunManifest
  writes : List RunManifest
  opened : List Opened

/-- A run is opened, given up or finished, a write gets on, or something else is put beside the
    runs. -/
inductive ShelfEvent
  | openRun (run : Opened)
  | disown (runId : String)
  | finish (runId : String) (now : Int)
  | write (index : Nat) (progress : WriteProgress)
  | stray (name : String) (entry : DirEntry)

/-- The clock shows a year of four digits when a run is opened. -/
def ShelfEvent.Dated : ShelfEvent → Prop
  | .openRun run => FourDigits run.openedAt
  | _ => True

instance : ∀ e : ShelfEvent, Decidable e.Dated
  | .openRun _ => inferInstanceAs (Decidable (FourDigits _))
  | .disown _ | .finish _ _ | .write _ _ | .stray _ _ => isTrue trivial

namespace Shelf

def initial : Shelf := ⟨.empty, .empty, [], []⟩

/-- `mkdirSync(dir, { recursive: true })`: a directory that is there stays as it is. -/
def mkdir (root : JsMap String DirEntry) (name : String) : JsMap String DirEntry :=
  match root.get? name with
  | some _ => root
  | none => root.set name (.directory .missing)

/-- Opens a run whose directory can be had, and sets out to write its manifest. -/
def openRun (s : Shelf) (run : Opened) : Shelf :=
  { root := mkdir s.root run.runId
    running := s.running.set run.runId run.manifest
    writes := s.writes ++ [run.manifest]
    opened := s.opened ++ [run] }

/-- Finishes a run that is open, and sets out to write its manifest again. -/
def finish (s : Shelf) (runId : String) (now : Int) : Shelf :=
  match s.running.get? runId with
  | none => s
  | some manifest =>
    { s with
      running := s.running.delete runId
      writes := s.writes ++ [{ manifest with finishedAt := some (toISOString now) }] }

/-- A write gets on: it cuts what was there, puts all of the manifest in its place, or fails. -/
def write (s : Shelf) (index : Nat) (manifest : RunManifest) : WriteProgress → Shelf
  | .begun => { s with root := s.root.set manifest.runId (.directory .torn) }
  | .done =>
    { s with
      root := s.root.set manifest.runId (.directory (.whole manifest))
      writes := s.writes.eraseIdx index }
  | .failed =>
    { s with
      running := s.running.delete manifest.runId
      writes := s.writes.eraseIdx index }

def step (s : Shelf) : ShelfEvent → Option Shelf
  | .openRun run => if s.root.get? run.runId = some .file then none else some (s.openRun run)
  | .disown runId => some { s with running := s.running.delete runId }
  | .finish runId now => some (s.finish runId now)
  | .write index progress =>
    s.writes[index]?.map fun manifest => s.write index manifest progress
  -- nobody else writes a manifest
  | .stray name entry =>
    if s.root.get? name = none ∧ (entry = .file ∨ entry = .directory .missing) then
      some { s with root := s.root.set name entry }
    else none

end Shelf

/-- The machine of the directories of the runs. -/
def shelf : Machine Shelf ShelfEvent := ⟨Shelf.step⟩

/-! ### The list -/

/-- A manifest of a run. -/
structure RunManifest.IsOf (m : RunManifest) (run : Opened) : Prop where
  runId : m.runId = run.runId
  mode : m.mode = run.mode.text
  startedAt : m.startedAt = toISOString run.openedAt

theorem Opened.isOf_manifest (run : Opened) : run.manifest.IsOf run := ⟨rfl, rfl, rfl⟩

namespace Shelf

variable {s s' : Shelf} {e : ShelfEvent} {m : RunManifest}

/-- A manifest of one of the runs that were opened. -/
def Tells (s : Shelf) (m : RunManifest) : Prop := ∃ run ∈ s.opened, m.IsOf run

/-- Every manifest is of a run that was opened, and is kept under its id. -/
structure Kept (s : Shelf) : Prop where
  dated : ∀ run ∈ s.opened, FourDigits run.openedAt
  root : ∀ name m, s.root.get? name = some (.directory (.whole m)) → m.runId = name ∧ s.Tells m
  running : ∀ name m, s.running.get? name = some m → m.runId = name ∧ s.Tells m
  writes : ∀ m ∈ s.writes, s.Tells m

theorem kept_initial : Kept initial where
  dated := nofun
  root := nofun
  running := nofun
  writes := nofun

theorem tells_manifest (s : Shelf) (run : Opened) : (s.openRun run).Tells run.manifest :=
  ⟨run, List.mem_append_right _ (List.mem_singleton_self _), run.isOf_manifest⟩

theorem Tells.openRun (h : s.Tells m) (run : Opened) : (s.openRun run).Tells m :=
  h.imp fun _ ⟨hmem, hof⟩ => ⟨List.mem_append_left _ hmem, hof⟩

/-- What is written is the manifest of a run. -/
theorem Kept.write (h : s.Kept) {index : Nat} {m : RunManifest} (hm : s.writes[index]? = some m)
    (progress : WriteProgress) : (s.write index m progress).Kept := by
  have htells := h.writes m (List.mem_of_getElem? hm)
  cases progress with
  | begun =>
    refine ⟨h.dated, fun name m' hget => ?_, h.running, h.writes⟩
    have hget' : (s.root.set m.runId _).get? name = _ := hget
    rw [JsMap.get?_set] at hget'
    split at hget'
    · cases hget'
    · exact h.root name m' hget'
  | done =>
    refine ⟨h.dated, fun name m' hget => ?_, h.running,
      fun m' hm' => h.writes m' (List.mem_of_mem_eraseIdx hm')⟩
    have hget' : (s.root.set m.runId _).get? name = _ := hget
    rw [JsMap.get?_set] at hget'
    split at hget'
    · rename_i heq
      cases hget'
      exact ⟨heq.symm, htells⟩
    · exact h.root name m' hget'
  | failed =>
    exact ⟨h.dated, h.root, fun name m' hget => h.running name m' (JsMap.get?_of_get?_delete hget),
      fun m' hm' => h.writes m' (List.mem_of_mem_eraseIdx hm')⟩

theorem Kept.openRun (h : s.Kept) {run : Opened} (hdated : FourDigits run.openedAt) :
    (s.openRun run).Kept where
  dated := forall_mem_concat h.dated hdated
  root name m hget := by
    have hget' : (mkdir s.root run.runId).get? name = _ := hget
    unfold mkdir at hget'
    split at hget'
    · exact (h.root name m hget').imp_right (·.openRun run)
    · rw [JsMap.get?_set] at hget'
      split at hget'
      · cases hget'
      · exact (h.root name m hget').imp_right (·.openRun run)
  running name m hget := by
    have hget' : (s.running.set run.runId run.manifest).get? name = some m := hget
    rw [JsMap.get?_set] at hget'
    split at hget'
    · rename_i heq
      obtain rfl := Option.some.inj hget'
      exact ⟨heq.symm, s.tells_manifest run⟩
    · exact (h.running name m hget').imp_right (·.openRun run)
  writes := forall_mem_concat (fun m hm => (h.writes m hm).openRun run) (s.tells_manifest run)

theorem Kept.finish (h : s.Kept) (runId : String) (now : Int) : (s.finish runId now).Kept := by
  unfold Shelf.finish
  cases hget : s.running.get? runId with
  | none => exact h
  | some m =>
    obtain ⟨-, run, hrun, hof⟩ := h.running runId m hget
    refine ⟨h.dated, h.root, fun name m' hget' => h.running name m' (JsMap.get?_of_get?_delete hget'), ?_⟩
    exact forall_mem_concat h.writes ⟨run, hrun, hof.runId, hof.mode, hof.startedAt⟩

/-- **Every step keeps the manifests.** -/
theorem Kept.step (h : s.Kept) (hdated : e.Dated) (hstep : shelf.step s e = some s') : s'.Kept := by
  cases e with
  | openRun run =>
    obtain ⟨-, heq⟩ := Option.ite_none_left_eq_some.mp hstep
    cases heq
    exact h.openRun hdated
  | disown runId =>
    cases hstep
    exact ⟨h.dated, h.root, fun name m hget => h.running name m (JsMap.get?_of_get?_delete hget), h.writes⟩
  | finish runId now =>
    cases hstep
    exact h.finish runId now
  | write index progress =>
    obtain ⟨m, hm, rfl⟩ := Option.map_eq_some_iff.mp hstep
    exact h.write hm progress
  | stray name entry =>
    obtain ⟨⟨-, hentry⟩, heq⟩ := Option.ite_none_right_eq_some.mp hstep
    cases heq
    refine ⟨h.dated, fun name' m hget => ?_, h.running, h.writes⟩
    have hget' : (s.root.set name entry).get? name' = _ := hget
    rw [JsMap.get?_set] at hget'
    split at hget'
    · rcases hentry with rfl | rfl <;> cases hget'
    · exact h.root name' m hget'

theorem kept_run {es : List ShelfEvent} (hdated : ∀ e ∈ es, e.Dated)
    (hrun : shelf.run initial es = some s) : s.Kept :=
  shelf.invariant_along (fun h hdated hstep => h.step hdated hstep) kept_initial
    (shelf.along_of_forall hdated) hrun

end Shelf

/-- A comparison of texts that reads them from the left, and their digits in the usual order. -/
def ReadsDigits (localeCompare : String → String → Ordering) : Prop :=
  ∀ a b, RUN_ID a = true → RUN_ID b = true → DigitBefore a.toList b.toList →
    localeCompare a b = .lt

/-- What is listed: the runs whose manifests are whole, each once and the newest first, and each can
    be asked for. -/
structure Shelf.Lists (s : Shelf) (runs : List Opened) (shown : List RunManifest) : Prop where
  manifests : List.Forall₂ (fun m run => m.IsOf run) shown runs
  newestFirst : runs.Pairwise fun run run' => run'.openedAt ≤ run.openedAt
  once : runs.Nodup
  exact : ∀ run, run ∈ runs ↔ run ∈ s.opened ∧
    ∃ m, s.root.get? run.runId = some (.directory (.whole m))
  answered : ∀ m ∈ shown, HistoryService.manifest s.root m.runId = .ok m

namespace Shelf

variable {s : Shelf} {localeCompare : String → String → Ordering} {m m' : RunManifest}
  {entries : List (String × DirEntry)}

/-- **What is listed** are the manifests that are whole. -/
theorem Kept.mem_list (h : s.Kept) (localeCompare : String → String → Ordering)
    (hentries : entries.Perm s.root.entries) :
    m ∈ HistoryService.list localeCompare s.root entries ↔
      s.root.get? m.runId = some (.directory (.whole m)) := by
  rw [HistoryService.list, (sortBy_perm _ _).mem_iff, List.mem_filterMap]
  constructor
  · rintro ⟨⟨name, entry⟩, -, hm⟩
    obtain ⟨-, hget⟩ := toOption_manifest.mp hm
    rwa [(h.root name m hget).1]
  · intro hget
    obtain ⟨-, run, hrun, hof⟩ := h.root m.runId m hget
    have hmem := hentries.symm.subset ((JsMap.lookup_eq_some_iff s.root.nodup).mp hget)
    refine ⟨_, List.mem_filter.mpr ⟨hmem, rfl⟩, toOption_manifest.mpr ⟨?_, hget⟩⟩
    rw [hof.runId]
    exact RUN_ID_runId (h.dated run hrun)

/-- **No manifest is listed twice.** -/
theorem Kept.nodup_list (h : s.Kept) (localeCompare : String → String → Ordering)
    (hentries : entries.Perm s.root.entries) :
    (HistoryService.list localeCompare s.root entries).Nodup := by
  have hnames : ((entries.filter (·.2.isDirectory)).map Prod.fst).Nodup :=
    ((hentries.map Prod.fst).nodup_iff.mpr s.root.nodup).sublist (List.filter_sublist.map _)
  refine (sortBy_perm _ _).nodup_iff.mpr ?_
  have hcomp : ((entries.filter (·.2.isDirectory)).filterMap fun entry =>
      (HistoryService.manifest s.root entry.1).toOption) =
      ((entries.filter (·.2.isDirectory)).map Prod.fst).filterMap fun name =>
        (HistoryService.manifest s.root name).toOption := by
    rw [List.filterMap_map]
    rfl
  rw [hcomp]
  refine hnames.filterMap fun name name' m hm hm' => ?_
  obtain ⟨-, hget⟩ := toOption_manifest.mp hm
  obtain ⟨-, hget'⟩ := toOption_manifest.mp hm'
  exact (h.root name m hget).1.symm.trans (h.root name' m hget').1

/-- **What is listed first is no older.** -/
theorem newest_of_isLE [Std.TransCmp localeCompare] (hreads : ReadsDigits localeCompare)
    {run run' : Opened} (hdated : FourDigits run.openedAt) (hdated' : FourDigits run'.openedAt)
    (h : (localeCompare run'.runId run.runId).isLE = true) : run'.openedAt ≤ run.openedAt := by
  by_contra hlt
  have hbefore := hreads run.runId run'.runId (RUN_ID_runId hdated) (RUN_ID_runId hdated')
    (digitBefore_runId hdated hdated' (Int.not_le.mp hlt))
  have hswap : localeCompare run'.runId run.runId =
      (localeCompare run.runId run'.runId).swap := Std.OrientedCmp.eq_swap
  rw [hswap, hbefore] at h
  cases h

/-- **The list of the runs** has every run that was opened and whose manifest is whole, once, the
    newest first, whatever order the directories are read in. -/
theorem list_newestFirst [Std.TransCmp localeCompare] (hreads : ReadsDigits localeCompare)
    {es : List ShelfEvent} (hdated : ∀ e ∈ es, e.Dated) (hrun : shelf.run initial es = some s)
    (hentries : entries.Perm s.root.entries) :
    ∃ runs, s.Lists runs (HistoryService.list localeCompare s.root entries) := by
  have h := kept_run hdated hrun
  have hmem := fun m => h.mem_list (m := m) localeCompare hentries
  have hnodup := h.nodup_list localeCompare hentries
  have : Std.TransCmp fun a b : RunManifest => localeCompare b.runId a.runId :=
    { eq_swap := Std.OrientedCmp.eq_swap
      isLE_trans := fun hab hbc => Std.TransCmp.isLE_trans hbc hab }
  have hsorted : (HistoryService.list localeCompare s.root entries).Pairwise fun a b =>
      (localeCompare b.runId a.runId).isLE = true := pairwise_sortBy _
  generalize HistoryService.list localeCompare s.root entries = shown at *
  have htold : ∀ m, ∃ run, m ∈ shown → run ∈ s.opened ∧ m.IsOf run := fun m => by
    by_cases hm : m ∈ shown
    · obtain ⟨run, hrun, hof⟩ := (h.root _ m ((hmem m).mp hm)).2
      exact ⟨run, fun _ => ⟨hrun, hof⟩⟩
    · exact ⟨⟨.sim, 0⟩, fun hm' => absurd hm' hm⟩
  choose runOf hrunOf using htold
  refine ⟨shown.map runOf, ?_⟩
  constructor
  case manifests =>
    rw [List.forall₂_map_right_iff, List.forall₂_same]
    exact fun m hm => (hrunOf m hm).2
  case newestFirst =>
    rw [List.pairwise_map]
    refine hsorted.imp_of_mem fun {a b} ha hb hle => ?_
    obtain ⟨hopened, hof⟩ := hrunOf a ha
    obtain ⟨hopened', hof'⟩ := hrunOf b hb
    rw [hof.runId, hof'.runId] at hle
    exact newest_of_isLE hreads (h.dated _ hopened) (h.dated _ hopened') hle
  case once =>
    refine hnodup.map_on fun a ha b hb heq => ?_
    have hid : a.runId = b.runId := by rw [(hrunOf a ha).2.runId, (hrunOf b hb).2.runId, heq]
    have hget := (hmem a).mp ha
    rw [hid, (hmem b).mp hb] at hget
    cases hget
    rfl
  case exact =>
    refine fun run => ⟨fun hrun => ?_, fun ⟨hopened, m, hget⟩ => ?_⟩
    · obtain ⟨m, hm, rfl⟩ := List.mem_map.mp hrun
      exact ⟨(hrunOf m hm).1, m, (hrunOf m hm).2.runId ▸ (hmem m).mp hm⟩
    · have hid := (h.root _ m hget).1
      have hm : m ∈ shown := (hmem m).mpr (hid ▸ hget)
      obtain ⟨hopened', hof⟩ := hrunOf m hm
      refine List.mem_map.mpr ⟨m, hm, runId_injective (h.dated _ hopened') (h.dated _ hopened) ?_⟩
      rw [← hof.runId, hid]
  case answered =>
    intro m hm
    obtain ⟨hopened, hof⟩ := hrunOf m hm
    refine manifest_eq_ok.mpr ⟨?_, (hmem m).mp hm⟩
    rw [hof.runId]
    exact RUN_ID_runId (h.dated _ hopened)

/-- The order of the characters reads digits. -/
theorem readsDigits_compare : ReadsDigits compare := fun _ _ _ _ h =>
  compare_lt_iff_lt.mpr (String.lt_iff_toList_lt.mpr h.lt)

/-- A simulation, and a load run that opens while it is open and is over first; the second manifest
    of the load run is written before its first, and the simulation's second is cut short. -/
def overlapping : List ShelfEvent :=
  let sim : Opened := ⟨.sim, 1767225600000⟩
  let burst : Opened := ⟨.load .burst, 1767225601000⟩
  [.stray ".DS_Store" .file, .openRun sim, .write 0 .done, .openRun burst,
    .finish burst.runId 1767225602000, .write 1 .done, .write 0 .begun, .write 0 .done,
    .stray "notes" (.directory .missing), .finish sim.runId 1767225603000]

theorem list_newestFirst_overlapping : ∃ s, shelf.run initial overlapping = some s ∧
    (HistoryService.list compare s.root s.root.entries.reverse).map (·.runId) =
      ["2026-01-01T00-00-01-000Z-load-burst", "2026-01-01T00-00-00-000Z-sim"] ∧
    ∃ runs, s.Lists runs (HistoryService.list compare s.root s.root.entries.reverse) := by
  obtain ⟨s, hrun, hshown⟩ := shelf.exists_run initial overlapping
    (P := fun s => (HistoryService.list compare s.root s.root.entries.reverse).map (·.runId) =
      ["2026-01-01T00-00-01-000Z-load-burst", "2026-01-01T00-00-00-000Z-sim"])
    (by decide +kernel)
  exact ⟨s, hrun, hshown,
    list_newestFirst readsDigits_compare (by decide +kernel) hrun (List.reverse_perm _)⟩

end Shelf

end Cocos.Tools
