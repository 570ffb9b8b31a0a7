import Mathlib.Data.List.Induction
import Mathlib.Data.List.Nodup
import RegisterMachine.Machine.Scheduler

/-!
# The scheduler's books balance

What the books say is decided by their history, the entries that have been made from the start on:
`Scheduler.registered` and `Scheduler.ended` read off it which workers there have been and which of
them have ended, without looking at the books. A worker is ended by the first completion that names
it after it was counted in. A completion that names nobody, or somebody for the second time, is in the
history like every other and ends nobody.

**`Scheduler.books_balance`** compares the two. The four parts of the books are kept one after the
other by `register` and `complete`, and the invariant behind it is that they never come apart:
the counter is the length of the list of live workers, and this list and the failures are what the
history says.
-/

namespace RegisterMachine

/-- The failure of a worker that ended like this, if it is one. -/
def Outcome.failure? (worker : WorkerInstance) : Outcome → Option WorkerFailure
  | .ok _ => none
  | .error fault => some ⟨worker, fault⟩

namespace Scheduler

/-! ## One entry -/

variable {s : Scheduler} {w : WorkerInstance}

/-- Where ids are unique, looking for the id of a worker finds the worker. -/
theorem find?_id {workers : List WorkerInstance} (hn : (workers.map WorkerInstance.id).Nodup)
    (hw : w ∈ workers) : workers.find? (fun v => v.id == w.id) = some w := by
  cases hf : workers.find? fun v => v.id == w.id with
  | none => exact absurd (List.find?_eq_none.mp hf w hw) (by simp)
  | some v =>
    have hid : v.id = w.id := by simpa using List.find?_some hf
    rw [List.inj_on_of_nodup_map hn (List.mem_of_find?_eq_some hf) hw hid]

/-- Counting out a worker that is at work. -/
theorem complete_of_mem (hn : (s.live.map WorkerInstance.id).Nodup) (hw : w ∈ s.live)
    (outcome : Outcome) :
    s.complete w.id outcome =
      { s with
        live := s.live.erase w
        inFlight := s.inFlight - 1
        failures := s.failures ++ (outcome.failure? w).toList } := by
  -- ids are unique, so this worker is the only one to go
  have hfilter : s.live.filter (fun v => v.id != w.id) = s.live.erase w := by
    rw [(hn.of_map).erase_eq_filter]
    refine List.filter_congr fun v hv => ?_
    by_cases he : v = w
    · rw [he, bne_self_eq_false, bne_self_eq_false]
    · have hid : v.id ≠ w.id := fun h => he (List.inj_on_of_nodup_map hn hv hw h)
      rw [bne_iff_ne.mpr he, bne_iff_ne.mpr hid]
  unfold complete
  rw [find?_id hn hw]
  dsimp only
  rw [hfilter]
  cases outcome with
  | ok values => simp [Outcome.failure?]
  | error fault => rfl

/-- Counting out nobody. -/
theorem complete_of_unknown {id : Nat} (h : ∀ v ∈ s.live, v.id ≠ id) (outcome : Outcome) :
    s.complete id outcome = s := by
  have hfind : s.live.find? (fun v => v.id == id) = none :=
    List.find?_eq_none.mpr fun v hv => by simpa using h v hv
  unfold complete
  rw [hfind]

/-! ## Histories -/

/-- What is entered in the books. -/
inductive Entry
  | register (function : FunctionId) (functionName workerName : String)
  | complete (id : Nat) (outcome : Outcome)

def enter (s : Scheduler) : Entry → Scheduler
  | .register function functionName workerName =>
      (s.register function functionName workerName).1
  | .complete id outcome => s.complete id outcome

/-- The books after a history. -/
def after (history : List Entry) : Scheduler := history.foldl enter .start

/-- The worker that an entry counts in, when it is given an id. -/
def Entry.instance? (id : Nat) : Entry → Option WorkerInstance
  | .register function functionName workerName => some { id, function, functionName, workerName }
  | .complete _ _ => none

/-- The workers that a history counts in. Ids are given from 1 on. -/
def registered (history : List Entry) : List WorkerInstance :=
  history.foldl (fun workers e => workers ++ (e.instance? (workers.length + 1)).toList) []

/-- The worker that the entry at `k` names, and how that ended: the entry is a completion, and the
worker has been counted in before it. -/
def named? (history : List Entry) (k : Nat) : Option (WorkerInstance × Outcome) :=
  match history[k]? with
  | some (.complete id outcome) =>
      ((registered (history.take k)).find? fun w => w.id == id).map (·, outcome)
  | _ => none

/-- The worker that the entry at `k` is the first to name. -/
def firstNamed? (history : List Entry) (k : Nat) : Option (WorkerInstance × Outcome) :=
  (named? history k).filter fun e =>
    (List.range k).all fun j => (named? history j).map Prod.fst ≠ some e.1

/-- The workers that have ended, in that order, and how. -/
def ended (history : List Entry) : List (WorkerInstance × Outcome) :=
  (List.range history.length).filterMap (firstNamed? history)

/-- The workers that have been counted in and have not ended. -/
def unended (history : List Entry) : List WorkerInstance :=
  (registered history).filter fun w => w ∉ (ended history).map Prod.fst

/-! ## The next entry -/

section Next

variable (history : List Entry) (e : Entry)

theorem after_concat : after (history ++ [e]) = (after history).enter e := by
  simp [after]

theorem registered_concat :
    registered (history ++ [e]) =
      registered history ++ (e.instance? ((registered history).length + 1)).toList := by
  simp [registered]

theorem named?_concat {k : Nat} (hk : k < history.length) :
    named? (history ++ [e]) k = named? history k := by
  unfold named?
  rw [List.getElem?_append_left hk, List.take_append_of_le_length (Nat.le_of_lt hk)]

theorem firstNamed?_concat {k : Nat} (hk : k < history.length) :
    firstNamed? (history ++ [e]) k = firstNamed? history k := by
  unfold firstNamed?
  rw [named?_concat history e hk]
  congr 1
  funext x
  rw [Bool.eq_iff_iff, List.all_eq_true, List.all_eq_true]
  refine forall₂_congr fun j hj => ?_
  rw [named?_concat history e (Nat.lt_trans (List.mem_range.mp hj) hk)]

theorem ended_concat :
    ended (history ++ [e]) =
      ended history ++ (firstNamed? (history ++ [e]) history.length).toList := by
  unfold ended
  rw [List.length_append, List.length_singleton, List.range_succ, List.filterMap_append]
  have hbefore : (List.range history.length).filterMap (firstNamed? (history ++ [e]))
      = (List.range history.length).filterMap (firstNamed? history) :=
    List.filterMap_congr fun k hk => firstNamed?_concat history e (List.mem_range.mp hk)
  rw [hbefore]
  rfl

/-- The last entry of a history, and the one worker it can be about. -/
theorem named?_last (id : Nat) (outcome : Outcome) :
    named? (history ++ [.complete id outcome]) history.length =
      ((registered history).find? fun w => w.id == id).map (·, outcome) := by
  unfold named?
  rw [List.getElem?_append_right (Nat.le_refl _), Nat.sub_self, List.take_left]
  rfl

end Next

/-- Whoever is named has ended, by then or before. -/
theorem mem_ended_iff (history : List Entry) (w : WorkerInstance) :
    w ∈ (ended history).map Prod.fst ↔
      ∃ k < history.length, (named? history k).map Prod.fst = some w := by
  constructor
  · intro hw
    obtain ⟨x, hx, rfl⟩ := List.mem_map.mp hw
    obtain ⟨k, hk, hx⟩ := List.mem_filterMap.mp hx
    refine ⟨k, List.mem_range.mp hk, ?_⟩
    rw [(Option.filter_eq_some_iff.mp hx).1]
    rfl
  · rintro ⟨k, hk, hw⟩
    -- the first entry that names it, which need not be the one at hand
    induction k using Nat.strongRecOn with
    | ind k ih =>
      by_cases hearlier : ∃ j < k, (named? history j).map Prod.fst = some w
      · obtain ⟨j, hj, hw⟩ := hearlier
        exact ih j hj (Nat.lt_trans hj hk) hw
      · obtain ⟨x, hx, rfl⟩ := Option.map_eq_some_iff.mp hw
        refine List.mem_map.mpr ⟨x, List.mem_filterMap.mpr ⟨k, List.mem_range.mpr hk, ?_⟩, rfl⟩
        refine Option.filter_eq_some_iff.mpr ⟨hx, List.all_eq_true.mpr fun j hj => ?_⟩
        simp only [decide_eq_true_eq]
        exact fun h => hearlier ⟨j, List.mem_range.mp hj, h⟩

/-- No worker ends twice. -/
theorem nodup_ended (history : List Entry) : ((ended history).map Prod.fst).Nodup := by
  unfold ended
  rw [List.Nodup, List.pairwise_map, List.pairwise_filterMap]
  refine List.pairwise_lt_range.imp fun {j k} hjk x hx y hy he => ?_
  have hfirst := (Option.filter_eq_some_iff.mp hy).2
  rw [List.all_eq_true] at hfirst
  have hj := hfirst j (List.mem_range.mpr hjk)
  rw [(Option.filter_eq_some_iff.mp hx).1, ← he] at hj
  simp at hj

/-! ## The invariant -/

/-- The books say what the history says. -/
structure Agrees (s : Scheduler) (history : List Entry) : Prop where
  nextId : s.nextId = (registered history).length + 1
  ids : (registered history).map WorkerInstance.id = List.range' 1 (registered history).length
  ended (x : WorkerInstance × Outcome) : x ∈ ended history → x.1 ∈ registered history
  live : s.live = unended history
  inFlight : s.inFlight = s.live.length
  failures : s.failures = (Scheduler.ended history).filterMap fun x => x.2.failure? x.1

namespace Agrees

variable {history : List Entry}

theorem nodup_registered (h : s.Agrees history) :
    ((registered history).map WorkerInstance.id).Nodup := by
  rw [h.ids]
  exact List.nodup_range'

theorem nodup_live (h : s.Agrees history) : (s.live.map WorkerInstance.id).Nodup := by
  rw [h.live]
  exact h.nodup_registered.sublist (List.filter_sublist.map _)

theorem id_le (h : s.Agrees history) {w : WorkerInstance} (hw : w ∈ registered history) :
    w.id ≤ (registered history).length := by
  have : w.id ∈ (registered history).map WorkerInstance.id := List.mem_map_of_mem hw
  rw [h.ids, List.mem_range'_1] at this
  omega

/-- An entry that ends nobody. -/
theorem ended_concat_of_none {e : Entry}
    (he : firstNamed? (history ++ [e]) history.length = none) :
    Scheduler.ended (history ++ [e]) = Scheduler.ended history := by
  rw [ended_concat, he, Option.toList_none, List.append_nil]

theorem register (h : s.Agrees history) (function : FunctionId) (name worker : String) :
    (s.enter (.register function name worker)).Agrees
      (history ++ [.register function name worker]) := by
  have hnone : firstNamed? (history ++ [.register function name worker]) history.length = none := by
    unfold firstNamed? named?
    rw [List.getElem?_append_right (Nat.le_refl _), Nat.sub_self]
    rfl
  have hended := ended_concat_of_none hnone
  have hreg : registered (history ++ [.register function name worker])
      = registered history ++ [⟨s.nextId, function, name, worker⟩] := by
    rw [registered_concat, ← h.nextId]
    rfl
  -- the new worker has an id that no worker had, so it is none of those that have ended
  have hnew : (⟨s.nextId, function, name, worker⟩ : WorkerInstance) ∉
      (Scheduler.ended history).map Prod.fst := by
    intro hm
    obtain ⟨x, hx, he⟩ := List.mem_map.mp hm
    have hle := h.id_le (h.ended x hx)
    have hnext := h.nextId
    rw [he] at hle
    dsimp only at hle
    omega
  exact {
    nextId := by
      rw [hreg, List.length_append]
      exact congrArg (· + 1) h.nextId
    ids := by
      rw [hreg, List.map_append, List.length_append, h.ids, List.length_singleton,
        List.range'_1_concat, List.map_singleton, h.nextId, Nat.add_comm 1]
    ended := fun x hx => by
      rw [hended] at hx
      rw [hreg]
      exact List.mem_append_left _ (h.ended x hx)
    live := by
      rw [unended, hended, hreg, List.filter_append]
      show s.live ++ [_] = _
      rw [h.live, unended]
      congr 1
      refine (List.filter_eq_self.mpr fun w hw => ?_).symm
      rw [List.mem_singleton.mp hw]
      exact decide_eq_true hnew
    inFlight := by
      show s.inFlight + 1 = (s.live ++ [_]).length
      rw [List.length_append, h.inFlight]
      rfl
    failures := by
      rw [hended]
      exact h.failures }

/-- Somebody has not ended exactly when no entry has named it. -/
theorem not_mem_ended_iff (e : Entry) (w : WorkerInstance) :
    w ∉ (Scheduler.ended history).map Prod.fst ↔
      (List.range history.length).all (fun j =>
        (named? (history ++ [e]) j).map Prod.fst ≠ some w) = true := by
  rw [mem_ended_iff, List.all_eq_true]
  simp only [List.mem_range, decide_eq_true_eq, not_exists, not_and]
  refine forall₂_congr fun j hj => ?_
  rw [named?_concat history _ hj]

theorem registered_complete (history : List Entry) (id : Nat) (outcome : Outcome) :
    registered (history ++ [.complete id outcome]) = registered history := by
  rw [registered_concat]
  exact List.append_nil _

/-- A completion of somebody at work. -/
theorem complete_live (h : s.Agrees history) (hw : w ∈ s.live) (outcome : Outcome) :
    (s.enter (.complete w.id outcome)).Agrees (history ++ [.complete w.id outcome]) := by
  have hreg := registered_complete history w.id outcome
  have hw' := hw
  rw [h.live, unended, List.mem_filter, decide_eq_true_eq] at hw'
  obtain ⟨hwreg, hwend⟩ := hw'
  -- `w` has not ended, so nothing before has named it
  have hfirst : firstNamed? (history ++ [.complete w.id outcome]) history.length
      = some (w, outcome) := by
    have hnamed := named?_last history w.id outcome
    rw [find?_id h.nodup_registered hwreg] at hnamed
    exact Option.filter_eq_some_iff.mpr ⟨hnamed, (not_mem_ended_iff _ w).mp hwend⟩
  have hended : Scheduler.ended (history ++ [.complete w.id outcome])
      = Scheduler.ended history ++ [(w, outcome)] := by
    rw [ended_concat, hfirst]
    rfl
  have hdone : s.enter (.complete w.id outcome) = _ := complete_of_mem h.nodup_live hw outcome
  rw [hdone]
  exact {
    nextId := hreg ▸ h.nextId
    ids := hreg ▸ h.ids
    ended := fun x hx => by
      rw [hreg]
      rw [hended] at hx
      rcases List.mem_append.mp hx with hx | hx
      · exact h.ended x hx
      · rw [List.mem_singleton.mp hx]
        exact hwreg
    live := by
      show s.live.erase w = _
      rw [h.nodup_live.of_map.erase_eq_filter, h.live, unended, unended, hreg, hended,
        List.filter_filter]
      refine List.filter_congr fun v _ => ?_
      rw [Bool.eq_iff_iff]
      simp [and_comm]
    inFlight := by
      show s.inFlight - 1 = (s.live.erase w).length
      rw [List.length_erase_of_mem hw, h.inFlight]
    failures := by
      show s.failures ++ (outcome.failure? w).toList = _
      rw [hended, List.filterMap_append, h.failures]
      cases outcome with
      | ok values => rfl
      | error fault => rfl }

/-- A completion of nobody at work. -/
theorem complete_unknown (h : s.Agrees history) {id : Nat} (hid : ∀ v ∈ s.live, v.id ≠ id)
    (outcome : Outcome) :
    (s.enter (.complete id outcome)).Agrees (history ++ [.complete id outcome]) := by
  have hreg := registered_complete history id outcome
  have hfirst : firstNamed? (history ++ [.complete id outcome]) history.length = none := by
    unfold firstNamed?
    rw [named?_last]
    cases hf : (registered history).find? fun v => v.id == id with
    | none => rfl
    | some w =>
      -- a worker that is not at work has ended, and then it has been named
      have hwend : ¬ w ∉ (Scheduler.ended history).map Prod.fst := by
        intro hn
        refine hid w ?_ (by simpa using List.find?_some hf)
        rw [h.live, unended, List.mem_filter, decide_eq_true_eq]
        exact ⟨List.mem_of_find?_eq_some hf, hn⟩
      rw [not_mem_ended_iff (.complete id outcome) w] at hwend
      exact Option.filter_eq_none_iff.mpr fun x hx => by
        cases hx
        exact hwend
  have hended := ended_concat_of_none hfirst
  have hsame : s.enter (.complete id outcome) = s := complete_of_unknown hid outcome
  rw [hsame]
  exact {
    nextId := hreg ▸ h.nextId
    ids := hreg ▸ h.ids
    ended := fun x hx => by
      rw [hended] at hx
      rw [hreg]
      exact h.ended x hx
    live := by
      rw [unended, hended, hreg]
      exact h.live
    inFlight := h.inFlight
    failures := by
      rw [hended]
      exact h.failures }

theorem complete (h : s.Agrees history) (id : Nat) (outcome : Outcome) :
    (s.enter (.complete id outcome)).Agrees (history ++ [.complete id outcome]) := by
  by_cases hlive : ∃ w ∈ s.live, w.id = id
  · obtain ⟨w, hw, rfl⟩ := hlive
    exact h.complete_live hw outcome
  · exact h.complete_unknown (fun v hv he => hlive ⟨v, hv, he⟩) outcome

end Agrees

theorem agrees_after (history : List Entry) : (after history).Agrees history := by
  induction history using List.reverseRecOn with
  | nil => exact ⟨rfl, rfl, fun x hx => absurd hx (by simp [ended]), rfl, rfl, rfl⟩
  | append_singleton history e ih =>
    rw [after_concat]
    cases e with
    | register function name worker => exact ih.register function name worker
    | complete id outcome => exact ih.complete id outcome

/-- Waiting comes to an end exactly when nobody is at work, and to all the failures there are. -/
theorem join?_eq_some_iff (h : s.inFlight = s.live.length)
    (joined : Except (List WorkerFailure) Unit) :
    s.join? = some joined ↔
      s.live = [] ∧ joined = if s.failures = [] then .ok () else .error s.failures := by
  unfold join?
  rw [h]
  by_cases hlive : s.live = []
  · rw [hlive, List.length_nil, if_pos rfl, Option.some.injEq, eq_comm]
    cases s.failures with
    | nil => simp
    | cons x rest => simp
  · rw [if_neg (fun hl => hlive (List.length_eq_zero_iff.mp hl))]
    simp [hlive]

/-- **The books balance after every history**, whatever completions are in it. The counter is the
number of live workers. The live workers are those counted in and not ended, in the order in which
they were counted in, and no two have one id. The failures are those of the workers that have ended in
a fault, one for each, in the order in which they ended. A completion takes one off the counter when
it ends somebody, and nothing otherwise, so it never finds the counter at nought. And waiting can come
to an end only when nobody is at work, with all failures or, where there are none, without any. -/
theorem books_balance (history : List Entry) :
    (after history).inFlight = (after history).live.length ∧
    (after history).live = unended history ∧
    ((after history).live.map WorkerInstance.id).Nodup ∧
    (after history).failures = (ended history).filterMap (fun x => x.2.failure? x.1) ∧
    ((ended history).map Prod.fst).Nodup ∧
    (∀ id outcome, ((after history).complete id outcome).inFlight
        + (if ∃ w ∈ (after history).live, w.id = id then 1 else 0) = (after history).inFlight) ∧
    ∀ joined, (after history).join? = some joined ↔ (after history).live = [] ∧
      joined = if (after history).failures = [] then .ok () else .error (after history).failures := by
  have h := agrees_after history
  refine ⟨h.inFlight, h.live, h.nodup_live, h.failures, nodup_ended history, fun id outcome => ?_,
    join?_eq_some_iff h.inFlight⟩
  by_cases hlive : ∃ w ∈ (after history).live, w.id = id
  · rw [if_pos hlive]
    obtain ⟨w, hw, rfl⟩ := hlive
    rw [complete_of_mem h.nodup_live hw outcome]
    have hpos : 0 < (after history).live.length := List.length_pos_of_mem hw
    have := h.inFlight
    show (after history).inFlight - 1 + 1 = _
    omega
  · rw [if_neg hlive, complete_of_unknown (fun w hw he => hlive ⟨w, hw, he⟩)]
    rfl

end Scheduler

end RegisterMachine
