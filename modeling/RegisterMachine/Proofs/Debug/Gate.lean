import RegisterMachine.Debug.Run

/-!
# The gate, taken apart

At every boundary between two instructions a worker passes the gate of its session. What the gate does
there is two things: it looks at where the worker is and decides whether it has to stop (`Debug.check`),
and if so it stops it and lets it go on when the client says so (`Session.suspend`). `Debug.gate_eq` puts
the two together again. The first needs no client and changes nothing but what is remembered of the
worker's positions, the second changes nothing of these; whoever reasons about a session needs only
one of the two at a time.
-/

namespace RegisterMachine

/-- The source position of the instruction that a worker is about to run. -/
def Worker.position? (p : Program) (w : Worker) : Option SourcePos :=
  w.stack.head?.bind fun f => p.position? f.ip

namespace Debug

/-- Looks at a worker at a boundary: what is remembered of it from then on and, if it has to stop, where
and why. -/
def check (p : Program) (s : Session) (watch : Watch) (w : Worker) :
    Watch × Option (SourcePos × Reason) :=
  match w.stack with
  | [] => (watch, none)
  | f :: _ =>
      let (watch, reason) := s.shouldSuspend watch w.stack.length (p.position? f.ip)
      (watch, (p.position? f.ip).bind fun position => reason.map fun reason => (position, reason))

namespace Session

variable {s : Session} {watch : Watch} {depth : Nat} {pos : Option SourcePos}

/-- A memory of the right length is kept as it is. -/
theorem resized_length (seen : List (Option SourcePos)) : resized seen seen.length = seen := by
  simp [resized]

/-- For a frame more there is one entry more, in which nothing is known. -/
theorem resized_succ (seen : List (Option SourcePos)) :
    resized seen (seen.length + 1) = seen ++ [none] := by
  simp [resized, List.take_of_length_le]

/-- For a frame less the last entry goes. -/
theorem resized_of_le {seen : List (Option SourcePos)} (h : depth ≤ seen.length) :
    resized seen depth = seen.take depth := by
  simp [resized, Nat.sub_eq_zero_of_le h]

/-- Deciding whether a worker stops leaves its mode alone. -/
theorem shouldSuspend_mode : (s.shouldSuspend watch depth pos).1.mode = watch.mode := by
  unfold shouldSuspend
  split
  · rfl
  · cases pos with
    | none => rfl
    | some p =>
      dsimp only
      split
      · rfl
      · split <;> rfl

/-- A known position is noted in the entry of the frame on top. -/
theorem shouldSuspend_seen (h : s.detached = false) :
    (s.shouldSuspend watch (depth + 1) pos).1.seen =
      match pos with
      | none => resized watch.seen (depth + 1)
      | some p => (resized watch.seen (depth + 1)).set depth (some p) := by
  have hgo : (s.detached || depth + 1 == 0) = false := by simp [h]
  unfold shouldSuspend
  rw [hgo]
  cases pos with
  | none => rfl
  | some p =>
    simp only [Bool.false_eq_true, if_false, Nat.add_sub_cancel]
    split
    · -- it stands there already
      rename_i hsame
      rw [beq_iff_eq] at hsame
      obtain ⟨hlt, he⟩ := List.getElem?_eq_some_iff.mp hsame
      rw [← he, List.set_getElem_self]
    · split <;> rfl

/-- A worker stops where the entry of its frame on top has another position or none. -/
theorem shouldSuspend_eq_some_iff (h : s.detached = false) {reason : Reason} :
    (s.shouldSuspend watch (depth + 1) pos).2 = some reason ↔
      ∃ p, pos = some p ∧ (resized watch.seen (depth + 1))[depth]? ≠ some (some p) ∧
        (watch.mode = .step ∧ reason = .step ∨
          watch.mode = .run ∧ s.breakpoints.contains p = true ∧ reason = .breakpoint) := by
  have hgo : (s.detached || depth + 1 == 0) = false := by simp [h]
  unfold shouldSuspend
  rw [hgo]
  cases pos with
  | none => simp
  | some p =>
    simp only [Bool.false_eq_true, if_false, Nat.add_sub_cancel]
    by_cases hsame : (resized watch.seen (depth + 1))[depth]? = some (some p)
    · simp [hsame]
    · cases hmode : watch.mode with
      | step =>
        simp [hsame]
        exact eq_comm
      | run =>
        simp [hsame]
        exact fun _ => eq_comm

/-- What is remembered of a worker's positions is none of the client's business. -/
theorem suspend_seen (client : Client) (printed : Nat) (worker : UInt64) (name : String)
    (position : SourcePos) (reason : Reason) (frames : List TraceEntry) :
    (s.suspend client printed watch worker name position reason frames).2.1.seen = watch.seen := by
  unfold suspend
  dsimp only
  split
  · split
    · rfl
    · split <;> rfl
  · rfl

end Session

variable {p : Program} {s : Session} {watch : Watch} {w : Worker}

theorem check_mode : (check p s watch w).1.mode = watch.mode := by
  unfold check
  cases w.stack with
  | nil => rfl
  | cons f below => exact Session.shouldSuspend_mode

/-- A worker stops only where the position of its next instruction is known. -/
theorem position?_of_check {position : SourcePos} {reason : Reason}
    (h : (check p s watch w).2 = some (position, reason)) : w.position? p = some position := by
  unfold check at h
  unfold Worker.position?
  cases hs : w.stack with
  | nil =>
    rw [hs] at h
    cases h
  | cons f below =>
    rw [hs] at h
    obtain ⟨q, hq, h⟩ := Option.bind_eq_some_iff.mp h
    obtain ⟨r, -, h⟩ := Option.map_eq_some_iff.mp h
    cases h
    exact hq

/-- **The gate** lets a worker through that has not to stop, and one that has to when its suspension
ends. -/
theorem gate_eq (client : Client) (world : World) :
    gate p client s watch world w =
      match check p s watch w with
      | (watch, none) => some (s, watch)
      | (watch, some (position, reason)) =>
          let r := s.suspend client world.store.output.size watch (.ofNat w.info.id)
            w.info.workerName position reason (stopFrames p w.stack position)
          if r.2.2 then some (r.1, r.2.1) else none := by
  unfold gate check
  cases hs : w.stack with
  | nil => rfl
  | cons f below =>
    dsimp only
    generalize p.position? f.ip = pos
    generalize s.shouldSuspend watch (f :: below).length pos = r
    obtain ⟨watch', reason⟩ := r
    cases pos with
    | none => cases reason <;> rfl
    | some position => cases reason <;> rfl

end Debug

end RegisterMachine
