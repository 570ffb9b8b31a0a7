import RegisterMachine.Proofs.Debug.Driving
import RegisterMachine.Proofs.Machine.Watching

/-!
# Answering

A session can hold a run up, and a client that stays and never answers holds it up for ever: a worker
that has stopped goes on when a `resume` or a `step` is in the queue or when no more commands will come,
whatever else has been sent. `Answers` says so of all the stops of a run, one after another, and is
decided by showing the boundaries of the run to the session (`answers_iff`).

Nothing else holds a debugged run up. **`isSome_runMain_iff`**: it comes to an end if there is nothing to
run, if the handshake fails, or if the run comes to an end and the client answers, and in no other case.
-/

namespace RegisterMachine.Debug

/-- The client has said that the worker that has stopped may go on, or it is gone. -/
def Session.LetsGo (heard : Session) : Prop :=
  heard.sending = false ∨ ∃ c ∈ heard.queue, c = .resume ∨ c = .step

namespace Session

theorem awaitRelease_eq_none_iff {b : Breakpoints} {queue : List Command} :
    (awaitRelease b queue).2.2 = none ↔ ∀ c ∈ queue, c ≠ .resume ∧ c ≠ .step := by
  induction queue generalizing b with
  | nil => simp [awaitRelease]
  | cons c rest ih => cases c <;> simp [awaitRelease, ih]

/-- A worker that has stopped goes on exactly if the client lets it. -/
theorem release_iff {heard : Session} {watch : Watch} :
    (heard.release watch).2.2 = true ↔ heard.LetsGo := by
  have hnone : (awaitRelease heard.breakpoints heard.queue).2.2 = none ↔ _ :=
    awaitRelease_eq_none_iff
  unfold release LetsGo
  dsimp only
  cases hmode : (awaitRelease heard.breakpoints heard.queue).2.2 with
  | some mode =>
    rw [hmode] at hnone
    simp only [reduceCtorEq, false_iff, not_forall, not_and_or, not_not] at hnone
    obtain ⟨c, hc, hgo⟩ := hnone
    exact iff_of_true rfl (Or.inr ⟨c, hc, hgo⟩)
  | none =>
    have hno := hnone.mp hmode
    have hnot : ¬ ∃ c ∈ heard.queue, c = .resume ∨ c = .step := by
      rintro ⟨c, hc, hgo⟩
      exact hgo.elim (hno c hc).1 (hno c hc).2
    cases heard.sending <;> simp [hnot]

end Session

variable {p : Program} {client : Client} {s : Session} {o : Watch}

/-- What the session has heard when a worker has stopped. -/
def heardAt (p : Program) (client : Client) (s : Session) (b : Boundary) (position : SourcePos)
    (reason : Reason) : Session :=
  let told := s.tell b.world.store.output.size (stopEvent p b.worker position reason)
  told.hear (client told.events)

/-- Every stop at these boundaries is answered. -/
def Answers (p : Program) (client : Client) : Session → Watch → List Boundary → Prop
  | _, _, [] => True
  | s, o, b :: rest =>
      let o := if b.first then Watch.start else o
      (∀ position reason, (check p s o b.worker).2 = some (position, reason) →
        s.listening = true → (heardAt p client s b position reason).LetsGo) ∧
      ∀ s' o', gate p client s o b.world b.worker = some (s', o') → Answers p client s' o' rest

/-- A worker passes the gate exactly if its stop, if it has to stop, is answered. -/
theorem isSome_gate_iff {b : Boundary} :
    (gate p client s o b.world b.worker).isSome ↔
      ∀ position reason, (check p s o b.worker).2 = some (position, reason) →
        s.listening = true → (heardAt p client s b position reason).LetsGo := by
  rw [gate_eq]
  cases hc : check p s o b.worker with
  | mk known stop =>
    cases stop with
    | none => simp
    | some stop =>
      obtain ⟨position, reason⟩ := stop
      dsimp only
      rw [Session.suspend_eq]
      cases hl : s.listening with
      | false => simp
      | true =>
        have hgo : ((heardAt p client s b position reason).release known).2.2 = true ↔ _ :=
          Session.release_iff
        rw [if_pos rfl, Option.isSome_ite]
        refine hgo.trans ⟨fun h position reason he _ => ?_, fun h => h _ _ rfl rfl⟩
        cases he
        exact h

theorem observe_observer : (observer p client).observe = gate p client := rfl

theorem fresh_observer : (observer p client).fresh = Watch.start := rfl

/-- Every stop is answered exactly if the session lets the whole run pass. -/
theorem answers_iff (bs : List Boundary) :
    Answers p client s o bs ↔ ((observer p client).follow s o bs).isSome := by
  induction bs generalizing s o with
  | nil => simp [Answers, Observer.follow]
  | cons b rest ih =>
    unfold Answers Observer.follow
    dsimp only
    rw [← isSome_gate_iff, observe_observer, fresh_observer]
    cases gate p client s (if b.first then Watch.start else o) b.world b.worker with
    | none => simp
    | some k =>
      obtain ⟨s', o'⟩ := k
      simp [ih]

instance (bs : List Boundary) : Decidable (Answers p client s o bs) :=
  decidable_of_iff _ (answers_iff bs).symm

/-- A debugged run is the run, with its boundaries shown to the session. -/
theorem runMain_eq_visits (env : Environment) (limit : Nat) (client : Client) (s : Session)
    (store : Store) (args : List String)
    (hs : (s.handshake client store.output.size).2 = .started) :
    (Debug.runMain env limit client s store args).map Prod.snd =
      (env.visits limit store args).bind fun visited =>
        if ((observer env.program client).follow (s.handshake client store.output.size).1 .start
          visited.1).isSome then some visited.2 else none := by
  unfold Debug.runMain Environment.visits
  cases env.program.mainFunction? with
  | none => rfl
  | some main =>
    obtain ⟨id, info⟩ := main
    dsimp only
    generalize s.handshake client store.output.size = shaken at hs ⊢
    obtain ⟨shaken, handshake⟩ := shaken
    dsimp only at hs ⊢
    subst hs
    have hwatched : (observer env.program client).Follows shaken .start []
        (env.runPackages (observer env.program client) limit ⟨shaken, .start store []⟩ id info args)
        (env.runPackages .trail limit ⟨[], .start store []⟩ id info args) :=
      Environment.runPackages_follows id info args
    cases hrun : env.runPackages .trail limit ⟨[], .start store []⟩ id info args with
    | none =>
      rw [hrun] at hwatched
      have hnone : env.runPackages (observer env.program client) limit ⟨shaken, .start store []⟩
        id info args = none := hwatched
      rw [hnone]
      rfl
    | some r =>
      rw [hrun] at hwatched
      obtain ⟨bs, hseen, hx⟩ := hwatched
      rw [List.nil_append] at hseen
      rw [hx, Option.map_some, Option.bind_some, hseen]
      cases (observer env.program client).follow shaken .start bs <;> rfl

/-- A debugged run comes to an end: there is nothing to run, the handshake fails, or the run comes to its
end and all its stops are answered. -/
def Ends (env : Environment) (limit : Nat) (client : Client) (s : Session) (store : Store)
    (args : List String) : Prop :=
  env.program.mainFunction? = none ∨ (s.handshake client store.output.size).2 ≠ .started ∨
    ∃ bs out, env.visits limit store args = some (bs, out) ∧
      Answers env.program client (s.handshake client store.output.size).1 .start bs

/-- Where there is something to run and the handshake fails, a debugged run ends there. -/
theorem isSome_runMain_of_not_started {env : Environment} {limit : Nat} {store : Store}
    {args : List String} (hs : (s.handshake client store.output.size).2 ≠ .started) :
    (Debug.runMain env limit client s store args).isSome := by
  unfold Debug.runMain
  cases env.program.mainFunction? with
  | none => rfl
  | some main =>
    dsimp only
    generalize s.handshake client store.output.size = shaken at hs
    obtain ⟨shaken, handshake⟩ := shaken
    cases handshake with
    | disconnected => rfl
    | waiting => rfl
    | started => exact absurd rfl hs

/-- **A debugged run comes to an end exactly in these cases.** -/
theorem isSome_runMain_iff (env : Environment) (limit : Nat) (client : Client) (s : Session)
    (store : Store) (args : List String) :
    (Debug.runMain env limit client s store args).isSome ↔ Ends env limit client s store args := by
  by_cases hm : env.program.mainFunction? = none
  · refine iff_of_true ?_ (Or.inl hm)
    unfold Debug.runMain
    rw [hm]
    rfl
  by_cases hs : (s.handshake client store.output.size).2 = .started
  · have hvisits := runMain_eq_visits env limit client s store args hs
    rw [← Option.isSome_map (f := Prod.snd), hvisits]
    simp only [Ends, hm, hs, ne_eq, not_true_eq_false, false_or]
    cases env.visits limit store args with
    | none => simp
    | some visited =>
      obtain ⟨bs, store', result⟩ := visited
      simp [answers_iff]
  · exact iff_of_true (isSome_runMain_of_not_started hs) (Or.inr (Or.inl hs))

instance (env : Environment) (limit : Nat) (client : Client) (s : Session) (store : Store)
    (args : List String) : Decidable (Ends env limit client s store args) :=
  decidable_of_iff _ (isSome_runMain_iff env limit client s store args)

/-- What is run under a session comes to an end exactly in these cases, and then it is the end of a course. -/
theorem runMain_ends (env : Environment) (args : List String) (s : Session) (store : Store)
    (limit : Nat) (client : Client) :
    ((Debug.runMain env limit client s store args).isSome ↔ Ends env limit client s store args) ∧
    ∀ s' store' result, Debug.runMain env limit client s store args = some (s', store', result) →
      ∃ log d, Debuggee.Course env args (.start s store) log d ∧ d.control = .finished result ∧
        d.session = s' ∧ d.inv.world.store = store' :=
  ⟨isSome_runMain_iff env limit client s store args, fun _ _ _ h => Debuggee.reached_runMain h⟩

/-- The doubling program without the worker beside it. -/
def soloDoubling : Environment :=
  { Environment.doubling with
    program :=
      { Program.doubling with
        functions := #[Program.mainInfo, { Program.doubleInfo with workers := [] }]
        lines := [⟨0, ⟨"main", 1⟩⟩, ⟨2, ⟨"double", 1⟩⟩] } }

theorem soloDoubling_main : soloDoubling.program.mainFunction? = some (⟨0⟩, Program.mainInfo) := by
  decide +kernel

/-- A session that has been told to begin, to stop at main and to go on from there. -/
def Session.throughMain : Session :=
  { Session.start 0 with
    breakpoints := .ofList [⟨"main", 1⟩]
    queue := [.start, .setBreakpoints [⟨"main", 1⟩], .start, .resume] }

/-- It ends with the word to go on, and without it nobody goes on. -/
example : Ends soloDoubling 5 .silent .throughMain .empty [] ∧
    ¬ Ends soloDoubling 5 .silent { Session.throughMain with queue := [.start] } .empty [] := by
  decide +kernel

end RegisterMachine.Debug
