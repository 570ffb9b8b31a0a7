import RegisterMachine.Proofs.Debug.Alone
import RegisterMachine.Proofs.Debug.Answering

/-!
# A debugged run is the run

A session can hold a run up, and that it does so for ever is the only way in which anyone could tell from
a run that there is one. It takes a client for it that stays and never answers (`Answers`).

**`Debug.runMain_transparent`**: with a client that answers, what comes of a debugged run is what comes of
the run without a session, the values or the error and all that has been printed.
-/

namespace RegisterMachine.Debug

open Debuggee

/-- **The debugger is transparent.** Take a session whose handshake succeeds. If its client answers the
stops of the run, then what comes of the debugged run is what comes of the run: the same values or the
same error, and a store in which the same has been printed. Whatever comes of a debugged run otherwise is
that as well. Nothing that the session does about a worker changes any worker, any collection or what has
been printed. And where no function has named workers this does not take a client that speaks only when
it is told something: every course that comes to an end after the handshake ends as the run does. -/
theorem runMain_transparent (env : Environment) (args : List String) (store : Store) (s : Session)
    (client : Client) (hs : (s.handshake client store.output.size).2 = .started) :
    (∀ limit, (∀ bs out, env.visits limit store args = some (bs, out) →
        Answers env.program client (s.handshake client store.output.size).1 .start bs) →
      (Debug.runMain env limit client s store args).map Prod.snd = env.runMain limit store args) ∧
    (∀ limit s' out, Debug.runMain env limit client s store args = some (s', out) →
      env.runMain limit store args = some out) ∧
    (∀ d log d', Attends env.program d log d' → d'.inv = d.inv ∧ d'.control = d.control) ∧
    (env.program.Solitary → ∀ log d result, Course env args (.start s store) log d →
      d.control = .finished result → (∀ e, result ≠ .error (.session e)) →
      ∃ limit, env.runMain limit store args = some (d.inv.world.store, result)) := by
  refine ⟨fun limit hanswers => ?_, fun limit s' out h => ?_, fun d log d' h => h.apart,
    fun hp log d result hc hover hr => ?_⟩
  · rw [runMain_eq_visits env limit client s store args hs, env.runMain_eq_visits]
    cases hv : env.visits limit store args with
    | none => rfl
    | some visited =>
      have hpass := (answers_iff _).mp (hanswers visited.1 visited.2 hv)
      rw [Option.bind_some, if_pos hpass]
      rfl
  · have hrun := congrArg (Option.map Prod.snd) h
    rw [runMain_eq_visits env limit client s store args hs] at hrun
    obtain ⟨visited, hv, hout⟩ := Option.bind_eq_some_iff.mp hrun
    obtain ⟨-, hout⟩ := Option.ite_none_right_eq_some.mp hout
    rw [env.runMain_eq_visits, hv]
    exact hout
  · have hremains := Remains.course hp hc
    rw [hover] at hremains
    cases hremains with
    | refused e => exact absurd rfl (hr e)
    | @finished _ j h => exact ⟨0 + j, h 0⟩

/-- The doubling program stops at main and comes to what it comes to without a session, for this client
and for any other. -/
theorem soloDoubling_transparent :
    (∃ s' store', Debug.runMain soloDoubling 5 .silent .throughMain .empty []
        = some (s', store', .ok [.int 0]) ∧ s'.reports.length = 3 ∧
      soloDoubling.runMain 5 .empty [] = some (store', .ok [.int 0])) ∧
    ∀ log d result, Course soloDoubling [] (.start .throughMain .empty) log d →
      d.control = .finished result → (∀ e, result ≠ .error (.session e)) →
      ∃ limit, soloDoubling.runMain limit .empty [] = some (d.inv.world.store, result) := by
  have h := runMain_transparent soloDoubling [] .empty .throughMain .silent rfl
  have hsolo : soloDoubling.program.Solitary := by
    intro info hinfo
    simp [soloDoubling, Program.doubling] at hinfo
    rcases hinfo with rfl | rfl <;> rfl
  obtain ⟨visited, hvisits, hresult, hpass⟩ : ∃ visited,
      soloDoubling.visits 5 .empty [] = some visited ∧ visited.2.2 = .ok [.int 0] ∧
        ((observer soloDoubling.program .silent).follow
          (Session.throughMain.handshake .silent Store.empty.output.size).1 .start
          visited.1).isSome := by
    rw [Environment.visits, soloDoubling_main]
    exact ⟨_, rfl, rfl, rfl⟩
  obtain ⟨s', out, hdebug, hreports⟩ : ∃ s' out,
      Debug.runMain soloDoubling 5 .silent .throughMain .empty [] = some (s', out) ∧
        s'.reports.length = 3 := by
    rw [Debug.runMain, soloDoubling_main]
    exact ⟨_, _, rfl, rfl⟩
  have hsame := h.1 5 fun bs out hv => by
    rw [hvisits] at hv
    cases hv
    exact (answers_iff _).mpr hpass
  have hplain := h.2.1 5 s' out hdebug
  rw [Environment.runMain_eq_visits, hvisits, Option.map_some, Option.some.injEq] at hplain
  subst hplain
  refine ⟨⟨s', visited.2.1, ?_, hreports, ?_⟩, h.2.2.2 hsolo⟩
  · rw [hdebug, ← hresult]
  · rw [← hsame, hdebug, ← hresult]
    rfl

end RegisterMachine.Debug
