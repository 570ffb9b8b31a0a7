import Mathlib.Data.Multiset.AddSub
import RegisterMachine.Proofs.Machine.Course

/-!
# Workers that share nothing

A `Task` is a worker with a world to itself. It takes its steps there, and the workers that it starts
become tasks of their own, each in a new world; when it ends, it leaves a report. A `Pool` is what tasks
there are, and what reports.

Which task of a pool goes next is open, and makes no difference: tasks have nothing in common, so two of
them can always go in either order (`Pool.Step.diamond`). **`Pool.reports_unique`** is what follows for
pools in which all tasks have ended.
-/

namespace RegisterMachine

structure Task where
  /-- Whether its worker is the main one of an invocation. -/
  main : Bool
  world : World
  worker : Worker

/-- What is known of a task that has ended. -/
structure Task.Report where
  main : Bool
  post : Post
  outcome : Outcome
  /-- The objects that the values of the outcome lead to. -/
  heap : Heap
  output : Array String

namespace Task

variable (env : Environment) (t : Task)

/-- A worker that has just been started, by itself. -/
def fresh (w : Worker) : Task := ⟨false, .start .empty [], w⟩

/-- The task after its next step, and without the workers that it has started. -/
def next : Task where
  main := t.main
  world := { (env.step t.world t.worker).1 with waiting := [] }
  worker := (env.step t.world t.worker).2

/-- The tasks that come up in its next step. -/
def started : List Task := (env.step t.world t.worker).1.waiting.map fresh

def report : Report where
  main := t.main
  post := t.worker.info.post
  outcome := t.worker.progress.outcome
  heap := t.world.store.heap
  output := t.world.store.output

/-- The task itself, if it goes on after its next step, and those that come up in it. -/
def left : Multiset Task :=
  (if (t.next env).worker.progress.isFinal then 0 else {t.next env}) + t.started env

/-- Its report, if its next step is the last. -/
def done : Multiset Report :=
  if (t.next env).worker.progress.isFinal then {(t.next env).report} else 0

end Task

structure Pool where
  tasks : Multiset Task
  reports : Multiset Task.Report

namespace Pool

/-- One of the tasks takes its next step. -/
def Step (env : Environment) (p q : Pool) : Prop :=
  ∃ t rest, p.tasks = t ::ₘ rest ∧ q = ⟨t.left env + rest, t.done env + p.reports⟩

variable {env : Environment} {p q r : Pool}

/-- Two tasks can go in either order. -/
theorem Step.diamond (hq : Step env p q) (hr : Step env p r) :
    q = r ∨ ∃ s, Step env q s ∧ Step env r s := by
  obtain ⟨t, rest, ht, rfl⟩ := hq
  obtain ⟨u, others, hu, rfl⟩ := hr
  rcases Multiset.cons_eq_cons.mp (ht.symm.trans hu) with ⟨rfl, rfl⟩ | ⟨-, both, rfl, rfl⟩
  · exact Or.inl rfl
  · -- each of two tasks is still there after the step of the other
    refine Or.inr ⟨⟨t.left env + u.left env + both, t.done env + u.done env + p.reports⟩, ?_, ?_⟩
    · refine ⟨u, t.left env + both, Multiset.add_cons _ _ _, ?_⟩
      rw [Pool.mk.injEq]
      exact ⟨by rw [Multiset.add_comm (t.left env), Multiset.add_assoc],
        by rw [Multiset.add_comm (t.done env), Multiset.add_assoc]⟩
    · refine ⟨t, u.left env + both, Multiset.add_cons _ _ _, ?_⟩
      rw [Pool.mk.injEq]
      exact ⟨Multiset.add_assoc _ _ _, Multiset.add_assoc _ _ _⟩

/-- Without tasks there are no steps. -/
theorem eq_of_tasks_eq_zero (hp : p.tasks = 0) (h : Relation.ReflTransGen (Step env) p q) :
    q = p := by
  rcases h.cases_head with rfl | ⟨_, ⟨t, rest, ht, -⟩, -⟩
  · rfl
  · rw [hp] at ht
    exact absurd ht.symm (Multiset.cons_ne_zero)

/-- **In whichever order the tasks of a pool go, in the end there are the same reports.** -/
theorem reports_unique (hq : Relation.ReflTransGen (Step env) p q)
    (hr : Relation.ReflTransGen (Step env) p r) (hq₀ : q.tasks = 0) (hr₀ : r.tasks = 0) :
    q.reports = r.reports := by
  have hjoin : Relation.Join (Relation.ReflTransGen (Step env)) q r := by
    refine Relation.church_rosser (fun a b c hab hac => ?_) hq hr
    rcases hab.diamond hac with rfl | ⟨d, hbd, hcd⟩
    · exact ⟨b, .refl, .refl⟩
    · exact ⟨d, .single hbd, .single hcd⟩
  -- nothing leads on from pools without tasks, so they have met already
  obtain ⟨s, hqs, hrs⟩ := hjoin
  rw [← eq_of_tasks_eq_zero hq₀ hqs, ← eq_of_tasks_eq_zero hr₀ hrs]

end Pool

end RegisterMachine
