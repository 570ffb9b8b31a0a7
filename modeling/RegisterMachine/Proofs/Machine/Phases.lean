import RegisterMachine.Proofs.Machine.Renumbering

/-!
# A program in phases

A program initialises its packages and then runs main, all of it on one scheduler whose books are never
cleared. What that comes to is told by relations in which the way to run a function is left open: `Phase.Main`
takes any `Phase` and runs the functions of the program with it, one after another, up to the first that
fails. `Environment.runMain` is one instance (`Environment.runMain_iff`), and to let workers take turns in any
order is another.

A phase that succeeds leaves nobody at work and no failure in the books (`Environment.Invokes.settles`). So
the next one finds a scheduler that is as good as new but for the ids that have been given, and with other ids
it would do the same. **`Environment.phases_apart`**: the program does what it would with a scheduler of its
own for every phase.
-/

namespace RegisterMachine

/-- A way to run functions: a function is run in a world on some arguments, and leaves a world and a result. -/
abbrev Phase :=
  World → FunctionId → FunctionInfo → List (Bank × Value) → World → Except RunError (List Value) → Prop

namespace Phase

/-- The same on a scheduler of its own. -/
def apart (P : Phase) : Phase := fun world => P (.start world.store world.kept)

/-- The same on a scheduler of its own that gives the ids that have not been given yet. -/
def renewed (P : Phase) : Phase := fun world =>
  P { World.start world.store world.kept with
    scheduler := { Scheduler.start with nextId := world.scheduler.nextId } }

/-- The init functions of packages are run in order, up to the first that fails or is not there. -/
inductive Inits (P : Phase) (p : Program) :
    List PackageInfo → World → World → Except RunError Unit → Prop
  | done {world : World} : Inits P p [] world world (.ok ())
  /-- A package that needs no initialising. -/
  | none {package : PackageInfo} {rest : List PackageInfo} {world world' : World}
      {result : Except RunError Unit} (hi : package.initFunction = none)
      (h : Inits P p rest world world' result) : Inits P p (package :: rest) world world' result
  | missing {package : PackageInfo} {rest : List PackageInfo} {world : World} {id : FunctionId}
      (hi : package.initFunction = some id) (hf : p.function? id = none) :
      Inits P p (package :: rest) world world (.error (.functionNotFound id.render))
  | failed {package : PackageInfo} {rest : List PackageInfo} {world world' : World} {id : FunctionId}
      {info : FunctionInfo} {e : RunError} (hi : package.initFunction = some id)
      (hf : p.function? id = some info) (hr : P world id info [] world' (.error e)) :
      Inits P p (package :: rest) world world' (.error e)
  | next {package : PackageInfo} {rest : List PackageInfo} {world world' world'' : World}
      {id : FunctionId} {info : FunctionInfo} {values : List Value} {result : Except RunError Unit}
      (hi : package.initFunction = some id) (hf : p.function? id = some info)
      (hr : P world id info [] world' (.ok values)) (h : Inits P p rest world' world'' result) :
      Inits P p (package :: rest) world world'' result

/-- The packages are initialised and then main is run, if there is still reason to. -/
inductive Main (P : Phase) (p : Program) (id : FunctionId) (info : FunctionInfo) (args : List String)
    (world : World) : World → Except RunError (List Value) → Prop
  | stopped {world' : World} {e : RunError} (h : Inits P p p.packages world world' (.error e)) :
      Main P p id info args world world' (.error e)
  /-- There is no array that could hold the arguments. -/
  | unhanded {world' : World} {e : ExecutionError} (h : Inits P p p.packages world world' (.ok ()))
      (hh : world'.handMain info args = .error e) :
      Main P p id info args world world' (.error (.faulted ⟨e, []⟩))
  | main {world' ready world'' : World} {handed : List (Bank × Value)}
      {result : Except RunError (List Value)} (h : Inits P p p.packages world world' (.ok ()))
      (hh : world'.handMain info args = .ok (ready, handed))
      (hr : P ready id info handed world'' result) : Main P p id info args world world'' result

/-- What there is to see of it: the objects and the printed lines, and the result. -/
def Yields (P : Phase) (p : Program) (id : FunctionId) (info : FunctionInfo) (args : List String)
    (store store' : Store) (result : Except RunError (List Value)) : Prop :=
  ∃ world', P.Main p id info args (.start store []) world' result ∧ world'.store = store'

/-- After a success nobody is at work and nobody has failed, if it was so before. -/
def Settles (P : Phase) : Prop :=
  ∀ world id info args world' values, world.AtRest → P world id info args world' (.ok values) →
    world'.AtRest ∧ world.scheduler.nextId ≤ world'.scheduler.nextId

/-- With higher ids it is the same. -/
structure Renumbers (P : Phase) : Prop where
  shift {world id info args world' result} (d : Nat) (h : P world id info args world' result) :
    P (world.shift d) id info args (world'.shift d) (shiftResult d result)
  of_shift {world id info args world' result} (d : Nat)
    (h : P (world.shift d) id info args world' result) :
    ∃ world₀ result₀, P world id info args world₀ result₀ ∧ world' = world₀.shift d ∧
      result = shiftResult d result₀

end Phase

namespace World.AtRest

variable {world : World}

/-- Nothing is left in the books but which id is due. -/
theorem eq_renewed (h : world.AtRest) :
    { World.start world.store world.kept with
      scheduler := { Scheduler.start with nextId := world.scheduler.nextId } } = world := by
  obtain ⟨hwaiting, hlive, hfree, hfailures⟩ := h
  obtain ⟨store, ⟨nextId, live, inFlight, failures⟩, waiting, kept⟩ := world
  cases hwaiting
  cases hlive
  cases hfree
  cases hfailures
  rfl

theorem eq_shift (h : world.AtRest) (hid : 1 ≤ world.scheduler.nextId) :
    (World.start world.store world.kept).shift (world.scheduler.nextId - 1) = world := by
  refine Eq.trans ?_ h.eq_renewed
  simp only [World.start, World.shift, Scheduler.start, Scheduler.shift, List.map_nil]
  rw [Nat.add_sub_cancel' hid]

end World.AtRest

/-- Only the store matters to what main is handed, and nothing but the store is new. -/
theorem World.handMain_congr {W V : World} (h : W.store = V.store) (info : FunctionInfo)
    (args : List String) :
    V.handMain info args =
      (W.handMain info args).map fun r => ({ V with store := r.1.store }, r.2) := by
  unfold handMain
  split
  · rw [Except.map, h]
  · cases ArrayObject.ofStrings args with
    | error e => rfl
    | ok array =>
      rw [h]
      rfl

namespace Phase

/-! ## Phase by phase -/

/-- Two results are the same, with errors as alike as `E` says. -/
inductive Like (E : RunError → RunError → Prop) {α : Type} : Except RunError α → Except RunError α → Prop
  | ok (x : α) : Like E (.ok x) (.ok x)
  | error {e e' : RunError} (h : E e e') : Like E (.error e) (.error e')

/-- Whatever `P` does in one of two worlds that go together, `Q` does in the other. -/
structure Simulates (P Q : Phase) (M : World → World → Prop) (E : RunError → RunError → Prop) : Prop where
  store {W V : World} : M W V → W.store = V.store
  /-- What is put into the store is put into both. -/
  put {W V : World} (store : Store) : M W V → M { W with store } { V with store }
  refl (e : RunError) : E e e
  step {W V W' : World} {id : FunctionId} {info : FunctionInfo} {args : List (Bank × Value)}
    {result : Except RunError (List Value)} : M W V → P W id info args W' result →
    ∃ V' result', Q V id info args V' result' ∧ Like E result result' ∧ W'.store = V'.store ∧
      ∀ values, result = .ok values → M W' V'

section

variable {P Q : Phase} {M : World → World → Prop} {E : RunError → RunError → Prop} {p : Program}
  {W V W' : World}

theorem Inits.simulated (hs : P.Simulates Q M E) {packages : List PackageInfo}
    {result : Except RunError Unit} (h : P.Inits p packages W W' result) (hm : M W V) :
    ∃ V' result', Q.Inits p packages V V' result' ∧ Like E result result' ∧ W'.store = V'.store ∧
      (result = .ok () → M W' V') := by
  induction h generalizing V with
  | done => exact ⟨V, _, .done, .ok (), hs.store hm, fun _ => hm⟩
  | none hi _ ih =>
    obtain ⟨V', result', h, hrest⟩ := ih hm
    exact ⟨V', result', .none hi h, hrest⟩
  | missing hi hf => exact ⟨V, _, .missing hi hf, .error (hs.refl _), hs.store hm, fun hr => nomatch hr⟩
  | failed hi hf hr =>
    obtain ⟨V', _, hq, hlike, hstore, -⟩ := hs.step hm hr
    cases hlike with
    | error he => exact ⟨V', _, .failed hi hf hq, .error he, hstore, fun hr => nomatch hr⟩
  | next hi hf hr _ ih =>
    obtain ⟨V', _, hq, hlike, -, hnext⟩ := hs.step hm hr
    cases hlike
    obtain ⟨V'', result', h, hrest⟩ := ih (hnext _ rfl)
    exact ⟨V'', result', .next hi hf hq h, hrest⟩

theorem Main.simulated (hs : P.Simulates Q M E) {id : FunctionId} {info : FunctionInfo}
    {args : List String} {result : Except RunError (List Value)}
    (h : P.Main p id info args W W' result) (hm : M W V) :
    ∃ V' result', Q.Main p id info args V V' result' ∧ Like E result result' ∧ W'.store = V'.store := by
  cases h with
  | stopped h =>
    obtain ⟨V', _, h', hlike, hstore, -⟩ := h.simulated hs hm
    cases hlike with
    | error he => exact ⟨V', _, .stopped h', .error he, hstore⟩
  | unhanded h hh =>
    obtain ⟨V', _, h', hlike, hstore, -⟩ := h.simulated hs hm
    cases hlike
    refine ⟨V', _, .unhanded h' ?_, .error (hs.refl _), hstore⟩
    rw [World.handMain_congr hstore, hh]
    rfl
  | @main _ ready _ handed _ h hh hr =>
    obtain ⟨V', _, h', hlike, hstore, hnext⟩ := h.simulated hs hm
    cases hlike
    obtain ⟨store, rfl⟩ := World.handMain_store hh
    obtain ⟨V'', result', hq, hlike, hstore', -⟩ := hs.step (hs.put store (hnext rfl)) hr
    refine ⟨V'', result', .main h' ?_ hq, hlike, hstore'⟩
    rw [World.handMain_congr hstore, hh]
    rfl

theorem Yields.simulated (hs : P.Simulates Q M E) {id : FunctionId} {info : FunctionInfo}
    {args : List String} {store store' : Store} {result : Except RunError (List Value)}
    (h : P.Yields p id info args store store' result) (hm : M (.start store []) (.start store [])) :
    ∃ result', Q.Yields p id info args store store' result' ∧ Like E result result' := by
  obtain ⟨W', h, rfl⟩ := h
  obtain ⟨V', result', h', hlike, hstore⟩ := h.simulated hs hm
  exact ⟨result', ⟨V', h', hstore.symm⟩, hlike⟩

end

/-! ## Between phases -/

variable {P : Phase} {p : Program} {packages : List PackageInfo} {world world' W V : World}

/-- Packages that could be initialised leave nobody at work and no failure. -/
theorem Inits.settles (hs : P.Settles) {result : Except RunError Unit}
    (h : P.Inits p packages world world' result) (hw : world.AtRest) (hr : result = .ok ()) :
    world'.AtRest := by
  induction h with
  | done => exact hw
  | none hi h ih => exact ih hw hr
  | missing hi hf => cases hr
  | failed hi hf hp => cases hr
  | next hi hf hp h ih => exact ih (hs _ _ _ _ _ _ hw hp).1 hr

/-- A world at rest, and itself. -/
def Resting (W V : World) : Prop := V = W ∧ W.AtRest

theorem Settles.simulates (hs : P.Settles) {Q : Phase} (hQ : ∀ world, world.AtRest → Q world = P world) :
    P.Simulates Q Resting Eq where
  store hm := hm.1 ▸ rfl
  put store hm := ⟨by rw [hm.1], hm.2.waiting, hm.2.live, hm.2.inFlight, hm.2.failures⟩
  refl e := rfl
  step {W V W' id info args result} hm hp := by
    obtain ⟨rfl, hw⟩ := hm
    refine ⟨W', result, (hQ V hw).symm ▸ hp, ?_, rfl, fun values hr => ⟨rfl, ?_⟩⟩
    · cases result with
      | ok values => exact .ok values
      | error e => exact .error rfl
    · exact (hs _ _ _ _ _ _ hw (hr ▸ hp)).1

/-- In both worlds the same is stored and held, and in the first one nobody is at work, whatever was run in
it before. -/
structure Matches (W V : World) : Prop where
  rest : W.AtRest
  first : 1 ≤ W.scheduler.nextId
  store : W.store = V.store
  kept : W.kept = V.kept

theorem Matches.put {W V : World} (hm : Matches W V) (store : Store) :
    Matches { W with store } { V with store } :=
  ⟨⟨hm.rest.waiting, hm.rest.live, hm.rest.inFlight, hm.rest.failures⟩, hm.first, rfl, hm.kept⟩

/-- What has run before only shows in the ids. -/
theorem Matches.eq_shift {W V : World} (hm : Matches W V) :
    (World.start V.store V.kept).shift (W.scheduler.nextId - 1) = W := by
  rw [← hm.store, ← hm.kept]
  exact hm.rest.eq_shift hm.first

/-- A phase on the scheduler that all share ends like one on a scheduler of its own, and where it succeeds
the next one can begin. -/
theorem Matches.next {V V' : World} {d : Nat} (hs : P.Settles) (hm : Matches W V) {id : FunctionId}
    {info : FunctionInfo} {args : List (Bank × Value)} {values : List Value}
    (h : P W id info args (V'.shift d) (.ok values)) : Matches (V'.shift d) V' := by
  obtain ⟨hrest, hle⟩ := hs _ _ _ _ _ _ hm.rest h
  exact ⟨hrest, Nat.le_trans hm.first hle, rfl, rfl⟩

/-- The failures of one are those of the other, with higher ids. -/
def Raised (e e' : RunError) : Prop := ∃ d, e = e'.shift d

theorem Raised.refl (e : RunError) : Raised e e := by
  refine ⟨0, ?_⟩
  cases e with
  | workersFailed failures => exact congrArg RunError.workersFailed (List.map_id' failures).symm
  | _ => rfl

theorem like_shiftResult {α : Type} (d : Nat) (result : Except RunError α) :
    Like Raised (shiftResult d result) result := by
  cases result with
  | ok x => exact .ok x
  | error e => exact .error ⟨d, rfl⟩

theorem Like.flip {E : RunError → RunError → Prop} {α : Type} {x y : Except RunError α} (h : Like E x y) :
    Like (fun e e' => E e' e) y x := by
  cases h with
  | ok x => exact .ok x
  | error h => exact .error h

theorem Renumbers.simulates_apart (hr : P.Renumbers) (hs : P.Settles) :
    P.Simulates P.apart Matches Raised where
  store hm := hm.store
  put store hm := hm.put store
  refl := Raised.refl
  step {W V W' id info args result} hm hp := by
    obtain ⟨V', result', hq, rfl, rfl⟩ := hr.of_shift _ (hm.eq_shift.symm ▸ hp)
    refine ⟨V', result', hq, like_shiftResult _ result', rfl, fun values he => hm.next hs (he ▸ hp)⟩

theorem Renumbers.apart_simulates (hr : P.Renumbers) (hs : P.Settles) :
    P.apart.Simulates P (fun V W => Matches W V) fun e' e => Raised e e' where
  store hm := hm.store.symm
  put store hm := hm.put store
  refl := Raised.refl
  step {V W V' id info args result} hm hp := by
    have hq := hr.shift (W.scheduler.nextId - 1) hp
    rw [hm.eq_shift] at hq
    refine ⟨_, _, hq, (like_shiftResult _ result).flip, rfl, fun values he => ?_⟩
    subst he
    exact hm.next hs hq

theorem Like.eq {α : Type} {x y : Except RunError α} (h : Like Eq x y) : x = y := by
  cases h with
  | ok x => rfl
  | error h => exact congrArg Except.error h

theorem renewed_eq (hw : world.AtRest) : P.renewed world = P world := congrArg P hw.eq_renewed

variable {id : FunctionId} {info : FunctionInfo} {args : List String} {store store' : Store}
  {result : Except RunError (List Value)}

/-- With a new scheduler for every phase that goes on counting, nothing is different. -/
theorem yields_renewed_iff (hs : P.Settles) :
    P.renewed.Yields p id info args store store' result ↔ P.Yields p id info args store store' result := by
  have hstart : Resting (.start store []) (.start store []) := ⟨rfl, rfl, rfl, rfl, rfl⟩
  have hs' : P.renewed.Settles := fun world id info args world' values hw h =>
    hs _ _ _ _ _ _ hw (renewed_eq hw ▸ h)
  constructor
  · intro h
    obtain ⟨_, h', hlike⟩ := h.simulated (hs'.simulates fun world hw => (renewed_eq hw).symm) hstart
    rwa [hlike.eq]
  · intro h
    obtain ⟨_, h', hlike⟩ := h.simulated (hs.simulates fun world hw => renewed_eq hw) hstart
    rwa [hlike.eq]

theorem matches_start (store : Store) : Matches (.start store []) (.start store []) :=
  ⟨⟨rfl, rfl, rfl, rfl⟩, Nat.le_refl _, rfl, rfl⟩

end Phase

/-! ## The two ways to run a function -/

namespace Environment

variable {env : Environment}

/-- Each worker is run to its end, and others wait until then. -/
def inOrder (env : Environment) (limit : Nat) : Phase := fun world id info args world' result =>
  env.runFunction .idle limit ⟨(), world⟩ id info args = some (⟨(), world'⟩, result)

theorem inOrder_renumbers (hn : env.CallsIgnoreIds) (limit : Nat) : (env.inOrder limit).Renumbers where
  shift d h := by
    unfold inOrder at h ⊢
    rw [runFunction_shift hn d, h]
    rfl
  of_shift d h := by
    unfold inOrder at h
    rw [runFunction_shift hn d] at h
    obtain ⟨⟨⟨_, world₀⟩, result₀⟩, h₀, he⟩ := Option.map_eq_some_iff.mp h
    cases he
    exact ⟨world₀, result₀, h₀, rfl, rfl⟩

theorem runsAnyhow_renumbers (hn : env.CallsIgnoreIds) : Phase.Renumbers env.RunsAnyhow where
  shift d h := h.shift hn d
  of_shift d h := h.of_shift hn d

/-- **A function that has succeeded leaves nobody at work and no failure**, however many workers it took. -/
theorem Invokes.settles {world left : World} {id : FunctionId} {info : FunctionInfo}
    {args : List (Bank × Value)} {deeds : List Deed} {ended : List (WorkerInstance × Outcome)}
    {values : List Value} (hw : world.AtRest)
    (h : env.Invokes world id info args deeds ended left (.ok values)) :
    left.AtRest ∧ world.scheduler.nextId ≤ left.scheduler.nextId := by
  generalize hr : Except.ok values = result at h
  cases h with
  | unbound hb => cases hr
  | unspawned hb hreg hs => cases hr
  | @ran inv inv' deeds me outcome joined kept hl hc hme ho hj =>
    obtain ⟨-, -, crew, hb, -⟩ := World.launch_balanced hw hl
    obtain ⟨joining, hb', -⟩ := hb.course hc
    have hwaiting : inv'.world.waiting = [] := hb'.join?_eq_some_iff.mp ⟨joined, hj⟩
    obtain ⟨joining, hbooks, -⟩ := hb.ends hc hwaiting
    obtain ⟨hlive, hfree, -⟩ := hbooks.settled
    have hlength : inv'.world.scheduler.inFlight = inv'.world.scheduler.live.length := by
      rw [hfree, hlive]
      rfl
    obtain ⟨-, hjoined⟩ := (Scheduler.join?_eq_some_iff hlength joined).mp hj
    have hfailures : inv'.world.scheduler.failures = [] := by
      -- a failure would have been the result
      by_contra hne
      rw [if_neg hne] at hjoined
      subst hjoined
      cases outcome <;> cases hr
    exact ⟨⟨hwaiting, hlive, hfree, hfailures⟩, hbooks.nextId ▸ Nat.le_add_right _ _⟩

theorem runsAnyhow_settles (env : Environment) : Phase.Settles env.RunsAnyhow := by
  rintro world id info args _ values hw ⟨deeds, ended, left, h, rfl⟩
  obtain ⟨⟨hwaiting, hlive, hfree, hfailures⟩, hle⟩ := h.settles hw
  exact ⟨⟨hwaiting, hlive, hfree, hfailures⟩, hle⟩

theorem inOrder_settles (env : Environment) (limit : Nat) : (env.inOrder limit).Settles := by
  intro world id info args world' values hw h
  obtain ⟨deeds, ended, h⟩ := runFunction_invokes hw h
  exact h.settles hw

/-! ## The program -/

theorem inits_of_runInits {limit : Nat} {packages : List PackageInfo} {world world' : World}
    {result : Except RunError Unit}
    (h : env.runInits .idle limit ⟨(), world⟩ packages = some (⟨(), world'⟩, result)) :
    (env.inOrder limit).Inits env.program packages world world' result := by
  induction packages generalizing world with
  | nil =>
    cases h
    exact .done
  | cons package rest ih =>
    unfold runInits at h
    cases hi : package.initFunction with
    | none =>
      rw [hi] at h
      exact .none hi (ih h)
    | some id =>
      rw [hi] at h
      dsimp only at h
      cases hf : env.program.function? id with
      | none =>
        rw [hf] at h
        cases h
        exact .missing hi hf
      | some info =>
        rw [hf] at h
        dsimp only at h
        cases hr : env.runFunction .idle limit ⟨(), world⟩ id info [] with
        | none =>
          rw [hr] at h
          cases h
        | some r =>
          obtain ⟨⟨_, left⟩, result'⟩ := r
          rw [hr] at h
          cases result' with
          | error e =>
            cases h
            exact .failed hi hf hr
          | ok values => exact .next hi hf hr (ih h)

theorem runInits_iff {limit : Nat} {packages : List PackageInfo} {world world' : World}
    {result : Except RunError Unit} :
    env.runInits .idle limit ⟨(), world⟩ packages = some (⟨(), world'⟩, result) ↔
      (env.inOrder limit).Inits env.program packages world world' result := by
  refine ⟨inits_of_runInits, fun h => ?_⟩
  induction h with
  | done => rfl
  | none hi _ ih =>
    unfold runInits
    rw [hi]
    exact ih
  | missing hi hf =>
    unfold runInits
    simp only [hi, hf]
  | failed hi hf hr =>
    unfold inOrder at hr
    unfold runInits
    simp only [hi, hf, hr]
  | next hi hf hr _ ih =>
    unfold inOrder at hr
    unfold runInits
    simp only [hi, hf, hr, ih]

theorem runPackages_iff {limit : Nat} {id : FunctionId} {info : FunctionInfo} {args : List String}
    {world world' : World} {result : Except RunError (List Value)} :
    env.runPackages .idle limit ⟨(), world⟩ id info args = some (⟨(), world'⟩, result) ↔
      (env.inOrder limit).Main env.program id info args world world' result := by
  rw [runPackages_eq]
  constructor
  · intro h
    obtain ⟨⟨⟨_, left⟩, inits⟩, hinits, h⟩ := Option.bind_eq_some_iff.mp h
    have hphases := inits_of_runInits hinits
    dsimp only at h
    cases inits with
    | error e =>
      cases h
      exact .stopped hphases
    | ok _ =>
      dsimp only at h
      cases hh : left.handMain info args with
      | error e =>
        rw [hh] at h
        cases h
        exact .unhanded hphases hh
      | ok handed =>
        rw [hh] at h
        exact .main hphases hh h
  · intro h
    cases h with
    | stopped h => rw [runInits_iff.mpr h, Option.bind_some]
    | unhanded h hh =>
      rw [runInits_iff.mpr h, Option.bind_some]
      dsimp only
      rw [hh]
    | main h hh hr =>
      rw [runInits_iff.mpr h, Option.bind_some]
      dsimp only
      rw [hh]
      exact hr

/-- What is run of a program is its phases. -/
theorem runMain_iff {limit : Nat} {id : FunctionId} {info : FunctionInfo}
    (hmain : env.program.mainFunction? = some (id, info)) {args : List String} {store store' : Store}
    {result : Except RunError (List Value)} :
    env.runMain limit store args = some (store', result) ↔
      (env.inOrder limit).Yields env.program id info args store store' result := by
  unfold runMain
  rw [hmain]
  constructor
  · intro h
    obtain ⟨⟨⟨_, left⟩, result'⟩, hrun, he⟩ := Option.bind_eq_some_iff.mp h
    cases he
    exact ⟨left, runPackages_iff.mp hrun, rfl⟩
  · rintro ⟨left, h, rfl⟩
    refine Option.bind_eq_some_iff.mpr ⟨_, runPackages_iff.mpr h, rfl⟩

/-- **A program runs in phases that do not know of each other.** To run its main function comes to the same
as to run, in the order of the packages, their init functions and then main, each with all its workers to
their end on a scheduler of its own, up to the first that fails or is not there: with the same objects, lines
and values, and with the same error, in which all ids of workers are raised by one number. That is so whether
workers are run one after another, each to its end, or take turns in any order. It takes natives that do not
look at the id of the worker that calls them; for any others it is so with schedulers that go on counting.
Whenever the init functions of some packages have succeeded, nobody is at work and no failure is recorded. -/
theorem phases_apart (env : Environment) {id : FunctionId} {info : FunctionInfo}
    (hmain : env.program.mainFunction? = some (id, info)) (args : List String) (store : Store) :
    (∀ limit store' result, env.runMain limit store args = some (store', result) ↔
      (env.inOrder limit).Yields env.program id info args store store' result) ∧
    ∀ P : Phase, (P = env.RunsAnyhow ∨ ∃ limit, P = env.inOrder limit) →
      (∀ store' result, P.Yields env.program id info args store store' result ↔
        P.renewed.Yields env.program id info args store store' result) ∧
      (env.CallsIgnoreIds → ∀ store' result,
        (P.Yields env.program id info args store store' result →
          ∃ result', P.apart.Yields env.program id info args store store' result' ∧
            Phase.Like Phase.Raised result result') ∧
        (P.apart.Yields env.program id info args store store' result →
          ∃ result', P.Yields env.program id info args store store' result' ∧
            Phase.Like Phase.Raised result' result)) ∧
      ∀ packages world', P.Inits env.program packages (.start store []) world' (.ok ()) →
        world'.AtRest := by
  refine ⟨fun limit store' result => runMain_iff hmain, fun P hP => ?_⟩
  have hs : P.Settles := by
    rcases hP with rfl | ⟨limit, rfl⟩
    · exact env.runsAnyhow_settles
    · exact env.inOrder_settles limit
  have hr : env.CallsIgnoreIds → P.Renumbers := fun hn => by
    rcases hP with rfl | ⟨limit, rfl⟩
    · exact runsAnyhow_renumbers hn
    · exact inOrder_renumbers hn limit
  refine ⟨fun store' result => (Phase.yields_renewed_iff hs).symm, fun hn store' result => ⟨?_, ?_⟩,
    fun packages world' h => h.settles hs ⟨rfl, rfl, rfl, rfl⟩ rfl⟩
  all_goals intro h
  · exact h.simulated ((hr hn).simulates_apart hs) (Phase.matches_start store)
  · obtain ⟨result', h', hlike⟩ := h.simulated ((hr hn).apart_simulates hs) (Phase.matches_start store)
    exact ⟨result', h', hlike.flip⟩

/-- A function with a worker that throws null. -/
def failingMain : FunctionInfo :=
  ⟨"main", "app", ⟨defaultWorkerName, 2, {}⟩, [⟨"failing", 3, { refs := 1 }⟩]⟩

/-- A library announces that it is ready, and then a worker of main fails. -/
def announcing : Environment where
  program :=
    { entryPackage := "app"
      packages := [⟨"library", some ⟨0⟩⟩, ⟨"app", none⟩]
      functions :=
        #[⟨"init", "library", ⟨defaultWorkerName, 0, { strs := 1 }⟩, [⟨"idle", 2, {}⟩]⟩,
          failingMain]
      constants := #["ready"]
      code := #[.strConst ⟨0⟩ 0, .nativeCall "io.println" [⟨.str, 0⟩] [], .ret [], .throw ⟨0⟩]
      lines := [] }
  natives := .builtin
  maxDepth := 4

/-- The worker that fails is the fourth on the scheduler of the program. -/
theorem announcing_apart :
    ∃ store' failure, announcing.runMain 5 .empty [] = some (store', .error (.workersFailed [failure])) ∧
      store'.output = #["ready"] ∧ failure.worker.id = 4 ∧
      ∃ result', (announcing.inOrder 5).apart.Yields announcing.program ⟨1⟩ failingMain [] .empty store'
          result' ∧
        Phase.Like Phase.Raised (.error (.workersFailed [failure])) result' := by
  have hmain : announcing.program.mainFunction? = some (⟨1⟩, failingMain) := by
    decide +kernel
  obtain ⟨hyields, hphases⟩ := announcing.phases_apart hmain [] .empty
  have hn : announcing.CallsIgnoreIds := fun _ _ _ _ _ _ hl => Natives.ignoresId_withLibrary hl
  have hrun : ∃ store' failure, announcing.runMain 5 .empty [] =
      some (store', .error (.workersFailed [failure])) ∧ store'.output = #["ready"] ∧
        failure.worker.id = 4 := by
    rw [runMain, hmain]
    exact ⟨_, _, rfl, rfl, rfl⟩
  obtain ⟨store', failure, hrun, hlines, hid⟩ := hrun
  refine ⟨store', failure, hrun, hlines, hid, ?_⟩
  exact ((hphases _ (.inr ⟨5, rfl⟩)).2.1 hn store' _).1 ((hyields 5 store' _).mp hrun)

end Environment

end RegisterMachine
