import RegisterMachine.Proofs.Debug.Answering

/-!
# The grammar of a session

The stages of a run say in which order events are sent. Two things are missing for what a client can
rely on. It gets what is sent for as long as it listens and nothing afterwards (`Hands`). And what a
worker says when it stops is where it is (`Fits`): it says so some time after it was found that it has to
stop, and others may have done anything in between, but it has not moved.

**`Debug.session_grammar`** puts them together, for every course and so for every run of `Debug.runMain`,
and says when such a run comes to an end.
-/

namespace RegisterMachine.Debug

namespace Debuggee

variable {env : Environment} {args : List String} {store : Store} {d d' : Debuggee}
  {log log' : List Happening} {p : Program}

/-! ## What the client gets -/

/-- What a move does to the events that the client has got. -/
structure Hands (s : Session) (log : List Happening) (s' : Session) : Prop where
  events : s'.events = s.events ++ delivered log
  prefix_sent : delivered log <+: sent log
  gone : s.listening = false → delivered log = []
  there : s'.listening = true → s.listening = true ∧ delivered log = sent log

namespace Hands

variable {s s' : Session}

/-- Where nothing is said, nothing is handed over, and nobody begins to listen. -/
theorem nothing (hd : delivered log = []) (hs : sent log = []) (hr : s'.reports = s.reports)
    (hl : s'.listening = true → s.listening = true) : Hands s log s' where
  events := by
    unfold Session.events
    rw [hr, hd, List.append_nil]
  prefix_sent := by
    rw [hd]
    exact List.nil_prefix
  gone _ := hd
  there h := ⟨hl h, by rw [hd, hs]⟩

theorem hear (s : Session) (r : Reply) : Hands s [.heard r] (s.hear r) := by
  have hsend : ∀ (cs : List Command) (s : Session),
      (cs.foldl Session.send s).reports = s.reports ∧
        (cs.foldl Session.send s).listening = s.listening := by
    intro cs
    induction cs with
    | nil => exact fun s => ⟨rfl, rfl⟩
    | cons c cs ih =>
      intro s
      rw [List.foldl_cons]
      obtain ⟨hr, hl⟩ := ih (s.send c)
      rw [hr, hl]
      unfold Session.send
      split <;> exact ⟨rfl, rfl⟩
  obtain ⟨hr, hl⟩ := hsend r.commands s
  refine nothing rfl rfl hr fun h => ?_
  simp only [Session.hear, Bool.and_eq_true, hl] at h
  exact h.1

theorem tell {w : Option Worker} {e : Event} {printed : Nat} {got : Bool}
    (hg : got = s.listening) : Hands s [.said w e got] (s.tell printed e) := by
  subst hg
  unfold Session.tell
  cases hl : s.listening with
  | false => exact ⟨(List.append_nil _).symm, List.nil_prefix, fun _ => rfl, by simp [hl]⟩
  | true =>
    refine ⟨?_, List.prefix_refl _, by simp [hl], fun _ => ⟨hl, rfl⟩⟩
    simp [Session.events, delivered]

theorem take {c : Command} {reader : Option Nat} (ht : s.take? = some (c, s')) :
    Hands s [.took reader c] s' := by
  unfold Session.take? at ht
  split at ht
  · cases ht
  · cases ht
    exact nothing rfl rfl rfl id
  · cases ht
    exact nothing rfl rfl rfl id

/-- Nothing that is missed was got. -/
theorem miss {w : Option Worker} {e : Event} (hl : s.listening = false)
    (hr : s'.reports = s.reports) (hl' : s'.listening = s.listening) :
    Hands s [.said w e false] s' where
  events := by
    unfold Session.events
    rw [hr]
    exact (List.append_nil _).symm
  prefix_sent := List.nil_prefix
  gone _ := rfl
  there h := by
    rw [hl', hl] at h
    cases h

theorem detach (s : Session) : s.detach.reports = s.reports ∧ s.detach.listening = s.listening := by
  unfold Session.detach
  split <;> exact ⟨rfl, rfl⟩

theorem attend (ha : Attends p d log d') : Hands d.session log d'.session := by
  obtain ⟨hr, hl⟩ := detach d.session
  cases ha with
  | hear r => exact hear d.session r
  | check => exact nothing rfl rfl rfl id
  | halt => exact nothing rfl rfl rfl id
  | stop hw hn hl => exact tell hl.symm
  | miss hw hn hl' => exact miss hl' hr hl
  | lock => exact nothing rfl rfl rfl id
  | take hw hn hr ht => exact take ht
  | release hw hn hr ht => exact take ht
  | lose => exact nothing rfl rfl hr fun h => hl ▸ h

theorem does (hd : Does env args d log d') : Hands d.session log d'.session := by
  cases hd with
  | attend ha => exact attend ha
  | greet hc hm hl => exact tell hl.symm
  | ungreeted hc hm hl => exact miss hl rfl rfl
  | ignore hc ht => exact take ht
  | begin hc ht => exact take ht
  | exit hc => exact tell rfl
  | init =>
    unfold Debuggee.launch
    split <;> exact nothing rfl rfl rfl id
  | main =>
    unfold Debuggee.launch
    split <;> exact nothing rfl rfl rfl id
  | _ => exact nothing rfl rfl rfl id

theorem trans {s'' : Session} (h : Hands s log s') (h' : Hands s' log' s'') :
    Hands s (log ++ log') s'' where
  events := by rw [h'.events, h.events, delivered_append, List.append_assoc]
  prefix_sent := by
    rw [delivered_append, sent_append]
    cases hl : s'.listening with
    | false =>
      rw [h'.gone hl, List.append_nil]
      exact h.prefix_sent.trans (List.prefix_append _ _)
    | true =>
      rw [(h.there hl).2]
      exact List.prefix_append_right_inj _ |>.mpr h'.prefix_sent
  gone hl := by
    have hl' : s'.listening = false := by
      cases h' : s'.listening with
      | false => rfl
      | true =>
        rw [(h.there h').1] at hl
        cases hl
    rw [delivered_append, h.gone hl, h'.gone hl']
    rfl
  there hl := by
    obtain ⟨hl', he⟩ := h'.there hl
    obtain ⟨hl'', he'⟩ := h.there hl'
    rw [delivered_append, sent_append, he, he']
    exact ⟨hl'', rfl⟩

/-- As long as the client listens it gets everything, and afterwards nothing more. -/
theorem course (hc : Course env args d log d') : Hands d.session log d'.session := by
  induction hc with
  | start => exact nothing rfl rfl rfl id
  | move _ hm ih => exact ih.trans (does hm)

end Hands

/-! ## What a worker says -/

/-- A worker that has to stop is where it was when that was found. -/
def Fits (p : Program) (notes : Nat → Note) (w : Worker) : Prop :=
  ∀ watch position reason,
    notes w.info.id = ⟨watch, .stopping position reason⟩ → w.position? p = some position

namespace Fits

variable {notes : Nat → Note} {v w : Worker}

theorem update {n : Note} (h : v.info.id ≠ w.info.id → Fits p notes v)
    (hn : v.info.id = w.info.id → ∀ watch position reason,
      n = ⟨watch, .stopping position reason⟩ → v.position? p = some position) :
    Fits p (Function.update notes w.info.id n) v := by
  intro watch position reason he
  by_cases hid : v.info.id = w.info.id
  · rw [hid, Function.update_self] at he
    exact hn hid _ _ _ he
  · rw [Function.update_of_ne hid] at he
    exact h hid _ _ _ he

/-- A worker that goes on has no need to be anywhere. -/
theorem clear {watch : Watch} {stand : Stand} (h : v.info.id ≠ w.info.id → Fits p notes v)
    (hs : ∀ position reason, stand ≠ .stopping position reason) :
    Fits p (Function.update notes w.info.id ⟨watch, stand⟩) v := by
  refine update h fun _ watch' position reason he => ?_
  rw [Note.mk.injEq] at he
  exact absurd he.2 (hs _ _)

/-- Nothing is known of workers that are new. -/
theorem fresh {next : Nat} (h : v.info.id < next → Fits p notes v) :
    Fits p (fun id => if id < next then notes id else .fresh) v := by
  intro watch position reason he
  dsimp only at he
  split at he
  · rename_i hlt
    exact h hlt _ _ _ he
  · cases he

theorem attend (h : ∀ w ∈ d.inv.world.waiting, Fits p d.notes w)
    (hstage : Stage p store log d.inv d.control) (ha : Attends p d log' d') :
    ∀ w ∈ d'.inv.world.waiting, Fits p d'.notes w := by
  intro v hv
  cases ha with
  | hear => exact h v hv
  | check => exact clear (fun _ => h v hv) (by simp)
  | @halt w watch position reason hw hn hc =>
    obtain ⟨-, -, after, first, crew, -, hb⟩ := hstage.running_of_waiting hw
    refine update (fun _ => h v hv) fun hid watch' position' reason' he => ?_
    rw [Note.mk.injEq, Stand.stopping.injEq] at he
    obtain ⟨-, rfl, -⟩ := he
    rw [hb.eq_of_id hv hw hid]
    exact position?_of_check hc
  | stop => exact clear (fun _ => h v hv) (by simp)
  | miss => exact clear (fun _ => h v hv) (by simp)
  | lock => exact h v hv
  | take => exact h v hv
  | release => exact clear (fun _ => h v hv) (by simp)
  | lose => exact clear (fun _ => h v hv) (by simp)

theorem launch {world : World} {id : FunctionId} {info : FunctionInfo}
    {handed : List (Bank × Value)} (hw : world.AtRest) (d : Debuggee)
    (after : Option (List PackageInfo)) :
    ∀ w ∈ (d.launch world id info handed after).inv.world.waiting,
      Fits p (d.launch world id info handed after).notes w := by
  intro v hv
  unfold Debuggee.launch at hv ⊢
  cases hl : world.launch id info handed with
  | ok inv =>
    rw [hl] at hv
    obtain ⟨-, -, crew, hb, -⟩ := World.launch_balanced hw hl
    exact fresh fun hlt => absurd hlt (Nat.not_lt.mpr (hb.le_id hv))
  | error e =>
    rw [hl] at hv
    have hnobody : v ∈ (world.unlaunched id info handed e).waiting := hv
    rw [World.waiting_unlaunched, hw.waiting] at hnobody
    exact absurd hnobody List.not_mem_nil

/-- **Every move keeps it.** -/
theorem does (h : ∀ w ∈ d.inv.world.waiting, Fits env.program d.notes w)
    (hstage : Stage env.program store log d.inv d.control) (hd : Does env args d log' d') :
    ∀ w ∈ d'.inv.world.waiting, Fits env.program d'.notes w := by
  cases hd with
  | attend ha => exact attend h hstage ha
  | @step before after w watch hw hn =>
    obtain ⟨started, hs, -⟩ := env.step_adds { d.inv.world with waiting := before ++ after } w
    generalize env.step { d.inv.world with waiting := before ++ after } w = r at hs ⊢
    intro v hv
    refine clear (fun hid => fresh fun hlt => ?_) (by simp)
    -- `v` is not the worker itself, and none of those that it has started
    rcases Invocation.mem_takeBack hv with rfl | hv
    · exact absurd rfl hid
    · rw [hs.waiting] at hv
      rcases List.mem_append.mp hv with hv | hv
      · refine h v ?_
        rw [hw]
        simp only [List.mem_append, List.mem_cons] at hv ⊢
        tauto
      · exact absurd hlt (Nat.not_lt.mpr (hs.ids v hv).1)
  | init hc hi hf =>
    rw [hc] at hstage
    cases hstage with
    | between hm h hw => exact launch hw d _
  | main hc hm hh =>
    rw [hc] at hstage
    cases hstage with
    | between hm h hw => exact launch (hw.handMain hh) d _
  | _ => exact h

theorem course {s : Session} (hc : Course env args (.start s store) log d) :
    ∀ w ∈ d.inv.world.waiting, Fits env.program d.notes w := by
  induction hc with
  | start => exact fun w hw => absurd hw List.not_mem_nil
  | move hc hm ih => exact does ih (Stage.course hc) hm

/-- What a worker says that is where it was. -/
theorem stopEvent_eq {watch : Watch} {position : SourcePos} {reason : Reason}
    (h : Fits p notes w) (hn : notes w.info.id = ⟨watch, .stopping position reason⟩) :
    ∃ f below, w.stack = f :: below ∧ p.position? f.ip = some position ∧
      stopEvent p w position reason =
        .suspended (.ofNat w.info.id) w.info.workerName position reason
          ({ CallStack.entryOf p f with position := some position } ::
            below.map (CallStack.entryOf p)) := by
  obtain ⟨f, hf, hpos⟩ := Option.bind_eq_some_iff.mp (h _ _ _ hn)
  obtain ⟨below, hs⟩ := List.head?_eq_some_iff.mp hf
  refine ⟨f, below, hs, hpos, ?_⟩
  unfold stopEvent
  rw [hs]
  rfl

end Fits

/-- A stop is said by a worker that has to stop. -/
theorem Does.stopping {speaker : Option Worker} {e : Event} {got : Bool}
    (hd : Does env args d log d') (hm : .said speaker e got ∈ log) (he : e.isStop = true) :
    ∃ w ∈ d.inv.world.waiting, speaker = some w ∧ ∃ watch position reason,
      d.notes w.info.id = ⟨watch, .stopping position reason⟩ ∧
      e = stopEvent env.program w position reason := by
  cases hd with
  | attend ha =>
    cases ha with
    | stop hw hn hl =>
      simp only [List.mem_singleton, Happening.said.injEq] at hm
      exact ⟨_, hw, hm.1, _, _, _, hn, hm.2.1⟩
    | miss hw hn hl =>
      simp only [List.mem_singleton, Happening.said.injEq] at hm
      exact ⟨_, hw, hm.1, _, _, _, hn, hm.2.1⟩
    | _ => simp at hm
  | greet =>
    simp only [List.mem_singleton, Happening.said.injEq] at hm
    rw [hm.2.1] at he
    cases he
  | ungreeted =>
    simp only [List.mem_singleton, Happening.said.injEq] at hm
    rw [hm.2.1] at he
    cases he
  | exit =>
    simp only [List.mem_singleton, Happening.said.injEq] at hm
    rw [hm.2.1] at he
    cases he
  | _ => simp at hm

end Debuggee

open Debuggee

/-- **The grammar of a session.** What is run under a session comes to an end exactly if `Ends` says so,
it is a course then, and this holds of every course, in whatever order workers take their turns and the
client does what it does. The client has got the events that have been sent, all of them as long as it
listens and none after that. As long as the run has not come to an end they are none, or the word that it
is ready and after it stops. When it has, they are what `Outcomes` says. Whatever happens next, no
instruction is run before the word to begin has been taken. And a stop is said by a worker that is there,
of the position that it is at, with its frames from the innermost to the outermost, the first of them at
that position. -/
theorem session_grammar (env : Environment) (args : List String) (s : Session) (store : Store) :
    (∀ limit client,
      ((Debug.runMain env limit client s store args).isSome ↔ Ends env limit client s store args) ∧
      ∀ s' store' result, Debug.runMain env limit client s store args = some (s', store', result) →
        ∃ log d, Course env args (.start s store) log d ∧ d.control = .finished result ∧
          d.session = s' ∧ d.inv.world.store = store') ∧
    (∀ result, exitStatus result = 0 ↔ ∃ values, result = .ok values) ∧
    ∀ log d, Course env args (.start s store) log d →
      d.session.events = s.events ++ delivered log ∧ delivered log <+: sent log ∧
      (d.session.listening = true → delivered log = sent log) ∧
      (env.program.mainFunction? = none → sent log = []) ∧
      ((∀ result, d.control ≠ .finished result) → sent log = [] ∨
        ∃ stops, (∀ e ∈ stops, e.isStop = true) ∧ sent log = .ready :: stops) ∧
      (∀ result, d.control = .finished result → Outcomes env.program store log d.inv result) ∧
      ∀ log' d', Does env args d log' d' →
        (Executed log' → Begun log) ∧
        ∀ speaker e got, .said speaker e got ∈ log' → e.isStop = true →
          ∃ w ∈ d.inv.world.waiting, speaker = some w ∧ ∃ f below position reason,
            w.stack = f :: below ∧ env.program.position? f.ip = some position ∧
            e = .suspended (.ofNat w.info.id) w.info.workerName position reason
              ({ CallStack.entryOf env.program f with position := some position } ::
                below.map (CallStack.entryOf env.program)) := by
  refine ⟨runMain_ends env args s store, fun _ => exitStatus_eq_zero_iff, fun log d hc => ?_⟩
  have hhands := Hands.course hc
  have hstage := Stage.course hc
  refine ⟨hhands.events, hhands.prefix_sent, fun hl => (hhands.there hl).2, ?_, ?_, ?_, ?_⟩
  · exact hstage.sent_of_noMain
  · exact hstage.sent_of_unfinished
  · intro result hover
    rw [hover] at hstage
    exact hstage.outcomes
  · intro log' d' hd
    refine ⟨hd.begun_of_executed hstage, fun speaker e got hm he => ?_⟩
    obtain ⟨w, hw, hspeaker, watch, position, reason, hn, hevent⟩ := hd.stopping hm he
    obtain ⟨f, below, hs, hpos, hstop⟩ := (Fits.course hc w hw).stopEvent_eq hn
    exact ⟨w, hw, hspeaker, f, below, position, reason, hs, hpos, hevent.trans hstop⟩

/-- The doubling program says that it is ready, that it has stopped at main, and that it has ended well. -/
theorem soloDoubling_grammar :
    ∃ log d, Course soloDoubling [] (.start .throughMain .empty) log d ∧
      (∃ values, d.control = .finished (.ok values)) ∧ d.session.listening = true ∧
      sent log = [.ready,
        .suspended 1 defaultWorkerName ⟨"main", 1⟩ .breakpoint
          [⟨"main", defaultWorkerName, some ⟨"main", 1⟩⟩],
        .exit 0] := by
  have h := session_grammar soloDoubling [] .throughMain .empty
  obtain ⟨s', store', values, hrun, hlistening, hevents⟩ : ∃ s' store' values,
      Debug.runMain soloDoubling 5 .silent .throughMain .empty [] = some (s', store', .ok values) ∧
        s'.listening = true ∧ s'.events = [.ready,
          .suspended 1 defaultWorkerName ⟨"main", 1⟩ .breakpoint
            [⟨"main", defaultWorkerName, some ⟨"main", 1⟩⟩],
          .exit 0] := by
    rw [Debug.runMain, soloDoubling_main]
    exact ⟨_, _, _, rfl, rfl, rfl⟩
  obtain ⟨log, d, hc, hover, rfl, -⟩ := (h.1 5 .silent).2 _ _ _ hrun
  obtain ⟨hgot, -, hall, -⟩ := h.2.2 log d hc
  refine ⟨log, d, hc, ⟨values, hover⟩, hlistening, ?_⟩
  have hfrom : Session.throughMain.events = [] := rfl
  rw [← hall hlistening, ← hevents, hgot, hfrom, List.nil_append]

end RegisterMachine.Debug
