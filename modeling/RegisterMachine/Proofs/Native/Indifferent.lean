import RegisterMachine.Native.Strings
import RegisterMachine.Proofs.Value.Render

/-!
# Native functions that do the same anywhere

A native function gets the whole store and the worker that calls it, and could make use of what is in
there that its arguments do not lead to. `Native.Indifferent` says of one that it does not: called with
alike arguments, where the one heap is within the other, by whichever worker, it hands back alike
values or the same error and prints the same lines.

**`Natives.indifferent_withLibrary`**: all the functions that every program can call are.
-/

namespace RegisterMachine

namespace Native

def Indifferent (native : Native) : Prop :=
  ∀ (l : Link) (s s' : Store) (info info' : WorkerInstance) (args args' : List Value),
    s.heap.Within l s'.heap → List.Forall₂ (Value.Alike l) args args' →
    ∃ l' lines,
      Heap.InStep l s.heap s'.heap l' (native info s args).1.heap (native info' s' args').1.heap ∧
      (native info s args).1.output = s.output ++ lines ∧
      (native info' s' args').1.output = s'.output ++ lines ∧
      Agree (List.Forall₂ (Value.Alike l')) (native info s args).2 (native info' s' args').2

/-- A function that only looks is indifferent if what it finds is. -/
theorem query_indifferent {f : Heap → List Value → Except NativeError (List Value)}
    (hf : ∀ {l : Link} {h h' : Heap} {args args' : List Value}, h.Within l h' →
      List.Forall₂ (Value.Alike l) args args' →
      Agree (List.Forall₂ (Value.Alike l)) (f h args) (f h' args')) :
    (query f).Indifferent := by
  intro l s s' info info' args args' hw ha
  exact ⟨l, #[], .refl hw, Array.append_empty.symm, Array.append_empty.symm, hf hw ha⟩

section Arguments

variable {l : Link} {h h' : Heap} {args args' : List Value}

theorem checkCount_alike (ha : List.Forall₂ (Value.Alike l) args args') (expected : Nat) :
    Agree Eq (checkCount args expected) (checkCount args' expected) := by
  unfold checkCount
  rw [ha.length_eq]
  exact .refl _

theorem argTag_alike (hw : h.Within l h') (ha : List.Forall₂ (Value.Alike l) args args')
    (index : Nat) : argTag h args index = argTag h' args' index := by
  have harg := forall₂_getElem? ha index
  unfold argTag
  generalize args[index]? = x at harg
  generalize args'[index]? = y at harg
  cases harg with
  | some hv => exact (hw.tag hv).symm
  | none => rfl

theorem strArg_alike (hw : h.Within l h') (ha : List.Forall₂ (Value.Alike l) args args')
    (index : Nat) : Agree Eq (strArg h args index) (strArg h' args' index) := by
  have harg := forall₂_getElem? ha index
  unfold strArg
  rw [argTag_alike hw ha index]
  generalize args[index]? = x at harg
  generalize args'[index]? = y at harg
  cases harg with
  | some hv =>
    cases hv with
    | scalar hv => exact .refl _
    | collection hr => exact .error _
  | none => exact .error _

theorem patternArg_alike (hw : h.Within l h') (ha : List.Forall₂ (Value.Alike l) args args')
    (index : Nat) : Agree Eq (patternArg h args index) (patternArg h' args' index) := by
  have harg := forall₂_getElem? ha index
  unfold patternArg
  generalize args[index]? = x at harg
  generalize args'[index]? = y at harg
  cases harg with
  | none => exact .error _
  | @some v w hv =>
    have htag := hw.tag hv
    cases hv with
    | @scalar v hv =>
      cases v with
      | collection r => cases hv
      | _ => exact .refl _
    | collection hr =>
      obtain ⟨o, o', ho, ho', hoo⟩ := hw.objects hr
      unfold Heap.object?
      dsimp only
      rw [htag, ho, ho']
      cases hoo with
      | array hab => exact .error _
      | map hab => exact .error _
      | record hab =>
        have hpattern := hab.get "pattern"
        have htag' := hw.tag hpattern
        dsimp only [Option.map]
        generalize Entries.get _ "pattern" = v at hpattern htag'
        generalize Entries.get _ "pattern" = w at hpattern htag'
        cases hpattern with
        | @scalar v hv =>
          cases v with
          | collection r => cases hv
          | _ => exact .refl _
        | collection hr =>
          dsimp only
          rw [htag']
          exact .error _

theorem patternFailure_alike (l : Link) {missing : Value} (hm : missing.ref? = none)
    (message : String) :
    List.Forall₂ (Value.Alike l) (patternFailure missing message) (patternFailure missing message) :=
  .cons (.scalar hm) (.cons (.scalar rfl) .nil)

end Arguments

theorem printLine_indifferent : printLine.Indifferent := by
  intro l s s' info info' args args' hw ha
  have htexts : args.map s.heap.text = args'.map s'.heap.text :=
    map_eq_of_forall₂ ha fun _ _ hv => hw.text hv
  refine ⟨l, #[String.intercalate " " (args.map s.heap.text)], .refl hw, ?_, ?_, .ok .nil⟩
  · exact Array.push_eq_append
  · rw [htexts]
    exact Array.push_eq_append

theorem stringLength_indifferent : stringLength.Indifferent := by
  refine query_indifferent fun hw ha => ?_
  refine (checkCount_alike ha 1).bind_eq fun _ => ?_
  refine (strArg_alike hw ha 0).bind_eq fun s => ?_
  exact .ok (.cons (.scalar rfl) .nil)

theorem toUpperCase_indifferent : toUpperCase.Indifferent := by
  refine query_indifferent fun hw ha => ?_
  refine (checkCount_alike ha 1).bind_eq fun _ => ?_
  refine (strArg_alike hw ha 0).bind_eq fun s => ?_
  exact .ok (.cons (.scalar rfl) .nil)

theorem stringContains_indifferent : stringContains.Indifferent := by
  refine query_indifferent fun hw ha => ?_
  refine (checkCount_alike ha 2).bind_eq fun _ => ?_
  refine (strArg_alike hw ha 0).bind_eq fun s => ?_
  refine (strArg_alike hw ha 1).bind_eq fun part => ?_
  exact .ok (.cons (.scalar rfl) .nil)

theorem matchesWithRegex_indifferent (lib : Regex.Library) : (matchesWithRegex lib).Indifferent := by
  refine query_indifferent fun {l} _ _ _ _ hw ha => ?_
  refine (checkCount_alike ha 2).bind_eq fun _ => ?_
  refine (strArg_alike hw ha 0).bind_eq fun s => ?_
  refine (patternArg_alike hw ha 1).bind_eq fun pattern => ?_
  cases lib.compileAnchored pattern with
  | ok compiled => exact .ok (.cons (.scalar rfl) .nil)
  | error e => exact .ok (patternFailure_alike l rfl e)

theorem replaceAllWithRegex_indifferent (lib : Regex.Library) :
    (replaceAllWithRegex lib).Indifferent := by
  refine query_indifferent fun {l} _ _ _ _ hw ha => ?_
  refine (checkCount_alike ha 3).bind_eq fun _ => ?_
  refine (strArg_alike hw ha 0).bind_eq fun s => ?_
  refine (patternArg_alike hw ha 1).bind_eq fun pattern => ?_
  refine (strArg_alike hw ha 2).bind_eq fun replacement => ?_
  cases lib.compile pattern with
  | ok compiled => exact .ok (.cons (.scalar rfl) .nil)
  | error e => exact .ok (patternFailure_alike l rfl e)

theorem ofStrings_alike (l : Link) {items : List String} {a : ArrayObject}
    (h : ArrayObject.ofStrings items = .ok a) : a.Alike l a := by
  unfold ArrayObject.ofStrings Growable.ofArray? at h
  split at h
  · cases h
  · cases h
    exact .mk ⟨List.forall₂_same.mpr fun _ _ => rfl, rfl⟩

/-- The one function that makes an object. -/
theorem findAllWithRegex_indifferent (lib : Regex.Library) : (findAllWithRegex lib).Indifferent := by
  intro l s s' info info' args args' hw ha
  unfold findAllWithRegex
  extract_lets found found'
  have hfound : Agree (fun x y => x = y ∧ ∀ a, x = .ok a → a.Alike l a) found found' := by
    refine (checkCount_alike ha 2).bind_eq fun _ => ?_
    refine (strArg_alike hw ha 0).bind_eq fun s => ?_
    refine (patternArg_alike hw ha 1).bind_eq fun pattern => ?_
    cases lib.compile pattern with
    | error message => exact .ok ⟨rfl, fun a h => nomatch h⟩
    | ok compiled =>
      dsimp only
      cases hstrings : ArrayObject.ofStrings (compiled.findAll s) with
      | error e => exact .error _
      | ok a =>
        refine .ok ⟨rfl, fun b hb => ?_⟩
        cases hb
        exact ofStrings_alike l hstrings
  generalize found = x at hfound
  generalize found' = y at hfound
  have unchanged : ∀ {x : Except NativeError (List Value)}, Agree (List.Forall₂ (Value.Alike l)) x x →
      ∃ l' lines, Heap.InStep l s.heap s'.heap l' s.heap s'.heap ∧ s.output = s.output ++ lines ∧
        s'.output = s'.output ++ lines ∧ Agree (List.Forall₂ (Value.Alike l')) x x := fun hx =>
    ⟨l, #[], .refl hw, Array.append_empty.symm, Array.append_empty.symm, hx⟩
  cases hfound with
  | error e => exact unchanged (.error e)
  | @ok x _ hx =>
    obtain ⟨rfl, hself⟩ := hx
    cases x with
    | error e => exact unchanged (.ok (patternFailure_alike l rfl e))
    | ok a =>
      obtain ⟨l', hstep, hnext⟩ := Heap.InStep.alloc hw (.array (hself a rfl))
      exact ⟨l', #[], hstep, Array.append_empty.symm, Array.append_empty.symm,
        .ok (.cons (.collection hnext) .nil)⟩

end Native

/-- **The functions that every program can call are indifferent**, whatever library is behind them. -/
theorem Natives.indifferent_withLibrary {lib : Regex.Library} {name : String} {native : Native}
    (h : (withLibrary lib).lookup name = some native) : native.Indifferent := by
  have hmem : ∀ n ∈ withLibrary lib, n.2.Indifferent := by
    simp only [withLibrary, List.mem_cons, List.not_mem_nil, or_false, forall_eq_or_imp, forall_eq]
    exact ⟨Native.matchesWithRegex_indifferent lib, Native.findAllWithRegex_indifferent lib,
      Native.replaceAllWithRegex_indifferent lib, Native.stringLength_indifferent,
      Native.toUpperCase_indifferent, Native.stringContains_indifferent,
      Native.printLine_indifferent⟩
  obtain ⟨before, after, he, -⟩ := List.lookup_eq_some_iff.mp h
  have hin : (name, native) ∈ withLibrary lib := by
    rw [he]
    exact List.mem_append_right _ List.mem_cons_self
  exact hmem _ hin

end RegisterMachine
