import RegisterMachine.CommandLine.Usage

/-!
# Reading arguments

Arguments are read from left to right. An option whose value is the next argument is settled only when
the argument after that is known to have a meaning, or at the end; an argument without meaning is thus
reported rather than the bad value before it. After `--`, and after the first argument of the program
that is run, hyphens have no meaning.
-/

namespace RegisterMachine.CommandLine

/-! ## The shapes of arguments -/

inductive Shape
  /-- Two hyphens alone. -/
  | escape
  /-- A name after two hyphens, with or without a value after an equals sign. -/
  | long (name : String) (value : Option String)
  /-- Letters after one hyphen. -/
  | short (letters : List Char)
  | word
  deriving DecidableEq, Repr

def Shape.of (arg : String) : Shape :=
  match arg.toList with
  | ['-', '-'] => escape
  | '-' :: '-' :: rest =>
      let name := rest.takeWhile (· != '=')
      match rest.drop name.length with
      | [] => long (String.ofList name) none
      | _ :: value => long (String.ofList name) (some (String.ofList value))
  | '-' :: c :: rest => short (c :: rest)
  | _ => word

/-! ## What has been read -/

structure Given where
  overrides : Settings.Overrides := {}
  program : Option String := none
  deriving Repr

/-- What an argument can be the value of. -/
inductive Slot
  | option (s : Switch)
  | program
  deriving DecidableEq, Repr

/-- Where the reading stands. -/
structure Reading where
  given : Given := {}
  /-- What is not settled yet, with its value if that has been read. -/
  pending : Option (Slot × Option String) := none
  /-- Whether hyphens have no meaning any more. -/
  literal : Bool := false
  deriving Repr

/-- A path, which cannot be empty. -/
def path (text : String) : Except UsageError String :=
  if text.isEmpty then .error .missingValue else .ok text

/-- A value of the kind it should be. -/
def wanted {α : Type} : Option α → Except UsageError α
  | some a => .ok a
  | none => .error .badValue

/-- A number of 16 bits. It may have a sign. -/
def port? (text : String) : Option UInt16 := do
  let n ← Decimal.readInt? 9223372036854775807 text.toList
  if 0 ≤ n ∧ n ≤ 65535 then some (.ofNat n.toNat) else none

/-- Fails if there is something already. -/
def once {α : Type} : Option α → Except UsageError Unit
  | some _ => .error .repeated
  | none => .ok ()

namespace Given

/-- Gives a slot its value. -/
def put (g : Given) (slot : Slot) (value : String) : Except UsageError Given := do
  let o := g.overrides
  match slot with
  | .program => return { g with program := some (← path value) }
  | .option .config => do
      once o.file
      return { g with overrides := { o with file := some (← path value) } }
  | .option .breakpoint =>
      return { g with overrides := { o with breakpoints := o.breakpoints ++ [value] } }
  | .option .debugPort => do
      once o.debugPort
      return { g with overrides := { o with debugPort := some (← wanted (port? value)) } }
  | .option .maxCallDepth => do
      once o.maxCallDepth
      let depth ← wanted (Decimal.readNat? maxOffset value.toList)
      return { g with overrides := { o with maxCallDepth := some depth } }
  | .option .debug => .error .unwantedValue
  | .option .help => .error .unwantedValue

/-- Meets an option that has no value. -/
def turnOn (g : Given) : Switch → Except UsageError Given
  | .help => .error .help
  | .debug => do
      once g.overrides.debugEnabled
      return { g with overrides := { g.overrides with debugEnabled := some true } }
  | _ => .error .missingValue

end Given

namespace Reading

/-- Settles what is pending. -/
def settle (r : Reading) : Except UsageError Reading :=
  match r.pending with
  | none => .ok r
  | some (_, none) => .error .missingValue
  | some (slot, some value) => do
      return { r with given := ← r.given.put slot value, pending := none }

/-- Meets an option, with the value that is attached to it. -/
def meet (r : Reading) (s : Switch) (value : Option String) : Except UsageError Reading :=
  match s.takesValue, value with
  | true, none => do return { ← r.settle with pending := some (.option s, none) }
  | true, some value => do
      let r ← r.settle
      return { r with given := ← r.given.put (.option s) value }
  | false, some _ => .error .unwantedValue
  | false, none => do
      let r ← r.settle
      return { r with given := ← r.given.turnOn s }

/-- Reads letters after a hyphen. What is after the letter of an option with a value is the value. -/
def letters (known : List Switch) (r : Reading) : List Char → Except UsageError Reading
  | [] => .ok r
  | c :: rest =>
      match known.find? fun s => s.short? == some c with
      | none => .error .unknownArgument
      | some s =>
          if s.takesValue then
            match rest with
            | [] => r.meet s none
            | '=' :: value => r.meet s (some (String.ofList value))
            | value => r.meet s (some (String.ofList value))
          else do letters known (← r.meet s none) rest

/-- Reads an argument among the known options and their values; `none` if it is something else. -/
def option? (known : List Switch) (r : Reading) (arg : String) :
    Except UsageError (Option Reading) :=
  if r.literal then .ok none
  else
    match Shape.of arg with
    | .escape => .ok (some { r with literal := true })
    | .long name value =>
        match known.find? fun s => s.long == name with
        | some s => some <$> r.meet s value
        | none => .error .unknownArgument
    | .short cs => some <$> r.letters known cs
    | .word =>
        match r.pending with
        | some (slot, none) => .ok (some { r with pending := some (slot, some arg) })
        | _ => .ok none

/-- Whether the program has been read. -/
def hasProgram (r : Reading) : Bool :=
  r.given.program.isSome || r.pending.any fun (slot, _) => slot == .program

end Reading

/-! ## Commands -/

/-- What is read after a command: what is given, and the arguments of the program. -/
def readVerb (verb : Verb) (r : Reading) : List String → Except UsageError (Given × List String)
  | [] => do return ((← r.settle).given, [])
  | arg :: args => do
      match ← r.option? (Switch.ofVerb verb) arg with
      | some r => readVerb verb r args
      | none =>
          if r.hasProgram then
            match verb with
            | .run => return ((← r.settle).given, arg :: args)
            | .inspect => .error .unknownArgument
          else
            let r ← r.settle
            readVerb verb { r with pending := some (.program, some arg) } args

/-- What comes of asking for help with some commands. -/
def helpWith : List String → UsageError
  | [] => .help
  | [name] => if (Verb.ofName? name).isSome || name == "help" then .help else .unknownVerb
  | _ :: _ :: _ => .unknownVerb

/-- Reads the arguments up to the command, and then the rest. -/
def readFrom (r : Reading) : List String → Except UsageError Invocation
  | [] => do
      let r ← r.settle
      .error (if r.given.overrides.file.isSome then .missingVerb else .nothing)
  | arg :: args => do
      match ← r.option? Switch.general arg with
      | some r => readFrom r args
      | none =>
          if r.literal then
            .error (if (Verb.ofName? arg).isSome || arg == "help" then .unknownArgument
              else .unknownVerb)
          else
            match Verb.ofName? arg with
            | none => .error (if arg == "help" then helpWith args else .unknownVerb)
            | some verb =>
                let (given, rest) ← readVerb verb {} args
                match given.program with
                | none => .error .missingProgram
                | some program =>
                    let general := (← r.settle).given
                    let file := given.overrides.file.or general.overrides.file
                    return ⟨verb, program, rest, { given.overrides with file }⟩

/-- What the arguments say. -/
def Invocation.ofArguments (args : List String) : Except UsageError Invocation := readFrom {} args

end RegisterMachine.CommandLine
