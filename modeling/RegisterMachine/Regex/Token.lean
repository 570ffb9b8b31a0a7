import RegisterMachine.Regex.Basic
import RegisterMachine.Text.Hex

/-!
# The tokens of a pattern

The text of a pattern cut into tokens: characters, sets, anchors, repetitions and the parts of groups.
What a token means can depend on the flags in force where it stands, which its text does not tell; so
a set in brackets, or one with a name, is kept as it is written until the flags are known.
-/

namespace RegisterMachine.Regex

/-- What can be wrong with a pattern. -/
inductive PatternError
  | unclosedGroup
  | unopenedGroup
  | lookAround
  | groupName
  | duplicateGroupName (name : String)
  | flags
  | nothingToRepeat
  | repetitionCount
  | repetitionRange
  | backreference
  | escape
  | hexEscape
  | unclosedSet
  | setRange
  | setEscape
  | property
  | wordBoundary
  | tooDeep
  deriving DecidableEq, Repr

namespace PatternError

def reason : PatternError → String
  | unclosedGroup => "unclosed group"
  | unopenedGroup => "unopened group"
  | lookAround => "look-around is not supported"
  | groupName => "invalid capture group name"
  | duplicateGroupName name => "duplicate capture group name '" ++ name ++ "'"
  | flags => "invalid flags"
  | nothingToRepeat => "repetition operator missing expression"
  | repetitionCount => "invalid repetition count"
  | repetitionRange => "invalid repetition count range, the start must be <= the end"
  | backreference => "backreferences are not supported"
  | escape => "unrecognized escape sequence"
  | hexEscape => "invalid hexadecimal escape sequence"
  | unclosedSet => "unclosed character class"
  | setRange => "invalid character class range, the start must be <= the end"
  | setEscape => "invalid escape sequence found in character class"
  | property => "Unicode property not found"
  | wordBoundary => "special word boundary assertion is either unclosed or unrecognized"
  | tooDeep => "exceed the maximum number of nested parentheses/brackets (250)"

def message (e : PatternError) : String := "regex parse error: " ++ e.reason

end PatternError

inductive SetOp
  | inter | diff
  /-- The characters that are in one of the two but not in both. -/
  | symmDiff
  deriving DecidableEq, Repr

/-- A set as it is written. -/
inductive SetExpr
  | plain (s : CharSet)
  /-- A set with a name, perhaps negated. -/
  | named (negated : Bool) (s : CharSet)
  | union (a b : SetExpr)
  | op (op : SetOp) (a b : SetExpr)
  | bracket (negated : Bool) (e : SetExpr)
  deriving Repr

namespace SetExpr

/-- The set that is meant. Case is disregarded, if it is, before a set is negated or combined. -/
def toSet (anyCase : Bool) : SetExpr → CharSet
  | plain s => s
  | named negated s => s.meant anyCase negated
  | union a b => .union (a.toSet anyCase) (b.toSet anyCase)
  | op o a b =>
      let widen (s : CharSet) : CharSet := if anyCase then .anyCase s else s
      let s := widen (a.toSet anyCase)
      let t := widen (b.toSet anyCase)
      match o with
      | .inter => .inter s t
      | .diff => .diff s t
      | .symmDiff => .union (.diff s t) (.diff t s)
  | bracket negated e => (e.toSet anyCase).meant anyCase negated

end SetExpr

inductive Flag
  | anyCase | multiLine | dotAll
  deriving DecidableEq, Repr

/-- Flags to be set or cleared. -/
abbrev FlagChange := List (Flag × Bool)

inductive Token
  | char (c : Char)
  | dot | caret | dollar
  | assert (a : Assertion)
  /-- A set that is the same under all flags. -/
  | set (s : CharSet)
  | written (e : SetExpr)
  /-- The beginning of a group that is counted, perhaps with a name. -/
  | openGroup (name : Option String)
  /-- The beginning of a group that is not counted, with flags of its own. -/
  | openPlain (change : FlagChange)
  /-- Changes the flags for the rest of the group. -/
  | flags (change : FlagChange)
  | close | bar
  | repetition (least : Nat) (most : Option Nat) (greedy : Bool)
  deriving Repr

/-! ## Escapes -/

/-- What a backslash and what follows it stand for. -/
inductive Escape
  | char (c : Char)
  | set (s : CharSet)
  | written (e : SetExpr)
  | assert (a : Assertion)
  deriving Repr

/-- The character of a code point in hexadecimal digits. -/
def hexChar? (ds : List Char) : Option Char := do
  let values ← ds.mapM Text.hexValue?
  if values.isEmpty || 8 < (values.dropWhile (· == 0)).length then none
  else
    let n := values.foldl (fun n d => 16 * n + d) 0
    if n.isValidChar then some (Char.ofNat n) else none

/-- The rest of an escape by code point: as many digits as the letter asks for, or any number in
braces. -/
def scanHex (count : Nat) (text : List Char) : Except PatternError (Escape × List Char) :=
  let (ds, rest) := match text with
    | '\x7b' :: text =>
        (text.takeWhile (· != '\x7d'), (text.dropWhile (· != '\x7d')).drop 1)
    | text => (text.take count, text.drop count)
  let closed := text.head? != some '\x7b' || text.contains '\x7d'
  let enough := text.head? == some '\x7b' || ds.length == count
  match hexChar? ds with
  | some c => if closed && enough then .ok (.char c, rest) else .error .hexEscape
  | none => .error .hexEscape

/-- The rest of an escape by property: its name is one character or stands in braces. -/
def scanProperty (tables : Tables) (negated : Bool) (text : List Char) :
    Except PatternError (Escape × List Char) :=
  match text with
  | [] => .error .escape
  | '\\' :: _ => .error .property
  | '\x7b' :: text =>
      match text.dropWhile (· != '\x7d') with
      | [] => .error .escape
      | _ :: rest => having (text.takeWhile (· != '\x7d')) rest
  | c :: rest => having [c] rest
where
  having (name rest : List Char) : Except PatternError (Escape × List Char) :=
    match tables.property? (String.ofList name) with
    | some s => .ok (.written (.named negated s), rest)
    | none => .error .property

/-- Whether a character can stand in braces after a word boundary, to say which kind is meant. -/
def isBoundaryChar (c : Char) : Bool := c.isAlpha || c == '-'

def boundary? : String → Option Assertion
  | "start" => some .wordStart
  | "end" => some .wordEnd
  | "start-half" => some .wordStartHalf
  | "end-half" => some .wordEndHalf
  | _ => none

/-- The rest of a word boundary. Braces that do not begin as a kind of boundary does are left to be read
as the bounds of a repetition. -/
def scanBoundary (text : List Char) : Except PatternError (Escape × List Char) :=
  match text with
  | '\x7b' :: text =>
      match text with
      | [] => .error .wordBoundary
      | c :: _ =>
          if isBoundaryChar c then
            match boundary? (String.ofList (text.takeWhile isBoundaryChar)),
                text.dropWhile isBoundaryChar with
            | some a, '\x7d' :: rest => .ok (.assert a, rest)
            | _, _ => .error .wordBoundary
          else .ok (.assert .wordBoundary, '\x7b' :: text)
  | text => .ok (.assert .wordBoundary, text)

/-- Whether a backslash before an ASCII character just means that character. -/
def isPlainEscape (c : Char) : Bool :=
  c.toNat < 128 && !c.isAlphanum

/-- What follows a backslash. -/
def scanEscape (tables : Tables) : List Char → Except PatternError (Escape × List Char)
  | [] => .error .escape
  | c :: rest =>
      match c with
      | 'd' => .ok (.set .digit, rest)
      | 'D' => .ok (.set (.compl .digit), rest)
      | 's' => .ok (.set .blank, rest)
      | 'S' => .ok (.set (.compl .blank), rest)
      | 'w' => .ok (.set .word, rest)
      | 'W' => .ok (.set (.compl .word), rest)
      | 'a' => .ok (.char '\x07', rest)
      | 'f' => .ok (.char '\x0c', rest)
      | 't' => .ok (.char '\t', rest)
      | 'n' => .ok (.char '\n', rest)
      | 'r' => .ok (.char '\r', rest)
      | 'v' => .ok (.char '\x0b', rest)
      | 'A' => .ok (.assert .textStart, rest)
      | 'z' => .ok (.assert .textEnd, rest)
      | 'b' => scanBoundary rest
      | 'B' => .ok (.assert .noWordBoundary, rest)
      | '<' => .ok (.assert .wordStart, rest)
      | '>' => .ok (.assert .wordEnd, rest)
      | 'p' => scanProperty tables false rest
      | 'P' => scanProperty tables true rest
      | 'x' => scanHex 2 rest
      | 'u' => scanHex 4 rest
      | 'U' => scanHex 8 rest
      | c =>
          if Decimal.isDigit c then .error .backreference
          else if isPlainEscape c then .ok (.char c, rest)
          else .error .escape

/-! ## Sets in brackets -/

/-- A bracket that is open. -/
structure OpenSet where
  negated : Bool
  /-- An operation that waits for its right side, with its left side. -/
  pending : Option (SetOp × SetExpr)
  /-- The items since then. -/
  items : SetExpr

namespace OpenSet

def add (o : OpenSet) (e : SetExpr) : OpenSet := { o with items := .union o.items e }

/-- All that was read, with the waiting operation applied. -/
def body (o : OpenSet) : SetExpr :=
  match o.pending with
  | some (op, lhs) => .op op lhs o.items
  | none => o.items

/-- Begins the right side of an operation. -/
def operate (o : OpenSet) (op : SetOp) : OpenSet :=
  { o with pending := some (op, o.body), items := .plain .none }

def close (o : OpenSet) : SetExpr := .bracket o.negated o.body

end OpenSet

/-- Whether a caret comes first, and what comes after it. -/
def takeCaret : List Char → Bool × List Char
  | '^' :: rest => (true, rest)
  | text => (false, text)

/-- What follows an opening bracket: a caret negates the set, and hyphens and then a closing bracket
stand for themselves if nothing comes before them. -/
def openSet (text : List Char) : OpenSet × List Char :=
  let (negated, text) := takeCaret text
  let hyphens := text.takeWhile (· == '-')
  let rest := text.dropWhile (· == '-')
  let start : OpenSet := ⟨negated, none, .plain .none⟩
  if hyphens.isEmpty then
    match rest with
    | ']' :: rest => (start.add (.plain (.single ']')), rest)
    | rest => (start, rest)
  else (hyphens.foldl (fun o c => o.add (.plain (.single c))) start, rest)

/-- The sets that have a name within brackets. All are ASCII. -/
def namedSet? : String → Option CharSet
  | "alnum" => some (.union (.range '0' '9') (.union (.range 'A' 'Z') (.range 'a' 'z')))
  | "alpha" => some (.union (.range 'A' 'Z') (.range 'a' 'z'))
  | "ascii" => some (.range '\x00' '\x7f')
  | "blank" => some (.union (.single '\t') (.single ' '))
  | "cntrl" => some (.union (.range '\x00' '\x1f') (.single '\x7f'))
  | "digit" => some (.range '0' '9')
  | "graph" => some (.range '!' '~')
  | "lower" => some (.range 'a' 'z')
  | "print" => some (.range ' ' '~')
  | "punct" =>
      some (.union (.union (.range '!' '/') (.range ':' '@'))
        (.union (.range '[' '\x60') (.range '\x7b' '~')))
  | "space" => some (.union (.range '\t' '\r') (.single ' '))
  | "upper" => some (.range 'A' 'Z')
  | "word" =>
      some (.union (.union (.range '0' '9') (.single '_'))
        (.union (.range 'A' 'Z') (.range 'a' 'z')))
  | "xdigit" => some (.union (.range '0' '9') (.union (.range 'A' 'F') (.range 'a' 'f')))
  | _ => none

/-- A named set after its opening bracket: a colon, perhaps a caret, the name, a colon and a closing
bracket. -/
def scanNamedSet? (text : List Char) : Option (SetExpr × List Char) :=
  match text with
  | ':' :: text =>
      let (negated, text) := takeCaret text
      let name := text.takeWhile (· != ':')
      match text.dropWhile (· != ':') with
      | ':' :: ']' :: rest =>
          (namedSet? (String.ofList name)).map fun s => (.named negated s, rest)
      | _ => none
  | _ => none

/-- One item of a set: a character, or what a backslash stands for. -/
def scanSetItem (tables : Tables) : List Char → Except PatternError (Escape × List Char)
  | [] => .error .unclosedSet
  | '\\' :: rest => scanEscape tables rest
  | c :: rest => .ok (.char c, rest)

/-- One item of a set or a range of characters. A hyphen before the closing bracket or before another
hyphen makes no range. -/
def scanSetRange (tables : Tables) (text : List Char) :
    Except PatternError (SetExpr × List Char) := do
  let (first, rest) ← scanSetItem tables text
  match rest with
  | [] => .error .unclosedSet
  | '-' :: next :: more =>
      if next == ']' || next == '-' then alone first rest
      else
        let (last, rest) ← scanSetItem tables (next :: more)
        match first, last with
        | .char a, .char b => if a ≤ b then .ok (.plain (.range a b), rest) else .error .setRange
        | _, _ => .error .setRange
  | ['-'] => .error .unclosedSet
  | rest => alone first rest
where
  alone (item : Escape) (rest : List Char) : Except PatternError (SetExpr × List Char) :=
    match item with
    | .char c => .ok (.plain (.single c), rest)
    | .set s => .ok (.plain s, rest)
    | .written e => .ok (e, rest)
    | .assert _ => .error .setEscape

/-- The rest of a set in brackets, the innermost open one being `top`. Each round takes at least one
character, so as many as there are characters are enough for `fuel`. -/
def scanSet (tables : Tables) (top : OpenSet) (outer : List OpenSet) :
    (fuel : Nat) → List Char → Except PatternError (SetExpr × List Char)
  | 0, _ => .error .unclosedSet
  | fuel + 1, text =>
      match text with
      | [] => .error .unclosedSet
      | '[' :: rest =>
          match scanNamedSet? rest with
          | some (e, rest) => scanSet tables (top.add e) outer fuel rest
          | none =>
              let (inner, rest) := openSet rest
              scanSet tables inner (top :: outer) fuel rest
      | ']' :: rest =>
          match outer with
          | [] => .ok (top.close, rest)
          | next :: outer => scanSet tables (next.add top.close) outer fuel rest
      | '&' :: '&' :: rest => scanSet tables (top.operate .inter) outer fuel rest
      | '-' :: '-' :: rest => scanSet tables (top.operate .diff) outer fuel rest
      | '~' :: '~' :: rest => scanSet tables (top.operate .symmDiff) outer fuel rest
      | text => do
          let (e, rest) ← scanSetRange tables text
          scanSet tables (top.add e) outer fuel rest

/-! ## Groups and flags -/

def flag? : Char → Option Flag
  | 'i' => some .anyCase
  | 'm' => some .multiLine
  | 's' => some .dotAll
  | _ => none

/-- Flags up to a colon or a closing parenthesis: that character, the flags before a hyphen to be set
and those after it to be cleared. No flag comes twice. -/
def scanFlags (change : FlagChange) (on : Bool) :
    List Char → Except PatternError (Char × FlagChange × List Char)
  | [] => .error .flags
  | c :: rest =>
      if c == ':' || c == ')' then
        if !on && change.all (·.2) then .error .flags else .ok (c, change, rest)
      else if c == '-' then
        if on then scanFlags change false rest else .error .flags
      else
        match flag? c with
        | some f =>
            if change.any (·.1 == f) then .error .flags
            else scanFlags (change ++ [(f, on)]) on rest
        | none => .error .flags

/-- The name of a group, up to its closing angle bracket. -/
def scanName (tables : Tables) (text : List Char) : Except PatternError (String × List Char) :=
  let name := text.takeWhile (· != '>')
  match name, text.dropWhile (· != '>') with
  | c :: cs, _ :: rest =>
      if tables.nameChar true c && cs.all (tables.nameChar false) then .ok (String.ofList name, rest)
      else .error .groupName
  | _, _ => .error .groupName

/-- What follows an opening parenthesis. -/
def scanGroup (tables : Tables) : List Char → Except PatternError (Token × List Char)
  | '?' :: '=' :: _ | '?' :: '!' :: _ => .error .lookAround
  | '?' :: '<' :: '=' :: _ | '?' :: '<' :: '!' :: _ => .error .lookAround
  | '?' :: 'P' :: '<' :: rest | '?' :: '<' :: rest => do
      let (name, rest) ← scanName tables rest
      .ok (.openGroup (some name), rest)
  | '?' :: rest => do
      let (stop, change, rest) ← scanFlags [] true rest
      if stop == ':' then .ok (.openPlain change, rest)
      else if change.isEmpty then .error .nothingToRepeat
      else .ok (.flags change, rest)
  | rest => .ok (.openGroup none, rest)

/-! ## Repetitions -/

/-- A number with blanks around it. There may be none. -/
def scanCount (text : List Char) : Except PatternError (Option Nat × List Char) :=
  let text := text.dropWhile Text.isBlank
  let ds := text.takeWhile Decimal.isDigit
  let rest := (text.dropWhile Decimal.isDigit).dropWhile Text.isBlank
  match Decimal.value? ds with
  | none => .ok (none, rest)
  | some n => if n ≤ 4294967295 then .ok (some n, rest) else .error .repetitionCount

/-- The bounds of a repetition after their opening brace. -/
def scanBounds (text : List Char) : Except PatternError (Nat × Option Nat × List Char) := do
  let (least, rest) ← scanCount text
  match least, rest with
  | some least, '\x7d' :: rest => .ok (least, some least, rest)
  | some least, ',' :: '\x7d' :: rest => .ok (least, none, rest)
  | some least, ',' :: rest => do
      let (most, rest) ← scanCount rest
      match most, rest with
      | some most, '\x7d' :: rest =>
          if least ≤ most then .ok (least, some most, rest) else .error .repetitionRange
      | _, _ => .error .repetitionCount
  | _, _ => .error .repetitionCount

/-- A repetition, which is lazy if a question mark follows. -/
def repetitionToken (least : Nat) (most : Option Nat) : List Char → Token × List Char
  | '?' :: rest => (.repetition least most false, rest)
  | rest => (.repetition least most true, rest)

/-! ## All tokens -/

/-- The token that a character begins. -/
def scanToken (tables : Tables) (c : Char) (rest : List Char) :
    Except PatternError (Token × List Char) :=
  match c with
  | '\\' => do
      let (e, rest) ← scanEscape tables rest
      match e with
      | .char c => .ok (.char c, rest)
      | .set s => .ok (.set s, rest)
      | .written e => .ok (.written e, rest)
      | .assert a => .ok (.assert a, rest)
  | '[' => do
      let (top, rest) := openSet rest
      let (e, rest) ← scanSet tables top [] (rest.length + 1) rest
      .ok (.written e, rest)
  | '(' => scanGroup tables rest
  | ')' => .ok (.close, rest)
  | '|' => .ok (.bar, rest)
  | '.' => .ok (.dot, rest)
  | '^' => .ok (.caret, rest)
  | '$' => .ok (.dollar, rest)
  | '*' => .ok (repetitionToken 0 none rest)
  | '+' => .ok (repetitionToken 1 none rest)
  | '?' => .ok (repetitionToken 0 (some 1) rest)
  | '\x7b' => do
      let (least, most, rest) ← scanBounds rest
      .ok (repetitionToken least most rest)
  | c => .ok (.char c, rest)

/-- The tokens of a text. Each takes at least one character, so as many as there are characters are
enough for `fuel`. -/
def tokensWithin (tables : Tables) : (fuel : Nat) → List Char → Except PatternError (List Token)
  | 0, _ => .ok []
  | _, [] => .ok []
  | fuel + 1, c :: rest => do
      let (token, rest) ← scanToken tables c rest
      let more ← tokensWithin tables fuel rest
      .ok (token :: more)

def tokens (tables : Tables) (text : List Char) : Except PatternError (List Token) :=
  tokensWithin tables text.length text

end RegisterMachine.Regex
