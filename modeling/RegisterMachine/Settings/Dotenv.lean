import RegisterMachine.Text.Blank
import RegisterMachine.Text.Word

/-!
# Files of variables

A `.env` file gives variables, `NAME=value` on a line, with `export` before it or not. Between quotes a
value may go on over several lines; outside single quotes a backslash takes the character after it as it
is and `$NAME` stands for another variable. `#` begins a comment at the beginning of a line and after a
blank.

A file never changes a variable that is there already. What is after the first line that makes no sense
is not read.
-/

namespace RegisterMachine.Settings.Dotenv

/-! ## Entries -/

/-- What the characters so far mean for where an entry ends. -/
inductive Scan
  | plain
  /-- After a blank, where a comment may begin. -/
  | blank
  | escaped
  | single | singleEscaped
  | double | doubleEscaped
  | comment
  deriving DecidableEq, Repr

/-- What a character outside quotes begins. -/
def Scan.opening : Char → Scan
  | '\\' => escaped
  | '"' => double
  | '\'' => single
  | _ => plain

def Scan.next : Scan → Char → Scan
  | plain, c => if Text.isBlank c && c != '\n' && c != '\r' then blank else opening c
  | blank, c => opening c
  | escaped, _ => plain
  | single, c => if c == '\\' then singleEscaped else if c == '\'' then plain else single
  | singleEscaped, _ => single
  | double, c => if c == '\\' then doubleEscaped else if c == '"' then plain else double
  | doubleEscaped, _ => double
  | comment, c => if c == '\n' then plain else comment

/-- The entries of a text, without comments. `sofar` holds the characters of the first one, the last of
them first. An entry that the end of the text cuts off is `none`. -/
def entriesFrom (scan : Scan) (sofar : List Char) : List Char → List (Option (List Char))
  | [] =>
      match scan with
      | .plain => if sofar.isEmpty then [] else [some sofar.reverse]
      | .comment => [some sofar.reverse]
      | _ => [none]
  | c :: rest =>
      if c == '#' && (scan == .blank || sofar.all Text.isBlank) then
        entriesFrom .comment sofar rest
      else
        let next := scan.next c
        if c == '\n' && next == .plain then some sofar.reverse :: entriesFrom .plain [] rest
        else entriesFrom next (if next == .comment then sofar else c :: sofar) rest

def entries (text : List Char) : List (Option (List Char)) := entriesFrom .plain [] text

/-! ## Values -/

abbrev Variables := List (String × String)

/-- A variable's value. One that is not there is empty. -/
def Variables.get (vars : Variables) (name : List Char) : List Char :=
  ((vars.lookup (String.ofList name)).getD "").toList

/-- Where the reading of a value stands. -/
inductive Mode
  | bare | single | double
  /-- After a backslash, in double quotes or outside of quotes. -/
  | escaped (quoted : Bool)
  /-- After the blank that ends a bare value. -/
  | ended
  /-- After `$`: the name so far, its last character first. -/
  | name (quoted : Bool) (sofar : List Char)
  /-- After `$` and a brace. -/
  | braced (quoted : Bool) (sofar : List Char)
  deriving DecidableEq, Repr

def Mode.outside (quoted : Bool) : Mode := if quoted then double else bare

/-- Reads the rest of a value. `out` is the value so far, its last character first. -/
def value (vars : Variables) (mode : Mode) (out : List Char) : List Char → Option (List Char)
  | [] =>
      match mode with
      | .bare | .ended | .escaped false => some out.reverse
      | .name false sofar => some (out.reverse ++ vars.get sofar.reverse)
      | _ => none
  | c :: rest =>
      match mode with
      | .ended =>
          if c == ' ' || c == '\t' then value vars .ended out rest
          else if c == '#' then some out.reverse
          else none
      | .escaped quoted =>
          if c == 'n' then value vars (.outside quoted) ('\n' :: out) rest
          else if ['\\', '\'', '"', '$', ' '].contains c then
            value vars (.outside quoted) (c :: out) rest
          else none
      | .single =>
          if c == '\'' then value vars .bare out rest else value vars .single (c :: out) rest
      | .name quoted sofar =>
          if Text.isWord c && c != '_' then value vars (.name quoted (c :: sofar)) out rest
          else if c == '\x7b' && sofar.isEmpty then value vars (.braced quoted []) out rest
          else
            let out := (vars.get sofar.reverse).reverse ++ out
            if c == '$' then value vars (.name quoted []) out rest
            else value vars (.outside quoted) (c :: out) rest
      | .braced quoted sofar =>
          if c == '\x7d' then
            value vars (.outside quoted) ((vars.get sofar.reverse).reverse ++ out) rest
          else value vars (.braced quoted (c :: sofar)) out rest
      | .double =>
          if c == '$' then value vars (.name true []) out rest
          else if c == '"' then value vars .bare out rest
          else if c == '\\' then value vars (.escaped true) out rest
          else value vars .double (c :: out) rest
      | .bare =>
          if c == '$' then value vars (.name false []) out rest
          else if c == '\'' then value vars .single out rest
          else if c == '"' then value vars .double out rest
          else if c == '\\' then value vars (.escaped false) out rest
          else if c == ' ' || c == '\t' then value vars .ended out rest
          else value vars .bare (c :: out) rest

/-! ## Files -/

/-- A name and what is after it, without the blanks in between. -/
def name? (text : List Char) : Option (String × List Char) :=
  let isLetter (c : Char) := c.toNat < 128 && (c.isAlpha || c == '_')
  let isNameChar (c : Char) := c.toNat < 128 && (c.isAlphanum || c == '_' || c == '.')
  if text.head?.any isLetter then
    let name := text.takeWhile isNameChar
    some (String.ofList name, (text.drop name.length).dropWhile Text.isBlank)
  else none

/-- What is after an equals sign, without the blanks in between. -/
def afterEquals? : List Char → Option (List Char)
  | '=' :: rest => some (rest.dropWhile Text.isBlank)
  | _ => none

/-- The variable that an entry gives, if it gives one; `none` if the entry makes no sense. -/
def assignment? (vars : Variables) (entry : List Char) : Option (Option (String × String)) :=
  match Text.trimChars entry with
  | [] => some none
  | text => do
      let (name, rest) ← name? text
      let (name, rest) ←
        match name, afterEquals? rest with
        | name, some rest => some (name, rest)
        | "export", none => do
            let (name, rest) ← name? rest
            some (name, ← afterEquals? rest)
        | _, none => none
      if rest.isEmpty || rest.head? == some '#' then some (some (name, ""))
      else
        let v ← value vars .bare [] rest
        some (some (name, String.ofList v))

/-- Adds the variables of some entries to those that are there. -/
def addAll (vars : Variables) : List (Option (List Char)) → Variables
  | [] => vars
  | none :: _ => vars
  | some entry :: rest =>
      match assignment? vars entry with
      | none => vars
      | some none => addAll vars rest
      | some (some (name, v)) =>
          addAll (if (vars.lookup name).isSome then vars else vars ++ [(name, v)]) rest

/-- Adds the variables of a file to those that are there. -/
def load (vars : Variables) (text : String) : Variables :=
  addAll vars <| entries <|
    match text.toList with
    | '\uFEFF' :: rest => rest
    | rest => rest

end RegisterMachine.Settings.Dotenv
