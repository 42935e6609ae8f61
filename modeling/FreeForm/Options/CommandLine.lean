import FreeForm.Options

namespace FreeForm

namespace Options

inductive Refusal where
  | unknownSwitch
  | noValue
  | badValue
  | repeated
  | needlessValue
  | helpWanted
  | versionWanted
  deriving DecidableEq, Repr

/-- Values that wait until something else comes. Only then are they looked at, so of two faults the earlier one
need not win. -/
inductive Pending where
  | nothing
  | inputs (values : List Text)
  | parameter (p : Parameter) (value : Option Text)
  deriving DecidableEq, Repr

structure Draft where
  options : Options
  pending : Pending
  onlyInputs : Bool
  deriving Repr

/-- A number of at most 64 bits, in decimal digits with an optional plus sign. -/
def count? (t : Text) : Option Nat :=
  let digits := match t with
    | '+' :: t => t
    | t => t
  if digits.isEmpty || !digits.all Char.isDigit then none
  else
    let n := digits.foldl (fun n c ↦ 10 * n + (c.toNat - '0'.toNat)) 0
    if n < Nat.pow 2 64 then some n else none

def setCount (old : Option Nat) (t : Text) : Except Refusal (Option Nat) :=
  match old, count? t with
  | some _, _ => .error .repeated
  | none, some n => .ok (some n)
  | none, none => .error .badValue

def setParameter (o : Options) (p : Parameter) (t : Text) : Except Refusal Options :=
  match p with
  | .exclude => .ok { o with exclude := o.exclude ++ [t] }
  | .extension => .ok { o with extensions := o.extensions ++ [t] }
  | .jobs => (setCount o.jobs t).map fun n ↦ { o with jobs := n }
  | .tabWidth => (setCount o.tabWidth t).map fun n ↦ { o with tabWidth := n }
  | .config =>
    if o.config.isSome then .error .repeated
    else if t.isEmpty then .error .noValue
    else .ok { o with config := some t }

def isSet (o : Options) : Flag → Bool
  | .recursive => o.recursive
  | .strict => o.strict
  | .check => o.check
  | .comments => o.comments
  | .debug => o.debug
  | .silent => o.silent
  | .help | .version => false

def setFlag (o : Options) (f : Flag) : Except Refusal Options :=
  if o.isSet f then .error .repeated
  else match f with
    | .recursive => .ok { o with recursive := true }
    | .strict => .ok { o with strict := true }
    | .check => .ok { o with check := true }
    | .comments => .ok { o with comments := true }
    | .debug => .ok { o with debug := true }
    | .silent => .ok { o with silent := true }
    | .help => .error .helpWanted
    | .version => .error .versionWanted

def addInputs (o : Options) (values : List Text) : Except Refusal Options :=
  if values.any List.isEmpty then .error .noValue
  else .ok { o with inputs := o.inputs ++ values }

namespace Draft

def settle (d : Draft) : Except Refusal Draft := do
  let options ← match d.pending with
    | .nothing => .ok d.options
    | .inputs values => d.options.addInputs values
    | .parameter p (some t) => d.options.setParameter p t
    | .parameter _ none => .error .noValue
  return { d with options := options, pending := .nothing }

def flag (d : Draft) (f : Flag) : Except Refusal Draft := do
  let d ← d.settle
  return { d with options := ← d.options.setFlag f }

def attached (d : Draft) (p : Parameter) (t : Text) : Except Refusal Draft := do
  let d ← d.settle
  return { d with options := ← d.options.setParameter p t }

def detached (d : Draft) (p : Parameter) : Except Refusal Draft := do
  let d ← d.settle
  return { d with pending := .parameter p none }

def input (d : Draft) (t : Text) : Except Refusal Draft :=
  match d.pending with
  | .inputs values => .ok { d with pending := .inputs (values ++ [t]) }
  | _ => do
    let d ← d.settle
    return { d with pending := .inputs [t] }

/-- Letters behind a single dash. What follows the letter of a parameter is its value. -/
def letters (d : Draft) : Text → Except Refusal Draft
  | [] => .ok d
  | c :: t =>
    match Switch.ofLetter? c with
    | none => .error .unknownSwitch
    | some (.flag f) => do
      let d ← d.flag f
      d.letters t
    | some (.parameter p) =>
      match t with
      | [] => d.detached p
      | '=' :: t => d.attached p t
      | t => d.attached p t

def named (d : Draft) (t : Text) : Except Refusal Draft :=
  let value? := match t.dropWhile (· ≠ '=') with
    | [] => none
    | _ :: t => some t
  match Switch.ofName? (t.takeWhile (· ≠ '=')), value? with
  | none, _ => .error .unknownSwitch
  | some (.flag f), none => d.flag f
  | some (.flag _), some _ => .error .needlessValue
  | some (.parameter p), none => d.detached p
  | some (.parameter p), some t => d.attached p t

def plain (d : Draft) (t : Text) : Except Refusal Draft :=
  match d.pending with
  | .parameter p none => .ok { d with pending := .parameter p (some t) }
  | _ => d.input t

def token (d : Draft) (t : Text) : Except Refusal Draft :=
  if d.onlyInputs then d.input t
  else match t with
    | ['-', '-'] => .ok { d with onlyInputs := true }
    | '-' :: '-' :: t => d.named t
    | ['-'] => d.plain t
    | '-' :: t => d.letters t
    | t => d.plain t

end Draft

/-- The options that the tokens of a command line ask for, the name of the program left out. -/
def ofTokens (tokens : List Text) : Except Refusal Options := do
  let d ← tokens.foldlM Draft.token ⟨{}, .nothing, false⟩
  return (← d.settle).options

end Options

end FreeForm
