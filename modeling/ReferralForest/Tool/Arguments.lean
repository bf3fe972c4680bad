import ReferralForest.Tool.Action

/-!
# Arguments of the Offline Tool

The command line names options, then a command, then what the command is about. Options take a value
each, as the next argument or after an equals sign, and may be given once. An argument that begins
with a hyphen is an option everywhere but after a double hyphen, except that a stake may change by a
negative number.

Arguments are read from the left. Asking for help ends the reading at once; whatever is wrong with
later arguments does not matter then. The value of an option is checked when the next option comes or
at the end, so a command's help is available even if the option right before it has a bad value.
-/

namespace ReferralForest

/-- The options in front of the command. -/
structure Options where
  /-- The configuration file. -/
  config : Option String
  /-- The directory of the store. -/
  dataDir : Option String
  /-- Which log lines are written. -/
  logLevel : Option String
  /-- The shape of log lines. -/
  logFormat : Option LogFormat
  /-- The block time. -/
  time : Option UInt64
  deriving DecidableEq

/-- No option is given. -/
def Options.none : Options := ⟨.none, .none, .none, .none, .none⟩

/-- What the command line asks for. -/
inductive Command where
  /-- Builds a forest from a genesis document in a file. -/
  | initGenesis (file : String)
  /-- Writes the forest out as a genesis document, into a file if one is given. -/
  | exportGenesis (out : Option String)
  /-- Carries out an action and prints its answer. -/
  | act (action : Action)

/-- A complete command line. -/
structure Invocation where
  /-- The options. -/
  options : Options
  /-- The command. -/
  command : Command

namespace Arguments

/-- Why a command line asks for nothing to be done. -/
inductive Refusal where
  /-- It asks for help. -/
  | help
  /-- It makes no sense. -/
  | usage
  deriving DecidableEq

/-- Reading that may end early. -/
abbrev Reading := Except Refusal

/-! ### Values -/

/-- A value that must be there. -/
def valid {α : Type} : Option α → Reading α
  | some a => .ok a
  | none => .error .usage

/-- A path. -/
def path? (text : String) : Option String := if text.isEmpty then none else some text

/-- A number of seconds. -/
def seconds? (text : String) : Option UInt64 := (Decimal.naturalBelow? UInt64.size text).map .ofNat

/-- A change of a stake. -/
def delta? (text : String) : Option Int :=
  (Decimal.integer? text).filter fun n => -doubleWordSize ≤ 2 * n ∧ 2 * n < doubleWordSize

/-- A tier. -/
def status? (text : String) : Option Status := (Status.parse text).toOption

/-! ### Shapes of arguments -/

/-- What an argument looks like. -/
inductive Shape where
  /-- A double hyphen alone. -/
  | separator
  /-- A name after a double hyphen, with a value after an equals sign if there is one. -/
  | long (name : String) (value : Option String)
  /-- Letters after a hyphen. -/
  | short (letters : List Char)
  /-- Anything else. -/
  | plain

/-- The shape of an argument. -/
def Shape.of (arg : String) : Shape :=
  match arg.toList with
  | ['-', '-'] => .separator
  | '-' :: '-' :: rest =>
    let name := String.ofList (rest.takeWhile (· ≠ '='))
    match rest.dropWhile (· ≠ '=') with
    | _ :: value => .long name (some (String.ofList value))
    | [] => .long name none
  | '-' :: c :: rest => .short (c :: rest)
  | _ => .plain

/-- Whether letters after a hyphen begin with the one that asks for help. -/
def asksHelp (letters : List Char) : Bool := letters.head? = some 'h'

/-- The value of an option: the one attached to it, or else the next argument, which must be
plain. -/
def takeValue (attached : Option String) (rest : List String) : Reading (String × List String) :=
  match attached, rest with
  | some value, rest => .ok (value, rest)
  | none, value :: rest =>
    match Shape.of value with
    | .plain => .ok (value, rest)
    | _ => .error .usage
  | none, [] => .error .usage

/-- Taking a value adds no arguments. -/
theorem length_of_takeValue {attached : Option String} {rest rest' : List String} {value : String}
    (h : takeValue attached rest = .ok (value, rest')) : rest'.length ≤ rest.length := by
  unfold takeValue at h
  split at h
  · cases h; exact Nat.le_refl _
  · split at h
    · cases h; exact Nat.le_succ _
    · contradiction
  · contradiction

/-! ### Commands -/

/-- What a command can take. -/
structure Pattern where
  /-- The check for each of its plain values. -/
  checks : List (String → Bool)
  /-- The value that may be a negative number, if there is one. -/
  negative : Option Nat
  /-- Whether it may write to a file. -/
  writes : Bool

/-- What a command is given: plain values in order, and the file to write to. -/
structure Operands where
  /-- The plain values. -/
  values : List String
  /-- The file to write to. -/
  out : Option String

/-- Adds a plain value. -/
def Operands.add (pattern : Pattern) (given : Operands) (value : String) : Reading Operands :=
  match pattern.checks[given.values.length]? with
  | some check =>
    if check value then .ok { given with values := given.values ++ [value] } else .error .usage
  | none => .error .usage

/-- Operands that must be complete. -/
def Operands.complete (pattern : Pattern) (given : Operands) : Reading Operands :=
  if given.values.length = pattern.checks.length then .ok given else .error .usage

/-- Reads the arguments of a command. -/
def operands (pattern : Pattern) (given : Operands) : List String → Reading Operands
  | [] => given.complete pattern
  | arg :: rest =>
    match Shape.of arg with
    | .plain => do operands pattern (← given.add pattern arg) rest
    | .separator => do (← rest.foldlM (Operands.add pattern) given).complete pattern
    | .short letters =>
      if pattern.negative = some given.values.length ∧ letters.all Char.isDigit then do
        operands pattern (← given.add pattern arg) rest
      else .error (if asksHelp letters then .help else .usage)
    | .long "help" none => .error .help
    | .long "out" attached =>
      if pattern.writes ∧ given.out.isNone then
        match h : takeValue attached rest with
        | .ok (value, rest') =>
          have := length_of_takeValue h
          do operands pattern { given with out := some (← valid (path? value)) } rest'
        | .error refusal => .error refusal
      else .error .usage
    | .long _ _ => .error .usage
termination_by args => args.length
decreasing_by all_goals
  rw [List.length_cons]
  omega

/-- Any text. -/
def anyText (_ : String) : Bool := true

/-- The pattern of a command that takes plain values only. -/
def Pattern.plain (checks : List (String → Bool)) : Pattern := ⟨checks, none, false⟩

/-- What each command can take. -/
def patterns : List (String × Pattern) := [
  ("init-genesis", .plain [fun t => (path? t).isSome]),
  ("export-genesis", ⟨[], none, true⟩),
  ("show", .plain [anyText]),
  ("children", .plain [anyText]),
  ("check-status", .plain [anyText, fun t => (status? t).isSome]),
  ("fees", .plain [anyText]),
  ("register", .plain [anyText, anyText]),
  ("stake", ⟨[anyText, fun t => (delta? t).isSome], some 1, false⟩),
  ("begin-block", .plain []),
  ("downgrades", .plain [])]

/-- The command of a name with its values. -/
def commandOf? (name : String) (given : Operands) : Option Command :=
  match name, given.values with
  | "init-genesis", [file] => some (.initGenesis file)
  | "export-genesis", [] => some (.exportGenesis given.out)
  | "show", [account] => some (.act (.record account))
  | "children", [account] => some (.act (.children account))
  | "check-status", [account, s] => (status? s).map fun s => .act (.checkStatus account s)
  | "fees", [account] => some (.act (.fees account))
  | "register", [referrer, referral] => some (.act (.register ⟨referrer, referral⟩))
  | "stake", [account, delta] => (delta? delta).map fun delta => .act (.stake account delta)
  | "begin-block", [] => some (.act .beginBlock)
  | "downgrades", [] => some (.act .downgrades)
  | _, _ => none

/-- Reads a command and its arguments. The command `help` may name another one. -/
def command (name : String) (args : List String) : Reading Command :=
  if name = "help" then
    match args with
    | [] => .error .help
    | [topic] =>
      .error (if topic = "help" ∨ (patterns.lookup topic).isSome then .help else .usage)
    | _ => .error .usage
  else
    match patterns.lookup name with
    | some pattern => do valid (commandOf? name (← operands pattern ⟨[], none⟩ args))
    | none => .error .usage

/-! ### Options -/

/-- The names of the options. -/
def optionNames : List String := ["config", "data-dir", "log-level", "log-format", "time"]

/-- A value for an option that has none so far. -/
def first {α : Type} (present : Option α) (value : Option α) : Reading (Option α) :=
  if present.isSome then .error .usage else do return some (← valid value)

/-- Gives an option its value. -/
def setOption (given : Options) (name value : String) : Reading Options :=
  match name with
  | "config" => do return { given with config := ← first given.config (path? value) }
  | "data-dir" => do return { given with dataDir := ← first given.dataDir (path? value) }
  | "log-level" => do return { given with logLevel := ← first given.logLevel (some value) }
  | "log-format" => do
    return { given with logFormat := ← first given.logFormat (LogFormat.parse value).toOption }
  | "time" => do return { given with time := ← first given.time (seconds? value) }
  | _ => .error .usage

/-- Gives the option its value whose check has been put off. -/
def settle (given : Options) : Option (String × String) → Reading Options
  | some (name, value) => setOption given name value
  | none => .ok given

/-- Reads the options and the command. The last option may still have to be checked. -/
def invocation (given : Options) (pending : Option (String × String)) :
    List String → Reading Invocation
  | [] => .error .usage
  | arg :: rest =>
    match Shape.of arg with
    | .plain => do
      let c ← command arg rest
      return ⟨← settle given pending, c⟩
    | .separator => .error .usage
    | .short letters => do
      let _ ← settle given pending
      .error (if asksHelp letters then .help else .usage)
    | .long "help" none => do
      let _ ← settle given pending
      .error .help
    | .long name attached =>
      if name ∈ optionNames then
        match h : takeValue attached rest with
        | .ok (value, rest') =>
          have := length_of_takeValue h
          do
            let given ← settle given pending
            if attached.isSome then invocation (← setOption given name value) none rest'
            else invocation given (some (name, value)) rest'
        | .error refusal => .error refusal
      else .error .usage
termination_by args => args.length
decreasing_by all_goals
  rw [List.length_cons]
  omega

/-- **What a command line asks for.** -/
def parse (args : List String) : Reading Invocation := invocation .none none args

end Arguments

end ReferralForest
