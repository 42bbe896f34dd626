/-
Module: HeaderBindings.CommandLine.Arguments
Purpose: The arguments of a command as options with their values. Options have long or short spellings;
  long ones may be cut short, and short ones may be written together.
Main exports: Arity, OptionTable, Word, OptionTable.classify?, Given, OptionTable.read
-/
import HeaderBindings.Text.Digit

namespace HeaderBindings

open Text

/-- How many values an option takes. -/
inductive Arity where
  | noValue
  | oneValue
  | someValues
deriving Repr, DecidableEq

/-- The options of a command: how they are spelled, and how many values they take. -/
structure OptionTable (Name : Type) where
  spellings : List (String × Name)
  arity : Name → Arity

/-- An argument by itself: a value, the mark after which all arguments are values, what looks like an
option but is none, or an option, in its long spelling or not, with or without a text attached. -/
inductive Word (Name : Type) where
  | value (text : String)
  | endOfOptions
  | unknown
  | option (name : Name) (isLong : Bool) (attached : Option (List Char))
deriving Repr, DecidableEq

/-- What a group of arguments says: an option with its values. -/
structure Given (Name : Type) where
  name : Name
  values : List String
deriving Repr, DecidableEq

namespace OptionTable

variable {Name : Type}

/-! ### Single arguments -/

/-- Whether a text is a minus sign and digits, perhaps with a point among them but not at the end. A
line break may follow. -/
def isNegativeNumber (text : List Char) : Bool :=
  let body := if text.getLast? == some '\n' then text.dropLast else text
  match body with
  | '-' :: number =>
      let whole := number.takeWhile isDecimal
      match number.dropWhile isDecimal with
      | [] => !whole.isEmpty
      | '.' :: fraction => !fraction.isEmpty && fraction.all isDecimal
      | _ => false
  | _ => false

/-- Whether a spelling is a long one. -/
def isLong (spelling : String) : Bool := spelling.startsWith "--"

/-- An argument in two at its first equals sign, if it has one. -/
def splitEquals (text : List Char) : List Char × Option (List Char) :=
  match text.dropWhile (· != '=') with
  | [] => (text, none)
  | _ :: value => (text.takeWhile (· != '='), some value)

/-- The words that an argument may be if its beginning is taken for the beginning of a spelling. -/
def completions (table : OptionTable Name) (text : List Char) : List (Word Name) :=
  if ['-', '-'].isPrefixOf text then
    let (start, attached) := splitEquals text
    (table.spellings.filter fun entry => start.isPrefixOf entry.1.toList).map fun entry =>
      .option entry.2 true attached
  else
    (table.spellings.filter fun entry => entry.1.toList == text.take 2).map fun entry =>
      .option entry.2 false (some (text.drop 2))

/-- The option with a spelling. -/
def named? (table : OptionTable Name) (spelling : List Char) : Option Name :=
  table.spellings.lookup (String.ofList spelling)

/-- What an argument that begins with a minus sign and is no spelling is. None if it begins several
long spellings. -/
def classifyOther (table : OptionTable Name) (argument : String) : Option (Word Name) :=
  let text := argument.toList
  let (start, attached) := splitEquals text
  match attached, table.named? start with
  | some _, some name => some (.option name (isLong argument) attached)
  | _, _ =>
      match table.completions text with
      | _ :: _ :: _ => none
      | [word] => some word
      | [] =>
          if isNegativeNumber text || text.contains ' ' then some (.value argument)
          else some .unknown

/-- What an argument is. None if it begins several long spellings. -/
def classify? (table : OptionTable Name) (argument : String) : Option (Word Name) :=
  if argument.toList.head? != some '-' then some (.value argument)
  else match table.named? argument.toList with
    | some name => some (.option name (isLong argument) none)
    | none => if argument == "-" then some (.value argument) else table.classifyOther argument

/-- What all arguments are. After two minus signs all are values. -/
def classifyAll? (table : OptionTable Name) : List String → Option (List (Word Name))
  | [] => some []
  | argument :: rest =>
      if argument == "--" then some (.endOfOptions :: rest.map .value)
      else (table.classify? argument).bind fun word =>
        (table.classifyAll? rest).map (word :: ·)

/-! ### Short options written together -/

/-- What short options written together come to: the options without values, and the last option,
with the text attached to it if there is one. -/
structure Cluster (Name : Type) where
  flags : List Name
  last : Name
  attached : Option String

/-- Options that are written together with a first one. Only the last may take a value; none if a text
is attached to an option that takes no value, or if a letter is no option. -/
def cluster? (table : OptionTable Name) (name : Name) : List Char → Option (Cluster Name)
  | [] => if table.arity name == .noValue then none else some ⟨[], name, some ""⟩
  | c :: rest =>
      if table.arity name != .noValue then some ⟨[], name, some (String.ofList (c :: rest))⟩
      else match table.named? ['-', c], rest with
        | none, _ => none
        | some next, [] => some ⟨[name], next, none⟩
        | some next, more => (table.cluster? next more).map fun cluster =>
            { cluster with flags := name :: cluster.flags }

/-- What an option and the text attached to it come to. -/
def attachedCluster? (table : OptionTable Name) (name : Name) (long : Bool) (attached : List Char) :
    Option (Cluster Name) :=
  if long then
    if table.arity name == .noValue then none else some ⟨[], name, some (String.ofList attached)⟩
  else table.cluster? name attached

/-- The values that a text attached to an option stands for: itself, but none if it is the mark that
ends options. -/
def attachedValues (text : String) : List String :=
  if text == "--" then [] else [text]

/-! ### All arguments -/

/-- An option that waits for values, with the options written together with it. -/
structure Waiting (Name : Type) where
  flags : List Name
  name : Name
  values : List String

/-- How far the arguments are read. -/
structure Reading (Name : Type) where
  given : List (Given Name)
  waiting : Option (Waiting Name)
  strange : Bool

/-- No argument is read yet. -/
def Reading.start : Reading Name := ⟨[], none, false⟩

/-- The reading with options without values. -/
def Reading.addFlags (reading : Reading Name) (flags : List Name) : Reading Name :=
  { reading with given := reading.given ++ flags.map fun name => ⟨name, []⟩ }

/-- The reading with an option and its values. -/
def Reading.add (reading : Reading Name) (name : Name) (values : List String) : Reading Name :=
  { reading with given := reading.given ++ [⟨name, values⟩] }

/-- End the wait for values. None if an option has got none. -/
def Reading.settle? (reading : Reading Name) : Option (Reading Name) :=
  match reading.waiting with
  | none => some reading
  | some waiting =>
      if waiting.values.isEmpty then none
      else some { (reading.addFlags waiting.flags).add waiting.name waiting.values with
        waiting := none }

/-- Read a value: it belongs to the option that waits for one, or nowhere. -/
def Reading.takeValue (table : OptionTable Name) (reading : Reading Name) (text : String) :
    Reading Name :=
  match reading.waiting with
  | none => { reading with strange := true }
  | some waiting =>
      if table.arity waiting.name == .someValues || waiting.values.isEmpty then
        { reading with waiting := some { waiting with values := waiting.values ++ [text] } }
      else { reading with strange := true }

/-- Read options written together. -/
def Reading.takeCluster (table : OptionTable Name) (reading : Reading Name)
    (cluster : Cluster Name) : Reading Name :=
  match cluster.attached with
  | some text => (reading.addFlags cluster.flags).add cluster.last (attachedValues text)
  | none =>
      if table.arity cluster.last == .noValue then
        reading.addFlags (cluster.flags ++ [cluster.last])
      else { reading with waiting := some ⟨cluster.flags, cluster.last, []⟩ }

/-- Read one word. On failure the reading up to the word is left. -/
def Reading.take (table : OptionTable Name) (reading : Reading Name) (word : Word Name) :
    Except (Reading Name) (Reading Name) :=
  match word with
  | .value text => .ok (reading.takeValue table text)
  | .endOfOptions | .unknown => match reading.settle? with
    | none => .error reading
    | some settled => .ok { settled with strange := true }
  | .option name long attached => match reading.settle? with
    | none => .error reading
    | some settled =>
        let cluster := match attached with
          | none => some ⟨[], name, none⟩
          | some attached => table.attachedCluster? name long attached
        match cluster with
        | none => .error settled
        | some cluster => .ok (settled.takeCluster table cluster)

/-- Read words. -/
def Reading.takeAll (table : OptionTable Name) (reading : Reading Name) :
    List (Word Name) → Except (Reading Name) (Reading Name)
  | [] => match reading.settle? with
    | none => .error reading
    | some settled => if settled.strange then .error settled else .ok settled
  | word :: rest => match reading.take table word with
    | .error stopped => .error stopped
    | .ok next => next.takeAll table rest

/-- What the arguments of a command say, in order, up to the first that makes no sense, and whether all
of them make sense. -/
def read (table : OptionTable Name) (arguments : List String) : List (Given Name) × Bool :=
  match table.classifyAll? arguments with
  | none => ([], false)
  | some words => match (Reading.start : Reading Name).takeAll table words with
    | .error stopped => (stopped.given, false)
    | .ok reading => (reading.given, true)

end OptionTable

end HeaderBindings
