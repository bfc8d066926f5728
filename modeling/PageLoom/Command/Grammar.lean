import PageLoom.Assoc

/-!
# Grammars — what a command takes

    A command line is a row of words.  A word is an option by name (`--name`,
    `--name=value`), an option by letter (`-n`, `-nvalue`, `-n=value`), the
    mark `--` after which every word is an operand, or a plain word.  A
    single hyphen is plain.

    A grammar names the options with a value, the switches and the number
    of operands.  Reading sorts the words of a command line by it; a word
    that it does not know, an option given twice, an option without its
    value and an operand too many are all refused.
-/

namespace PageLoom.Command

/-! ## Words -/

/-- A word of a command line, by its form. -/
inductive Word
  /-- an option by name, with the value attached to it -/
  | named (name : String) (value : Option String)
  /-- an option by letter, with the value attached to it -/
  | lettered (letter : Char) (value : Option String)
  /-- the end of options -/
  | endOfOptions
  /-- anything else -/
  | plain (text : String)
  deriving DecidableEq, Repr

namespace Word

/-- An option by name, cut at its first equals sign. -/
def ofNamed (cs : List Char) : Word :=
  match cs.span (· != '=') with
  | (name, _ :: value) => .named (String.ofList name) (some (String.ofList value))
  | (name, []) => .named (String.ofList name) none

/-- The value attached to an option by letter. -/
def attached : List Char → Option String
  | [] => none
  | '=' :: value => some (String.ofList value)
  | value => some (String.ofList value)

/-- **The form of a word.** -/
def ofString (word : String) : Word :=
  match word.toList with
  | ['-', '-'] => .endOfOptions
  | '-' :: '-' :: rest => ofNamed rest
  | '-' :: letter :: rest => .lettered letter (attached rest)
  | _ => .plain word

end Word

/-! ## Grammars -/

/-- What a command takes. -/
structure Grammar where
  /-- the options with a value, by letter and name -/
  options : List (Char × String) := []
  /-- the options without one -/
  switches : List String := []
  /-- the greatest number of operands -/
  operands : Nat := 0
  deriving Repr

/-- What a command was given. -/
structure Given where
  values : List (String × String) := []
  switches : List String := []
  operands : List String := []
  deriving DecidableEq, Repr

namespace Given

/-- The value of an option. -/
def value? (given : Given) (name : String) : Option String :=
  Assoc.get? name given.values

/-- Whether a switch is on. -/
def isOn (given : Given) (name : String) : Bool :=
  given.switches.contains name

end Given

namespace Grammar

/-- The name of the option with a value that a letter stands for. -/
def optionOfLetter? (g : Grammar) (letter : Char) : Option String :=
  (g.options.find? (·.1 == letter)).map (·.2)

/-- Whether a name is that of an option with a value. -/
def takesValue (g : Grammar) (name : String) : Bool :=
  g.options.any (·.2 == name)

/-- An operand added, if there is room for it. -/
def addOperand? (g : Grammar) (given : Given) (operand : String) : Option Given :=
  if given.operands.length < g.operands then
    some { given with operands := given.operands ++ [operand] }
  else none

/-- An option with its value added, if it has none yet. -/
def addValue? (given : Given) (name value : String) : Option Given :=
  if (given.value? name).isSome then none
  else some { given with values := (name, value) :: given.values }

/-- A switch turned on, if there is one that is off. -/
def addSwitch? (g : Grammar) (given : Given) (name : String) : Option Given :=
  if g.switches.contains name && !given.isOn name then
    some { given with switches := name :: given.switches }
  else none

/-- **Reading** words in order, on top of what was given before them. -/
def readFrom? (g : Grammar) : Given → List String → Option Given
  | given, [] => some given
  | given, word :: rest =>
      match Word.ofString word with
      | .plain text => (g.addOperand? given text).bind fun given => g.readFrom? given rest
      | .endOfOptions => rest.foldlM g.addOperand? given
      | .named name none =>
          if g.takesValue name then valueFrom? g name given rest
          else (g.addSwitch? given name).bind fun given => g.readFrom? given rest
      | .named name (some value) =>
          if g.takesValue name then
            (addValue? given name value).bind fun given => g.readFrom? given rest
          else none
      | .lettered letter none =>
          match g.optionOfLetter? letter with
          | some name => valueFrom? g name given rest
          | none => none
      | .lettered letter (some value) =>
          match g.optionOfLetter? letter with
          | some name => (addValue? given name value).bind fun given => g.readFrom? given rest
          | none => none
where
  /-- the value of an option as the next word, which has to be plain -/
  valueFrom? (g : Grammar) (name : String) (given : Given) : List String → Option Given
    | [] => none
    | word :: rest =>
        match Word.ofString word with
        | .plain value => (addValue? given name value).bind fun given => g.readFrom? given rest
        | _ => none

/-- **Reading** the words of a command line. -/
def read? (g : Grammar) (words : List String) : Option Given :=
  g.readFrom? {} words

end Grammar

end PageLoom.Command
