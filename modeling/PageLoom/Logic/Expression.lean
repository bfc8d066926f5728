import PageLoom.Logic.Token

/-!
# Expressions of the template language

    From loosest to tightest: `or`, `and`, `not`, comparisons, and values
    with their attributes, items and filters.  The parser descends through
    these levels; its fuel bounds the depth of the descent and is computed
    from the number of tokens.

    Left out: arithmetic and joined texts, membership (`in`), tests (`is`),
    conditional expressions, maps, tuples, slices, and calls of functions,
    methods and macros.
-/

namespace PageLoom.Logic

/-- How two values are compared. -/
inductive Comparison
  | equal
  | unequal
  | less
  | lessOrEqual
  | greater
  | greaterOrEqual
  deriving DecidableEq, Repr

/-- An expression. -/
inductive Expr
  | constant (value : Json)
  | list (items : List Expr)
  | name (s : String)
  | attribute (target : Expr) (key : String)
  | item (target index : Expr)
  | negated (operand : Expr)
  | compare (how : Comparison) (left right : Expr)
  | both (left right : Expr)
  | either (left right : Expr)
  | isFalse (operand : Expr)
  | filter (name : String) (operand : Expr) (args : List Expr)
  deriving Repr

/-- The comparison that a mark denotes. -/
def Mark.comparison? : Mark → Option Comparison
  | .equal => some .equal
  | .unequal => some .unequal
  | .less => some .less
  | .lessOrEqual => some .lessOrEqual
  | .greater => some .greater
  | .greaterOrEqual => some .greaterOrEqual
  | _ => none

/-- What a name denotes: a constant, or a value looked up by name. -/
def Expr.ofName (s : String) : Expr :=
  match s with
  | "true" | "True" => .constant (.bool true)
  | "false" | "False" => .constant (.bool false)
  | "none" | "None" => .constant .null
  | _ => .name s

/-- An expression and the tokens after it. -/
abbrev Parsed := Option (Expr × List Token)

mutual
/-- Operands joined by `or`. -/
def parseEither : Nat → List Token → Parsed
  | 0, _ => none
  | fuel + 1, ts => do
      let (left, ts) ← parseBoth fuel ts
      eitherFrom fuel left ts

/-- The operands after `left`. -/
def eitherFrom : Nat → Expr → List Token → Parsed
  | 0, _, _ => none
  | fuel + 1, left, .name "or" :: ts => do
      let (right, ts) ← parseBoth fuel ts
      eitherFrom fuel (.either left right) ts
  | _ + 1, left, ts => some (left, ts)

/-- Operands joined by `and`. -/
def parseBoth : Nat → List Token → Parsed
  | 0, _ => none
  | fuel + 1, ts => do
      let (left, ts) ← parseNot fuel ts
      bothFrom fuel left ts

/-- The operands after `left`. -/
def bothFrom : Nat → Expr → List Token → Parsed
  | 0, _, _ => none
  | fuel + 1, left, .name "and" :: ts => do
      let (right, ts) ← parseNot fuel ts
      bothFrom fuel (.both left right) ts
  | _ + 1, left, ts => some (left, ts)

/-- An operand after any number of `not`. -/
def parseNot : Nat → List Token → Parsed
  | 0, _ => none
  | fuel + 1, .name "not" :: ts => do
      let (operand, ts) ← parseNot fuel ts
      return (.isFalse operand, ts)
  | fuel + 1, ts => do
      let (left, ts) ← parseValue fuel ts
      compareFrom fuel left ts

/-- The comparisons after `left`. -/
def compareFrom : Nat → Expr → List Token → Parsed
  | 0, _, _ => none
  | fuel + 1, left, .mark m :: ts =>
      match m.comparison? with
      | none => some (left, .mark m :: ts)
      | some how => do
          let (right, ts) ← parseValue fuel ts
          compareFrom fuel (.compare how left right) ts
  | _ + 1, left, ts => some (left, ts)

/-- A value with what is applied to it. -/
def parseValue : Nat → List Token → Parsed
  | 0, _ => none
  | fuel + 1, ts => do
      let (target, ts) ← parseSigned fuel ts
      valueFrom fuel target ts

/-- A value after any number of minus signs. -/
def parseSigned : Nat → List Token → Parsed
  | 0, _ => none
  | fuel + 1, .mark .minus :: ts => do
      let (operand, ts) ← parseSigned fuel ts
      return (.negated operand, ts)
  | fuel + 1, ts => parsePrimary fuel ts

/-- A constant, a name, a list or an expression in parentheses. -/
def parsePrimary : Nat → List Token → Parsed
  | 0, _ => none
  | _ + 1, .name s :: ts => some (.ofName s, ts)
  | _ + 1, .string s :: ts => some (.constant (.string s), ts)
  | _ + 1, .number n :: ts => some (.constant (.number n), ts)
  | fuel + 1, .mark .openRound :: ts => do
      let (inner, ts) ← parseEither fuel ts
      match ts with
      | .mark .closeRound :: ts => some (inner, ts)
      | _ => none
  | fuel + 1, .mark .openSquare :: ts => do
      let (items, ts) ← parseItems fuel .closeSquare ts
      return (.list items, ts)
  | _ + 1, _ => none

/-- The attributes, items and filters after `target`. -/
def valueFrom : Nat → Expr → List Token → Parsed
  | 0, _, _ => none
  | fuel + 1, target, .mark .dot :: .name key :: ts => valueFrom fuel (.attribute target key) ts
  | fuel + 1, target, .mark .openSquare :: ts => do
      let (index, ts) ← parseEither fuel ts
      match ts with
      | .mark .closeSquare :: ts => valueFrom fuel (.item target index) ts
      | _ => none
  | fuel + 1, target, .mark .pipe :: .name name :: .mark .openRound :: ts => do
      let (args, ts) ← parseItems fuel .closeRound ts
      valueFrom fuel (.filter name target args) ts
  | fuel + 1, target, .mark .pipe :: .name name :: ts => valueFrom fuel (.filter name target []) ts
  | _ + 1, target, ts => some (target, ts)

/-- Expressions separated by commas up to a closing mark. -/
def parseItems : Nat → Mark → List Token → Option (List Expr × List Token)
  | 0, _, _ => none
  | fuel + 1, close, ts =>
      if ts.head? == some (.mark close) then some ([], ts.drop 1)
      else do
        let (item, ts) ← parseEither fuel ts
        match ts with
        | .mark .comma :: ts => do
            let (items, ts) ← parseItems fuel close ts
            return (item :: items, ts)
        | _ => if ts.head? == some (.mark close) then some ([item], ts.drop 1) else none
end

/-- The depth of descent that a number of tokens can need. -/
def parseFuel (ts : List Token) : Nat :=
  16 * (ts.length + 1)

/-- **Reading an expression** at the start of the tokens. -/
def parseExpr (ts : List Token) : Parsed :=
  parseEither (parseFuel ts) ts

/-- Reading an expression that takes all tokens. -/
def exprOf? (ts : List Token) : Option Expr := do
  let (e, rest) ← parseExpr ts
  if rest.isEmpty then some e else none

end PageLoom.Logic
