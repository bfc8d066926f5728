import PageLoom.Logic.Expression
import PageLoom.Logic.Part

/-!
# Statements — the tree of a template

    A template is a list of statements: text, printed values, choices and
    loops.  The tree is built by going over the parts once, with a stack of
    the blocks that are open; a template whose blocks do not match has no
    tree.

    Left out, so that a template with one of them has no tree: assignment
    (`set`, `with`), filters over blocks (`filter`, `autoescape`), macros and
    their calls, further templates (`include`, `import`, `extends`, `block`),
    and in loops conditions, several names and `recursive`.
-/

namespace PageLoom.Logic

/-- A statement.  A choice has its branches in order and what is rendered when
    no condition holds; a loop also renders its other body when it has no
    items. -/
inductive Statement
  | text (cs : List Char)
  | print (e : Expr)
  | choice (branches : List (Expr × List Statement)) (otherwise : List Statement)
  | loop (binder : String) (items : Expr) (body otherwise : List Statement)
  deriving Repr

/-- A block that is open, with the statements read before it, last first.
    Statements inside are kept last first too. -/
inductive OpenBlock
  /-- in a branch of a choice: the branches before, last first, and the
      condition -/
  | branch (before : List Statement) (branches : List (Expr × List Statement)) (condition : Expr)
  /-- after `else` in a choice -/
  | otherwise (before : List Statement) (branches : List (Expr × List Statement))
  /-- in the body of a loop -/
  | body (before : List Statement) (binder : String) (items : Expr)
  /-- after `else` in a loop -/
  | empty (before : List Statement) (binder : String) (items : Expr) (body : List Statement)

/-- A template being read: the statements of the innermost block, last first,
    and the open blocks, innermost first. -/
structure Building where
  statements : List Statement
  blocks : List OpenBlock

/-- Names that a loop cannot give to its items. -/
def reservedNames : List String :=
  ["true", "True", "false", "False", "none", "None", "loop", "self"]

/-- **One block tag**: opens, divides or closes a block. -/
def Building.tag (b : Building) : List Token → Option Building
  | .name "if" :: ts => do
      let condition ← exprOf? ts
      return ⟨[], .branch b.statements [] condition :: b.blocks⟩
  | .name "for" :: .name binder :: .name "in" :: ts => do
      let items ← exprOf? ts
      if reservedNames.contains binder then none
      else return ⟨[], .body b.statements binder items :: b.blocks⟩
  | .name "elif" :: ts => do
      match b.blocks with
      | .branch before branches condition :: blocks =>
          let next ← exprOf? ts
          return ⟨[], .branch before ((condition, b.statements.reverse) :: branches) next :: blocks⟩
      | _ => none
  | [.name "else"] =>
      match b.blocks with
      | .branch before branches condition :: blocks =>
          some ⟨[], .otherwise before ((condition, b.statements.reverse) :: branches) :: blocks⟩
      | .body before binder items :: blocks =>
          some ⟨[], .empty before binder items b.statements.reverse :: blocks⟩
      | _ => none
  | [.name "endif"] =>
      match b.blocks with
      | .branch before branches condition :: blocks =>
          let branches := ((condition, b.statements.reverse) :: branches).reverse
          some ⟨.choice branches [] :: before, blocks⟩
      | .otherwise before branches :: blocks =>
          some ⟨.choice branches.reverse b.statements.reverse :: before, blocks⟩
      | _ => none
  | [.name "endfor"] =>
      match b.blocks with
      | .body before binder items :: blocks =>
          some ⟨.loop binder items b.statements.reverse [] :: before, blocks⟩
      | .empty before binder items body :: blocks =>
          some ⟨.loop binder items body b.statements.reverse :: before, blocks⟩
      | _ => none
  | _ => none

/-- The template with a statement more. -/
def Building.add (b : Building) (s : Statement) : Building :=
  { b with statements := s :: b.statements }

/-- One part of a template. -/
def Building.part (b : Building) : Part → Option Building
  | .char c => some (b.add (.text [c]))
  | .verbatim _ cs => some (b.add (.text cs))
  | .print _ tokens => (exprOf? tokens).map fun e => b.add (.print e)
  | .block _ tokens => b.tag tokens

/-- The statements of parts, when every block closes. -/
def statementsFrom (b : Building) : List Part → Option (List Statement)
  | [] => if b.blocks.isEmpty then some b.statements.reverse else none
  | part :: parts => (b.part part).bind fun b => statementsFrom b parts

/-- **Reading a template**: the statements of a text. -/
def readTemplate (text : List Char) : Option (List Statement) :=
  (readParts text).bind (statementsFrom ⟨[], []⟩)

end PageLoom.Logic
