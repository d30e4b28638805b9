import Census.Parse.Expression

/-!
# Reading statements

A statement is one nesting level; the statements and the parentheses inside it are on deeper
levels. Who nests readers inside of each other sees to that.

- `Parser.block`: statements up to a closing brace or the end.
- `Parser.statementBody`: one statement, given the readers of what stands inside it.
- `Parser.programOver`: a whole program, given the reader of statements.
-/

namespace Census.Parser

variable {m : Type → Type} [Monad m] [ReadsTokens m]

/-- Reads the variable that the keyword just read declares. -/
def declared (kind : String → NodeKind) (keyword : Token) : m Node := do
  let target ← identifier
  return ⟨kind keyword.text, [target], keyword.span.merge target.span⟩

/-- Reads `num x` or `bool x`. -/
def scalarDeclaration : m Node := do
  let some keyword ← accept? TokenKind.scalarKeywords | refuse .scalarKeyword
  declared .scalarDeclaration keyword

/-- Reads the declaration of a list or of a scalar. -/
def declaration : m Node := do
  let content ← do
    match ← accept? TokenKind.listKeywords with
    | some keyword => declared .listDeclaration keyword
    | none => scalarDeclaration
  return ⟨.declaration, [content], content.span⟩

/-- Reads `x = e`. -/
def assignment (expression : m Node) : m Node := do
  let target ← identifier
  let _ ← expect .assign
  let content ← expression
  return ⟨.assignment, [target, content], target.span.merge content.span⟩

/-- Reads an expression in the parentheses of a condition. -/
def condition (expression : m Node) : m Node := do
  let _ ← expect .leftParen
  let content ← expression
  let _ ← expect .rightParen
  return content

/-- Reads a statement, unless a closing brace or the end follows. -/
def nextStatement (statement : m Node) : m (Option Node) := do
  match ← nextKind? with
  | none => return none
  | some .rightBrace => return none
  | some _ => return some (← statement)

/-- Reads a block without its braces. -/
def block (statement : m Node) : m Node := do
  let start ← nextSpan
  let parts ← repeated (nextStatement statement)
  let span := match parts.head?, parts.getLast? with
    | some first, some last => first.span.merge last.span
    | _, _ => .emptyAt start.start
  return ⟨.block, parts, span⟩

/-- Reads the rest of a conditional. An `else` belongs to the nearest conditional that can take
it. -/
def conditional (statement expression : m Node) : m Node := do
  let start ← expect .ifKeyword
  let test ← condition expression
  let branch ← statement
  let others ← do
    match ← accept? [.elseKeyword] with
    | none => pure []
    | some _ => do pure [← statement]
  return ⟨.conditional, test :: branch :: others, start.span.merge (← previousSpan)⟩

/-- Reads a loop under a condition. -/
def whileLoop (statement expression : m Node) : m Node := do
  let start ← expect .whileKeyword
  let test ← condition expression
  let body ← statement
  return ⟨.whileLoop, [test, body], start.span.merge body.span⟩

/-- Reads a counted loop. -/
def forLoop (statement expression : m Node) : m Node := do
  let start ← expect .forKeyword
  let _ ← expect .leftParen
  let first ← assignment expression
  let _ ← expect .semicolon
  let test ← expression
  let _ ← expect .semicolon
  let step ← assignment expression
  let _ ← expect .rightParen
  let body ← statement
  return ⟨.forLoop, [first, test, step, body], start.span.merge body.span⟩

/-- Reads a loop over a list. -/
def foreachLoop (statement : m Node) : m Node := do
  let start ← expect .foreachKeyword
  let _ ← expect .leftParen
  let element ← scalarDeclaration
  let _ ← expect .colon
  let array ← identifier
  let _ ← expect .rightParen
  let body ← statement
  return ⟨.foreachLoop, [element, array, body], start.span.merge body.span⟩

/-- Reads what `content` reads and the token that closes it. -/
def closed (close : TokenKind) (content : m Node) : m Node := do
  let node ← content
  let _ ← expect close
  return node

/-- Reads the construct a statement is made of. -/
def statementBody (statement expression : m Node) : m Node := do
  match ← nextKind? with
  | some .ifKeyword => conditional statement expression
  | some .whileKeyword => whileLoop statement expression
  | some .forKeyword => forLoop statement expression
  | some .foreachKeyword => foreachLoop statement
  | some .leftBrace => do
    let _ ← expect .leftBrace
    closed .rightBrace (block statement)
  | some .numKeyword => closed .semicolon declaration
  | some .boolKeyword => closed .semicolon declaration
  | some .listNumKeyword => closed .semicolon declaration
  | some .listBoolKeyword => closed .semicolon declaration
  | some .identifier => closed .semicolon (assignment expression)
  | _ => refuse .statement

/-- Reads a statement that `body` reads inside. -/
def statementAround (body : m Node) : m Node := do
  let start ← nextSpan
  let content ← body
  return ⟨.statement, [content], start.merge (← previousSpan)⟩

/-- Reads a statement whose inner statements and expressions the given readers read. -/
def statementOver (statement expression : m Node) : m Node :=
  statementAround (statementBody statement expression)

/-- Reads a program to its end. -/
def programOver (statement : m Node) : m Node := do
  let content ← block statement
  finish
  return ⟨.program, [content], content.span⟩

end Census.Parser
