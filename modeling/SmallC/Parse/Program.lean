import SmallC.Parse.Basic
import SmallC.Text.Digits
import SmallC.Token.Piece

/-!
# Reading programs

An expression is an assignment or a tree of binary operators over unary ones. Binary operators of
one rank associate to the left, and operators of lower rank bind tighter. Assignments associate to
the right and their target has to be a variable, with or without parentheses around it.

A statement is told by its first token. An `else` goes with the nearest `if`, and the body of a
control statement may not be a declaration.

A program is a sequence of function definitions. Reading one from a text ends with a tree or with
the first error, and never runs out of anything but text.

The functions of the parser call each other and themselves. What each of them does is given with
these calls left open: they are made with fewer items, or with the same items at a lower level. So
the calls can be filled in, and the parser is what comes out.
-/

namespace SmallC.Parse

/-! ## Expressions -/

/-- The literal expression that a token is. -/
def literal (kind : LiteralKind) (token : Token) : Expr :=
  .literal ⟨kind, token.text, token.span⟩

/-- An integer literal whose value, with a sign, fits in 32 bits. -/
def integerLiteral (sign : Int64) (token : Token) : Except ParseFailure Expr :=
  if (Text.int64? token.text.toList).any fun value => Text.fitsInt32 (sign * value) then
    .ok (literal .integer token)
  else
    .error (.located token.span (.integerRange token.text))

/-- The punctuator that a token is. -/
def mark? (token : Token) : Option Punctuator :=
  match token.kind with
  | .punctuator mark => some mark
  | _ => none

/-- A token as a binary operator of a given rank. -/
def binaryOfRank? (rank : Nat) (token : Token) : Option (BinaryOp × Span) := do
  let op ← (← mark? token).binaryOp?
  if op.rank = rank then some (op, token.span) else none

/-- A token as an assignment. -/
def assignment? (token : Token) : Option (Option ArithmeticOp × Span) := do
  let op ← (← mark? token).assignment?
  return (op, token.span)

/-- A token as an operator before its operand. -/
def unary? (token : Token) : Option (UnaryOp × Span) := do
  let op ← (← mark? token).unaryOp?
  return (op, token.span)

/-- A token as a step operator. -/
def step? (token : Token) : Option (StepOp × Span) := do
  let op ← (← mark? token).stepOp?
  return (op, token.span)

/-- The literal right after a minus sign, whose value may reach `2 ^ 31`. -/
def negatedLiteral? (op : UnaryOp) (items : List LexItem) :
    Except ParseFailure (Option (Parsed Token items.length)) :=
  match op with
  | .negate => eat? .integerLiteral items
  | _ => .ok none

/-- The variable that an expression names, looking through parentheses. -/
def assignable (left : Expr) : Except ParseFailure Ident :=
  match left.ungrouped with
  | .identifier name => .ok name
  | _ => .error (.located left.span .assignmentTarget)

/-! ## Statements and functions -/

/-- The declarator of a variable and its initial value. -/
def declarator (name : Ident) (initializer : Option Expr) : Declarator :=
  match initializer with
  | none => ⟨name.span, name, none⟩
  | some value => ⟨name.span.through value.span, name, some value⟩

/-- What stands between the parentheses of a `for` statement. -/
structure ForHeader where
  initializer : Option ForInitializer
  test : Option Expr
  after : Option Expr

/-- Refuses a declaration as the body of a control statement. -/
def controlled (statement : Stmt) : Except ParseFailure Stmt :=
  match statement with
  | .declaration span _ => .error (.located span .declarationAsBody)
  | other => .ok other

/-- The return type that a token names. -/
def returnType (token : Token) : Except ParseFailure TypeName :=
  match token.kind with
  | .keyword .intWord => .ok .int
  | .keyword .voidWord => .ok .void
  | kind => .error (.located token.span (.notAFunction kind token.text))

/-! ## Functions of the parser -/

/-- A function of the parser. It reads a value of a type and leaves fewer items than it was given,
where `slack` is added to the number of these: a function with slack may leave all of them. -/
inductive Part : (α : Type) → (slack : Nat) → Type
  | expression : Part Expr 0
  | binary (rank : Nat) : Part Expr 0
  | binaryTail (rank : Nat) (left : Expr) : Part Expr 1
  | unary : Part Expr 0
  | primary : Part Expr 0
  | arguments : Part (List Expr × Token) 0
  | argumentList : Part (List Expr × Token) 0
  | optionalBefore (expected : Expected) (stop : Punctuator) : Part (Option Expr × Token) 0
  | initializer : Part (Option Expr) 1
  | declarators : Part (List Declarator) 0
  | condition : Part Expr 0
  | forInitializer : Part (Option ForInitializer) 0
  | forHeader : Part ForHeader 0
  | statement : Part Stmt 0
  | body : Part Stmt 0
  | statements : Part (List Stmt × Token) 0
  | parameterList : Part (List Parameter) 0
  | parameters : Part (List Parameter) 0
  | block : Part Block 0
  | functionDef : Part FunctionDef 0
  | functionDefs : Part (List FunctionDef) 1

/-- The place of a function among those that are called with the same items. -/
def Part.level : Part α slack → Nat
  | binary rank => rank + 2
  | expression => BinaryOp.rankCount + 3
  | argumentList | optionalBefore _ _ | forInitializer | statement => BinaryOp.rankCount + 4
  | arguments | body | statements => BinaryOp.rankCount + 5
  | unary | functionDefs => 1
  | _ => 0

/-- A call of a function of the parser. -/
structure Call where
  {α : Type}
  {slack : Nat}
  part : Part α slack
  items : List LexItem

/-- A call is below another if it is made with fewer items, or with the same at a lower level. -/
inductive Below : Call → Call → Prop
  | fewer {α β : Type} {slack more : Nat} {part : Part α slack} {other : Part β more}
      {items after : List LexItem} :
      after.length < items.length → Below ⟨other, after⟩ ⟨part, items⟩
  | lower {α β : Type} {slack more : Nat} {part : Part α slack} {other : Part β more}
      {items : List LexItem} : other.level < part.level → Below ⟨other, items⟩ ⟨part, items⟩

/-- The calls that may be made while a call runs: all of them are below it. -/
abbrev Calls (made : Call) : Type 1 :=
  ∀ {β : Type} {more : Nat} (other : Part β more) (after : List LexItem),
    Below ⟨other, after⟩ made → Except ParseFailure (Parsed β (after.length + more))

/-- What reads a value with the calls that it makes left to another. -/
abbrev Reader {α : Type} {slack : Nat} (part : Part α slack) : Type 1 :=
  (items : List LexItem) → Calls ⟨part, items⟩ →
    Except ParseFailure (Parsed α (items.length + slack))

namespace Step

/-- Reads an expression. -/
def expression : Reader .expression := fun items call => do
  let ⟨left, afterLeft, shortLeft⟩ ← call (.binary BinaryOp.rankCount) items (.lower (by decide))
  match ← take? assignment? afterLeft with
  | none => return ⟨left, afterLeft, shortLeft⟩
  | some ⟨(op, opSpan), afterOp, shortOp⟩ =>
    let target ← assignable left
    let ⟨value, afterValue, shortValue⟩ ← call .expression afterOp (.fewer (by omega))
    let assigned := .assign (left.span.through value.span) target (op.map (·, opSpan)) value
    return ⟨assigned, afterValue, by omega⟩

/-- Reads operands joined by operators whose rank is below `rank`. -/
def binary (rank : Nat) : Reader (.binary rank) := fun items call =>
  match rank with
  | 0 => call .unary items (.lower (by decide))
  | rank + 1 => do
    let ⟨first, afterFirst, shortFirst⟩ ← call (.binary rank) items (.lower (by simp [Part.level]))
    let ⟨joined, afterAll, shortAll⟩ ←
      call (.binaryTail rank first) afterFirst (.fewer (by omega))
    return ⟨joined, afterAll, by omega⟩

/-- Reads the operators of one rank, and their right operands, after a first operand. -/
def binaryTail (rank : Nat) (left : Expr) : Reader (.binaryTail rank left) := fun items call => do
  match ← take? (binaryOfRank? rank) items with
  | none => return ⟨left, items, by omega⟩
  | some ⟨(op, opSpan), afterOp, shortOp⟩ =>
    let ⟨right, afterRight, shortRight⟩ ← call (.binary rank) afterOp (.fewer (by omega))
    let joined := .binary (left.span.through right.span) op opSpan left right
    let ⟨all, afterAll, shortAll⟩ ← call (.binaryTail rank joined) afterRight (.fewer (by omega))
    return ⟨all, afterAll, by omega⟩

/-- Reads an operand with the operators before it. -/
def unary : Reader .unary := fun items call => do
  let _ ← peek .expression items
  match ← take? unary? items with
  | some ⟨(op, opSpan), afterOp, shortOp⟩ =>
    match ← negatedLiteral? op afterOp with
    | some ⟨token, afterLiteral, shortLiteral⟩ =>
      let operand ← integerLiteral (-1) token
      return ⟨.unary (opSpan.through operand.span) op opSpan operand, afterLiteral, by omega⟩
    | none =>
      let ⟨operand, afterOperand, shortOperand⟩ ← call .unary afterOp (.fewer (by omega))
      return ⟨.unary (opSpan.through operand.span) op opSpan operand, afterOperand, by omega⟩
  | none =>
    match ← take? step? items with
    | some ⟨(op, opSpan), afterOp, shortOp⟩ =>
      let ⟨target, afterTarget, shortTarget⟩ ← identifier afterOp
      return ⟨.step (opSpan.through target.span) op .before target, afterTarget, by omega⟩
    | none => call .primary items (.lower (by decide))

/-- Reads a literal, a variable, a call or an expression in parentheses. Only a variable can be
called or followed by a step operator. -/
def primary : Reader .primary := fun items call => do
  let ⟨token, afterToken, shortToken⟩ ← next .operand items
  match token.kind with
  | .identifier =>
    let name := ident token
    match ← eat? (.punctuator .openParen) afterToken with
    | some ⟨_, afterOpen, shortOpen⟩ =>
      let ⟨(given, close), afterClose, shortClose⟩ ← call .arguments afterOpen (.fewer (by omega))
      return ⟨.call (name.span.through close.span) name given, afterClose, by omega⟩
    | none =>
      match ← take? step? afterToken with
      | some ⟨(op, opSpan), afterOp, shortOp⟩ =>
        return ⟨.step (name.span.through opSpan) op .after name, afterOp, by omega⟩
      | none => return ⟨.identifier name, afterToken, shortToken⟩
  | .integerLiteral => return ⟨← integerLiteral 1 token, afterToken, shortToken⟩
  | .charLiteral => return ⟨literal .character token, afterToken, shortToken⟩
  | .punctuator .openParen =>
    let ⟨inner, afterInner, shortInner⟩ ← call .expression afterToken (.fewer shortToken)
    let ⟨close, afterClose, shortClose⟩ ← expect (.punctuator .closeParen) afterInner
    return ⟨.group (token.span.through close.span) inner, afterClose, by omega⟩
  | kind => throw (.located token.span (.notAnExpression kind token.text))

/-- Reads the arguments of a call after its opening parenthesis, and the closing one. -/
def arguments : Reader .arguments := fun items call => do
  match ← eat? (.punctuator .closeParen) items with
  | some ⟨close, afterClose, shortClose⟩ => return ⟨([], close), afterClose, shortClose⟩
  | none => call .argumentList items (.lower (by decide))

/-- Reads one or more arguments and the closing parenthesis. -/
def argumentList : Reader .argumentList := fun items call => do
  let ⟨first, afterFirst, shortFirst⟩ ← call .expression items (.lower (by decide))
  match ← eat? (.punctuator .comma) afterFirst with
  | some ⟨_, afterComma, shortComma⟩ =>
    let ⟨(others, close), afterClose, shortClose⟩ ←
      call .argumentList afterComma (.fewer (by omega))
    return ⟨(first :: others, close), afterClose, by omega⟩
  | none =>
    let ⟨close, afterClose, shortClose⟩ ← expect (.punctuator .closeParen) afterFirst
    return ⟨([first], close), afterClose, by omega⟩

/-- Reads an expression that may be missing, and the token that has to follow. -/
def optionalBefore (expected : Expected) (stop : Punctuator) : Reader (.optionalBefore expected stop) := fun items call => do
  let ⟨token, afterToken, shortToken⟩ ← next expected items
  if token.kind = .punctuator stop then
    return ⟨(none, token), afterToken, shortToken⟩
  else
    let ⟨value, afterValue, shortValue⟩ ← call .expression items (.lower (by simp [Part.level]))
    let ⟨last, afterLast, shortLast⟩ ← expect (.punctuator stop) afterValue
    return ⟨(some value, last), afterLast, by omega⟩

/-- Reads the initial value of a declared variable, if it has one. -/
def initializer : Reader .initializer := fun items call => do
  match ← eat? (.punctuator .equal) items with
  | none => return ⟨none, items, by omega⟩
  | some ⟨_, afterEqual, shortEqual⟩ =>
    let ⟨value, afterValue, shortValue⟩ ← call .expression afterEqual (.fewer shortEqual)
    return ⟨some value, afterValue, by omega⟩

/-- Reads the variables of a declaration after the word `int`. -/
def declarators : Reader .declarators := fun items call => do
  let ⟨name, afterName, shortName⟩ ← identifier items
  let ⟨initial, afterInitial, shortInitial⟩ ← call .initializer afterName (.fewer shortName)
  match ← eat? (.punctuator .comma) afterInitial with
  | none => return ⟨[declarator name initial], afterInitial, by omega⟩
  | some ⟨_, afterComma, shortComma⟩ =>
    let ⟨others, afterOthers, shortOthers⟩ ← call .declarators afterComma (.fewer (by omega))
    return ⟨declarator name initial :: others, afterOthers, by omega⟩

/-- Reads a condition in parentheses. -/
def condition : Reader .condition := fun items call => do
  let ⟨_, afterOpen, shortOpen⟩ ← expect (.punctuator .openParen) items
  let ⟨value, afterValue, shortValue⟩ ← call .expression afterOpen (.fewer shortOpen)
  let ⟨_, afterClose, shortClose⟩ ← expect (.punctuator .closeParen) afterValue
  return ⟨value, afterClose, by omega⟩

/-- Reads the first part of the header of a `for` statement and its semicolon. -/
def forInitializer : Reader .forInitializer := fun items call => do
  let ⟨token, afterToken, shortToken⟩ ← next .forInitializer items
  match token.kind with
  | .punctuator .semicolon => return ⟨none, afterToken, shortToken⟩
  | .keyword .intWord =>
    let ⟨declared, afterDeclared, shortDeclared⟩ ← call .declarators afterToken (.fewer shortToken)
    let ⟨_, afterLast, shortLast⟩ ← expect (.punctuator .semicolon) afterDeclared
    return ⟨some (.declaration declared), afterLast, by omega⟩
  | _ =>
    let ⟨value, afterValue, shortValue⟩ ← call .expression items (.lower (by decide))
    let ⟨_, afterLast, shortLast⟩ ← expect (.punctuator .semicolon) afterValue
    return ⟨some (.expression value), afterLast, by omega⟩

/-- Reads the header of a `for` statement with its parentheses. -/
def forHeader : Reader .forHeader := fun items call => do
  let ⟨_, afterOpen, shortOpen⟩ ← expect (.punctuator .openParen) items
  let ⟨initial, afterInitial, shortInitial⟩ ← call .forInitializer afterOpen (.fewer shortOpen)
  let ⟨(test, _), afterTest, shortTest⟩ ←
    call (.optionalBefore .forTest .semicolon) afterInitial (.fewer (by omega))
  let ⟨(after, _), afterAfter, shortAfter⟩ ←
    call (.optionalBefore .forStep .closeParen) afterTest (.fewer (by omega))
  return ⟨⟨initial, test, after⟩, afterAfter, by omega⟩

/-- Reads a statement. -/
def statement : Reader .statement := fun items call => do
  let ⟨first, afterFirst, shortFirst⟩ ← next .statement items
  match first.kind with
  | .punctuator .openBrace =>
    let ⟨(inner, close), afterClose, shortClose⟩ ← call .statements afterFirst (.fewer shortFirst)
    return ⟨.block (first.span.through close.span) inner, afterClose, by omega⟩
  | .keyword .intWord =>
    let ⟨declared, afterDeclared, shortDeclared⟩ ← call .declarators afterFirst (.fewer shortFirst)
    let ⟨last, afterLast, shortLast⟩ ← expect (.punctuator .semicolon) afterDeclared
    return ⟨.declaration (first.span.through last.span) declared, afterLast, by omega⟩
  | .keyword .ifWord =>
    let ⟨test, afterTest, shortTest⟩ ← call .condition afterFirst (.fewer shortFirst)
    let ⟨positive, afterPositive, shortPositive⟩ ← call .body afterTest (.fewer (by omega))
    match ← eat? (.keyword .elseWord) afterPositive with
    | none =>
      return ⟨.ifThen (first.span.through positive.span) test positive, afterPositive, by omega⟩
    | some ⟨_, afterElse, shortElse⟩ =>
      let ⟨negative, afterNegative, shortNegative⟩ ← call .body afterElse (.fewer (by omega))
      return ⟨.ifElse (first.span.through negative.span) test positive negative, afterNegative,
        by omega⟩
  | .keyword .whileWord =>
    let ⟨test, afterTest, shortTest⟩ ← call .condition afterFirst (.fewer shortFirst)
    let ⟨inner, afterInner, shortInner⟩ ← call .body afterTest (.fewer (by omega))
    return ⟨.whileLoop (first.span.through inner.span) test inner, afterInner, by omega⟩
  | .keyword .doWord =>
    let ⟨inner, afterInner, shortInner⟩ ← call .body afterFirst (.fewer shortFirst)
    let ⟨_, afterWhile, shortWhile⟩ ← expect (.keyword .whileWord) afterInner
    let ⟨test, afterTest, shortTest⟩ ← call .condition afterWhile (.fewer (by omega))
    let ⟨last, afterLast, shortLast⟩ ← expect (.punctuator .semicolon) afterTest
    return ⟨.doWhile (first.span.through last.span) inner test, afterLast, by omega⟩
  | .keyword .forWord =>
    let ⟨header, afterHeader, shortHeader⟩ ← call .forHeader afterFirst (.fewer shortFirst)
    let ⟨inner, afterInner, shortInner⟩ ← call .body afterHeader (.fewer (by omega))
    return ⟨.forLoop (first.span.through inner.span) header.initializer header.test header.after
      inner, afterInner, by omega⟩
  | .keyword .breakWord =>
    let ⟨last, afterLast, shortLast⟩ ← expect (.punctuator .semicolon) afterFirst
    return ⟨.breakLoop (first.span.through last.span), afterLast, by omega⟩
  | .keyword .continueWord =>
    let ⟨last, afterLast, shortLast⟩ ← expect (.punctuator .semicolon) afterFirst
    return ⟨.continueLoop (first.span.through last.span), afterLast, by omega⟩
  | .keyword .returnWord =>
    let ⟨(value, last), afterLast, shortLast⟩ ←
      call (.optionalBefore .semicolonOrExpression .semicolon) afterFirst (.fewer shortFirst)
    return ⟨.returnValue (first.span.through last.span) value, afterLast, by omega⟩
  | .punctuator .semicolon => return ⟨.empty first.span, afterFirst, shortFirst⟩
  | _ =>
    let ⟨value, afterValue, shortValue⟩ ← call .expression items (.lower (by decide))
    let ⟨last, afterLast, shortLast⟩ ← expect (.punctuator .semicolon) afterValue
    return ⟨.expression (value.span.through last.span) value, afterLast, by omega⟩

/-- Reads the body of a control statement. -/
def body : Reader .body := fun items call => do
  let ⟨inner, afterInner, shortInner⟩ ← call .statement items (.lower (by decide))
  return ⟨← controlled inner, afterInner, shortInner⟩

/-- Reads statements up to a closing brace, and the brace. -/
def statements : Reader .statements := fun items call => do
  let ⟨token, afterToken, shortToken⟩ ← next .statementOrBrace items
  if token.kind = .punctuator .closeBrace then
    return ⟨([], token), afterToken, shortToken⟩
  else
    let ⟨first, afterFirst, shortFirst⟩ ← call .statement items (.lower (by decide))
    let ⟨(others, close), afterClose, shortClose⟩ ←
      call .statements afterFirst (.fewer shortFirst)
    return ⟨(first :: others, close), afterClose, by omega⟩

/-- Reads one or more parameters and the closing parenthesis. -/
def parameterList : Reader .parameterList := fun items call => do
  let ⟨word, afterWord, shortWord⟩ ← expect (.keyword .intWord) items
  let ⟨name, afterName, shortName⟩ ← identifier afterWord
  let parameter : Parameter := ⟨word.span.through name.span, name⟩
  match ← eat? (.punctuator .comma) afterName with
  | some ⟨_, afterComma, shortComma⟩ =>
    let ⟨others, afterOthers, shortOthers⟩ ← call .parameterList afterComma (.fewer (by omega))
    return ⟨parameter :: others, afterOthers, by omega⟩
  | none =>
    let ⟨_, afterClose, shortClose⟩ ← expect (.punctuator .closeParen) afterName
    return ⟨[parameter], afterClose, by omega⟩

/-- Reads the parameters of a function with their parentheses. The word `void` alone stands for no
parameters. -/
def parameters : Reader .parameters := fun items call => do
  let ⟨_, afterOpen, shortOpen⟩ ← expect (.punctuator .openParen) items
  match ← eat? (.keyword .voidWord) afterOpen with
  | some ⟨_, afterVoid, shortVoid⟩ =>
    let ⟨_, afterClose, shortClose⟩ ← expect (.punctuator .closeParen) afterVoid
    return ⟨[], afterClose, by omega⟩
  | none =>
    match ← eat? (.punctuator .closeParen) afterOpen with
    | some ⟨_, afterClose, shortClose⟩ => return ⟨[], afterClose, by omega⟩
    | none =>
      let ⟨given, afterGiven, shortGiven⟩ ← call .parameterList afterOpen (.fewer shortOpen)
      return ⟨given, afterGiven, by omega⟩

/-- Reads statements between braces. -/
def block : Reader .block := fun items call => do
  let ⟨first, afterFirst, shortFirst⟩ ← expect (.punctuator .openBrace) items
  let ⟨(inner, last), afterLast, shortLast⟩ ← call .statements afterFirst (.fewer shortFirst)
  return ⟨⟨first.span.through last.span, inner⟩, afterLast, by omega⟩

/-- Reads the definition of a function. -/
def functionDef : Reader .functionDef := fun items call => do
  let ⟨token, afterToken, shortToken⟩ ← next .returnType items
  let type ← returnType token
  let ⟨name, afterName, shortName⟩ ← identifier afterToken
  let ⟨given, afterGiven, shortGiven⟩ ← call .parameters afterName (.fewer (by omega))
  let ⟨inner, afterInner, shortInner⟩ ← call .block afterGiven (.fewer (by omega))
  return ⟨⟨token.span.through inner.span, type, name, given, inner⟩, afterInner, by omega⟩

/-- Reads function definitions to the end of the text. -/
def functionDefs : Reader .functionDefs := fun items call => do
  if items.isEmpty then
    return ⟨[], [], by simp⟩
  else
    let ⟨first, afterFirst, shortFirst⟩ ← call .functionDef items (.lower (by decide))
    let ⟨others, afterOthers, shortOthers⟩ ← call .functionDefs afterFirst (.fewer shortFirst)
    return ⟨first :: others, afterOthers, by omega⟩

end Step

/-- One function of the parser, with the calls that it makes left to another. -/
def Part.step {α : Type} {slack : Nat} (part : Part α slack) (items : List LexItem)
    (call : Calls ⟨part, items⟩) : Except ParseFailure (Parsed α (items.length + slack)) :=
  match part with
  | expression => Step.expression items call
  | binary rank => Step.binary rank items call
  | binaryTail rank left => Step.binaryTail rank left items call
  | unary => Step.unary items call
  | primary => Step.primary items call
  | arguments => Step.arguments items call
  | argumentList => Step.argumentList items call
  | optionalBefore expected stop => Step.optionalBefore expected stop items call
  | initializer => Step.initializer items call
  | declarators => Step.declarators items call
  | condition => Step.condition items call
  | forInitializer => Step.forInitializer items call
  | forHeader => Step.forHeader items call
  | statement => Step.statement items call
  | body => Step.body items call
  | statements => Step.statements items call
  | parameterList => Step.parameterList items call
  | parameters => Step.parameters items call
  | block => Step.block items call
  | functionDef => Step.functionDef items call
  | functionDefs => Step.functionDefs items call

/-- What a function of the parser gives. -/
def Part.read {α : Type} {slack : Nat} (part : Part α slack) (items : List LexItem) :
    Except ParseFailure (Parsed α (items.length + slack)) :=
  part.step items fun other after _ => other.read after
  termination_by (items.length, part.level)
  decreasing_by
    rename_i below
    cases below with
    | fewer less => exact .left _ _ less
    | lower less => exact .right _ less

/-- Reads function definitions to the end of the text. -/
def functionDefs (items : List LexItem) : Except ParseFailure (List FunctionDef) := do
  let parsed ← Part.functionDefs.read items
  return parsed.value

end SmallC.Parse

namespace SmallC

/-- The program that a text is. -/
def parseProgram (text : List Char) : Except SyntaxError Program :=
  let endOffset := Text.byteLength text
  match Parse.functionDefs (lexItems text) with
  | .ok functions => .ok ⟨functions, endOffset⟩
  | .error failure => .error (failure.locate endOffset)

end SmallC
