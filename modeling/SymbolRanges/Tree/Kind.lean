/-!
# Kinds of tree elements

The closed list of kinds that tokens and nodes of a Java syntax tree can have. Each kind has a
name and a number, its place in the list, and `ofNumber?_number` says that the number identifies
it.
-/

set_option autoImplicit false

namespace SymbolRanges

/-- What an element of a syntax tree is. Any kind may mark a token or a node. -/
inductive Kind where
  -- Layout: skipped when a name is spelled out.
  | whitespace
  | lineComment
  | blockComment
  -- Identifiers and literals.
  | ident
  | intLiteral
  | floatLiteral
  | charLiteral
  | stringLiteral
  -- Punctuation.
  | lBrace
  | rBrace
  | lBracket
  | rBracket
  | lParen
  | rParen
  | semicolon
  | colon
  | comma
  | dot
  | ellipsis
  | equals
  | lessThan
  | greaterThan
  | atSign
  | question
  | pipe
  | ampersand
  | arrow
  | colonColon
  | operator
  -- Keywords.
  | packageKw
  | importKw
  | classKw
  | interfaceKw
  | enumKw
  | extendsKw
  | implementsKw
  | throwsKw
  | publicKw
  | protectedKw
  | privateKw
  | staticKw
  | finalKw
  | abstractKw
  | synchronizedKw
  | nativeKw
  | transientKw
  | volatileKw
  -- Keywords of the primitive types and `void`.
  | voidKw
  | booleanKw
  | byteKw
  | charKw
  | shortKw
  | intKw
  | longKw
  | floatKw
  | doubleKw
  -- Keywords of statements and expressions.
  | newKw
  | returnKw
  | ifKw
  | elseKw
  | forKw
  | whileKw
  | doKw
  | tryKw
  | catchKw
  | finallyKw
  | throwKw
  | switchKw
  | caseKw
  | defaultKw
  | breakKw
  | continueKw
  | thisKw
  | superKw
  | nullKw
  | trueKw
  | falseKw
  | instanceofKw
  -- Nodes of a file.
  | sourceFile
  | packageStatement
  | importStatement
  -- Nodes of declarations.
  | classDecl
  | modifierList
  | annotationNode
  | typeParameterList
  | typeParameter
  | extendsList
  | implementsList
  | field
  | enumConstant
  | method
  | parameterList
  | parameter
  | throwsList
  | classInitializer
  -- Nodes of types and references.
  | type
  | typeArgumentList
  | reference
  -- Nodes of statements.
  | codeBlock
  | declarationStatement
  | localVariable
  | expressionStatement
  | returnStatement
  | ifStatement
  | forStatement
  | foreachStatement
  | whileStatement
  | doWhileStatement
  | tryStatement
  | catchSection
  | throwStatement
  | switchStatement
  | labeledStatement
  | breakStatement
  | continueStatement
  -- Nodes of expressions.
  | expression
  | methodCall
  | argumentList
  | newExpression
  | anonymousClass
  | lambda
  | castExpression
  | literal
  -- What could not be parsed.
  | error
  deriving DecidableEq, Repr

namespace Kind

/-- The name of a kind. -/
def name : Kind → String
  | .whitespace => "WHITESPACE"
  | .lineComment => "LINE_COMMENT"
  | .blockComment => "BLOCK_COMMENT"
  | .ident => "IDENT"
  | .intLiteral => "INT_LITERAL"
  | .floatLiteral => "FLOAT_LITERAL"
  | .charLiteral => "CHAR_LITERAL"
  | .stringLiteral => "STRING_LITERAL"
  | .lBrace => "L_BRACE"
  | .rBrace => "R_BRACE"
  | .lBracket => "L_BRACKET"
  | .rBracket => "R_BRACKET"
  | .lParen => "L_PAREN"
  | .rParen => "R_PAREN"
  | .semicolon => "SEMICOLON"
  | .colon => "COLON"
  | .comma => "COMMA"
  | .dot => "DOT"
  | .ellipsis => "ELLIPSIS"
  | .equals => "EQ"
  | .lessThan => "LT"
  | .greaterThan => "GT"
  | .atSign => "AT"
  | .question => "QUESTION"
  | .pipe => "PIPE"
  | .ampersand => "AMP"
  | .arrow => "ARROW"
  | .colonColon => "COLON_COLON"
  | .operator => "OPERATOR"
  | .packageKw => "PACKAGE_KW"
  | .importKw => "IMPORT_KW"
  | .classKw => "CLASS_KW"
  | .interfaceKw => "INTERFACE_KW"
  | .enumKw => "ENUM_KW"
  | .extendsKw => "EXTENDS_KW"
  | .implementsKw => "IMPLEMENTS_KW"
  | .throwsKw => "THROWS_KW"
  | .publicKw => "PUBLIC_KW"
  | .protectedKw => "PROTECTED_KW"
  | .privateKw => "PRIVATE_KW"
  | .staticKw => "STATIC_KW"
  | .finalKw => "FINAL_KW"
  | .abstractKw => "ABSTRACT_KW"
  | .synchronizedKw => "SYNCHRONIZED_KW"
  | .nativeKw => "NATIVE_KW"
  | .transientKw => "TRANSIENT_KW"
  | .volatileKw => "VOLATILE_KW"
  | .voidKw => "VOID_KW"
  | .booleanKw => "BOOLEAN_KW"
  | .byteKw => "BYTE_KW"
  | .charKw => "CHAR_KW"
  | .shortKw => "SHORT_KW"
  | .intKw => "INT_KW"
  | .longKw => "LONG_KW"
  | .floatKw => "FLOAT_KW"
  | .doubleKw => "DOUBLE_KW"
  | .newKw => "NEW_KW"
  | .returnKw => "RETURN_KW"
  | .ifKw => "IF_KW"
  | .elseKw => "ELSE_KW"
  | .forKw => "FOR_KW"
  | .whileKw => "WHILE_KW"
  | .doKw => "DO_KW"
  | .tryKw => "TRY_KW"
  | .catchKw => "CATCH_KW"
  | .finallyKw => "FINALLY_KW"
  | .throwKw => "THROW_KW"
  | .switchKw => "SWITCH_KW"
  | .caseKw => "CASE_KW"
  | .defaultKw => "DEFAULT_KW"
  | .breakKw => "BREAK_KW"
  | .continueKw => "CONTINUE_KW"
  | .thisKw => "THIS_KW"
  | .superKw => "SUPER_KW"
  | .nullKw => "NULL_KW"
  | .trueKw => "TRUE_KW"
  | .falseKw => "FALSE_KW"
  | .instanceofKw => "INSTANCEOF_KW"
  | .sourceFile => "SOURCE_FILE"
  | .packageStatement => "PACKAGE_STATEMENT"
  | .importStatement => "IMPORT_STATEMENT"
  | .classDecl => "CLASS"
  | .modifierList => "MODIFIER_LIST"
  | .annotationNode => "ANNOTATION"
  | .typeParameterList => "TYPE_PARAMETER_LIST"
  | .typeParameter => "TYPE_PARAMETER"
  | .extendsList => "EXTENDS_LIST"
  | .implementsList => "IMPLEMENTS_LIST"
  | .field => "FIELD"
  | .enumConstant => "ENUM_CONSTANT"
  | .method => "METHOD"
  | .parameterList => "PARAMETER_LIST"
  | .parameter => "PARAMETER"
  | .throwsList => "THROWS_LIST"
  | .classInitializer => "CLASS_INITIALIZER"
  | .type => "TYPE"
  | .typeArgumentList => "TYPE_ARGUMENT_LIST"
  | .reference => "REFERENCE"
  | .codeBlock => "CODE_BLOCK"
  | .declarationStatement => "DECLARATION_STATEMENT"
  | .localVariable => "LOCAL_VARIABLE"
  | .expressionStatement => "EXPRESSION_STATEMENT"
  | .returnStatement => "RETURN_STATEMENT"
  | .ifStatement => "IF_STATEMENT"
  | .forStatement => "FOR_STATEMENT"
  | .foreachStatement => "FOREACH_STATEMENT"
  | .whileStatement => "WHILE_STATEMENT"
  | .doWhileStatement => "DO_WHILE_STATEMENT"
  | .tryStatement => "TRY_STATEMENT"
  | .catchSection => "CATCH_SECTION"
  | .throwStatement => "THROW_STATEMENT"
  | .switchStatement => "SWITCH_STATEMENT"
  | .labeledStatement => "LABELED_STATEMENT"
  | .breakStatement => "BREAK_STATEMENT"
  | .continueStatement => "CONTINUE_STATEMENT"
  | .expression => "EXPRESSION"
  | .methodCall => "METHOD_CALL"
  | .argumentList => "ARGUMENT_LIST"
  | .newExpression => "NEW_EXPRESSION"
  | .anonymousClass => "ANONYMOUS_CLASS"
  | .lambda => "LAMBDA"
  | .castExpression => "CAST_EXPRESSION"
  | .literal => "LITERAL"
  | .error => "ERROR"

/-- Every kind, in the order of the numbers. -/
def all : List Kind :=
  [.whitespace, .lineComment, .blockComment, .ident, .intLiteral, .floatLiteral, .charLiteral,
    .stringLiteral, .lBrace, .rBrace, .lBracket, .rBracket, .lParen, .rParen, .semicolon, .colon,
    .comma, .dot, .ellipsis, .equals, .lessThan, .greaterThan, .atSign, .question, .pipe,
    .ampersand, .arrow, .colonColon, .operator, .packageKw, .importKw, .classKw, .interfaceKw,
    .enumKw, .extendsKw, .implementsKw, .throwsKw, .publicKw, .protectedKw, .privateKw, .staticKw,
    .finalKw, .abstractKw, .synchronizedKw, .nativeKw, .transientKw, .volatileKw, .voidKw,
    .booleanKw, .byteKw, .charKw, .shortKw, .intKw, .longKw, .floatKw, .doubleKw, .newKw,
    .returnKw, .ifKw, .elseKw, .forKw, .whileKw, .doKw, .tryKw, .catchKw, .finallyKw, .throwKw,
    .switchKw, .caseKw, .defaultKw, .breakKw, .continueKw, .thisKw, .superKw, .nullKw, .trueKw,
    .falseKw, .instanceofKw, .sourceFile, .packageStatement, .importStatement, .classDecl,
    .modifierList, .annotationNode, .typeParameterList, .typeParameter, .extendsList,
    .implementsList, .field, .enumConstant, .method, .parameterList, .parameter, .throwsList,
    .classInitializer, .type, .typeArgumentList, .reference, .codeBlock, .declarationStatement,
    .localVariable, .expressionStatement, .returnStatement, .ifStatement, .forStatement,
    .foreachStatement, .whileStatement, .doWhileStatement, .tryStatement, .catchSection,
    .throwStatement, .switchStatement, .labeledStatement, .breakStatement, .continueStatement,
    .expression, .methodCall, .argumentList, .newExpression, .anonymousClass, .lambda,
    .castExpression, .literal, .error]

/-- The number of a kind: its place among all kinds. -/
def number (kind : Kind) : Nat := kind.ctorIdx

/-- The kind with a number, if there is one. -/
def ofNumber? (number : Nat) : Option Kind := all[number]?

/-- The kind with a name, if there is one. -/
def ofName? (name : String) : Option Kind := all.find? fun kind => decide (kind.name = name)

/-- Whether a kind is layout: white space or a comment. -/
def isTrivia : Kind → Bool
  | .whitespace | .lineComment | .blockComment => true
  | _ => false

/-- Whether a kind is a keyword. -/
def isKeyword (kind : Kind) : Bool :=
  decide (packageKw.number ≤ kind.number ∧ kind.number ≤ instanceofKw.number)

/-- Whether a kind is the keyword of a primitive type or `void`. -/
def isPrimitiveType (kind : Kind) : Bool :=
  decide (voidKw.number ≤ kind.number ∧ kind.number ≤ doubleKw.number)

/-- A kind stands at its number among all kinds. -/
@[simp] theorem ofNumber?_number (kind : Kind) : ofNumber? kind.number = some kind := by
  cases kind <;> rfl

end Kind

end SymbolRanges
