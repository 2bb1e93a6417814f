/-!
# Faults of scripts

Why a text is not a script.  A fault is either lexical, found while a token is read, or
grammatical, found while tokens are put together.  Each has one fixed message.
-/

namespace FeatureProbes
namespace Script

/-- One reason for which a text is not a script. -/
inductive Fault where
  | invalidCharacter (c : Char)
  | unexpectedEnd
  | unterminatedString
  | unterminatedRegularExpression
  | unterminatedComment
  | invalidEscape
  | invalidUnicodeEscape
  | invalidNumberEnd
  | unexpectedFlag (flag : Char)
  | repeatedFlag (flag : Char)
  | unexpectedToken
  | expectedToken (expected found : String)
  | expectedEither (separator close found : String)
  | missingSemicolon
  | escapedKeyword
  | reservedWord (word : String)
  | exportedString
  | awaitIdentifier
  | yieldIdentifier
  | awaitOutsideAsync
  | yieldOutsideGenerator
  | invalidTarget
  | invalidDefaultOperator
  | shorthandDefault
  | missingConstInitializer
  | missingPatternInitializer
  | mixedCoalesce
  | unparenthesizedPower
  | newlineAfterThrow
  | newlineBeforeArrow
  | missingCatch
  | getterParameters
  | setterParameters
  | setterRest
  | asyncConstructor
  | generatorConstructor
  | accessorConstructor
  | constructorField
  | privateConstructor
  | staticPrototype
  | expectedSwitchClause
  | expectedFunctionName
  | expectedFunctionBody
  | expectedClassName
  | restParameterLast
  | restElementLast
  | restTrailingComma
  | restInitializer
  | restPattern
  | spreadLast
  | emptyParentheses
  | parenthesesTrailingComma
  | taggedTemplateInChain
  | chainInNew
  | importInNew
  | importWithoutSpecifier
  | importArguments
  | newMetaProperty
  | importMetaProperty
  | bareSuper
  | returnOutsideFunction
  | singleLexicalDeclaration
  | singleAsyncFunction
  | singleGenerator
  | singleClass
  | forAwaitWithoutOf
  | forAsyncOf
  | nestedPrivateIn
  | privateKeyInObject
  | tooDeep
  deriving Repr, DecidableEq

namespace Fault

/-- How a fault is told. -/
def message : Fault → String
  | invalidCharacter c => "Invalid Character \x60" ++ c.toString ++ "\x60"
  | unexpectedEnd => "Unexpected end of file"
  | unterminatedString => "Unterminated string"
  | unterminatedRegularExpression => "Unterminated regular expression"
  | unterminatedComment => "Unterminated multiline comment"
  | invalidEscape => "Invalid escape sequence"
  | invalidUnicodeEscape => "Invalid Unicode escape sequence"
  | invalidNumberEnd => "Invalid characters after number"
  | unexpectedFlag flag =>
      "Unexpected flag " ++ flag.toString ++ " in regular expression literal"
  | repeatedFlag flag =>
      "Flag " ++ flag.toString ++ " is mentioned twice in regular expression literal"
  | unexpectedToken => "Unexpected token"
  | expectedToken expected found =>
      "Expected \x60" ++ expected ++ "\x60 but found \x60" ++ found ++ "\x60"
  | expectedEither separator close found =>
      "Expected \x60" ++ separator ++ "\x60 or \x60" ++ close ++ "\x60 but found \x60" ++
        found ++ "\x60"
  | missingSemicolon =>
      "Expected a semicolon or an implicit semicolon after a statement, but found none"
  | escapedKeyword => "Keywords cannot contain escape characters"
  | exportedString => "A string literal cannot be used as an exported binding without \x60from\x60"
  | reservedWord word =>
      "Identifier expected. '" ++ word ++ "' is a reserved word that cannot be used here."
  | awaitIdentifier => "Cannot use \x60await\x60 as an identifier in an async context"
  | yieldIdentifier => "Cannot use \x60yield\x60 as an identifier in a generator context"
  | awaitOutsideAsync =>
      "\x60await\x60 is only allowed within async functions and at the top levels of modules"
  | yieldOutsideGenerator => "A 'yield' expression is only allowed in a generator body."
  | invalidTarget => "Cannot assign to this expression"
  | invalidDefaultOperator => "Only '=' operator can be used for specifying default value."
  | shorthandDefault => "Invalid assignment in object literal"
  | missingConstInitializer => "Missing initializer in const declaration"
  | missingPatternInitializer => "Missing initializer in destructuring declaration"
  | mixedCoalesce => "Logical expressions and coalesce expressions cannot be mixed"
  | unparenthesizedPower => "Unexpected exponentiation expression"
  | newlineAfterThrow => "Illegal newline after throw"
  | newlineBeforeArrow => "Line terminator not permitted before arrow"
  | missingCatch => "Missing catch or finally clause"
  | getterParameters => "A 'get' accessor must not have any formal parameters."
  | setterParameters => "A 'set' accessor must have exactly one parameter."
  | setterRest => "A 'set' accessor cannot have rest parameter."
  | asyncConstructor => "Constructor can't be an async method"
  | generatorConstructor => "Constructor can't be a generator"
  | accessorConstructor => "Constructor can't have get/set modifier"
  | constructorField => "Classes can't have a field named 'constructor'"
  | privateConstructor => "Classes can't have an element named '#constructor'"
  | staticPrototype => "Classes may not have a static property named 'prototype'"
  | expectedSwitchClause => "Expected switch clause"
  | expectedFunctionName => "Expected function name"
  | expectedFunctionBody => "Expected function body"
  | expectedClassName => "A class name is required."
  | restParameterLast => "A rest parameter must be last in a parameter list"
  | restElementLast => "A rest element must be last in a destructuring pattern"
  | restTrailingComma => "Unexpected trailing comma after rest element"
  | restInitializer => "A rest element cannot have an initializer."
  | restPattern => "Invalid rest element"
  | spreadLast => "Spread must be last element"
  | emptyParentheses => "Empty parenthesized expression"
  | parenthesesTrailingComma => "Parenthesized expressions may not have a trailing comma."
  | taggedTemplateInChain =>
      "Tagged template expressions are not permitted in an optional chain"
  | chainInNew => "Invalid optional chain from new expression."
  | importInNew => "Cannot use new with dynamic import"
  | importWithoutSpecifier => "import() requires a specifier."
  | importArguments =>
      "Dynamic imports can only accept a module specifier and an optional set of attributes" ++
        " as arguments"
  | newMetaProperty => "The only valid meta property for new is new.target"
  | importMetaProperty => "The only valid meta property for import is import.meta"
  | bareSuper =>
      "'super' can only be used with function calls or in property accesses"
  | returnOutsideFunction => "A 'return' statement can only be used within a function body."
  | singleLexicalDeclaration =>
      "Lexical declaration cannot appear in a single-statement context"
  | singleAsyncFunction =>
      "Async functions can only be declared at the top level or inside a block"
  | singleGenerator => "Generators can only be declared at the top level or inside a block"
  | singleClass => "Invalid class declaration"
  | forAwaitWithoutOf => "await can only be used in conjunction with \x60for...of\x60 statements"
  | forAsyncOf => "The left-hand side of a \x60for...of\x60 statement may not be \x60async\x60"
  | nestedPrivateIn => "Unexpected private identifier"
  | privateKeyInObject => "Private identifiers are not allowed in object literals"
  | tooDeep => "The script is nested too deeply"

end Fault
end Script
end FeatureProbes
