import FeatureProbes.WebIdl.Parser.Type

/-!
# Reading members

The members of interfaces and of dictionaries, without their extended attributes and lines, which
are read where members are listed.
-/

namespace FeatureProbes
namespace WebIdl
namespace Parser

/-- A member of a dictionary.  Whether it is required and its default value do not matter. -/
def field (nested : Nested) : Parser Member := do
  let _ ← eatWord "required"
  let type ← nested.type
  let name ← identifier
  if ← eatMark "=" then defaultValue
  expectMark ";"
  return { Member.ofKind .field name with type := some type }

/-- A constant, after its keyword.  Its value does not matter. -/
def constant (nested : Nested) : Parser Member := do
  let type ← nested.type
  let name ← identifier
  expectMark "="
  defaultValue
  expectMark ";"
  return { Member.ofKind .const name with type := some type }

/-- A constructor, after its keyword. -/
def constructorMember (nested : Nested) : Parser Member := do
  let arguments ← arguments nested
  expectMark ";"
  return { Member.ofKind .constructor none with arguments := arguments }

/-- An operation, whose name may be missing. -/
def operation (nested : Nested) : Parser Member := do
  let type ← nested.type
  let name ← if ← atName then some <$> identifier else pure none
  let arguments ← arguments nested
  expectMark ";"
  return { Member.ofKind .operation name with type := some type, arguments := arguments }

/-- An attribute, after its keyword. -/
def attributeMember (nested : Nested) : Parser Member := do
  let type ← nested.type
  let name ← identifier
  expectMark ";"
  return { Member.ofKind .attr name with type := some type }

/-- An attribute or an operation, after any number of words that make it read-only. -/
def attributeOrOperation (nested : Nested) : Parser Member := do
  let readonly ← eatWords "readonly"
  let member ← if ← eatWord "attribute" then attributeMember nested else operation nested
  return { member with readonly := readonly }

/-- A maplike or setlike declaration, after its keyword. -/
def collection (nested : Nested) (kind : MemberKind) (readonly : Bool) : Parser Member := do
  let typeArgs ← typeParameters nested.type
  expectMark ";"
  return { Member.ofKind kind none with readonly := readonly, typeArgs := typeArgs }

/-- An iterable declaration, after its keyword. -/
def iterable (nested : Nested) (isAsync : Bool) : Parser Member := do
  let typeArgs ← typeParameters nested.type
  let arguments ← if ← atMark "(" then arguments nested else pure []
  expectMark ";"
  return { Member.ofKind .iterable none with
    isAsync := isAsync, typeArgs := typeArgs, arguments := arguments }

/-- A stringifier, after its keyword. -/
def stringifier (nested : Nested) : Parser Member := do
  let member ← if ← eatMark ";" then pure (Member.ofKind .operation none)
    else attributeOrOperation nested
  return { member with special := some .stringifier }

/-- The mark of an operation that a word stands for. -/
def specialOfToken? (token : Token) : Option Special :=
  if token.isWord "getter" then some .getter
  else if token.isWord "setter" then some .setter
  else if token.isWord "deleter" then some .deleter
  else none

/-- The last of the marks in front of an operation. -/
def specials : Parser (Option Special) := do
  let marks := (← get).takeWhile fun token => (specialOfToken? token).isSome
  modify fun tokens => tokens.dropWhile fun token => (specialOfToken? token).isSome
  return marks.getLast?.bind specialOfToken?

/-- An operation behind the words that mark it. -/
def markedOperation (nested : Nested) : Parser Member := do
  let special ← specials
  let member ← operation nested
  return { member with special := special }

/-- A word that makes a member read-only, where such a member follows. -/
def readonlyMark : Parser Bool := do
  if (← atWord "readonly") &&
      ((← nextIsWord "attribute") || (← nextIsWord "maplike") || (← nextIsWord "setlike")) then
    skip
    return true
  else return false

/-- A word that says that an attribute is inherited, which does not matter. -/
def inheritMark : Parser Unit := do
  if (← atWord "inherit") && ((← nextIsWord "readonly") || (← nextIsWord "attribute")) then skip

/-- A word that makes an iterable asynchronous, where one follows. -/
def asyncMark : Parser Bool := do
  if (← atWord "async") && (← nextIsWord "iterable") then
    skip
    return true
  else return false

/-- A member that begins with none of the words `const`, `constructor`, `stringifier` and
`static`. -/
def plainMember (nested : Nested) : Parser Member := do
  inheritMark
  let readonly ← readonlyMark
  if ← eatWord "maplike" then collection nested .maplike readonly
  else if ← eatWord "setlike" then collection nested .setlike readonly
  else if ← eatWord "attribute" then
    let member ← attributeMember nested
    return { member with readonly := readonly }
  else
    let isAsync ← asyncMark
    if ← eatWord "iterable" then iterable nested isAsync else markedOperation nested

/-- A member of an interface, a mixin, a namespace or a callback interface. -/
def member (nested : Nested) : Parser Member := do
  if ← eatWord "const" then constant nested
  else if (← atWord "constructor") && (← nextIsMark "(") then
    skip
    constructorMember nested
  else if ← eatWord "stringifier" then stringifier nested
  else if ← eatWord "static" then
    let member ← attributeOrOperation nested
    return { member with special := some .static }
  else plainMember nested

end Parser
end WebIdl
end FeatureProbes
