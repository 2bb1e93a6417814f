import FeatureProbes.WebIdl.Parser.Definition

/-!
# Definitions as text

What definitions look like when they are written out: words with single blanks between them.  A
word is a token without its line.

Not every definition can be written.  The shapes that the notation has are inductive predicates,
one constructor for each; whatever a shape does not mention has the value that a reader leaves
there.  Names begin with a letter and are none of the words that a reader looks for.
-/

namespace FeatureProbes
namespace WebIdl

/-! ## Words -/

/-- What a token says. -/
structure Word where
  kind : TokenKind
  text : String
  deriving Repr, DecidableEq

def Token.word (token : Token) : Word := ⟨token.kind, token.text⟩

namespace Word

def name (text : String) : Word := ⟨.name false, text⟩

def mark (text : String) : Word := ⟨.mark, text⟩

def integer (text : String) : Word := ⟨.integer, text⟩

def decimal (text : String) : Word := ⟨.decimal, text⟩

def string (text : String) : Word := ⟨.string, text⟩

def ellipsis : Word := ⟨.ellipsis, "..."⟩

def spelling (word : Word) : List Char :=
  Token.spelling ⟨word.kind, word.text, 0⟩

end Word

/-- A word that may be left out. -/
def optionalWord (given : Bool) (word : String) : List Word :=
  if given then [.name word] else []

/-- The words of some items with a separator between them. -/
def rowWords {α : Type} (separator : Word) (words : α → List Word) : List α → List Word
  | [] => []
  | item :: more => words item ++ more.flatMap fun item => separator :: words item

/-- The words of some items with commas between them and a closing mark. -/
def closedRowWords {α : Type} (close : String) (words : α → List Word) (items : List α) :
    List Word :=
  rowWords (.mark ",") words items ++ [.mark close]

/-! ## Types, arguments and extended attributes -/

/-- The words of the name of a type. -/
def typeNameWords (name : String) : List Word :=
  (name.toList.splitOn ' ').map fun part => .name (String.ofList part)

namespace IdlType

mutual

def words : IdlType → List Word
  | named name => typeNameWords name
  | generic name args => .name name :: .mark "<" :: (wordsOfRow (.mark ",") args ++ [.mark ">"])
  | union types => .mark "(" :: (wordsOfRow (.name "or") types ++ [.mark ")"])
  | nullable inner => words inner ++ [.mark "?"]

def wordsOfRow (separator : Word) : List IdlType → List Word
  | [] => []
  | type :: more => words type ++ wordsAfter separator more

def wordsAfter (separator : Word) : List IdlType → List Word
  | [] => []
  | type :: more => separator :: (words type ++ wordsAfter separator more)

end

end IdlType

def Argument.words (argument : Argument) : List Word :=
  optionalWord argument.optional "optional" ++
    (argument.type.words ++
      ((if argument.variadic then [.ellipsis] else []) ++ [.name argument.name]))

def argumentsWords (arguments : List Argument) : List Word :=
  .mark "(" :: closedRowWords ")" Argument.words arguments

def AttributeValue.words : AttributeValue → List Word
  | identifier name => [.name name]
  | identifierList names => .mark "(" :: closedRowWords ")" (fun name => [.name name]) names
  | wildcard => [.mark "*"]
  | integer spelling => [.integer spelling]
  | decimal spelling => [.decimal spelling]
  | string value => [.string value]
  | stringList values => .mark "(" :: closedRowWords ")" (fun value => [.string value]) values

/-- A value and arguments; no arguments are written as nothing. -/
def ExtendedAttribute.words (item : ExtendedAttribute) : List Word :=
  .name item.name ::
    ((match item.value with
      | none => []
      | some value => .mark "=" :: value.words) ++
    (if item.arguments.isEmpty then [] else argumentsWords item.arguments))

/-- No extended attributes are written as nothing. -/
def attributesWords (attributes : List ExtendedAttribute) : List Word :=
  if attributes.isEmpty then []
  else .mark "[" :: closedRowWords "]" ExtendedAttribute.words attributes

/-! ## Members -/

def Special.keyword : Special → String
  | static => "static"
  | stringifier => "stringifier"
  | getter => "getter"
  | setter => "setter"
  | deleter => "deleter"

namespace Member

def specialWords (member : Member) : List Word :=
  (member.special.map fun special => Word.name special.keyword).toList

def nameWords (member : Member) : List Word :=
  (member.name.map Word.name).toList

def typeWords (member : Member) : List Word :=
  (member.type.map IdlType.words).getD []

/-- The parameters of an iterable, maplike or setlike declaration. -/
def parameterWords (member : Member) : List Word :=
  .mark "<" :: closedRowWords ">" IdlType.words member.typeArgs

/-- A member without its extended attributes.  Constants are given the value zero.  An operation
without a type is a stringifier that stands alone. -/
def bodyWords (member : Member) : List Word :=
  match member.kind with
  | .attr =>
      member.specialWords ++ (optionalWord member.readonly "readonly" ++
        .name "attribute" :: (member.typeWords ++ (member.nameWords ++ [.mark ";"])))
  | .operation =>
      if member.type.isNone then member.specialWords ++ [.mark ";"]
      else
        member.specialWords ++ (optionalWord member.readonly "readonly" ++
          (member.typeWords ++
            (member.nameWords ++ (argumentsWords member.arguments ++ [.mark ";"]))))
  | .constructor => .name "constructor" :: (argumentsWords member.arguments ++ [.mark ";"])
  | .const =>
      .name "const" ::
        (member.typeWords ++ (member.nameWords ++ [.mark "=", .integer "0", .mark ";"]))
  | .iterable =>
      optionalWord member.isAsync "async" ++ .name "iterable" :: (member.parameterWords ++
        ((if member.arguments.isEmpty then [] else argumentsWords member.arguments) ++
          [.mark ";"]))
  | .maplike =>
      optionalWord member.readonly "readonly" ++
        .name "maplike" :: (member.parameterWords ++ [.mark ";"])
  | .setlike =>
      optionalWord member.readonly "readonly" ++
        .name "setlike" :: (member.parameterWords ++ [.mark ";"])
  | .field => member.typeWords ++ (member.nameWords ++ [.mark ";"])

def words (member : Member) : List Word :=
  attributesWords member.attributes ++ member.bodyWords

end Member

/-! ## Definitions -/

/-- The members of a definition. -/
def blockWords (members : List Member) : List Word :=
  .mark "\x7b" :: (members.flatMap Member.words ++ [.mark "\x7d", .mark ";"])

namespace Definition

def inheritanceWords (definition : Definition) : List Word :=
  match definition.inheritance with
  | none => []
  | some name => [.mark ":", .name name]

def typeWords (definition : Definition) : List Word :=
  (definition.type.map IdlType.words).getD []

/-- A definition without its extended attributes. -/
def bodyWords (definition : Definition) : List Word :=
  match definition.kind with
  | .interface =>
      optionalWord definition.isPartial "partial" ++ .name "interface" :: .name definition.name ::
        (definition.inheritanceWords ++ blockWords definition.members)
  | .mixin =>
      optionalWord definition.isPartial "partial" ++ .name "interface" :: .name "mixin" ::
        .name definition.name :: blockWords definition.members
  | .nameSpace =>
      optionalWord definition.isPartial "partial" ++ .name "namespace" :: .name definition.name ::
        blockWords definition.members
  | .dictionary =>
      optionalWord definition.isPartial "partial" ++ .name "dictionary" :: .name definition.name ::
        (definition.inheritanceWords ++ blockWords definition.members)
  | .enumeration =>
      .name "enum" :: .name definition.name :: .mark "\x7b" ::
        (closedRowWords "\x7d" (fun value => [.string value]) definition.values ++ [.mark ";"])
  | .typedef => .name "typedef" :: (definition.typeWords ++ [.name definition.name, .mark ";"])
  | .callback =>
      .name "callback" :: .name definition.name :: .mark "=" ::
        (definition.typeWords ++ (argumentsWords definition.arguments ++ [.mark ";"]))
  | .callbackInterface =>
      .name "callback" :: .name "interface" :: .name definition.name ::
        blockWords definition.members
  | .includes =>
      .name definition.name :: .name "includes" ::
        ((definition.included.map Word.name).toList ++ [.mark ";"])

def words (definition : Definition) : List Word :=
  attributesWords definition.attributes ++ definition.bodyWords

end Definition

/-- The text of some words, with single blanks between them. -/
def textOf (words : List Word) : List Char :=
  [' '].intercalate (words.map Word.spelling)

/-- Definitions as text. -/
def written (definitions : List Definition) : List Char :=
  textOf (definitions.flatMap Definition.words)

/-! ## What can be written -/

/-- The words that tell definitions, members and their parts from each other. -/
def keywords : List String :=
  ["callback", "interface", "partial", "mixin", "namespace", "dictionary", "enum", "typedef",
    "includes", "required", "const", "constructor", "stringifier", "static", "inherit", "readonly",
    "attribute", "maplike", "setlike", "async", "iterable", "getter", "setter", "deleter",
    "optional", "or"]

/-- The words that begin the name of a type which may be of several words. -/
def typeKeywords : List String :=
  ["unsigned", "unrestricted", "long"]

/-- A text that may be a name. -/
def IsName (text : String) : Prop :=
  text.toList.head?.any Char.isAlpha = true ∧ text.toList.all isNamePart = true ∧
    text ∉ keywords ∧ text ∉ typeKeywords

instance (text : String) : Decidable (IsName text) :=
  inferInstanceAs (Decidable (_ ∧ _ ∧ _ ∧ _))

/-- The characters of a number behind its first one: letters and digits, points, and exponents with
or without a sign.  Behind the mark of a base the letter of exponents is a digit.  A decimal has a
point or an exponent. -/
inductive IsNumberTail : (based isDecimal : Bool) → List Char → Prop
  | done
      {based : Bool} :
      IsNumberTail based false []
  | digit
      {based isDecimal : Bool} {c : Char} {more : List Char}
      (hc : c.isAlphanum = true)
      (hexponent : c ∈ ['e', 'E'] → based = true)
      (hmore : IsNumberTail (based || c == 'x' || c == 'X') isDecimal more) :
      IsNumberTail based isDecimal (c :: more)
  | point
      {based isDecimal : Bool} {more : List Char}
      (hmore : IsNumberTail based isDecimal more) :
      IsNumberTail based true ('.' :: more)
  | exponent
      {isDecimal : Bool} {c : Char} {more : List Char}
      (hc : c ∈ ['e', 'E'])
      (hmore : IsNumberTail false isDecimal more) :
      IsNumberTail false true (c :: more)
  | signedExponent
      {isDecimal : Bool} {c sign : Char} {more : List Char}
      (hc : c ∈ ['e', 'E'])
      (hsign : sign ∈ ['+', '-'])
      (hmore : IsNumberTail false isDecimal more) :
      IsNumberTail false true (c :: sign :: more)

/-- The spelling of an integer or of a decimal.  Where it begins with a point there is another
point or an exponent behind it. -/
inductive IsNumber : (isDecimal : Bool) → List Char → Prop
  | digit
      {isDecimal : Bool} {c : Char} {more : List Char}
      (hc : c.isDigit = true)
      (hmore : IsNumberTail false isDecimal more) :
      IsNumber isDecimal (c :: more)
  | signed
      {isDecimal : Bool} {c : Char} {more : List Char}
      (hc : c.isDigit = true ∨ c = '.')
      (hmore : IsNumberTail false isDecimal (c :: more)) :
      IsNumber isDecimal ('-' :: c :: more)
  | point
      {c : Char} {more : List Char}
      (hc : c.isDigit = true)
      (hmore : IsNumberTail false true (c :: more)) :
      IsNumber true ('.' :: c :: more)

/-- A text that may stand between quotes. -/
def IsQuotable (text : String) : Prop :=
  '"' ∉ text.toList

instance (text : String) : Decidable (IsQuotable text) :=
  inferInstanceAs (Decidable (_ ∉ _))

/-- The words of the name of a type. -/
inductive IsTypeName : List String → Prop
  | plain
      {name : String}
      (hname : IsName name) :
      IsTypeName [name]
  | long : IsTypeName ["long"]
  | longLong : IsTypeName ["long", "long"]
  | unsigned
      {name : String}
      (hname : IsName name) :
      IsTypeName ["unsigned", name]
  | unsignedLong : IsTypeName ["unsigned", "long"]
  | unsignedLongLong : IsTypeName ["unsigned", "long", "long"]
  | unrestricted
      {name : String}
      (hname : IsName name) :
      IsTypeName ["unrestricted", name]

/-- A type without the null value in addition. -/
def IdlType.IsPlain (type : IdlType) : Prop :=
  ∀ inner, type ≠ nullable inner

inductive IdlType.Expressible : IdlType → Prop
  | named
      {parts : List String}
      (hparts : IsTypeName parts) :
      Expressible (named (" ".intercalate parts))
  | generic
      {name : String} {args : List IdlType}
      (hname : name ∈ Parser.genericNames)
      (hsome : args ≠ [])
      (hargs : ∀ type ∈ args, Expressible type) :
      Expressible (generic name args)
  | union
      {types : List IdlType}
      (hsome : types ≠ [])
      (htypes : ∀ type ∈ types, Expressible type) :
      Expressible (union types)
  | nullable
      {inner : IdlType}
      (hplain : inner.IsPlain)
      (hinner : Expressible inner) :
      Expressible (nullable inner)

structure Argument.Expressible (argument : Argument) : Prop where
  name : IsName argument.name
  type : argument.type.Expressible

/-- Every right-hand side but the empty list of strings and numbers that are spelled otherwise than
their kind. -/
inductive AttributeValue.Expressible : AttributeValue → Prop
  | identifier
      {name : String}
      (hname : IsName name) :
      Expressible (identifier name)
  | identifierList
      {names : List String}
      (hnames : ∀ name ∈ names, IsName name) :
      Expressible (identifierList names)
  | wildcard : Expressible wildcard
  | integer
      {spelling : String}
      (hspelling : IsNumber false spelling.toList) :
      Expressible (integer spelling)
  | decimal
      {spelling : String}
      (hspelling : IsNumber true spelling.toList) :
      Expressible (decimal spelling)
  | string
      {value : String}
      (hvalue : IsQuotable value) :
      Expressible (string value)
  | stringList
      {values : List String}
      (hsome : values ≠ [])
      (hvalues : ∀ value ∈ values, IsQuotable value) :
      Expressible (stringList values)

structure ExtendedAttribute.Expressible (item : ExtendedAttribute) : Prop where
  name : IsName item.name
  value : ∀ value, item.value = some value → value.Expressible
  arguments : ∀ argument ∈ item.arguments, argument.Expressible

/-- The shapes of the members of interfaces, mixins, namespaces and callback interfaces. -/
inductive Member.IsShape : Member → Prop
  | attr
      {name : String} {type : IdlType} {special : Option Special} {readonly : Bool}
      (hname : IsName name)
      (htype : type.Expressible)
      (hspecial : special ∈ [none, some .static, some .stringifier]) :
      IsShape { ofKind .attr (some name) with
        special := special, readonly := readonly, type := some type }
  /-- Operations that are neither static nor stringifiers are never read-only. -/
  | operation
      {name : Option String} {type : IdlType} {special : Option Special} {readonly : Bool}
      {arguments : List Argument}
      (hname : ∀ text, name = some text → IsName text)
      (htype : type.Expressible)
      (hspecial : readonly = true → special ∈ [some .static, some .stringifier])
      (harguments : ∀ argument ∈ arguments, argument.Expressible) :
      IsShape { ofKind .operation name with
        special := special, readonly := readonly, type := some type, arguments := arguments }
  | stringifier : IsShape { ofKind .operation none with special := some .stringifier }
  | constructor
      {arguments : List Argument}
      (harguments : ∀ argument ∈ arguments, argument.Expressible) :
      IsShape { ofKind .constructor none with arguments := arguments }
  | constant
      {name : String} {type : IdlType}
      (hname : IsName name)
      (htype : type.Expressible) :
      IsShape { ofKind .const (some name) with type := some type }
  | iterable
      {isAsync : Bool} {typeArgs : List IdlType} {arguments : List Argument}
      (hsome : typeArgs ≠ [])
      (htypes : ∀ type ∈ typeArgs, type.Expressible)
      (harguments : ∀ argument ∈ arguments, argument.Expressible) :
      IsShape { ofKind .iterable none with
        isAsync := isAsync, typeArgs := typeArgs, arguments := arguments }
  | collection
      {kind : MemberKind} {readonly : Bool} {typeArgs : List IdlType}
      (hkind : kind ∈ [.maplike, .setlike])
      (hsome : typeArgs ≠ [])
      (htypes : ∀ type ∈ typeArgs, type.Expressible) :
      IsShape { ofKind kind none with readonly := readonly, typeArgs := typeArgs }

/-- The shape of the members of dictionaries. -/
inductive Member.IsField : Member → Prop
  | field
      {name : String} {type : IdlType}
      (hname : IsName name)
      (htype : type.Expressible) :
      IsField { ofKind .field (some name) with type := some type }

namespace Member

def bare (member : Member) : Member :=
  { member with attributes := [], line := 0 }

/-- A member without its line. -/
def unlined (member : Member) : Member :=
  { member with line := 0 }

/-- A member of some shape, with extended attributes and a line. -/
structure Expressible (shape : Member → Prop) (member : Member) : Prop where
  shape : shape member.bare
  attributes : ∀ item ∈ member.attributes, item.Expressible

end Member

/-- The shapes of definitions. -/
inductive Definition.IsShape : Definition → Prop
  | interface
      {name : String} {isPartial : Bool} {inheritance : Option String} {members : List Member}
      (hname : IsName name)
      (hinheritance : ∀ text, inheritance = some text → IsName text)
      (hmembers : ∀ member ∈ members, member.Expressible Member.IsShape) :
      IsShape { ofKind .interface name with
        isPartial := isPartial, inheritance := inheritance, members := members }
  | mixin
      {name : String} {isPartial : Bool} {members : List Member}
      (hname : IsName name)
      (hmembers : ∀ member ∈ members, member.Expressible Member.IsShape) :
      IsShape { ofKind .mixin name with isPartial := isPartial, members := members }
  | nameSpace
      {name : String} {isPartial : Bool} {members : List Member}
      (hname : IsName name)
      (hmembers : ∀ member ∈ members, member.Expressible Member.IsShape) :
      IsShape { ofKind .nameSpace name with isPartial := isPartial, members := members }
  | dictionary
      {name : String} {isPartial : Bool} {inheritance : Option String} {members : List Member}
      (hname : IsName name)
      (hinheritance : ∀ text, inheritance = some text → IsName text)
      (hmembers : ∀ member ∈ members, member.Expressible Member.IsField) :
      IsShape { ofKind .dictionary name with
        isPartial := isPartial, inheritance := inheritance, members := members }
  | enumeration
      {name : String} {values : List String}
      (hname : IsName name)
      (hvalues : ∀ value ∈ values, IsQuotable value) :
      IsShape { ofKind .enumeration name with values := values }
  | typedef
      {name : String} {type : IdlType}
      (hname : IsName name)
      (htype : type.Expressible) :
      IsShape { ofKind .typedef name with type := some type }
  | callback
      {name : String} {type : IdlType} {arguments : List Argument}
      (hname : IsName name)
      (htype : type.Expressible)
      (harguments : ∀ argument ∈ arguments, argument.Expressible) :
      IsShape { ofKind .callback name with type := some type, arguments := arguments }
  | callbackInterface
      {name : String} {members : List Member}
      (hname : IsName name)
      (hmembers : ∀ member ∈ members, member.Expressible Member.IsShape) :
      IsShape { ofKind .callbackInterface name with members := members }
  | includes
      {name mixin : String}
      (hname : IsName name)
      (hmixin : IsName mixin) :
      IsShape { ofKind .includes name with included := some mixin }

namespace Definition

def bare (definition : Definition) : Definition :=
  { definition with attributes := [], line := 0 }

/-- A definition without its line and those of its members. -/
def unlined (definition : Definition) : Definition :=
  { definition with line := 0, members := definition.members.map Member.unlined }

/-- A definition that the notation can express. -/
structure Expressible (definition : Definition) : Prop where
  shape : definition.bare.IsShape
  attributes : ∀ item ∈ definition.attributes, item.Expressible

end Definition
end WebIdl
end FeatureProbes
