import FeatureProbes.Build.Api
import FeatureProbes.Proofs.Probe.Members

/-!
# Default probes

A member is looked for where its kind says: a property on the prototype of its definition, a static
member on the definition itself, and a well-known symbol on the prototype after the symbol itself
has been looked up.  If the definition says that it describes a global object, all of them are
looked for on the global object.  A constructor is called.
-/

namespace FeatureProbes
namespace Build

open Probe (IsPlainName MemberRef)
open WebIdl (Definition)

/-- The look at a property of the global object. -/
def globalProbe (name : String) : String :=
  Probe.has name "self"

/-- The look at what an interface itself has or inherits. -/
def staticProbe (interface name : String) : String :=
  Probe.allOf [Probe.has interface "self", Probe.has name interface]

/-- The look at what instances of an interface inherit. -/
def prototypeProbe (interface name : String) : String :=
  Probe.allOf [Probe.has interface "self", Probe.has name (interface ++ ".prototype")]

/-- The check that an object has or inherits the property of a well-known symbol. -/
def hasSymbol (symbol owner : String) : String :=
  "Symbol." ++ symbol ++ " in " ++ owner

/-- The look at a well-known symbol of the global object. -/
def globalSymbolProbe (symbol : String) : String :=
  Probe.allOf [Probe.has "Symbol" "self", Probe.has symbol "Symbol", hasSymbol symbol "self"]

/-- The look at a well-known symbol that instances of an interface inherit. -/
def symbolProbe (interface symbol : String) : String :=
  Probe.allOf
    [Probe.has "Symbol" "self", Probe.has symbol "Symbol",
      Probe.allOf [Probe.has interface "self", hasSymbol symbol (interface ++ ".prototype")]]

theorem globalProbe_ne_prototypeProbe
    (interface name : String) :
    globalProbe name ≠ prototypeProbe interface name := by
  intro heq
  have hlength := congrArg String.length heq
  have hlonger : 0 < ".prototype".length := by
    decide
  simp [globalProbe, prototypeProbe, Probe.allOf, Probe.has, Probe.inQuotes] at hlength
  omega

/-! ## Plain names -/

section Names

variable {interface name : String}

theorem code_of_self
    (h : IsPlainName name) :
    (MemberRef.of "self" name).code = globalProbe name := by
  rw [MemberRef.code_of_isPlainName "self" h, MemberRef.guarded]
  rfl

theorem code_of_interface
    (hinterface : '.' ∉ interface.toList)
    (hself : interface ≠ "self")
    (h : IsPlainName name) :
    (MemberRef.of interface name).code = staticProbe interface name := by
  rw [MemberRef.code_of_isPlainName _ h, MemberRef.guarded_of_dotFree name _ hinterface hself]
  rfl

theorem code_of_prototype
    (hinterface : '.' ∉ interface.toList)
    (h : IsPlainName name) :
    (MemberRef.of (interface ++ ".prototype") name).code = prototypeProbe interface name := by
  rw [MemberRef.code_of_isPlainName _ h, MemberRef.guarded_prototype name _ hinterface]
  rfl

end Names

/-! ## Members of definitions -/

section Members

variable {definition : Definition} {probe : ProbeMember}

/-- Properties are looked for on the global object where a definition says that it describes one,
else on a prototype. -/
theorem compile_defaultCode
    (hdefinition : '.' ∉ definition.name.toList)
    (hname : IsPlainName probe.name)
    (hkind : probe.kind = .property) :
    (defaultCode definition probe).compile =
      if definition.hasAttribute "Global" then globalProbe probe.name
      else prototypeProbe definition.name probe.name := by
  have howner : ownerOf definition .property =
      if definition.hasAttribute "Global" then "self" else definition.name ++ ".prototype" :=
    rfl
  have hproperty : propertyOf probe = probe.name := by
    rw [propertyOf, hkind]
  rw [defaultCode, hkind, howner, hproperty, Probe.TestCode.compile]
  split
  · exact code_of_self hname
  · exact code_of_prototype hdefinition hname

/-- Static members are looked for on the definition and not on a prototype. -/
theorem compile_defaultCode_static
    (hdefinition : '.' ∉ definition.name.toList)
    (hself : definition.name ≠ "self")
    (hname : IsPlainName probe.name)
    (hkind : probe.kind = .static) :
    (defaultCode definition probe).compile =
      if definition.hasAttribute "Global" then globalProbe probe.name
      else staticProbe definition.name probe.name := by
  have howner : ownerOf definition .static =
      if definition.hasAttribute "Global" then "self" else definition.name :=
    rfl
  have hproperty : propertyOf probe = probe.name := by
    rw [propertyOf, hkind]
  rw [defaultCode, hkind, howner, hproperty, Probe.TestCode.compile]
  split
  · exact code_of_self hname
  · exact code_of_interface hdefinition hself hname

/-- Well-known symbols are looked for where properties are. -/
theorem compile_defaultCode_symbol
    {symbol : String}
    (hdefinition : '.' ∉ definition.name.toList)
    (hname : Text.dropAtSigns probe.name.toList = symbol.toList)
    (hkind : probe.kind = .symbol) :
    (defaultCode definition probe).compile =
      if definition.hasAttribute "Global" then globalSymbolProbe symbol
      else symbolProbe definition.name symbol := by
  have howner : ownerOf definition .symbol =
      if definition.hasAttribute "Global" then "self" else definition.name ++ ".prototype" :=
    rfl
  have hproperty : propertyOf probe = "Symbol." ++ symbol := by
    rw [propertyOf, hkind]
    simp only [hname, String.ofList_toList]
  rw [defaultCode, hkind, howner, hproperty, Probe.TestCode.compile, MemberRef.code_of_symbol]
  split
  · rw [MemberRef.symbolCode, MemberRef.guarded]
    rfl
  · rw [MemberRef.symbolCode, MemberRef.guarded_prototype _ _ hdefinition]
    rfl

theorem compile_defaultCode_constructor
    (hkind : probe.kind = .constructor) :
    (defaultCode definition probe).compile =
      "bcd.testConstructor(" ++ Probe.inQuotes probe.name ++ ")" := by
  have hproperty : propertyOf probe = "constructor." ++ probe.name := by
    rw [propertyOf, hkind]
  rw [defaultCode, hproperty, Probe.TestCode.compile, MemberRef.code_of_constructor]

end Members

end Build
end FeatureProbes
