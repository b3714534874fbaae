import CallAtlas.Dialect.C
import CallAtlas.Dialect.Cpp
import CallAtlas.Dialect.Go
import CallAtlas.Dialect.Java
import CallAtlas.Dialect.JavaScript
import CallAtlas.Dialect.Php
import CallAtlas.Dialect.Python
/-!
The languages whose sources can be read, the names they go by, the files they are
written in, how their trees are read, and which of their calls enter the graph.
-/
namespace CallAtlas

/-- Which calls are kept once every definition is known. -/
inductive EdgePolicy where
  /-- The callee has to be defined. -/
  | calleeKnown
  /-- Caller and callee have to be defined. -/
  | bothKnown
  deriving DecidableEq, Repr

/-- Whether a call is kept. A function's call to itself never is. -/
def EdgePolicy.admits (policy : EdgePolicy) (table : SymbolTable) (call : Call) : Bool :=
  call.caller != call.callee &&
    match policy with
    | .calleeKnown => table.contains call.callee
    | .bothKnown => table.contains call.caller && table.contains call.callee

inductive Language where
  | python
  | java
  | go
  | javaScript
  | cpp
  | c
  | php
  deriving DecidableEq, Repr

structure UnsupportedLanguage where
  tag : String
  deriving DecidableEq, Repr

def UnsupportedLanguage.message (error : UnsupportedLanguage) : String :=
  s!"unsupported language type: {error.tag} (expected one of python, java, go, js, cpp, c, php)"

namespace Language

def all : List Language := [python, java, go, javaScript, cpp, c, php]

/-- The name shown to a reader. -/
def name : Language → String
  | python => "python"
  | java => "java"
  | go => "go"
  | javaScript => "javascript"
  | cpp => "cpp"
  | c => "c"
  | php => "php"

/-- The name in stored records: words in lower case, joined by underscores. -/
def key : Language → String
  | javaScript => "java_script"
  | language => language.name

def tags : Language → List String
  | go => ["golang", "go"]
  | javaScript => ["js", "javascript"]
  | cpp => ["cpp", "c++"]
  | language => [language.name]

def ofKey? (key : String) : Option Language :=
  all.find? (·.key == key)

/-- The language a tag asks for. Blanks around the tag and its case do not matter. Every tag
is ASCII, and no character outside ASCII has a lower-case form that could complete one, so
ASCII case is all there is to fold. -/
def ofTag (tag : String) : Except UnsupportedLanguage Language :=
  let wanted := String.ofList ((Text.trimChars tag.toList).map Char.toLower)
  match all.find? (·.tags.contains wanted) with
  | some language => .ok language
  | none => .error ⟨tag⟩

def extensions : Language → List String
  | python => ["py"]
  | java => ["java"]
  | go => ["go"]
  | javaScript => ["js", "mjs", "cjs"]
  | cpp => ["cpp", "cc", "cxx"]
  | c => ["c"]
  | php => ["php"]

def dialect : Language → Dialect
  | python => .python
  | java => .java
  | go => .go
  | javaScript => .javaScript
  | cpp => .cpp
  | c => .c
  | php => .php

/-- Python's calls only need a defined callee, those of the others a defined caller too. -/
def edgePolicy : Language → EdgePolicy
  | python => .calleeKnown
  | _ => .bothKnown

end Language

end CallAtlas
