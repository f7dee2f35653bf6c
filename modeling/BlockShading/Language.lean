import BlockShading.Path

/-!
# Languages

Only files whose extension is `java`, in any mix of cases, have syntax trees. No character outside
ASCII has a lower case among the letters of that word, so folding ASCII letters decides it.
-/

namespace BlockShading

inductive Language where
  | plainText
  | java
  deriving DecidableEq, Repr, Inhabited

namespace Language

def ofExtension (extension : String) : Language :=
  if extension.toList.map Char.toLower = "java".toList then java else plainText

def ofPath (path : Path) : Language :=
  match path.extension? with
  | some extension => ofExtension extension
  | none => plainText

def displayName : Language → String
  | plainText => "Plain Text"
  | java => "Java"

def hasTrees : Language → Bool
  | plainText => false
  | java => true

end Language

end BlockShading
