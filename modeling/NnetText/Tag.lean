/-!
# Tags

A tag is a token in angle brackets. The tag that names the type of a component has a fixed
shape, its name is what is left without the brackets on both ends, and the tag that closes the
declaration is made from that name.
-/

namespace NnetText.Tag

/-- Opens a declaration. -/
def opener : String := "<ComponentName>"

/-- Ends the whole section. -/
def sectionEnd : String := "</Nnet3>"

/-- A tag has the shape of a component type when it starts with `<`, ends with `Component>` and
has room for at least two characters of a name between them. -/
def isComponentType (token : String) : Bool :=
  let cs := token.toList
  13 ≤ cs.length && ['<'].isPrefixOf cs && "Component>".toList.isSuffixOf cs

/-- The name in a tag: all opening brackets in front and all closing ones behind are dropped. -/
def name (tag : String) : String :=
  let inner := tag.toList.dropWhile (· == '<')
  String.ofList (inner.reverse.dropWhile (· == '>')).reverse

/-- The tag that closes a declaration of the type named by `tag`. -/
def closing (tag : String) : String :=
  "</" ++ name tag ++ ">"

end NnetText.Tag
