import PageAssembly.Text.Utf8
import PageAssembly.Yaml.Cursor
import PageAssembly.Yaml.Fault
import PageAssembly.Yaml.Token

/-!
# Names of nodes, tags and directives

## Main definitions

* `Cursor.anchorName` — the name of an anchor or alias
* `Cursor.tagToken` — the tag that comes next
* `Cursor.directiveToken` — the directive that comes next
-/

namespace PageAssembly.Yaml

/-- The name behind the character that starts an anchor or an alias. -/
def Cursor.anchorName (c : Cursor) : Except Fault (Text × Cursor) :=
  let name := c.step.run isAnchorCharacter
  let behind := c.step.skipWhile isAnchorCharacter
  if name.isEmpty ∨ !endsAnchor behind.peek? then .error .anchorName else .ok (name, behind)

/-- The octets that escapes in a tag stand for. -/
def tagOctets : Text → List UInt8
  | '%' :: a :: b :: rest => (hexOf a * 16 + hexOf b).toUInt8 :: tagOctets rest
  | c :: rest => Utf8.encode [c] ++ tagOctets rest
  | [] => []
where
  /-- The number that a hexadecimal digit stands for. -/
  hexOf (c : Char) : Nat := if Text.isDigit c then c.toNat - 48 else c.toLower.toNat - 87

/-- Whether every per cent sign has two hexadecimal digits behind it. -/
def hasTagEscapes : Text → Bool
  | '%' :: a :: b :: rest => Text.isHexDigit a && Text.isHexDigit b && hasTagEscapes rest
  | c :: rest => c != '%' && hasTagEscapes rest
  | [] => true

/-- The characters of a tag that come next, with their escapes replaced. -/
def Cursor.tagSuffix (c : Cursor) : Except Fault (Text × Cursor) :=
  let written := c.run isTagCharacter
  if written.isEmpty ∨ !hasTagEscapes written then .error .tagName
  else
    match Utf8.decode (tagOctets written) with
    | (suffix, none) => .ok (suffix, c.skipWhile isTagCharacter)
    | (_, some _) => .error .tagName

/-- The handle that comes next: word characters between exclamation marks, or a single mark with a
space behind it. -/
def Cursor.tagHandle (c : Cursor) : Except Fault (Text × Cursor) :=
  if !c.isAt '!' then .error .tagName
  else if c.step.isAt ' ' then .ok (['!'], c.step)
  else
    let name := c.step.run isWordCharacter
    let behind := c.step.skipWhile isWordCharacter
    if behind.isAt '!' then .ok ('!' :: name ++ ['!'], behind.step) else .error .tagName

/-- Whether another exclamation mark stands before the end of a tag. -/
def hasSecondMark (s : Text) : Bool := (s.takeWhile fun c => !endsTag (some c)).elem '!'

/-- The tag that comes next. -/
def Cursor.tagToken (c : Cursor) : Except Fault (Token × Cursor) := do
  let (token, behind) ←
    if c.step.isAt '<' then do
      let (suffix, behind) ← (c.skip 2).tagSuffix
      if !behind.isAt '>' then throw .tagName
      pure (Token.tag none suffix, behind.step)
    else if isGap c.step.peek? then pure (Token.tag none ['!'], c.step)
    else if hasSecondMark c.step.rest then do
      let (handle, atSuffix) ← c.tagHandle
      let (suffix, behind) ← atSuffix.tagSuffix
      pure (Token.tag (some handle) suffix, behind)
    else do
      let (suffix, behind) ← c.step.tagSuffix
      pure (Token.tag (some ['!']) suffix, behind)
  if endsTag behind.peek? then return (token, behind) else throw .tagName

/-- The version number of a directive: two numbers with a full stop between them. -/
def Cursor.version (c : Cursor) : Except Fault (Directive × Cursor) :=
  let major := c.run Text.isDigit
  let atMinor := (c.skip major.length).step
  let minor := atMinor.run Text.isDigit
  let behind := atMinor.skip minor.length
  if major.isEmpty ∨ minor.isEmpty ∨ !(c.skip major.length).isAt '.' ∨ !endsTag behind.peek? then
    .error .directive
  else .ok (.version (major.foldl (fun n d => 10 * n + (d.toNat - 48)) 0), behind)

/-- The handle of a directive and the start of the tags that it stands for. -/
def Cursor.handleDirective (c : Cursor) : Except Fault (Directive × Cursor) := do
  let (handle, behind) ← c.tagHandle
  if !behind.isAt ' ' then throw .directive
  let (start, behind) ← behind.skipSpaces.tagSuffix
  if !endsTag behind.peek? then throw .directive
  return (.handle handle start, behind)

/-- The characters of a directive's name. -/
def isDirectiveCharacter (c : Char) : Bool := isWordCharacter c || c == ':' || c == '.'

/-- The directive that comes next. -/
def Cursor.directiveToken (c : Cursor) : Except Fault (Token × Cursor) := do
  let name := c.step.run isDirectiveCharacter
  let behind := c.step.skipWhile isDirectiveCharacter
  if name.isEmpty ∨ !endsTag behind.peek? then throw .directive
  let (directive, behind) ←
    if name = "YAML".toList then behind.skipSpaces.version
    else if name = "TAG".toList then behind.skipSpaces.handleDirective
    else pure (Directive.other, behind.toLineEnd)
  let lineEnd := behind.skipSpaces.skipComment
  if isLineEnd lineEnd.peek? then return (.directive directive, lineEnd.breakLine)
  else throw .directive

end PageAssembly.Yaml
