import Gamebook.Text.Percent

/-!
Uniform resource identifiers. An identifier is kept in normal form, and its text is its identity:
the parts are read off the text. Hierarchical identifiers have a path that begins with a slash;
the others, such as `mailto:`, have neither path segments nor a directory.

How identifiers are taken apart is no business of a project: it works with whatever tells the
segments of a path and the directory of an identifier.
-/

namespace Gamebook

/-- An identifier in normal form. -/
structure Uri where
  text : String
  deriving DecidableEq, Repr, Inhabited

namespace Uri

/-- The parts of an identifier. -/
structure Parts where
  scheme : Text
  /-- What follows two slashes: the host, perhaps with a user before it and a number behind it. -/
  authority : Option Text
  path : Text
  query : Option Text
  fragment : Option Text
  deriving DecidableEq, Repr, Inhabited

/-- Schemes whose identifiers have a host and a path, and the numbers that need not be written
behind the host. -/
def hosted : List (String × String) :=
  [("http", "80"), ("https", "443"), ("ws", "80"), ("wss", "443"), ("ftp", "21")]

def isHosted (scheme : Text) : Bool := hosted.any (·.1.toList == scheme)

def isFile (scheme : Text) : Bool := scheme == "file".toList

/-- Whether a text can be a scheme: a letter, then letters, digits, and `+`, `-`, `.`. -/
def isScheme : Text → Bool
  | [] => false
  | c :: cs => c.isAlpha && cs.all fun c => c.isAlphanum || c == '+' || c == '-' || c == '.'

/-- The authority and the path of an identifier without query and fragment. An identifier of a file
has an authority even where it is not written, and one of a host whatever the number of slashes. -/
def splitHierarchy (scheme body : Text) : Option Text × Text :=
  let atSlash (text : Text) := (some (text.takeWhile (· != '/')), text.dropWhile (· != '/'))
  if isHosted scheme then atSlash (body.dropWhile (· == '/'))
  else
    match body with
    | '/' :: '/' :: rest => atSlash rest
    | body => (if isFile scheme then some [] else none, body)

namespace Parts

/-- The parts of a text, if it begins with a scheme. -/
def split? (text : Text) : Option Parts :=
  match Text.cutAt ':' text with
  | (_, none) => none
  | (scheme, some rest) =>
    if isScheme scheme then
      let scheme := Text.lower scheme
      let (rest, fragment) := Text.cutAt '#' rest
      let (body, query) := Text.cutAt '?' rest
      let body := if isHosted scheme || isFile scheme
        then body.map fun c => if c = '\\' then '/' else c
        else body
      let (authority, path) := splitHierarchy scheme body
      some { scheme, authority, path, query, fragment }
    else none

/-- The text of an identifier with the given parts. -/
def join (parts : Parts) : Text :=
  let mark (sign : Text) (part : Option Text) := (part.map (sign ++ ·)).getD []
  parts.scheme ++ [':'] ++ mark ['/', '/'] parts.authority ++ parts.path ++
    mark ['?'] parts.query ++ mark ['#'] parts.fragment

/-- Whether there is a hierarchy that another identifier can be relative to. -/
def isHierarchical (parts : Parts) : Bool :=
  parts.authority.isSome || parts.path.head? == some '/'

end Parts

/-- Path segments that stand for the directory itself. -/
def isHere (segment : Text) : Bool :=
  ["." , "%2e"].contains (String.ofList (Text.lower segment))

/-- Path segments that stand for the directory above. -/
def isAbove (segment : Text) : Bool :=
  ["..", ".%2e", "%2e.", "%2e%2e"].contains (String.ofList (Text.lower segment))

/-- Path segments that stand for a drive: a letter with a colon or a bar behind it. -/
def isDrive : Text → Bool
  | [c, sign] => c.isAlpha && (sign == ':' || sign == '|')
  | _ => false

/-- Drives with a colon: the path of a file does not leave them for the directory above. -/
def isNormalDrive (segment : Text) : Bool := isDrive segment && segment.getLast? == some ':'

/-- The segments in the path of a file, where a drive at the front has a colon. -/
def colonDrive : List Text → List Text
  | [] => []
  | first :: more => (if isDrive first then first.take 1 ++ [':'] else first) :: more

/-- The segments of a path without those that stand for a directory. Such a segment at the end
leaves an empty one. The segments that were kept so far come last first. -/
def resolveDots (scheme : Text) (kept : List Text) : List Text → List Text
  | [] => kept.reverse
  | segment :: more =>
    let ending := if more.isEmpty then [[]] else []
    let above := if isFile scheme && kept.head?.any isNormalDrive then kept else kept.tail
    if isAbove segment then resolveDots scheme (ending ++ above) more
    else if isHere segment then resolveDots scheme (ending ++ kept) more
    else resolveDots scheme (segment :: kept) more

/-- A path from its segments. -/
def pathOf (segments : List Text) : Text := segments.flatMap ('/' :: ·)

/-- The normal form of a path that begins with a slash. -/
def normalPath (scheme path : Text) : Text :=
  let segments := (Text.splitOn '/' (path.drop 1)).map (Text.percentEncode Text.keptInPath)
  pathOf (resolveDots scheme [] (if isFile scheme then colonDrive segments else segments))

/-- Characters that no host has. -/
def isForbiddenInHost (c : Char) : Bool :=
  !Text.isGraphic c || "#%/:<>?@[\\]^|".toList.contains c

/-- A number in a host by its base and digits: sixteen behind `0x`, eight behind another zero. -/
def hostDigits : Text → Nat × Text
  | '0' :: 'x' :: digits => (16, digits)
  | '0' :: c :: digits => (8, c :: digits)
  | digits => (10, digits)

/-- The value of a number in a host. -/
def hostNumber? (text : Text) : Option Nat :=
  let (base, digits) := hostDigits text
  let values := digits.map Text.hexValue?
  if text.isEmpty || !values.all (·.any (· < base)) then none
  else some (values.foldl (fun value digit => value * base + digit.getD 0) 0)

/-- The parts of a host between its dots, where one at the end counts for nothing. -/
def hostParts (name : Text) : List Text :=
  let parts := Text.splitOn '.' name
  if 1 < parts.length && parts.getLast? == some [] then parts.dropLast else parts

/-- Whether a host ends in a number, and so is an address of four bytes. -/
def endsInNumber (name : Text) : Bool :=
  (hostParts name).getLast?.any fun part =>
    !part.isEmpty && part.all Text.isDigit || (hostNumber? part).isSome

/-- An address of four bytes in normal form. The last of its numbers can stand for several bytes. -/
def normalAddress? (name : Text) : Option Text :=
  match (hostParts name).mapM hostNumber? with
  | none => none
  | some numbers =>
    let last := numbers.getLast?.getD 0
    let front := numbers.dropLast
    if 4 < numbers.length || front.any (255 < ·) || 1 <<< (8 * (5 - numbers.length)) ≤ last then none
    else
      let low := (List.range (5 - numbers.length)).reverse.map fun place => last >>> (8 * place) % 256
      some (Text.join ['.'] ((front ++ low).map fun byte => (toString byte).toList))

/-- The normal form of the name of a host: lower case, or an address. -/
def normalName? (name : Text) : Option Text :=
  let name := Text.lower name
  if name.any isForbiddenInHost then none
  else if endsInNumber name then normalAddress? name
  else some name

/-- The normal form of a host, and the number behind it only where the scheme does not imply it. -/
def normalHost? (scheme host : Text) : Option Text :=
  let (name, number) := Text.cutAt ':' host
  match (normalName? name).filter (!·.isEmpty) with
  | none => none
  | some name =>
    match number with
    | none => some name
    | some digits =>
      let value := (String.ofList digits).toNat?.getD 0
      let implied := (hosted.lookup (String.ofList scheme)).getD ""
      if !digits.all Text.isDigit || 65535 < value then none
      else if digits.isEmpty || toString value == implied then some name
      else some (name ++ ':' :: (toString value).toList)

/-- The normal form of an authority: what stands before an at sign is kept as it is. -/
def normalAuthority? (scheme authority : Text) : Option Text :=
  let host := (authority.reverse.takeWhile (· != '@')).reverse
  let user := authority.take (authority.length - host.length)
  (normalHost? scheme host).map (user ++ ·)

/-- The normal form of an authority of a file: the own host is not written. -/
def normalFileHost? (authority : Text) : Option Text :=
  (normalName? authority).map fun name => if name == "localhost".toList then [] else name

/-- The normal form of the parts, if they make up an identifier. -/
def Parts.normal? (parts : Parts) : Option Parts :=
  let keptInQuery :=
    if isHosted parts.scheme || isFile parts.scheme then Text.keptInHostedQuery
    else Text.keptInQuery
  let parts :=
    { parts with
      query := parts.query.map (Text.percentEncode keptInQuery)
      fragment := parts.fragment.map (Text.percentEncode Text.keptInFragment) }
  let hierarchical (authority : Text) :=
    { parts with authority := some authority, path := normalPath parts.scheme parts.path }
  match parts.authority with
  | some authority =>
    if isFile parts.scheme then
      -- what looks like a host can be the drive at the front of the path
      let (authority, path) := if isDrive authority then ([], authority ++ parts.path) else (authority, parts.path)
      let path := if path.head? == some '/' then path else '/' :: path
      (normalFileHost? authority).map fun authority =>
        { parts with authority := some authority, path := normalPath parts.scheme path }
    else if isHosted parts.scheme then
      (normalAuthority? parts.scheme authority).map hierarchical
    else if parts.path.isEmpty then some parts
    else some (hierarchical authority)
  | none =>
    if parts.path.head? == some '/' then some { parts with path := normalPath parts.scheme parts.path }
    else
      let keep := fun c : Char => ' ' ≤ c && c ≤ '~'
      some { parts with path := Text.percentEncode keep parts.path }

/-- A text without controls and spaces around it, and without tabs and line breaks inside. -/
def strip (text : Text) : Text :=
  let isOuter := fun c : Char => c ≤ ' '
  let inner := ((text.dropWhile isOuter).reverse.dropWhile isOuter).reverse
  inner.filter fun c => c != '\t' && c != '\n' && c != '\r'

def ofParts (parts : Parts) : Uri := ⟨String.ofList parts.join⟩

/-- Reads an identifier and brings it to normal form. -/
def parse? (text : String) : Option Uri :=
  ((Parts.split? (strip text.toList)).bind (·.normal?)).map ofParts

/-- The parts of an identifier. -/
def parts? (uri : Uri) : Option Parts := Parts.split? uri.text.toList

/-- The segments of the path; there are none without a hierarchy. -/
def segments? (uri : Uri) : Option (List Text) :=
  match uri.parts?.map (·.path) with
  | some ('/' :: rest) => some (Text.splitOn '/' rest)
  | _ => none

/-- The directory that an identifier lies in: its path up to the last slash. A drive at the end of the
path of a file is a directory itself. -/
def directory? (uri : Uri) : Option Uri :=
  match uri.parts? with
  | none => none
  | some parts =>
    if parts.isHierarchical then
      let file := (parts.path.reverse.takeWhile (· != '/')).reverse
      let path :=
        if isFile parts.scheme && isNormalDrive file then parts.path ++ ['/']
        else (parts.path.reverse.dropWhile (· != '/')).reverse
      let path := if path.isEmpty then ['/'] else path
      some (ofParts { parts with path, query := none, fragment := none })
    else none

/-- Whether an identifier begins with the text of another one. -/
def isWithin (uri directory : Uri) : Bool := directory.text.toList.isPrefixOf uri.text.toList

/-- The identifier of the file at an absolute path, given by the names on the way there. -/
def ofPath (names : List String) : Uri :=
  let path := pathOf (names.map fun name => Text.percentEncode Text.keptInFileName name.toList)
  ofParts
    { scheme := "file".toList, authority := some [],
      path := if path.isEmpty then ['/'] else path, query := none, fragment := none }

/-- The identifier of the directory at an absolute path. -/
def ofDirectory (names : List String) : Uri := ofPath (if names.isEmpty then [] else names ++ [""])

/-- The path of the file that an identifier stands for, if it stands for one on the own host. -/
def filePath? (uri : Uri) : Option Text :=
  match uri.parts?, uri.segments? with
  | some parts, some segments =>
    if parts.authority.all fun host => host.isEmpty || host == "localhost".toList then
      Text.ofBytes? (segments.flatMap fun segment =>
        String.utf8EncodeChar '/' ++ Text.percentDecode segment)
    else none
  | _, _ => none

end Uri

/-- What tells the segments in the path of an identifier, and the directory that it lies in. -/
class Addressing where
  segments? : Uri → Option (List Text)
  directory? : Uri → Option Uri

/-- Both are read off the text. -/
instance : Addressing := ⟨Uri.segments?, Uri.directory?⟩

end Gamebook
