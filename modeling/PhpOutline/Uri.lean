/-!
# URIs

File URIs and paths turn into one another without any encoding. A URI of an editor has to be absolute
and well-formed: a scheme, then an authority and a path, then a query and a fragment. A percent sign
begins an encoded byte. Which URIs are well-formed matters to no property of search results: these hold
with any predicate in the place of `isValid`.
-/

namespace PhpOutline.Uri

/-! ## Files -/

def scheme : List Char := ['f', 'i', 'l', 'e', ':', '/', '/']

def toPath? (uri : String) : Option String :=
  if scheme.isPrefixOf uri.toList then some (.ofList (uri.toList.drop scheme.length)) else none

/-- The path is in its URI unchanged, as all paths are Unicode text. -/
def ofPath (path : String) : String := .ofList (scheme ++ path.toList)

theorem toPath?_ofPath (path : String) : toPath? (ofPath path) = some path := by
  simp [toPath?, ofPath]

theorem ofPath_of_toPath? {uri path : String} (h : toPath? uri = some path) : ofPath path = uri := by
  simp only [toPath?] at h
  split at h
  · rename_i hprefix
    obtain ⟨rest, hrest⟩ := List.isPrefixOf_iff_prefix.mp hprefix
    cases h
    rw [ofPath, String.toList_ofList, ← hrest, List.drop_left, hrest, String.ofList_toList]
  · cases h

/-! ## Characters -/

def isHexDigit (c : Char) : Bool := c.isDigit || ('a' ≤ c && c ≤ 'f') || ('A' ≤ c && c ≤ 'F')

def isUnreserved (c : Char) : Bool := c.isAlphanum || c ∈ ['-', '.', '_', '~']

def isSubDelim (c : Char) : Bool := c ∈ ['!', '$', '&', '\'', '(', ')', '*', '+', ',', ';', '=']

def isNameChar (c : Char) : Bool := isUnreserved c || isSubDelim c

def isPathChar (c : Char) : Bool := isNameChar c || c ∈ [':', '@', '/']

def isQueryChar (c : Char) : Bool := isPathChar c || c == '?'

def isEncoded (inClass : Char → Bool) : List Char → Bool
  | '%' :: high :: low :: rest => isHexDigit high && isHexDigit low && isEncoded inClass rest
  | c :: rest => inClass c && isEncoded inClass rest
  | [] => true

/-! ## Components -/

/-- The texts before and after the first such character, if there is one. -/
def cut (mark : Char) : List Char → List Char × Option (List Char)
  | [] => ([], none)
  | c :: rest =>
    if c = mark then ([], some rest)
    else
      let (before, after) := cut mark rest
      (c :: before, after)

def isScheme : List Char → Bool
  | [] => false
  | c :: rest => c.isAlpha && rest.all fun c => c.isAlphanum || c ∈ ['+', '-', '.']

/-- A number from 0 to 255 without leading zeros. -/
def isOctet (digits : List Char) : Bool :=
  match digits with
  | [a] => a.isDigit
  | [a, b] => a != '0' && a.isDigit && b.isDigit
  | [a, b, c] =>
    a != '0' && a.isDigit && b.isDigit && c.isDigit &&
      (a.toNat - 48) * 100 + (b.toNat - 48) * 10 + (c.toNat - 48) ≤ 255
  | _ => false

def isIPv4 (text : List Char) : Bool :=
  let octets := text.splitOn '.'
  octets.length == 4 && octets.all isOctet

def isGroup (text : List Char) : Bool :=
  1 ≤ text.length && text.length ≤ 4 && text.all isHexDigit

/-- The number of 16-bit groups that a text divided by colons stands for. The last part may be a
version 4 address in place of two groups, if `mayEndIn4` is set. -/
def groupCount? (mayEndIn4 : Bool) (text : List Char) : Option Nat :=
  if text = [] then some 0
  else
    let parts := text.splitOn ':'
    if parts.all isGroup then some parts.length
    else if mayEndIn4 && parts.dropLast.all isGroup && (parts.getLast?.map isIPv4).getD false then
      some (parts.length + 1)
    else none

/-- The texts before and after the first double colon. -/
def cutGap : List Char → Option (List Char × List Char)
  | ':' :: ':' :: rest => some ([], rest)
  | c :: rest => (cutGap rest).map fun (before, after) => (c :: before, after)
  | [] => none

/-- Eight groups, or fewer around a double colon. -/
def isIPv6 (text : List Char) : Bool :=
  match cutGap text with
  | none => groupCount? true text == some 8
  | some (before, after) =>
    match groupCount? false before, groupCount? true after with
    | some first, some second => first + second ≤ 7
    | _, _ => false

/-- An address of a later version: `v`, the version, a dot and the address. -/
def isIPvFuture : List Char → Bool
  | v :: rest =>
    match cut '.' rest with
    | (version, some address) =>
      (v == 'v' || v == 'V') && !version.isEmpty && version.all isHexDigit &&
        !address.isEmpty && address.all fun c => isNameChar c || c == ':'
    | (_, none) => false
  | [] => false

/-- Nothing, or a colon and digits. -/
def isPortNumber : List Char → Bool
  | [] => true
  | c :: digits => c == ':' && digits.all Char.isDigit

/-- A name or a bracketed address, then nothing or a colon and digits. -/
def isHost : List Char → Bool
  | '[' :: rest =>
    match cut ']' rest with
    | (address, some number) => (isIPv6 address || isIPvFuture address) && isPortNumber number
    | (_, none) => false
  | text =>
    match cut ':' text with
    | (name, some digits) => isEncoded isNameChar name && digits.all Char.isDigit
    | (name, none) => isEncoded isNameChar name

def isAuthority (text : List Char) : Bool :=
  match cut '@' text with
  | (user, some host) => isEncoded (fun c => isNameChar c || c == ':') user && isHost host
  | (host, none) => isHost host

/-- An authority and a path after two slashes, or a path alone. -/
def isHierarchy : List Char → Bool
  | '/' :: '/' :: rest =>
    let authority := rest.takeWhile (· != '/')
    isAuthority authority && isEncoded isPathChar (rest.drop authority.length)
  | path => isEncoded isPathChar path

/-- Whether the text is an absolute URI. -/
def isValid (uri : String) : Bool :=
  match cut ':' uri.toList with
  | (_, none) => false
  | (name, some rest) =>
    let (rest, fragment) := cut '#' rest
    let (hierarchy, query) := cut '?' rest
    isScheme name && isHierarchy hierarchy && isEncoded isQueryChar (query.getD []) &&
      isEncoded isQueryChar (fragment.getD [])

end PhpOutline.Uri
