/-
  `java.net.URI(String)` as far as `Profile.findAllUrls` looks at it: whether the constructor
  throws, `host` and `port`. The grammar is the one the class documents (RFC 2396 with the
  deviations of RFC 2732), on texts of ASCII characters: the link pattern lets no other through.

  A component that does not parse as `[userinfo@]host[:port]` is a registry-based authority, with
  a null host and port -1, when its characters allow that; otherwise the constructor throws.
-/
import Mathlib.Data.Int.ModEq
import Mathlib.Data.List.Basic

namespace CypherConnect.JavaUri

/-! ## Character classes -/

def isDigit (c : Char) : Bool := '0' ≤ c && c ≤ '9'

def isAlpha (c : Char) : Bool := ('a' ≤ c && c ≤ 'z') || ('A' ≤ c && c ≤ 'Z')

def isAlphanum (c : Char) : Bool := isAlpha c || isDigit c

def isHex (c : Char) : Bool := isDigit c || ('a' ≤ c && c ≤ 'f') || ('A' ≤ c && c ≤ 'F')

/-- `alphanum` and the marks `-_.!~*'()`. -/
def isUnreserved (c : Char) : Bool :=
  isAlphanum c || ['-', '_', '.', '!', '~', '*', '\'', '(', ')'].contains c

/-- Characters of a query or a fragment. -/
def isUric (c : Char) : Bool :=
  isUnreserved c || [';', '/', '?', ':', '@', '&', '=', '+', '$', ',', '[', ']'].contains c

def isPath (c : Char) : Bool :=
  isUnreserved c || [':', '@', '&', '=', '+', '$', ',', ';', '/'].contains c

def isUserInfo (c : Char) : Bool :=
  isUnreserved c || [';', ':', '&', '=', '+', '$', ','].contains c

def isRegName (c : Char) : Bool :=
  isUnreserved c || ['$', ',', ';', ':', '@', '&', '=', '+'].contains c

def isServer (c : Char) : Bool :=
  isUserInfo c || ['.', ':', '@', '[', ']', '-'].contains c

def isScheme (c : Char) : Bool := isAlphanum c || ['+', '-', '.'].contains c

/-- The rest of the text after the legal characters and escapes it starts with; `none` for the
    exception a malformed escape raises. -/
def scan (legal : Char → Bool) : List Char → Option (List Char)
  | [] => some []
  | c :: cs =>
      if legal c then scan legal cs
      else if c = '%' then
        match cs with
        | h :: l :: r => if isHex h && isHex l then scan legal r else none
        | _ => none
      else some (c :: cs)

/-- `checkChars`: the text consists of legal characters and escapes. -/
def checkChars (legal : Char → Bool) (t : List Char) : Bool := scan legal t == some []

/-! ## Hosts -/

def natOfDigits (ds : List Char) : Nat := ds.foldl (fun n c => n * 10 + (c.toNat - 48)) 0

/-- `scanByte`: digits with a value of at most 255, and the rest. -/
def scanByte (t : List Char) : Option (List Char) :=
  let ds := t.takeWhile isDigit
  if ds = [] ∨ 255 < natOfDigits ds then none else some (t.dropWhile isDigit)

def scanDot : List Char → Option (List Char)
  | '.' :: r => some r
  | _ => none

/-- Four bytes separated by dots that make up the whole of `t`. -/
def isIPv4 (t : List Char) : Bool :=
  (do
    let t ← scanByte t
    let t ← scanDot t
    let t ← scanByte t
    let t ← scanDot t
    let t ← scanByte t
    let t ← scanDot t
    scanByte t) == some []

/-- `parseIPv4Address`: an address followed by nothing or by `:`; the digits and dots at the start
    have to be the address. -/
def parseIPv4Address (t : List Char) : Option (List Char × List Char) :=
  let address := t.takeWhile fun c => isDigit c || c == '.'
  let rest := t.dropWhile fun c => isDigit c || c == '.'
  if isIPv4 address && (rest == [] || rest.head? == some ':') then some (address, rest) else none

/-- `domainlabel = alphanum [ *( alphanum | "-" ) alphanum ]` at the start of a text: the label and
    the rest. The label is empty when there is none, `none` is the exception for a final `-`. -/
def scanLabel (t : List Char) : Option (List Char × List Char) :=
  if t.takeWhile isAlphanum = [] then some ([], t)
  else
    let label := t.takeWhile fun c => isAlphanum c || c == '-'
    if label.getLast? = some '-' then none
    else some (label, t.dropWhile fun c => isAlphanum c || c == '-')

/-- The label loop of `parseHostname`: the text taken, the first character of the last label and
    the rest. `fuel` bounds the number of labels. -/
def scanLabels : Nat → List Char → Option (List Char × Option Char × List Char)
  | 0, t => some ([], none, t)
  | fuel + 1, t =>
      match scanLabel t with
      | none => none
      | some ([], _) => some ([], none, t)
      | some (a :: label, '.' :: r) =>
          match scanLabels fuel r with
          | none => none
          | some (more, last, rest) =>
              some (a :: label ++ '.' :: more, last.or (some a), rest)
      | some (a :: label, r) => some (a :: label, some a, r)

/-- `parseHostname`: labels separated by dots, an optional final dot, then nothing or `:`. With two
    labels or more the last one starts with a letter. -/
def parseHostname (t : List Char) : Option (List Char × List Char) :=
  match scanLabels (t.length + 1) t with
  | some (name, some last, rest) =>
      let first := (name.takeWhile (· != '.')).length
      let several := (name.drop (first + 1)) != []
      if (rest == [] || rest.head? == some ':') && (!several || isAlpha last) then
        some (name, rest)
      else none
  | _ => none

/-! ## IPv6 references -/

/-- `scanHexSeq` behind its first group: the number of further bytes and the rest. Stops before
    `::` and before a group that begins an IPv4 address. -/
def scanHexGroups : Nat → List Char → Option (Nat × List Char)
  | 0, t => some (0, t)
  | fuel + 1, t =>
      match t with
      | ':' :: ':' :: _ => some (0, t)
      | ':' :: r =>
          let ds := r.takeWhile isHex
          let rest := r.dropWhile isHex
          if ds = [] then none
          else if rest.head? = some '.' then some (0, t)
          else if 4 < ds.length then none
          else (scanHexGroups fuel rest).map fun x => (x.1 + 2, x.2)
      | _ => some (0, t)

/-- `scanHexSeq`: `none` for an exception, `some none` where no sequence starts. -/
def scanHexSeq (t : List Char) : Option (Option (Nat × List Char)) :=
  let ds := t.takeWhile isHex
  let rest := t.dropWhile isHex
  if ds = [] ∨ rest.head? = some '.' then some none
  else if 4 < ds.length then none
  else (scanHexGroups t.length rest).map fun x => some (x.1 + 2, x.2)

/-- `scanHexPost`, after `::`: the bytes it adds; the text has to end there. -/
def scanHexPost (t : List Char) : Option Nat :=
  if t = [] then some 0
  else
    match scanHexSeq t with
    | none => none
    | some (some (n, [])) => some n
    | some (some (n, ':' :: r)) => if isIPv4 r then some (n + 4) else none
    | some (some _) => none
    | some none => if isIPv4 t then some 4 else none

/-- `parseIPv6Reference`: the text between the brackets is an IPv6 address. -/
def isIPv6 (t : List Char) : Bool :=
  match scanHexSeq t with
  | none => false
  | some (some (n, [])) => n == 16
  | some (some (n, ':' :: ':' :: r)) =>
      match scanHexPost r with
      | some m => decide (n + m < 16)
      | none => false
  | some (some (n, ':' :: r)) => isIPv4 r && n + 4 == 16
  | some (some _) => false
  | some none =>
      match t with
      | ':' :: ':' :: r =>
          match scanHexPost r with
          | some m => decide (m < 16)
          | none => false
      | _ => false

/-- The text between brackets: an IPv6 address, optionally with a scope id. -/
def isBracketed (t : List Char) : Bool :=
  match t.dropWhile (· != '%') with
  | [] => isIPv6 t
  | _ :: scope =>
      if t.head? = some '%' then isIPv6 t
      else isIPv6 (t.takeWhile (· != '%')) && scope != [] &&
        scope.all fun c => isAlphanum c || c == '_' || c == '.'

/-! ## Authorities -/

/-- `:port`, after the host. -/
def parsePort : List Char → Option Int
  | [] => some (-1)
  | ':' :: ds =>
      if ds = [] then some (-1)
      else if ds.all isDigit && decide (natOfDigits ds < 2 ^ 31) then some (natOfDigits ds)
      else none
  | _ => none

/-- Host and port behind the user info. -/
def parseHostPort (t : List Char) : Option (List Char × Int) :=
  match t with
  | '[' :: r =>
      let address := r.takeWhile (· != ']')
      match r.dropWhile (· != ']') with
      | [] => none
      | _ :: rest =>
          if address != [] && isBracketed address then
            (parsePort rest).map fun p => ('[' :: address ++ [']'], p)
          else none
  | _ =>
      match (parseIPv4Address t).or (parseHostname t) with
      | some (host, rest) => (parsePort rest).map fun p => (host, p)
      | none => none

/-- `parseServer`: the user info ends at the first `@`. -/
def parseServer (a : List Char) : Option (List Char × Int) :=
  match a.dropWhile (· != '@') with
  | [] => parseHostPort a
  | _ :: r => if checkChars isUserInfo (a.takeWhile (· != '@')) then parseHostPort r else none

/-- `parseAuthority`: server-based if it parses as such, else registry-based. -/
def parseAuthority (a : List Char) : Option (Option (List Char) × Int) :=
  -- `%` counts as a server character unless the authority starts with a bracket
  let server : Char → Bool := fun c => isServer c || (a.head? != some ']' && c == '%')
  match scan server a, scan isRegName a with
  | some sr, some rr =>
      if sr == [] then
        match parseServer a with
        | some (host, port) => some (some host, port)
        | none => if rr == [] then some (none, -1) else none
      else if rr == [] then some (none, -1) else none
  | _, _ => none

/-! ## URIs -/

/-- What the model keeps of a parsed URI. -/
structure Uri where
  host : Option (List Char)
  port : Int
  deriving DecidableEq, Repr

/-- Path, query and fragment after the authority hold legal characters only. -/
def checkTail (t : List Char) : Bool :=
  let path := t.takeWhile fun c => c != '?' && c != '#'
  let rest := t.dropWhile fun c => c != '?' && c != '#'
  checkChars isPath path &&
    match rest with
    | '?' :: r =>
        checkChars isUric (r.takeWhile (· != '#')) && checkChars isUric
          (r.dropWhile (· != '#')).tail
    | _ :: r => checkChars isUric r
    | [] => true

/-- `parseHierarchical` and the fragment after it. -/
def parseHierarchical (t : List Char) : Option Uri :=
  match t with
  | '/' :: '/' :: r =>
      let authority := r.takeWhile fun c => c != '/' && c != '?' && c != '#'
      let rest := r.dropWhile fun c => c != '/' && c != '?' && c != '#'
      if authority = [] then
        if rest ≠ [] ∧ checkTail rest then some ⟨none, -1⟩ else none
      else
        match parseAuthority authority with
        | some (host, port) => if checkTail rest then some ⟨host, port⟩ else none
        | none => none
  | _ => if checkTail t then some ⟨none, -1⟩ else none

/-- The constructor; `none` for a `URISyntaxException`. -/
def parse (t : List Char) : Option Uri :=
  let scheme := t.takeWhile fun c => c != ':' && c != '/' && c != '?' && c != '#'
  match t.dropWhile fun c => c != ':' && c != '/' && c != '?' && c != '#' with
  | ':' :: r =>
      if (scheme.head?.map isAlpha).getD false && scheme.all isScheme then
        match r with
        | '/' :: _ => parseHierarchical r
        | _ =>
            let specificPart := r.takeWhile (· != '#')
            if specificPart ≠ [] ∧ checkChars isUric specificPart ∧
                checkChars isUric (r.dropWhile (· != '#')).tail then some ⟨none, -1⟩
            else none
      else none
  | _ => parseHierarchical t

end CypherConnect.JavaUri
