import AwsOps.Foundation.Literals
import AwsOps.Foundation.Tokens

/-!
# The registration guard

`ssrf-guard.ts`: what is checked of the host of an endpoint when it is registered. The URL parser is a
parameter, of which the guard reads the parts of a URL. The regular expressions are read as what
they match of a text.
-/

namespace AwsOps.Egress

open Text IpAddress
open Tokens (backslash)

/-! ## IPv4 -/

def ipv4Blocked (a b : Nat) : Bool :=
  a == 10 || (a == 172 && 16 ≤ b && b ≤ 31) || (a == 192 && b == 168) || (a == 169 && b == 254) ||
    a == 127 || a == 0

/-- `\d{1,3}`, as a whole text. -/
def isOctetText (s : List Char) : Bool :=
  1 ≤ s.length && s.length ≤ 3 && s.all Char.isDigit

/-- `\d{1,3}\.\d{1,3}\.\d{1,3}\.\d{1,3}`, as a whole text. -/
def isDottedQuad (s : List Char) : Bool :=
  (split ['.'] s).length == 4 && (split ['.'] s).all isOctetText

def parseIpv4 (host : List Char) : Option (List Nat) :=
  if isDottedQuad host then
    let o := (split ['.'] host).map fun s => ofDigits 10 (s.map fun c => c.toNat - 48)
    if o.any (255 < ·) then none else some o
  else none

/-! ## IPv6 -/

/-- `[0-9a-f]`, without regard to case. -/
def isHexDigit (c : Char) : Bool :=
  c.isDigit || ('a' ≤ c && c ≤ 'f') || ('A' ≤ c && c ≤ 'F')

/-- `([0-9a-f]{1,4})` before a character that is no such digit: the digits, and the rest. -/
def hexGroup (text : List Char) : Option (List Char × List Char) :=
  let run := text.takeWhile isHexDigit
  if 1 ≤ run.length && run.length ≤ 4 then some (run, text.drop run.length) else none

/-- `parseInt(digits, 16)`. -/
def parseHex (digits : List Char) : Nat :=
  ofDigits 16 (digits.map fun c => (hexDigit c).getD 0)

def sixToFour (host : List Char) : Option (List Char) := do
  let rest ← if "2002:".toList.isPrefixOf host then some (host.drop 5) else none
  let (m1, rest) ← hexGroup rest
  let (m2, rest) ← if rest.head? = some ':' then hexGroup rest.tail else none
  if rest.head?.all (· == ':') then
    let h1 := parseHex m1
    let h2 := parseHex m2
    some (joined '.' ([h1 / 256 % 256, h1 % 256, h2 / 256 % 256, h2 % 256].map
      decimalText))
  else none

/-- `/::ffff:(\d{1,3}\.\d{1,3}\.\d{1,3}\.\d{1,3})$/i`: the address in decimal. -/
def mappedQuad : List Char → Option (List Char)
  | [] => none
  | c :: rest =>
    if ((c :: rest).take 7).map Char.toLower == "::ffff:".toList &&
        isDottedQuad ((c :: rest).drop 7) then some ((c :: rest).drop 7)
    else mappedQuad rest

/-- `/^fe[89ab][0-9a-f]*:/`, in lower case. -/
def isLinkLocalText : List Char → Bool
  | 'f' :: 'e' :: x :: rest =>
    ['8', '9', 'a', 'b'].contains x &&
      (rest.dropWhile isHexChar).head? == some ':'
  | _ => false

/-- `/^ff[0-9a-f]{2}:/`, in lower case. -/
def isMulticastText : List Char → Bool
  | 'f' :: 'f' :: x :: y :: ':' :: _ => isHexChar x && isHexChar y
  | _ => false

/-- `/^f[cd][0-9a-f]*:/`, in lower case, or `fc` or `fd` at the start. -/
def isUniqueLocalText : List Char → Bool
  | 'f' :: 'c' :: _ => true
  | 'f' :: 'd' :: _ => true
  | _ => false

/-! ## Hosts -/

def loopbackHostnameAliases : List String :=
  ["localhost.localdomain", "ip6-localhost", "ip6-loopback", "localhost4",
    "localhost4.localdomain4", "localhost6", "localhost6.localdomain6"]

def isLoopbackHostname (host : List Char) : Bool :=
  let h := (host.reverse.dropWhile (· == '.')).reverse
  h == "localhost".toList || ".localhost".toList.isSuffixOf h ||
    (loopbackHostnameAliases.map String.toList).contains h

variable (U : Unicode)

/-- `hostOrIp.trim().replace(/^\[/, '').replace(/\]$/, '').toLowerCase()`. -/
def hostOf (hostOrIp : List Char) : List Char :=
  let h := stripBy isTrimmed hostOrIp
  let h := if h.head? = some '[' then h.tail else h
  let h := if h.getLast? = some ']' then h.dropLast else h
  U.lower h

/-- The body of `isBlockedHost`, given the function that it calls for an embedded address. -/
def isBlockedHostWith (again : List Char → Bool) (hostOrIp : List Char) : Bool :=
  let host := hostOf U hostOrIp
  if isLoopbackHostname host then true
  else match parseIpv4 host with
    | some v4 => ipv4Blocked (v4.getD 0 0) (v4.getD 1 0)
    | none =>
      if host.contains ':' then
        if host == "::1".toList || host == "0:0:0:0:0:0:0:1".toList then true
        else if isUniqueLocalText host then true
        else if isLinkLocalText host then true
        else match mappedQuad host with
          | some mapped => again mapped
          | none => match sixToFour host with
            | some s2 => again s2
            | none => false
      else false

/-- `isBlockedHost`. An embedded address has no colon, so that it is not unwrapped again. -/
def isBlockedHost : List Char → Bool :=
  isBlockedHostWith U (isBlockedHostWith U fun _ => false)

/-- The body of `isAlwaysBlockedHost`, given the function that it calls for an embedded address. -/
def isAlwaysBlockedHostWith (again : List Char → Bool) (hostOrIp : List Char) : Bool :=
  let host := hostOf U hostOrIp
  if isLoopbackHostname host then true
  else match parseIpv4 host with
    | some v4 =>
      let a := v4.getD 0 0
      let b := v4.getD 1 0
      a == 127 || (a == 169 && b == 254) || (224 ≤ a && a ≤ 239) || a == 0 ||
        v4 == [255, 255, 255, 255]
    | none =>
      if host.contains ':' then
        if host == "::1".toList || host == "0:0:0:0:0:0:0:1".toList || host == "::".toList then true
        else if host == "fd00:ec2::254".toList then true
        else if isLinkLocalText host then true
        else if isMulticastText host then true
        else match mappedQuad host with
          | some mapped => again mapped
          | none => match sixToFour host with
            | some s2 => again s2
            | none => false
      else false

/-- `isAlwaysBlockedHost`. An embedded address has no colon, so that it is not unwrapped again. -/
def isAlwaysBlockedHost : List Char → Bool :=
  isAlwaysBlockedHostWith U (isAlwaysBlockedHostWith U fun _ => false)

/-! ## Endpoints -/

/-- The parts of a URL that the guard reads. -/
structure Url where
  protocol : List Char
  username : List Char
  password : List Char
  hostname : List Char
  search : List Char
  hash : List Char

variable (parse : List Char → Option Url)

def assertEgressEndpointAllowed (allowPrivate : Bool) (urlString : List Char) :
    Except String Unit :=
  if backslash ∈ urlString then throw "endpoint must not contain a backslash"
  else match parse urlString with
    | none => throw "endpoint must be a valid URL"
    | some url =>
      if url.protocol ≠ "https:".toList then throw "endpoint must use https"
      else if isAlwaysBlockedHost U url.hostname = true then
        throw ("endpoint host " ++ String.ofList url.hostname ++
          " is a loopback/metadata/link-local address (always blocked)")
      else if isBlockedHost U url.hostname = true ∧ allowPrivate = false then
        throw ("endpoint host " ++ String.ofList url.hostname ++ " is a private address; " ++
          "enable allowPrivateDatasource for this account to permit it")
      else return ()

/-- The URL carries credentials, a query or a fragment. -/
def Url.hasExtras (url : Url) : Prop :=
  url.username ≠ [] ∨ url.password ≠ [] ∨ url.search ≠ [] ∨ url.hash ≠ []

instance (url : Url) : Decidable url.hasExtras :=
  inferInstanceAs (Decidable (_ ∨ _ ∨ _ ∨ _))

def assertDatasourceEndpointAllowed (urlString : List Char) : Except String Unit :=
  if backslash ∈ urlString then throw "endpoint must not contain a backslash"
  else match parse urlString with
    | none => throw "endpoint must be a valid URL"
    | some url =>
      if url.hasExtras then
        throw "use the API base URL without embedded credentials, query parameters or fragments"
      else if url.protocol ≠ "http:".toList ∧ url.protocol ≠ "https:".toList then
        throw ("endpoint scheme " ++ String.ofList url.protocol ++
          " not allowed (http/https only)")
      else if isAlwaysBlockedHost U url.hostname = true then
        throw ("endpoint host " ++ String.ofList url.hostname ++
          " is a metadata/loopback/link-local address (blocked)")
      else return ()

end AwsOps.Egress
