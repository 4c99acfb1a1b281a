import Semprec.Lib.IpAddress

/-!
# The outbound address policy

What a request to a URL of a user may connect to.  A host that is an IP literal is judged before the
request, a name when it is resolved: all of its addresses are vetted, and the socket connects to
those only.
-/

namespace Semprec

namespace OutboundAddressPolicy

open IpAddress

/-! ## Public addresses -/

inductive Family where
  | ipv4
  | ipv6
deriving DecidableEq

def DENIED_IPV4_SUBNETS : List (String × ℕ) :=
  [("0.0.0.0", 8), ("10.0.0.0", 8), ("100.64.0.0", 10), ("127.0.0.0", 8), ("169.254.0.0", 16),
    ("172.16.0.0", 12), ("192.0.0.0", 24), ("192.0.2.0", 24), ("192.168.0.0", 16),
    ("198.18.0.0", 15), ("198.51.100.0", 24), ("203.0.113.0", 24), ("224.0.0.0", 4),
    ("240.0.0.0", 4)]

def DENIED_IPV6_SUBNETS : List (String × ℕ) :=
  [("::", 128), ("::1", 128), ("fc00::", 7), ("fe80::", 10), ("ff00::", 8), ("2001:db8::", 32),
    ("100::", 64)]

def Family.width : Family → ℕ
  | .ipv4 => 32
  | .ipv6 => 128

def addressNumber : Family → List Char → Option ℕ
  | .ipv4, text => ipv4Value text
  | .ipv6, text => (parseIpv6 text).map ipv6Value

/-- A rule of a `net.BlockList`. -/
structure Subnet where
  family : Family
  network : ℕ
  prefixLength : ℕ

def Subnet.contains (subnet : Subnet) (family : Family) (n : ℕ) : Bool :=
  let size := 2 ^ (family.width - subnet.prefixLength)
  subnet.family = family && n / size = subnet.network / size

def addSubnets (subnets : List (String × ℕ)) (family : Family) : List Subnet :=
  subnets.filterMap fun (network, prefixLength) =>
    (addressNumber family network.toList).map fun n => ⟨family, n, prefixLength⟩

/-- The number of an address in either family: an IPv4 address is also the IPv6 address it is mapped
to, and the other way round. -/
def forms : Family → ℕ → List (Family × ℕ)
  | .ipv4, n => [(.ipv4, n), (.ipv6, 0xffff * 2 ^ 32 + n)]
  | .ipv6, n => (.ipv6, n) :: if n / 2 ^ 32 = 0xffff then [(.ipv4, n % 2 ^ 32)] else []

/-- `blockList.check`. -/
def check (rules : List Subnet) (address : List Char) (family : Family) : Bool :=
  (addressNumber family address).any fun n =>
    (forms family n).any fun (family, n) => rules.any fun rule => rule.contains family n

def deniedAddresses : List Subnet :=
  addSubnets DENIED_IPV4_SUBNETS .ipv4 ++ addSubnets DENIED_IPV6_SUBNETS .ipv6

def loopbackAddresses : List Subnet :=
  addSubnets [("127.0.0.0", 8)] .ipv4 ++ addSubnets [("::1", 128)] .ipv6

/-- What an address is without its zone: `address.split("%")[0]`. -/
def bareAddress (address : List Char) : List Char := address.takeWhile (· ≠ '%')

def isZoneChar (c : Char) : Bool := c.isAlphanum || c = '-' || c = '.' || c = ':'

/-- `net.isIP`. -/
def isIP (text : List Char) : ℕ :=
  if (ipv4Value text).isSome then 4
  else if (parseIpv6 (bareAddress text)).isSome then
    match text.dropWhile (· ≠ '%') with
    | [] => 6
    | _ :: zone => if zone ≠ [] ∧ zone.all isZoneChar then 6 else 0
  else 0

/-- `parseInt(group, 16)`, of a group that has digits. -/
def parseInt16 (group : List Char) : ℕ :=
  (hexValue 0 (group.takeWhile fun c => (hexDigit c).isSome)).getD 0

/-- `new URL(…).hostname` without the brackets; a URL takes what `isIP` takes. -/
def canonicalHostname (address : List Char) : List Char :=
  ((parseIpv6 address).map serializeIpv6).getD []

def ipv6Groups (address : List Char) : List ℕ :=
  match splitDouble (canonicalHostname address) with
  | (head, none) => (pieces head).map parseInt16
  | (head, some rest) =>
    let headGroups := pieces head
    let tailGroups := pieces (splitDouble rest).1
    let zeros := List.replicate (8 - headGroups.length - tailGroups.length) ['0']
    (headGroups ++ zeros ++ tailGroups).map parseInt16

/-- `numbers.join(separator)`. -/
def joinNumbers (separator : Char) (numbers : List ℕ) : List Char :=
  [separator].intercalate (numbers.map (Nat.toDigits 10))

def embeddedIpv4 (address : List Char) : Option (List Char) :=
  let groups := ipv6Groups address
  let prefix_ := joinNumbers ':' (groups.take 6)
  if prefix_ ≠ "0:0:0:0:0:65535".toList ∧ prefix_ ≠ "100:65435:0:0:0:0".toList then none
  else
    let high := groups.getD 6 0
    let low := groups.getD 7 0
    some (joinNumbers '.' [high >>> 8, high &&& 0xff, low >>> 8, low &&& 0xff])

def classify (address : String) : Option (List Char × Family) :=
  let bare := bareAddress address.toList
  match isIP bare with
  | 4 => some (bare, .ipv4)
  | 6 =>
    match embeddedIpv4 bare with
    | none => some (bare, .ipv6)
    | some embedded => some (embedded, .ipv4)
  | _ => none

def isPublicAddress (address : String) : Bool :=
  (classify address).any fun (address, family) => !check deniedAddresses address family

def isLoopbackAddress (address : String) : Bool :=
  (classify address).any fun (address, family) => check loopbackAddresses address family

/-! ## Policies -/

structure Policy where
  isTestPolicy : Bool
  protocols : List String
  allowsResolvedAddress : String → Bool
  allowsIpLiteral : String → Bool

def PUBLIC_ONLY_POLICY : Policy where
  isTestPolicy := false
  protocols := ["https:"]
  allowsResolvedAddress := isPublicAddress
  allowsIpLiteral _ := false

def LOOPBACK_FOR_TESTS_POLICY : Policy where
  isTestPolicy := true
  protocols := ["https:", "http:"]
  allowsResolvedAddress address := isPublicAddress address || isLoopbackAddress address
  allowsIpLiteral address := isPublicAddress address || isLoopbackAddress address

structure LookupAddress where
  address : String
  family : ℕ

inductive OutboundError where
  | notAllowed (host : String)
  | lookup (message : String)
  | redirect

/-- What `dns.lookup` with `all` calls back with, for each host. -/
abbrev Dns := String → Except String (List LookupAddress)

def createPolicyLookup (policy : Policy) (dns : Dns) (all : Bool) (hostname : String) :
    Except OutboundError (List LookupAddress) :=
  match dns hostname with
  | .error message => .error (.lookup message)
  | .ok [] => .error (.notAllowed hostname)
  | .ok (first :: addresses) =>
    if (first :: addresses).all fun entry => policy.allowsResolvedAddress entry.address then
      .ok (if all then first :: addresses else [first])
    else .error (.notAllowed hostname)

def socketTargets (lookup : String → Except OutboundError (List LookupAddress)) (host : String) :
    Except OutboundError (List String) :=
  if isIP host.toList ≠ 0 then .ok [host]
  else (lookup host).map fun addresses => addresses.map (·.address)

/-! ## Requests -/

structure Url where
  protocol : String
  hostname : String

def stripBrackets (hostname : String) : String :=
  let text := hostname.toList
  if text.head? = some '[' ∧ text.getLast? = some ']' then
    String.ofList (text.tail.dropLast)
  else hostname

def assertRequestTargetAllowed (url : Url) (policy : Policy) : Except OutboundError Unit :=
  let host := stripBrackets url.hostname
  if url.protocol ∉ policy.protocols then .error (.notAllowed host)
  else if isIP host.toList ≠ 0 ∧ policy.allowsIpLiteral host = false then .error (.notAllowed host)
  else .ok ()

inductive RedirectMode where
  | error
  | follow

/-- `fetch` of `undici` over a dispatcher whose sockets resolve with the lookup: the addresses that a
request connects to, and how it ends.  The server answers with the redirects, one after the other. -/
abbrev UndiciFetch := RedirectMode → (String → Except OutboundError (List LookupAddress)) →
  Url → List Url → List String × Except OutboundError Unit

structure Undici (undiciFetch : UndiciFetch) : Prop where
  /-- A request connects where a socket to the host of its URL may, its brackets taken off. -/
  connects : ∀ redirect lookup url, ∀ address ∈ (undiciFetch redirect lookup url []).1,
    ∃ targets, socketTargets lookup (stripBrackets url.hostname) = .ok targets ∧ address ∈ targets
  /-- With `redirect: "error"` it connects nowhere else if the server redirects it. -/
  redirected : ∀ lookup url redirects,
    (undiciFetch .error lookup url redirects).1 = (undiciFetch .error lookup url []).1
  /-- It fails with the error of a socket that cannot connect. -/
  failed : ∀ redirect lookup url redirects e,
    socketTargets lookup (stripBrackets url.hostname) = .error e →
    undiciFetch redirect lookup url redirects = ([], .error e)

variable (undiciFetch : UndiciFetch)

/-- `createOutboundHttp(policy).fetch`. -/
def fetch (policy : Policy) (dns : Dns) (all : Bool) (url : Url) (redirects : List Url) :
    List String × Except OutboundError Unit :=
  match assertRequestTargetAllowed url policy with
  | .error e => ([], .error e)
  | .ok () => undiciFetch .error (createPolicyLookup policy dns all) url redirects

structure RequestOptions where
  host : Option String
  hostname : Option String

def socketHost (options : RequestOptions) : String :=
  if options.host.getD "" = "" then "localhost" else options.host.getD ""

/-- `createOutboundHttp(policy).httpsAgent.createConnection`: what its socket may connect to. -/
def createConnection (policy : Policy) (dns : Dns) (all : Bool) (options : RequestOptions) :
    Except OutboundError (List String) :=
  let host := stripBrackets (options.host.getD (options.hostname.getD ""))
  if isIP host.toList ≠ 0 ∧ policy.allowsIpLiteral host = false then .error (.notAllowed host)
  else socketTargets (createPolicyLookup policy dns all) (socketHost options)

/-! ## What the policy is for -/

def addressOf (text : String) : Option (Family × ℕ) :=
  let bare := bareAddress text.toList
  match ipv4Value bare with
  | some n => some (.ipv4, n)
  | none => (parseIpv6 bare).map fun groups => (.ipv6, ipv6Value groups)

def InRange (subnets : List (String × ℕ)) (family : Family) (n : ℕ) : Prop :=
  ∃ subnet ∈ subnets, ∃ base, addressNumber family subnet.1.toList = some base ∧
    base ≤ n ∧ n < base + 2 ^ (family.width - subnet.2)

/-- The IPv4 address in an IPv4-mapped (`::ffff:0:0/96`) or NAT64 (`64:ff9b::/96`) address. -/
def embedded (n : ℕ) : Option ℕ :=
  if n / 2 ^ 32 = 0xffff ∨ n / 2 ^ 32 = 0x64ff9b * 2 ^ 64 then some (n % 2 ^ 32) else none

def Denied : Family × ℕ → Prop
  | (.ipv4, n) => InRange DENIED_IPV4_SUBNETS .ipv4 n
  | (.ipv6, n) => InRange DENIED_IPV6_SUBNETS .ipv6 n ∨
      ∃ v, embedded n = some v ∧ InRange DENIED_IPV4_SUBNETS .ipv4 v

def Allows (policy : Policy) (dns : Dns) (host address : String) : Prop :=
  if isIP host.toList ≠ 0 then address = host ∧ policy.allowsIpLiteral host = true
  else policy.allowsResolvedAddress address = true ∧
    ∃ addresses, dns host = .ok addresses ∧ address ∈ addresses.map (·.address)

def Refused (policy : Policy) (dns : Dns) (host : String) : Prop :=
  isIP host.toList = 0 ∧ ∃ addresses, dns host = .ok addresses ∧
    ∃ entry ∈ addresses, policy.allowsResolvedAddress entry.address = false

/-- What a client connects to is what the policy allows, and nothing if an address of the host is
denied. -/
structure Airtight (policy : Policy) (dns : Dns) (all : Bool) : Prop where
  fetched : ∀ url redirects, ∀ address ∈ (fetch undiciFetch policy dns all url redirects).1,
    url.protocol ∈ policy.protocols ∧ Allows policy dns (stripBrackets url.hostname) address
  fetchRefused : ∀ url redirects, Refused policy dns (stripBrackets url.hostname) →
    fetch undiciFetch policy dns all url redirects =
      ([], .error (.notAllowed (stripBrackets url.hostname)))
  connected : ∀ options targets, createConnection policy dns all options = .ok targets →
    ∀ address ∈ targets, Allows policy dns (socketHost options) address
  connectRefused : ∀ options, Refused policy dns (socketHost options) →
    ∃ host, createConnection policy dns all options = .error (.notAllowed host)

end OutboundAddressPolicy

end Semprec
