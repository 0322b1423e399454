import Mathlib.Data.Int.Notation
import Mathlib.Data.Nat.Notation

/-!
# Paths and messages

The data of `PathManager` (protocol version 8): endpoints and leases, open paths, and the messages that it
exchanges with the helper process.  A result or an event is either what a well-formed message says or
malformed: the checks that read nothing but the message are not modelled, those that compare it with the
state or with its request are.  Path identities are numbers; their texts are canonical.
-/

namespace Qbutt.Paths

def maxControlId : ℕ := 9007199254740991

/-! ### Endpoints -/

inductive RoutePolicy where
  | pinned
  | mixed
  | tunnelsOnly
  deriving DecidableEq, Repr

/-- `PeerRouteEndpoint::Type`. -/
inductive EndpointType where
  | blocked
  | socks5
  | native
  deriving DecidableEq, Repr

structure PeerRouteEndpoint where
  type : EndpointType := .blocked
  pathId : ℕ := 0
  generation : ℕ := 0
  port : ℕ := 0
  username : String := ""
  password : String := ""
  localAddress : String := ""
  publicAddress : String := ""
  publicPort : ℕ := 0
  interfaceIndex : ℕ := 0
  supportsIPv4 : Bool := true
  supportsIPv6 : Bool := true
  supportsUdp : Bool := false
  publicTcp : Bool := false
  publicUdp : Bool := false
  deriving DecidableEq, Repr

structure TrustedInboundRoute where
  pathId : ℕ
  generation : ℕ
  publicAddress : String
  publicPort : ℕ
  relayAddress : String
  relayPort : ℕ
  deriving DecidableEq, Repr

/-- `ProxyConfiguration` of an authenticated SOCKS5 endpoint on the loopback address. -/
structure ProxyConfiguration where
  port : ℕ
  username : String
  password : String
  deriving DecidableEq, Repr

def blockedRuntimeProxy : ProxyConfiguration := { port := 0, username := "", password := "" }

structure NumericEndpoint where
  address : String
  isIPv4 : Bool
  isGlobal : Bool
  port : ℕ
  text : String
  deriving DecidableEq, Repr

/-! ### Paths -/

structure DnsPolicy where
  server : String
  bootstrapServer : String
  family : String
  deriving DecidableEq, Repr

structure PublicLease where
  route : TrustedInboundRoute
  publicEndpoint : String
  family : String
  tcp : Bool
  udp : Bool
  expiresUnixMilli : ℤ
  deriving DecidableEq, Repr

structure Transport where
  state : String
  recommended : String
  deriving DecidableEq, Repr

structure ActivePath where
  endpoint : PeerRouteEndpoint
  configurationPath : String
  edgeId : String
  configuredServerId : String
  proxyName : String
  reserveNames : List String
  reserveServerIds : List (String × String)
  transport : Option Transport
  interfaceName : String
  dnsPolicy : DnsPolicy
  wire : Option (List ℕ)
  publicLease : Option PublicLease
  deriving DecidableEq, Repr

def ActivePath.isOpen (path : ActivePath) : Bool := 0 < path.endpoint.port

structure PathRollover where
  pathId : ℕ
  configurationPath : String
  proxyName : String
  reserveNames : List String
  reserveServerIds : List (String × String)
  interfaceName : String
  configuredServerId : String
  dnsPolicy : DnsPolicy
  deriving DecidableEq, Repr

/-! ### Requests -/

/-- What `openPath` retains of its arguments while the list is requested. -/
structure Opening where
  proxyName : String
  interfaceName : String
  reserveNames : List String
  deriving DecidableEq, Repr

/-- The members of `open` and `transport.replace`; `generation` is the one of the new path. -/
structure OpenRequest where
  configPath : String
  proxyName : String
  pathId : ℕ
  generation : ℕ
  interfaceName : String
  configuredServerId : String
  dns : DnsPolicy
  reserveNames : List String
  reserveServerIds : List (String × String)
  deriving DecidableEq, Repr

/-- What is saved of a public gateway. -/
structure GatewayConfiguration where
  controlAddress : String
  datagramAddress : String
  serverName : String
  caPath : String
  certificatePath : String
  privateKeyPath : String
  port : ℕ
  tcp : Bool
  udp : Bool
  deriving DecidableEq, Repr

/-- The requests, by their methods; `expectedPaths` is not sent, and `opening` neither. -/
inductive Request where
  | hello
  | list (configPath : String) (opening : Option Opening)
  | openPath (request : OpenRequest)
  | transportReplace (request : OpenRequest) (generation : ℕ)
  | gatewayOpen (pathId generation : ℕ) (gateway : GatewayConfiguration)
  | gatewayRenew (pathId generation : ℕ)
  | gatewayClose (pathId generation : ℕ)
  | status (expectedPaths : List (ℕ × ℕ))
  | resolve (pathId generation : ℕ) (host family : String)
  | resolveNative (pathId generation : ℕ) (host family : String) (dns : DnsPolicy)
  | closePath (pathId generation : ℕ)
  deriving DecidableEq, Repr

/-- The request with its identifier. -/
structure PendingRequest where
  id : ℕ
  request : Request
  deriving DecidableEq, Repr

/-! ### Answers -/

/-- An entry of a list of nodes. -/
structure Proxy where
  name : String
  type : String
  configuredServerId : String
  serverHost : String
  deriving DecidableEq, Repr

/-- The result of `open` and `transport.replace`. -/
structure EndpointResult where
  port : ℕ
  socksUsername : String
  socksPassword : String
  pathId : ℕ
  generation : ℕ
  interfaceName : String
  configuredServerId : String
  sourceUdp : Bool
  deriving DecidableEq, Repr

/-- The result of `gateway.open` and `gateway.renew`. -/
structure LeaseResult where
  pathId : ℕ
  generation : ℕ
  publicEndpoint : NumericEndpoint
  tcp : Bool
  udp : Bool
  expiresUnixMilli : ℤ
  relay : NumericEndpoint
  deriving DecidableEq, Repr

structure StatusEntry where
  pathId : ℕ
  generation : ℕ
  wire : List ℕ
  transport : Transport
  deriving DecidableEq, Repr

/-- An address of a DNS answer. -/
structure ResolvedAddress where
  text : String
  isIPv4 : Bool
  deriving DecidableEq, Repr

/-- A result, by the method that it is well formed for. -/
inductive Result where
  | hello
  | list (proxies : List Proxy)
  | endpoint (result : EndpointResult)
  | lease (result : LeaseResult)
  | status (entries : List StatusEntry)
  | addresses (values : List ResolvedAddress)
  | nativeAddresses (pathId generation : ℕ) (values : List ResolvedAddress)
  | empty
  | malformed
  deriving DecidableEq, Repr

/-- What a response carries; an error is exact if it has no members besides its code. -/
inductive Response where
  | error (code : String) (exactError : Bool)
  | result (result : Result)
  | malformed
  deriving DecidableEq, Repr

/-- The events; a malformed one names itself `gatewayClosed` or not. -/
inductive Event where
  | gatewayClosed (pathId generation : ℕ)
  | incomingTcp (pathId generation : ℕ) (remote : NumericEndpoint) (publicEndpoint : String)
      (relayPort : ℕ)
  | malformed (terminal : Bool)
  deriving DecidableEq, Repr

/-- A control frame: an event or a response, of the protocol version of this program or not. -/
inductive Frame where
  | event (version : Bool) (event : Event)
  | response (version : Bool) (id : ℕ) (response : Response)
  | malformed
  deriving DecidableEq, Repr

end Qbutt.Paths
