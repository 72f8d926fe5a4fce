import Mathlib.Algebra.Group.Nat.Defs
import PackageRegistry.Lib.Text

/-! # Rate limit identities

`client_ip` and `rate_limit_key` of the rate limiter behind the nginx configuration of the
deployment. nginx appends the address of its peer to the `X-Forwarded-For` header that
the client sent, and the backend reads the header from the left.
-/

namespace PackageRegistry.Auth

/-- What the code uses of the module `ipaddress`; `none` is a `ValueError`. -/
structure Ipaddress where
  Address : Type
  ip_address : Text → Option Address
  str : Address → Text
  /-- `ip_network(value, strict=False)`, as the addresses in it -/
  ip_network : Text → Option (Address → Bool)
  /-- An address is read back from its text. -/
  ip_address_str : ∀ a, ip_address (str a) = some a

/-- `Settings.trusted_proxy_list` -/
def trusted_proxy_list (trusted_proxies : Text) : List Text :=
  ((Text.splitOn (.ofChar ',') trusted_proxies).map Text.strip).filter fun value => !value.isEmpty

/-- What `client_ip` reads of a request: the address of the direct peer, and the header -/
structure Request where
  client_host : Option Text
  x_forwarded_for : Option Text

section

variable (ip : Ipaddress) (trusted_proxies : Text)

def client_ip (request : Request) : Text :=
  let peer := request.client_host.getD (text "unknown")
  match ip.ip_address peer with
  | none => peer
  | some peer_address =>
      let trusted := (trusted_proxy_list trusted_proxies).filterMap ip.ip_network
      if trusted.any (fun network => network peer_address) then
        let candidate :=
          Text.strip (Text.partition (.ofChar ',') (request.x_forwarded_for.getD [])).1
        match ip.ip_address candidate with
        | some address => ip.str address
        | none => peer
      else peer

/-- `lower` is `str.lower`, and `sha256` the hexadecimal digest of a text. -/
def rate_limit_key (lower sha256 : Text → Text) (request : Request) (scope : Text)
    (discriminator : Option Text) : Text :=
  let identity := client_ip ip trusted_proxies request
  let identity :=
    match discriminator with
    | some d => if d.isEmpty then identity else identity ++ text ":" ++ lower (Text.strip d)
    | none => identity
  scope ++ text ":" ++ sha256 identity

end

/-! ## Behind nginx -/

/-- `$proxy_add_x_forwarded_for` -/
def proxy_add_x_forwarded_for (sent : Option Text) (remote_addr : Text) : Text :=
  match sent with
  | some value => value ++ text ", " ++ remote_addr
  | none => remote_addr

/-- The request that nginx makes for a client -/
def proxied (proxy remote_addr : Text) (sent : Option Text) : Request where
  client_host := some proxy
  x_forwarded_for := some (proxy_add_x_forwarded_for sent remote_addr)

/-- The backend trusts nginx. -/
def Trusted (ip : Ipaddress) (trusted_proxies proxy : Text) : Prop :=
  ∃ address, ip.ip_address proxy = some address ∧
    ((trusted_proxy_list trusted_proxies).filterMap ip.ip_network).any
      (fun network => network address) = true

/-- The address that the first element of the header names; without a header nginx puts the
    client's own address there. -/
def leading (ip : Ipaddress) (remote_addr : Text) (sent : Option Text) : Option ip.Address :=
  ip.ip_address (Text.strip (Text.partition (.ofChar ',') (sent.getD remote_addr)).1)

/-- Two header values lead to one identity: their first elements name the same address or both
    name none, or one names the proxy itself and the other none. -/
def SameLeading (ip : Ipaddress) (proxy remote_addr : Text) (sent sent' : Option Text) : Prop :=
  match leading ip remote_addr sent, leading ip remote_addr sent' with
  | some a, some b => a = b
  | some a, none => ip.str a = proxy
  | none, some b => proxy = ip.str b
  | none, none => True

variable {ip : Ipaddress} {trusted_proxies proxy remote_addr : Text}

/-- What nginx appends is behind the first comma. -/
theorem first_element (sent : Option Text) (remote_addr : Text) :
    (Text.partition (.ofChar ',') (proxy_add_x_forwarded_for sent remote_addr)).1 =
      (Text.partition (.ofChar ',') (sent.getD remote_addr)).1 := by
  cases sent with
  | none => rfl
  | some value =>
      have appended : proxy_add_x_forwarded_for (some value) remote_addr =
          value ++ .ofChar ',' :: (text " " ++ remote_addr) := by
        simp [proxy_add_x_forwarded_for, text]
      rw [appended, Text.partition_front]
      rfl

/-- Behind a trusted nginx the first element of the header is the identity. -/
theorem client_ip_proxied (trusted : Trusted ip trusted_proxies proxy) (sent : Option Text) :
    client_ip ip trusted_proxies (proxied proxy remote_addr sent) =
      ((leading ip remote_addr sent).map ip.str).getD proxy := by
  obtain ⟨address, read, inNetwork⟩ := trusted
  simp only [client_ip, proxied, Option.getD_some, read, inNetwork, if_true, first_element]
  rw [leading]
  cases ip.ip_address (Text.strip (Text.partition (.ofChar ',') (sent.getD remote_addr)).1) <;> rfl

theorem str_injective : Function.Injective ip.str := by
  intro a b same
  have read := ip.ip_address_str a
  rw [same, ip.ip_address_str] at read
  exact (Option.some.inj read).symm

def octet (t : Text) : Option (Fin 256) :=
  if !t.isEmpty && t.all CodePoint.isDigit && t.length ≤ 3 &&
      (t.head? != some (.ofChar '0') || t.length == 1) then
    if h : Text.toNat t < 256 then some ⟨Text.toNat t, h⟩ else none
  else none

structure IPv4Address where
  a : Fin 256
  b : Fin 256
  c : Fin 256
  d : Fin 256
  deriving DecidableEq

namespace IPv4Address

def read (t : Text) : Option IPv4Address :=
  match Text.splitOn (.ofChar '.') t with
  | [a, b, c, d] => do some ⟨← octet a, ← octet b, ← octet c, ← octet d⟩
  | _ => none

def show_ (address : IPv4Address) : Text :=
  List.intercalate [.ofChar '.']
    [Text.ofNat address.a, Text.ofNat address.b, Text.ofNat address.c, Text.ofNat address.d]

def toNat (address : IPv4Address) : Nat :=
  ((address.a.val * 256 + address.b) * 256 + address.c) * 256 + address.d

/-- A network with the length of its prefix, or one address -/
def network (t : Text) : Option (IPv4Address → Bool) :=
  match Text.partition (.ofChar '/') t with
  | (address, none) => (read address).map fun a b => a == b
  | (address, some bits) => do
      let a ← read address
      if !bits.isEmpty && bits.all CodePoint.isDigit && Text.toNat bits ≤ 32 then
        some fun b => a.toNat / 2 ^ (32 - Text.toNat bits) == b.toNat / 2 ^ (32 - Text.toNat bits)
      else none

theorem octet_ofNat (n : Fin 256) : octet (Text.ofNat n) = some n := by
  revert n
  decide +kernel

theorem read_show (address : IPv4Address) : read address.show_ = some address := by
  have plain : ∀ n : Fin 256, CodePoint.ofChar '.' ∉ Text.ofNat n := by
    intro n mem
    have digit := Text.isDigit_ofNat n _ mem
    exact absurd digit (by decide)
  have pieces : Text.splitOn (.ofChar '.') address.show_ =
      [Text.ofNat address.a, Text.ofNat address.b, Text.ofNat address.c, Text.ofNat address.d] := by
    refine Text.splitOn_intercalate (by simp) ?_
    simp [plain]
  simp only [read, pieces, octet_ofNat, Option.bind_eq_bind, Option.bind_some]

end IPv4Address

/-- The part of `ipaddress` for IPv4, with networks that are written with a prefix length -/
def ipv4 : Ipaddress where
  Address := IPv4Address
  ip_address := IPv4Address.read
  str := IPv4Address.show_
  ip_network := IPv4Address.network
  ip_address_str := IPv4Address.read_show

def loopback : Text := text "127.0.0.1"

theorem loopback_trusted : Trusted ipv4 (text "127.0.0.1/32") loopback := by
  have read : IPv4Address.read loopback = some ⟨127, 0, 0, 1⟩ := by decide
  exact ⟨⟨127, 0, 0, 1⟩, read, by decide⟩

end PackageRegistry.Auth
