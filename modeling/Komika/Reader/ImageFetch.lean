import Komika.Chapters.Label
import Komika.Lib.AddressBlock
import Komika.Lib.Turns

/-!
# The native image fetch

`fetch_image` of the desktop shell (`apps/reader/src-tauri/src/lib.rs`): a chain of
redirects followed by hand, a look-up of the host on every hop, and the address that
the connection is pinned to.

What the network does is a parameter: every look-up may return any addresses, every
request any response, and the time may run out anywhere.  A fetch keeps the
connections of every hop.

* `isBlockedIp_iff` — the addresses that the guard turns away, as blocks;
* `guarded` — no hop connects to one of them, unless it goes to the configured API
  origin.  It is the hop that is exempt: a redirect there from elsewhere is followed.

The addresses are compared with the registries' blocks (`Lib.AddressBlock`), which are
stated as prefixes of a number; the guard tests octets and segments.

* `nonPublicV4_iff`, `nonPublicV6_iff` — the tests against the blocks;
* `hopTurn_cases` — a hop connects to the address that it has validated, or not at all;
* `requests_le`, `length_of_done` — the requests of a hop, and what is read of a body.
-/

namespace Komika.Reader.ImageFetch

open Komika.Lib.AddressBlock Komika.Lib.Turns
open Komika.Chapters.Label (trim)

/-! ## Addresses

The predicates of the standard library, on octets and segments. -/

/-- An IPv4 address, as the four octets that the predicates of `std::net` test. -/
structure Ipv4Addr where
  o0 : UInt8
  o1 : UInt8
  o2 : UInt8
  o3 : UInt8
deriving DecidableEq, Repr

/-- An IPv6 address, as its eight segments of sixteen bits. -/
structure Ipv6Addr where
  s0 : UInt16
  s1 : UInt16
  s2 : UInt16
  s3 : UInt16
  s4 : UInt16
  s5 : UInt16
  s6 : UInt16
  s7 : UInt16
deriving DecidableEq, Repr

/-- An address of either kind. -/
inductive IpAddr where
  | v4 (a : Ipv4Addr)
  | v6 (a : Ipv6Addr)
deriving DecidableEq, Repr

namespace Ipv4Addr

/-- `is_loopback`: `127.0.0.0/8`. -/
def isLoopback (a : Ipv4Addr) : Bool := a.o0 = 127

/-- `is_private`: the three blocks set aside for private networks. -/
def isPrivate (a : Ipv4Addr) : Bool :=
  a.o0 = 10 || (a.o0 = 172 && (16 ≤ a.o1 && a.o1 ≤ 31)) || (a.o0 = 192 && a.o1 = 168)

/-- `is_link_local`: `169.254.0.0/16`, where cloud metadata services answer. -/
def isLinkLocal (a : Ipv4Addr) : Bool := a.o0 = 169 && a.o1 = 254

/-- `is_broadcast`: the one address of all ones. -/
def isBroadcast (a : Ipv4Addr) : Bool := a = ⟨255, 255, 255, 255⟩

/-- `is_documentation`: the three test networks, a `/24` each. -/
def isDocumentation (a : Ipv4Addr) : Bool :=
  (a.o0 = 192 && a.o1 = 0 && a.o2 = 2) || (a.o0 = 198 && a.o1 = 51 && a.o2 = 100) ||
    (a.o0 = 203 && a.o1 = 0 && a.o2 = 113)

/-- `is_unspecified`: `0.0.0.0`, one address and not its block. -/
def isUnspecified (a : Ipv4Addr) : Bool := a = ⟨0, 0, 0, 0⟩

/-- The address as a number of 32 bits, by which blocks are stated. -/
def toNat (a : Ipv4Addr) : Nat :=
  a.o0.toNat * 2 ^ 24 + a.o1.toNat * 2 ^ 16 + a.o2.toNat * 2 ^ 8 + a.o3.toNat

end Ipv4Addr

/-- The address of two segments. -/
def ofSegments (high low : UInt16) : Ipv4Addr :=
  ⟨(high >>> 8).toUInt8, high.toUInt8, (low >>> 8).toUInt8, low.toUInt8⟩

namespace Ipv6Addr

/-- `is_loopback`: `::1`. -/
def isLoopback (a : Ipv6Addr) : Bool := a = ⟨0, 0, 0, 0, 0, 0, 0, 1⟩

/-- `is_unspecified`: `::`. -/
def isUnspecified (a : Ipv6Addr) : Bool := a = ⟨0, 0, 0, 0, 0, 0, 0, 0⟩

/-- `to_ipv4_mapped`: the last two segments of `::ffff:a.b.c.d`, and of no other
form. -/
def toIpv4Mapped (a : Ipv6Addr) : Option Ipv4Addr :=
  if a.s0 = 0 ∧ a.s1 = 0 ∧ a.s2 = 0 ∧ a.s3 = 0 ∧ a.s4 = 0 ∧ a.s5 = 0xffff then
    some (ofSegments a.s6 a.s7)
  else none

/-- The test for an IPv4-compatible address, other than `::` and `::1`. -/
def isCompatible (a : Ipv6Addr) : Bool :=
  (a.s0 = 0 && a.s1 = 0 && a.s2 = 0 && a.s3 = 0 && a.s4 = 0 && a.s5 = 0) &&
    !(a.s6 = 0 && a.s7 ≤ 1)

/-- The address as a number of 128 bits. -/
def toNat (a : Ipv6Addr) : Nat :=
  a.s0.toNat * 2 ^ 112 + a.s1.toNat * 2 ^ 96 + a.s2.toNat * 2 ^ 80 + a.s3.toNat * 2 ^ 64 +
    a.s4.toNat * 2 ^ 48 + a.s5.toNat * 2 ^ 32 + a.s6.toNat * 2 ^ 16 + a.s7.toNat

end Ipv6Addr

/-- `is_blocked_ip`, of an IPv4 address. -/
def isBlockedV4 (a : Ipv4Addr) : Bool :=
  a.isLoopback || a.isPrivate || a.isLinkLocal || a.isBroadcast || a.isDocumentation ||
    a.isUnspecified || a.o0 = 0 || (a.o0 = 100 && a.o1 &&& 0xc0 = 0x40) || 240 ≤ a.o0 ||
    (a.o0 = 198 && a.o1 &&& 0xfe = 18) || (a.o0 = 192 && a.o1 = 0 && a.o2 = 0)

/-- `is_blocked_ip`: an address that carries an IPv4 one, mapped or compatible, is
judged by that one; any other IPv6 address by its own blocks. -/
def isBlockedIp : IpAddr → Bool
  | .v4 a => isBlockedV4 a
  | .v6 a =>
      match a.toIpv4Mapped with
      | some mapped => isBlockedV4 mapped
      | none =>
          if a.isCompatible then isBlockedV4 (ofSegments a.s6 a.s7)
          else
            a.isLoopback || a.isUnspecified || a.s0 &&& 0xfe00 = 0xfc00 ||
              a.s0 &&& 0xffc0 = 0xfe80 || (a.s0 = 0x2001 && a.s1 = 0x0db8)

/-! ## The network

A resolver and a server, any of whose answers may be an error. -/

/-- A parsed URL; `port` is `port_or_known_default`. -/
structure Url where
  text : String
  scheme : String
  host : Option String
  port : Option Nat

/-- A piece of a body. -/
abbrev Chunk := List UInt8

/-- A response as far as it is read.  `location` is a header value that is a text. -/
structure Response where
  status : Nat
  location : Option String
  contentLength : Option Nat
  chunks : List Chunk
  /-- What the body ends in, unless in its end. -/
  failure : Option String

/-- What a fetch meets, by the number of the hop and of the attempt. -/
structure Network where
  /-- The text of an address, and of a status. -/
  addrText : IpAddr → String
  statusText : Nat → String
  parse : String → Except String Url
  join : Url → String → Except String Url
  /-- `KOMIKA_API_ORIGIN`. -/
  env : Option String
  /-- `PUBLIC_KOMIKA_API`. -/
  built : Option String
  /-- The pool of fetches is closed. -/
  closed : Bool
  lookupHost : Nat → String → Nat → Except String (List IpAddr)
  /-- The error of building the client. -/
  build : Nat → Option String
  send : Nat → Nat → Except String Response
  /-- `now >= deadline`. -/
  late : Nat → Nat → Bool
  /-- `now + backoff >= deadline`. -/
  noTime : Nat → Nat → Bool

/-! ## The code

One hop, its retries, and the chain. -/

/-- `MAX_IMAGE_BYTES`, the most that is read of a body. -/
def maxImageBytes : Nat := 32 * 1024 * 1024

/-- `MAX_REDIRECTS`, after the first request. -/
def maxRedirects : Nat := 5

/-- `IMAGE_FETCH_RETRIES`, of one hop, after its first request. -/
def imageFetchRetries : Nat := 1

/-- The configured API origin. -/
structure ApiOrigin where
  host : String
  port : Nat

/-- `eq_ignore_ascii_case`: equal but for the case of the letters A to Z. -/
def eqIgnoreAsciiCase (a b : String) : Bool :=
  a.toList.map Char.toLower = b.toList.map Char.toLower

/-- A host and port that are its own. -/
def ApiOrigin.matchesHost (o : ApiOrigin) (host : String) (port : Nat) : Bool :=
  o.port = port && eqIgnoreAsciiCase o.host host

section Code

variable (w : Network)

/-- `parse_api_origin`: the host and the port of an http URL; anything else configures
no origin. -/
def parseApiOrigin (raw : String) : Option ApiOrigin :=
  match w.parse (trim raw) with
  | .error _ => none
  | .ok url =>
      if url.scheme = "http" ∨ url.scheme = "https" then
        match url.host, url.port with
        | some host, some port => some ⟨host, port⟩
        | _, _ => none
      else none

/-- `api_origin`: that of the environment, or else the one that was built in. -/
def apiOrigin : Option ApiOrigin :=
  (w.env.bind (parseApiOrigin w)).or (w.built.bind (parseApiOrigin w))

/-- `is_own_api_origin`: whether a host and port are those of the configured origin, the
one target that may be private. -/
def isOwnApiOrigin (host : String) (port : Nat) : Bool :=
  (apiOrigin w).any fun o => o.matchesHost host port

/-- `validate_image_url`, on a hop. -/
def validateImageUrl (hop : Nat) (raw : String) : Except String (Url × IpAddr) :=
  match w.parse raw with
  | .error e => .error ("invalid url: " ++ e)
  | .ok url =>
      if url.scheme = "http" ∨ url.scheme = "https" then
        match url.host with
        | none => .error "url has no host"
        | some host =>
            let port := url.port.getD 80
            match w.lookupHost hop host port with
            | .error e => .error ("dns lookup failed: " ++ e)
            | .ok [] => .error "host did not resolve"
            | .ok (addr :: addrs) =>
                if isOwnApiOrigin w host port then .ok (url, addr)
                else
                  match (addr :: addrs).find? isBlockedIp with
                  | some blocked =>
                      .error ("host resolves to a non-public address: " ++ w.addrText blocked)
                  | none => .ok (url, addr)
      else .error ("unsupported scheme: " ++ url.scheme)

/-- `is_transient_status`: the answers after which a hop is asked once more. -/
def isTransientStatus (status : Nat) : Bool :=
  (500 ≤ status && status ≤ 599) || status = 429 || status = 408

/-- The message for a status. -/
def statusError (status : Nat) : String := "upstream returned " ++ w.statusText status

/-- `reason`: why a request is sent once more, unless its outcome is final. -/
def retryReason (attempt : Nat) : Except String Response → Option String
  | .ok resp =>
      if imageFetchRetries ≤ attempt || !isTransientStatus resp.status then none
      else some (statusError w resp.status)
  | .error e => if imageFetchRetries ≤ attempt then none else some e

theorem lt_of_retryReason {attempt : Nat} {outcome : Except String Response} {reason : String}
    (h : retryReason w attempt outcome = some reason) : attempt < imageFetchRetries := by
  cases outcome with
  | ok resp =>
      simp only [retryReason, Option.ite_none_left_eq_some, Bool.or_eq_true,
        decide_eq_true_eq] at h
      omega
  | error e =>
      simp only [retryReason, Option.ite_none_left_eq_some] at h
      omega

/-- `send_image_request` from an attempt on: how many requests it sends, and its
result. -/
def sendImageRequest (hop attempt : Nat) : Nat × Except String Response :=
  if w.late hop attempt then (0, .error "image fetch exceeded its time budget")
  else
    match h : retryReason w attempt (w.send hop attempt) with
    | none => (1, w.send hop attempt)
    | some reason =>
        if w.noTime hop attempt then (1, .error reason)
        else
          let rest := sendImageRequest hop (attempt + 1)
          (rest.1 + 1, rest.2)
termination_by imageFetchRetries - attempt
decreasing_by
  have hlt := lt_of_retryReason w h
  omega

/-- The loop of `read_capped`. -/
def readChunks (failure : Option String) : List UInt8 → List Chunk → Except String (List UInt8)
  | buf, [] => failure.elim (.ok buf) .error
  | buf, chunk :: chunks =>
      if maxImageBytes < buf.length + chunk.length then .error "image exceeds size cap"
      else readChunks failure (buf ++ chunk) chunks

/-- `read_capped`: refuses a body that declares too much, and counts what it reads of
one that does not. -/
def readCapped (resp : Response) : Except String (List UInt8) :=
  if resp.contentLength.any fun len => maxImageBytes < len then
    .error ("image too large: " ++ toString (resp.contentLength.getD 0) ++ " bytes")
  else readChunks resp.failure [] resp.chunks

/-- A connection that a hop has opened. -/
structure Connection where
  target : Url
  addr : IpAddr

/-- The rest of a hop, once its requests have ended. -/
def follow (target : Url) : Except String Response → Turn String (Except String (List UInt8))
  | .error e => .done (.error e)
  | .ok resp =>
      if 300 ≤ resp.status ∧ resp.status ≤ 399 then
        match resp.location with
        | none => .done (.error "redirect without a Location header")
        | some location =>
            match w.join target location with
            | .error e => .done (.error ("invalid redirect target: " ++ e))
            | .ok next => .again next.text
      else if 200 ≤ resp.status ∧ resp.status ≤ 299 then .done (readCapped resp)
      else .done (.error (statusError w resp.status))

/-- The body of the loop of `fetch_image`: its connections, and where it goes on. -/
def hopTurn (hop : Nat) (next : String) :
    List Connection × Turn String (Except String (List UInt8)) :=
  match validateImageUrl w hop next with
  | .error e => ([], .done (.error e))
  | .ok (target, addr) =>
      match w.build hop with
      | some e => ([], .done (.error e))
      | none =>
          let sent := sendImageRequest w hop 0
          (List.replicate sent.1 ⟨target, addr⟩, follow w target sent.2)

/-- One hop of the chain. -/
structure Hop where
  number : Nat
  text : String
  connections : List Connection

/-- What a fetch has opened, and what it returns. -/
structure Fetched where
  hops : List Hop
  result : Except String (List UInt8)

/-- `fetch_image`: up to `maxRedirects + 1` hops, each validated, resolved and dialled
afresh; the result is that of the last. -/
def fetchImage (url : String) : Fetched :=
  if w.closed then ⟨[], .error "image fetch pool closed"⟩
  else
    let taken := loop (fun hop next => (hopTurn w hop next).2) (maxRedirects + 1) 0 url
    { hops := taken.1.map fun h => ⟨h.1, h.2, (hopTurn w h.1 h.2).1⟩
      result := taken.2.getD (.error "too many redirects") }

end Code

/-! ## What is not public

The blocks, and the guard's tests. -/

/-- The block `a.b.c.d/len` of IPv4 addresses. -/
def v4Block (a b c d len : Nat) : Block 32 :=
  ⟨a * 2 ^ 24 + b * 2 ^ 16 + c * 2 ^ 8 + d, len⟩

/-- Loopback, private, link-local, broadcast, documentation, unspecified, carrier-grade
NAT, reserved, benchmarking and protocol assignments. -/
def nonPublicV4 : List (Block 32) :=
  [v4Block 127 0 0 0 8, v4Block 10 0 0 0 8, v4Block 172 16 0 0 12, v4Block 192 168 0 0 16,
    v4Block 169 254 0 0 16, v4Block 255 255 255 255 32, v4Block 192 0 2 0 24,
    v4Block 198 51 100 0 24, v4Block 203 0 113 0 24, v4Block 0 0 0 0 32,
    v4Block 0 0 0 0 8, v4Block 100 64 0 0 10, v4Block 240 0 0 0 4, v4Block 198 18 0 0 15,
    v4Block 192 0 0 0 24]

/-- Loopback, unspecified, unique-local, link-local and documentation. -/
def nonPublicV6 : List (Block 128) :=
  [⟨1, 128⟩, ⟨0, 128⟩, ⟨0xfc00 * 2 ^ 112, 7⟩, ⟨0xfe80 * 2 ^ 112, 10⟩,
    ⟨0x20010db8 * 2 ^ 96, 32⟩]

/-- A block of addresses that embed an IPv4 address, from bit `shift` on. -/
structure Embedding where
  block : Block 128
  shift : Nat

/-- The form `::ffff:a.b.c.d` of an IPv4 address. -/
def mapped : Embedding := ⟨⟨0xffff * 2 ^ 32, 96⟩, 0⟩

/-- The deprecated form `::a.b.c.d`. -/
def compatible : Embedding := ⟨⟨0, 96⟩, 0⟩

/-- The form `64:ff9b::a.b.c.d` of the translators, which the code has no test for. -/
def nat64 : Embedding := ⟨⟨0x64ff9b * 2 ^ 96, 96⟩, 0⟩

/-- The form `2002:a.b.c.d::` of the 6to4 tunnels, for which it has none either. -/
def sixToFour : Embedding := ⟨⟨0x2002 * 2 ^ 112, 16⟩, 80⟩

/-- The number is in one of the blocks. -/
def NonPublicV4 (n : Nat) : Prop := ∃ b ∈ nonPublicV4, n ∈ b

/-- The address is in one of the ranges, or embeds an IPv4 address that is. -/
def NonPublic (forms : List Embedding) : IpAddr → Prop
  | .v4 a => NonPublicV4 a.toNat
  | .v6 a => (∃ b ∈ nonPublicV6, a.toNat ∈ b) ∨
      ∃ form ∈ forms, a.toNat ∈ form.block ∧ NonPublicV4 (a.toNat / 2 ^ form.shift % 2 ^ 32)

instance (n : Nat) : Decidable (NonPublicV4 n) :=
  inferInstanceAs (Decidable (∃ b ∈ nonPublicV4, n ∈ b))

instance (forms : List Embedding) : DecidablePred (NonPublic forms)
  | .v4 a => inferInstanceAs (Decidable (NonPublicV4 a.toNat))
  | .v6 a => inferInstanceAs (Decidable ((∃ b ∈ nonPublicV6, a.toNat ∈ b) ∨
      ∃ form ∈ forms,
        a.toNat ∈ form.block ∧ NonPublicV4 (a.toNat / 2 ^ form.shift % 2 ^ 32)))

theorem and_eq_iff (o : UInt8) {mask base : UInt8} (len : Nat) (hlen : len ≤ 8)
    (hmask : mask.toNat = (2 ^ len - 1) <<< (8 - len)) (hbase : 2 ^ (8 - len) ∣ base.toNat) :
    o &&& mask = base ↔ o.toNat / 2 ^ (8 - len) = base.toNat / 2 ^ (8 - len) := by
  rw [← UInt8.toNat_inj, UInt8.toNat_and, hmask]
  exact (mem_iff_mask (b := ⟨base.toNat, len⟩) hlen hbase o.toNat_lt).symm

section Octets

variable {a : Ipv4Addr}

theorem octets_lt (a : Ipv4Addr) :
    a.o0.toNat < 256 ∧ a.o1.toNat < 256 ∧ a.o2.toNat < 256 ∧ a.o3.toNat < 256 :=
  ⟨a.o0.toNat_lt, a.o1.toNat_lt, a.o2.toNat_lt, a.o3.toNat_lt⟩

theorem mem_v4Block_8 {b : Nat} : a.toNat ∈ v4Block b 0 0 0 8 ↔ a.o0.toNat = b := by
  have hlt := octets_lt a
  simp only [mem_def, v4Block, Ipv4Addr.toNat]
  omega

theorem mem_v4Block_16 {b c : Nat} (hc : c < 256) :
    a.toNat ∈ v4Block b c 0 0 16 ↔ a.o0.toNat = b ∧ a.o1.toNat = c := by
  have hlt := octets_lt a
  simp only [mem_def, v4Block, Ipv4Addr.toNat]
  omega

theorem mem_v4Block_24 {b c d : Nat} (hc : c < 256) (hd : d < 256) :
    a.toNat ∈ v4Block b c d 0 24 ↔ a.o0.toNat = b ∧ a.o1.toNat = c ∧ a.o2.toNat = d := by
  have hlt := octets_lt a
  simp only [mem_def, v4Block, Ipv4Addr.toNat]
  omega

theorem mem_v4Block_32 {b c d e : Nat} (hc : c < 256) (hd : d < 256) (he : e < 256) :
    a.toNat ∈ v4Block b c d e 32 ↔
      a.o0.toNat = b ∧ a.o1.toNat = c ∧ a.o2.toNat = d ∧ a.o3.toNat = e := by
  have hlt := octets_lt a
  simp only [mem_def, v4Block, Ipv4Addr.toNat]
  omega

theorem mem_private :
    a.toNat ∈ v4Block 172 16 0 0 12 ↔
      a.o0.toNat = 172 ∧ 16 ≤ a.o1.toNat ∧ a.o1.toNat ≤ 31 := by
  have hlt := octets_lt a
  simp only [mem_def, v4Block, Ipv4Addr.toNat]
  omega

theorem mem_shared :
    a.toNat ∈ v4Block 100 64 0 0 10 ↔ a.o0.toNat = 100 ∧ a.o1 &&& 0xc0 = 0x40 := by
  have hlt := octets_lt a
  rw [and_eq_iff a.o1 2 (by decide) (by decide) (by decide)]
  simp only [mem_def, v4Block, Ipv4Addr.toNat, UInt8.reduceToNat]
  omega

theorem mem_reserved : a.toNat ∈ v4Block 240 0 0 0 4 ↔ 240 ≤ a.o0.toNat := by
  have hlt := octets_lt a
  simp only [mem_def, v4Block, Ipv4Addr.toNat]
  omega

theorem mem_benchmarking :
    a.toNat ∈ v4Block 198 18 0 0 15 ↔ a.o0.toNat = 198 ∧ a.o1 &&& 0xfe = 18 := by
  have hlt := octets_lt a
  rw [and_eq_iff a.o1 7 (by decide) (by decide) (by decide)]
  simp only [mem_def, v4Block, Ipv4Addr.toNat, UInt8.reduceToNat]
  omega

end Octets

/-- The guard's octets say the same as the blocks. -/
theorem nonPublicV4_iff (a : Ipv4Addr) : NonPublicV4 a.toNat ↔ isBlockedV4 a = true := by
  simp only [NonPublicV4, nonPublicV4, List.exists_mem_cons_iff, List.not_mem_nil, false_and,
    exists_false, or_false]
  rw [mem_v4Block_8, mem_v4Block_8, mem_private, mem_v4Block_16 (by decide),
    mem_v4Block_16 (by decide), mem_v4Block_32 (by decide) (by decide) (by decide),
    mem_v4Block_24 (by decide) (by decide), mem_v4Block_24 (by decide) (by decide),
    mem_v4Block_24 (by decide) (by decide),
    mem_v4Block_32 (by decide) (by decide) (by decide), mem_v4Block_8, mem_shared,
    mem_reserved, mem_benchmarking, mem_v4Block_24 (by decide) (by decide)]
  obtain ⟨o0, o1, o2, o3⟩ := a
  simp only [isBlockedV4, Ipv4Addr.isLoopback, Ipv4Addr.isPrivate, Ipv4Addr.isLinkLocal,
    Ipv4Addr.isBroadcast, Ipv4Addr.isDocumentation, Ipv4Addr.isUnspecified,
    Ipv4Addr.mk.injEq, Bool.or_eq_true, Bool.and_eq_true, decide_eq_true_eq, or_assoc,
    and_assoc, UInt8.le_iff_toNat_le, ← UInt8.toNat_inj, UInt8.reduceToNat]

theorem toNat_ofSegments (high low : UInt16) :
    (ofSegments high low).toNat = high.toNat * 2 ^ 16 + low.toNat := by
  have hhigh := high.toNat_lt
  have hlow := low.toNat_lt
  simp only [Ipv4Addr.toNat, ofSegments, UInt16.toNat_toUInt8, UInt16.toNat_shiftRight,
    UInt16.reduceToNat, Nat.shiftRight_eq_div_pow, Nat.reduceMod, Nat.reducePow]
  omega

section Segments

variable {a : Ipv6Addr}

theorem segments_lt (a : Ipv6Addr) :
    (a.s0.toNat < 65536 ∧ a.s1.toNat < 65536 ∧ a.s2.toNat < 65536 ∧ a.s3.toNat < 65536) ∧
      a.s4.toNat < 65536 ∧ a.s5.toNat < 65536 ∧ a.s6.toNat < 65536 ∧ a.s7.toNat < 65536 :=
  ⟨⟨a.s0.toNat_lt, a.s1.toNat_lt, a.s2.toNat_lt, a.s3.toNat_lt⟩, a.s4.toNat_lt, a.s5.toNat_lt,
    a.s6.toNat_lt, a.s7.toNat_lt⟩

theorem low_eq (a : Ipv6Addr) :
    a.toNat / 2 ^ 0 % 2 ^ 32 = (ofSegments a.s6 a.s7).toNat := by
  have hlt := segments_lt a
  rw [toNat_ofSegments]
  simp only [Ipv6Addr.toNat]
  omega

theorem mem_slash96 {s : Nat} (hs : s < 65536) :
    a.toNat ∈ (⟨s * 2 ^ 32, 96⟩ : Block 128) ↔
      a.s0.toNat = 0 ∧ a.s1.toNat = 0 ∧ a.s2.toNat = 0 ∧ a.s3.toNat = 0 ∧
        a.s4.toNat = 0 ∧ a.s5.toNat = s := by
  have hlt := segments_lt a
  simp only [mem_def, Ipv6Addr.toNat]
  omega

theorem mem_slash128 {s : Nat} (hs : s < 65536) :
    a.toNat ∈ (⟨s, 128⟩ : Block 128) ↔
      a.s0.toNat = 0 ∧ a.s1.toNat = 0 ∧ a.s2.toNat = 0 ∧ a.s3.toNat = 0 ∧
        a.s4.toNat = 0 ∧ a.s5.toNat = 0 ∧ a.s6.toNat = 0 ∧ a.s7.toNat = s := by
  have hlt := segments_lt a
  simp only [mem_def, Ipv6Addr.toNat]
  omega

theorem and_eq_iff_first {mask base : UInt16} (len : Nat) (hlen : len ≤ 16)
    (hmask : mask.toNat = (2 ^ len - 1) <<< (16 - len)) (hbase : 2 ^ (16 - len) ∣ base.toNat) :
    a.s0 &&& mask = base ↔ a.s0.toNat / 2 ^ (16 - len) = base.toNat / 2 ^ (16 - len) := by
  rw [← UInt16.toNat_inj, UInt16.toNat_and, hmask]
  exact (mem_iff_mask (b := ⟨base.toNat, len⟩) hlen hbase a.s0.toNat_lt).symm

theorem mem_uniqueLocal :
    a.toNat ∈ (⟨0xfc00 * 2 ^ 112, 7⟩ : Block 128) ↔ a.s0 &&& 0xfe00 = 0xfc00 := by
  have hlt := segments_lt a
  rw [and_eq_iff_first 7 (by decide) (by decide) (by decide)]
  simp only [mem_def, Ipv6Addr.toNat, UInt16.reduceToNat]
  omega

theorem mem_linkLocal :
    a.toNat ∈ (⟨0xfe80 * 2 ^ 112, 10⟩ : Block 128) ↔ a.s0 &&& 0xffc0 = 0xfe80 := by
  have hlt := segments_lt a
  rw [and_eq_iff_first 10 (by decide) (by decide) (by decide)]
  simp only [mem_def, Ipv6Addr.toNat, UInt16.reduceToNat]
  omega

theorem mem_documentation :
    a.toNat ∈ (⟨0x20010db8 * 2 ^ 96, 32⟩ : Block 128) ↔
      a.s0.toNat = 0x2001 ∧ a.s1.toNat = 0x0db8 := by
  have hlt := segments_lt a
  simp only [mem_def, Ipv6Addr.toNat]
  omega

theorem nonPublicV6_iff (a : Ipv6Addr) :
    (∃ b ∈ nonPublicV6, a.toNat ∈ b) ↔
      (a.isLoopback || a.isUnspecified || a.s0 &&& 0xfe00 = 0xfc00 ||
        a.s0 &&& 0xffc0 = 0xfe80 || (a.s0 = 0x2001 && a.s1 = 0x0db8)) = true := by
  simp only [nonPublicV6, List.exists_mem_cons_iff, List.not_mem_nil, false_and, exists_false,
    or_false]
  rw [mem_slash128 (by decide), mem_slash128 (by decide), mem_uniqueLocal, mem_linkLocal,
    mem_documentation]
  obtain ⟨s0, s1, s2, s3, s4, s5, s6, s7⟩ := a
  simp only [Ipv6Addr.isLoopback, Ipv6Addr.isUnspecified, Ipv6Addr.mk.injEq, Bool.or_eq_true,
    Bool.and_eq_true, decide_eq_true_eq, or_assoc, ← UInt16.toNat_inj, UInt16.reduceToNat]

theorem mem_mapped :
    a.toNat ∈ mapped.block ↔ a.s0 = 0 ∧ a.s1 = 0 ∧ a.s2 = 0 ∧ a.s3 = 0 ∧ a.s4 = 0 ∧
      a.s5 = 0xffff := by
  simp only [← UInt16.toNat_inj, UInt16.reduceToNat]
  exact mem_slash96 (s := 0xffff) (by decide)

theorem mem_compatible :
    a.toNat ∈ compatible.block ↔ a.s0 = 0 ∧ a.s1 = 0 ∧ a.s2 = 0 ∧ a.s3 = 0 ∧ a.s4 = 0 ∧
      a.s5 = 0 := by
  simp only [← UInt16.toNat_inj, UInt16.reduceToNat]
  exact mem_slash96 (s := 0) (by decide)

/-- A zero segment is first in an address of the ranges only if it is `::` or `::1`. -/
theorem isCompatible_iff :
    a.isCompatible = true ↔ a.toNat ∈ compatible.block ∧ ¬∃ b ∈ nonPublicV6, a.toNat ∈ b := by
  rw [mem_compatible, nonPublicV6_iff]
  obtain ⟨s0, s1, s2, s3, s4, s5, s6, s7⟩ := a
  have hlow : s7 ≤ 1 ↔ s7 = 0 ∨ s7 = 1 := by
    simp only [UInt16.le_iff_toNat_le, ← UInt16.toNat_inj, UInt16.reduceToNat]
    omega
  simp only [Ipv6Addr.isCompatible, Ipv6Addr.isLoopback, Ipv6Addr.isUnspecified,
    Ipv6Addr.mk.injEq, Bool.and_eq_true, Bool.or_eq_true, Bool.not_eq_true',
    decide_eq_true_eq, decide_eq_false_iff_not, Bool.and_eq_false_iff, and_assoc, hlow]
  constructor
  · rintro ⟨rfl, rfl, rfl, rfl, rfl, rfl, hlast⟩
    simp
    tauto
  · rintro ⟨⟨rfl, rfl, rfl, rfl, rfl, rfl⟩, hlast⟩
    simp at hlast ⊢
    tauto

/-- No range has a mapped address. -/
theorem not_mem_of_mapped (h : a.toNat ∈ mapped.block) : ¬∃ b ∈ nonPublicV6, a.toNat ∈ b := by
  obtain ⟨s0, s1, s2, s3, s4, s5, s6, s7⟩ := a
  obtain ⟨rfl, -, -, -, -, rfl⟩ := mem_mapped.mp h
  rw [nonPublicV6_iff]
  simp [Ipv6Addr.isLoopback, Ipv6Addr.isUnspecified]

end Segments

/-- **The guard turns away** the ranges, and what embeds one of theirs in one of two
forms. -/
theorem isBlockedIp_iff (ip : IpAddr) :
    isBlockedIp ip = true ↔ NonPublic [mapped, compatible] ip := by
  cases ip with
  | v4 a => exact (nonPublicV4_iff a).symm
  | v6 a =>
      have hforms : (∃ form ∈ [mapped, compatible], a.toNat ∈ form.block ∧
            NonPublicV4 (a.toNat / 2 ^ form.shift % 2 ^ 32)) ↔
          (a.toNat ∈ mapped.block ∨ a.toNat ∈ compatible.block) ∧
            isBlockedV4 (ofSegments a.s6 a.s7) = true := by
        rw [← nonPublicV4_iff, ← low_eq]
        simp only [List.exists_mem_cons_iff, List.not_mem_nil, false_and, exists_false, or_false]
        exact or_and_right.symm
      simp only [NonPublic, hforms, isBlockedIp]
      by_cases hmapped : a.toNat ∈ mapped.block
      · have hsome : a.toIpv4Mapped = some (ofSegments a.s6 a.s7) := if_pos (mem_mapped.mp hmapped)
        have hranges := not_mem_of_mapped hmapped
        rw [hsome]
        simp only [hranges, hmapped, true_or, true_and, false_or]
      · have hnone : a.toIpv4Mapped = none := if_neg fun h => hmapped (mem_mapped.mpr h)
        rw [hnone]
        by_cases hcompatible : a.isCompatible = true
        · obtain ⟨hblock, hranges⟩ := isCompatible_iff.mp hcompatible
          simp only [hcompatible, hranges, hblock, if_true, or_true, true_and, false_or]
        · have hranges : a.toNat ∈ compatible.block → ∃ b ∈ nonPublicV6, a.toNat ∈ b :=
            fun h => not_not.mp fun hnot => hcompatible (isCompatible_iff.mpr ⟨h, hnot⟩)
          simp only [hcompatible, hmapped, false_or, Bool.false_eq_true, if_false]
          rw [← nonPublicV6_iff]
          exact ⟨Or.inl, fun h => h.elim id fun h => hranges h.1⟩

/-! ## The guard

Each connection of a fetch, hop by hop. -/

section Guard

variable {w : Network} {hop attempt : Nat}

/-- The URL is of the configured API origin. -/
def own (w : Network) (url : Url) : Bool :=
  url.host.any fun host => isOwnApiOrigin w host (url.port.getD 80)

/-- What a fetch keeps to. -/
structure Guarded (w : Network) (f : Fetched) : Prop where
  hops : f.hops.length ≤ maxRedirects + 1
  /-- Every hop has a number of its own, and look-ups of its own. -/
  numbers : f.hops.map Hop.number = List.range f.hops.length
  requests : ∀ h ∈ f.hops, h.connections.length ≤ imageFetchRetries + 1
  validated : ∀ h ∈ f.hops, ∀ c ∈ h.connections,
    validateImageUrl w h.number h.text = .ok (c.target, c.addr)
  resolved : ∀ h ∈ f.hops, ∀ c ∈ h.connections, ∃ host addrs, c.target.host = some host ∧
    w.lookupHost h.number host (c.target.port.getD 80) = .ok addrs ∧ c.addr ∈ addrs
  isPublic : ∀ h ∈ f.hops, ∀ c ∈ h.connections, own w c.target = false →
    ¬NonPublic [mapped, compatible] c.addr
  body : ∀ bytes, f.result = .ok bytes → bytes.length ≤ maxImageBytes

theorem validateImageUrl_ok {raw : String} {url : Url} {addr : IpAddr}
    (h : validateImageUrl w hop raw = .ok (url, addr)) :
    ∃ host addrs, url.host = some host ∧
      w.lookupHost hop host (url.port.getD 80) = .ok addrs ∧ addr ∈ addrs ∧
        (own w url = true ∨ ∀ a ∈ addrs, ¬NonPublic [mapped, compatible] a) := by
  unfold validateImageUrl at h
  split at h
  · contradiction
  · next url' hparse =>
      split at h
      · split at h
        · contradiction
        · next host hhost =>
            dsimp only at h
            split at h
            · contradiction
            · contradiction
            · next first addrs hlookup =>
                split at h
                · next hown =>
                    cases h
                    refine ⟨host, _, hhost, hlookup, List.mem_cons_self, Or.inl ?_⟩
                    rw [own, hhost]
                    exact hown
                · split at h
                  · contradiction
                  · next hnone =>
                      cases h
                      refine ⟨host, _, hhost, hlookup, List.mem_cons_self, Or.inr ?_⟩
                      intro a ha hnot
                      exact List.find?_eq_none.mp hnone a ha ((isBlockedIp_iff a).mpr hnot)
      · contradiction

/-- An attempt that is not the last is followed by one more at most. -/
theorem requests_le :
    (sendImageRequest w hop attempt).1 ≤ imageFetchRetries - attempt + 1 := by
  fun_induction sendImageRequest w hop attempt with
  | case1 => exact Nat.zero_le _
  | case2 => exact Nat.le_add_left 1 _
  | case3 => exact Nat.le_add_left 1 _
  | case4 attempt hlate reason h htime rest ih =>
      have hlt := lt_of_retryReason w h
      show (sendImageRequest w hop (attempt + 1)).1 + 1 ≤ _
      omega

theorem length_readChunks {failure : Option String} {buf out : List UInt8}
    {chunks : List Chunk} (hbuf : buf.length ≤ maxImageBytes)
    (h : readChunks failure buf chunks = .ok out) : out.length ≤ maxImageBytes := by
  induction chunks generalizing buf with
  | nil =>
      cases failure with
      | none =>
          cases h
          exact hbuf
      | some e => contradiction
  | cons chunk chunks ih =>
      unfold readChunks at h
      split at h
      · contradiction
      · next hcap =>
          apply ih _ h
          rw [List.length_append]
          omega

theorem length_readCapped {resp : Response} {out : List UInt8} (h : readCapped resp = .ok out) :
    out.length ≤ maxImageBytes := by
  unfold readCapped at h
  split at h
  · contradiction
  · exact length_readChunks (Nat.zero_le _) h

/-- What a hop returns is a body that is read to the cap. -/
theorem length_of_done {target : Url} {sent : Except String Response} {bytes : List UInt8}
    (h : follow w target sent = .done (.ok bytes)) : bytes.length ≤ maxImageBytes := by
  cases sent with
  | error e => cases h
  | ok resp =>
      unfold follow at h
      dsimp only at h
      split at h
      · split at h
        · cases h
        · split at h <;> cases h
      · split at h
        · exact length_readCapped (Turn.done.inj h)
        · cases h

/-- What a hop does: it connects to the address that it has validated, or not at all. -/
theorem hopTurn_cases (next : String) :
    ((hopTurn w hop next).1 = [] ∧ ∃ e, (hopTurn w hop next).2 = .done (.error e)) ∨
      ∃ target addr, validateImageUrl w hop next = .ok (target, addr) ∧
        hopTurn w hop next = (List.replicate (sendImageRequest w hop 0).1 ⟨target, addr⟩,
          follow w target (sendImageRequest w hop 0).2) := by
  unfold hopTurn
  split
  · exact Or.inl ⟨rfl, _, rfl⟩
  · next target addr hvalid =>
      split
      · exact Or.inl ⟨rfl, _, rfl⟩
      · exact Or.inr ⟨target, addr, hvalid, rfl⟩

theorem requests_hopTurn (next : String) :
    (hopTurn w hop next).1.length ≤ imageFetchRetries + 1 := by
  rcases hopTurn_cases next with ⟨hnone, -⟩ | ⟨target, addr, -, hturn⟩
  · rw [hnone]
    exact Nat.zero_le _
  · rw [hturn, List.length_replicate]
    exact requests_le

theorem validated_of_mem {next : String} {c : Connection} (h : c ∈ (hopTurn w hop next).1) :
    validateImageUrl w hop next = .ok (c.target, c.addr) := by
  rcases hopTurn_cases next with ⟨hnone, -⟩ | ⟨target, addr, hvalid, hturn⟩
  · rw [hnone] at h
    contradiction
  · rw [hturn] at h
    rw [List.eq_of_mem_replicate h, hvalid]

theorem length_of_returned {next : String} {bytes : List UInt8}
    (h : (hopTurn w hop next).2 = .done (.ok bytes)) : bytes.length ≤ maxImageBytes := by
  rcases hopTurn_cases next with ⟨-, e, herror⟩ | ⟨target, addr, -, hturn⟩
  · rw [herror] at h
    cases h
  · rw [hturn] at h
    exact length_of_done h

theorem guarded_closed (e : String) : Guarded w ⟨[], .error e⟩ where
  hops := Nat.zero_le _
  numbers := rfl
  requests := nofun
  validated := nofun
  resolved := nofun
  isPublic := nofun
  body := nofun

/-- **No hop of a fetch connects to an address that is not public**, unless it goes to the
configured API origin: it dials what it has validated for that hop. -/
theorem guarded (w : Network) (url : String) : Guarded w (fetchImage w url) := by
  unfold fetchImage
  split
  · exact guarded_closed _
  · generalize htaken :
      loop (fun hop next => (hopTurn w hop next).2) (maxRedirects + 1) 0 url = taken
    have hvalidated : ∀ h ∈ taken.1.map fun h => Hop.mk h.1 h.2 (hopTurn w h.1 h.2).1,
        ∀ c ∈ h.connections, validateImageUrl w h.number h.text = .ok (c.target, c.addr) := by
      intro h hmem c hc
      obtain ⟨turn, -, rfl⟩ := List.mem_map.mp hmem
      exact validated_of_mem hc
    constructor
    case hops =>
      rw [List.length_map, ← htaken]
      exact length_loop_le
    case numbers =>
      rw [List.map_map, List.length_map, List.range_eq_range', ← htaken]
      exact map_fst_loop
    case requests =>
      intro h hmem
      obtain ⟨turn, -, rfl⟩ := List.mem_map.mp hmem
      exact requests_hopTurn turn.2
    case validated => exact hvalidated
    case resolved =>
      intro h hmem c hc
      obtain ⟨host, addrs, hhost, hlookup, haddr, -⟩ :=
        validateImageUrl_ok (hvalidated h hmem c hc)
      exact ⟨host, addrs, hhost, hlookup, haddr⟩
    case isPublic =>
      intro h hmem c hc hown
      obtain ⟨-, addrs, -, -, haddr, hguard⟩ := validateImageUrl_ok (hvalidated h hmem c hc)
      rcases hguard with hexempt | hpublic
      · rw [hown] at hexempt
        contradiction
      · exact hpublic c.addr haddr
    case body =>
      intro bytes hbytes
      dsimp only at hbytes
      cases hresult : taken.2 with
      | none =>
          rw [hresult] at hbytes
          cases hbytes
      | some r =>
          rw [hresult, Option.getD_some] at hbytes
          rw [← htaken] at hresult
          obtain ⟨turn, -, hdone⟩ := mem_loop_of_returned hresult
          rw [hbytes] at hdone
          exact length_of_returned hdone

end Guard

/-! ### What the guard lets through -/

/-- A URL that is not of the configured API origin leads to no address that is not
public, in any form. -/
def ReachesNoPrivate (w : Network) (url : String) : Prop :=
  (∀ target, w.parse url = .ok target → own w target = false) →
    ∀ h ∈ (fetchImage w url).hops, ∀ c ∈ h.connections,
      ¬NonPublic [mapped, compatible, nat64, sixToFour] c.addr

/-- A public host, as the parser would return it. -/
def cdnUrl : Url := ⟨"https://cdn.example/a.png", "https", some "cdn.example", some 443⟩

/-- The configured origin, on this machine. -/
def apiUrl : Url := ⟨"http://localhost:8080/a.png", "http", some "localhost", some 8080⟩

/-- A third party at `cdn`, which answers first with `status` and a `Location` on a local
API origin. -/
def answering (status : Nat) (cdn : IpAddr) : Network where
  addrText _ := ""
  statusText _ := ""
  parse raw :=
    if raw = cdnUrl.text then .ok cdnUrl
    else if raw = apiUrl.text then .ok apiUrl
    else .error "relative URL without a base"
  join _ _ := .ok apiUrl
  env := some apiUrl.text
  built := none
  closed := false
  lookupHost _ host _ := .ok [if host = "localhost" then .v4 ⟨127, 0, 0, 1⟩ else cdn]
  build _ := none
  send hop _ := .ok ⟨if hop = 0 then status else 200, some apiUrl.text, none, [], none⟩
  late _ _ := false
  noTime _ _ := false

theorem own_cdnUrl (status : Nat) (cdn : IpAddr) : own (answering status cdn) cdnUrl = false := by
  have horigin : apiOrigin (answering status cdn) = some ⟨"localhost", 8080⟩ := rfl
  show isOwnApiOrigin (answering status cdn) "cdn.example" 443 = false
  rw [isOwnApiOrigin, horigin]
  decide

/-- A public host reaches the loopback address by a redirect.  Without one, a host
reaches a private address by a 6to4 address, and by a NAT64 one. -/
theorem not_reachesNoPrivate :
    ¬ReachesNoPrivate (answering 302 (.v4 ⟨8, 8, 8, 8⟩)) cdnUrl.text ∧
      ¬ReachesNoPrivate (answering 200 (.v6 ⟨0x2002, 0x0a00, 1, 0, 0, 0, 0, 0⟩))
        cdnUrl.text ∧
      ¬ReachesNoPrivate (answering 200 (.v6 ⟨0x64, 0xff9b, 0, 0, 0, 0, 0x0a00, 1⟩))
        cdnUrl.text := by
  have hown : ∀ status cdn, ∀ target, (answering status cdn).parse cdnUrl.text = .ok target →
      own (answering status cdn) target = false := by
    rintro status cdn target ⟨⟩
    exact own_cdnUrl status cdn
  refine ⟨?_, ?_, ?_⟩
  · intro h
    exact absurd (h (hown _ _)) (by decide +kernel)
  · intro h
    exact absurd (h (hown _ _)) (by decide +kernel)
  · intro h
    exact absurd (h (hown _ _)) (by decide +kernel)

end Komika.Reader.ImageFetch
