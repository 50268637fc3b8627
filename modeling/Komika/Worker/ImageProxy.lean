import Komika.Lib.EcmaScript
import Komika.Lib.Machine
import Komika.Lib.MediaType
import Komika.Lib.Turns

/-!
# The image Worker

`apps/worker/src/index.ts`: the `fetch` handler, the redirects it follows by
hand, and the edge cache behind it.

What the platform does is a parameter: its URL parser, its Unicode tables and
`encodeURIComponent`.  An exchange says what the upstreams answer, hop by hop and
for any URL, and what the rate limiter says.  A body is the chunks it comes in.

The policy is stated in terms of HTTP, not of the code: the media type of a
response is what a client makes of its `Content-Type` (`MediaType.ofHeader`).  The
handler reads that header as one type.  A header may carry several, joined by
commas, and the client then takes the last; so a list that begins with an image
and ends with an SVG is served (`not_policed_listed`), against the comment of
`isImageContentType`.  Everything else of the policy holds of every run.

* `Permitted`, `followed_of_permitted` — the hosts, on every hop of a redirect;
* `bytes_capStream`, `declares_of_trustedLen` — the bytes of a body;
* `image_of_single` — the type test is right about a header of one media type;
* `policed_handle`, `policed` — one exchange, and every run: only URLs on the list
  are fetched, no body is longer than the cap unless its length is declared, and
  where every answer names one media type, only images are served and stored.
-/

namespace Komika.Worker.ImageProxy

open Komika.Lib Komika.Lib.EcmaScript Komika.Lib.Turns

/-! ## The platform

URLs, headers and streams, as far as the handler reads them. -/

/-- What the platform's parser makes of a URL. -/
structure Url where
  href : String
  origin : String
  protocol : String
  hostname : String

/-- What the platform does. -/
structure Platform where
  /-- `new URL(text)`. -/
  parseUrl : String → Option Url
  /-- `new URL(location, base)`. -/
  resolve : String → Url → Option Url
  /-- The lower case of characters beyond ASCII. -/
  lowerBeyond : LowerCase
  encodeURIComponent : String → String

/-- `text.toLowerCase()`: exact on ASCII; beyond it, by the platform's tables. -/
def Platform.toLowerCase (p : Platform) (text : String) : String :=
  String.ofList (EcmaScript.toLowerCase p.lowerBeyond text.toList)

/-- A piece of a body. -/
abbrev Chunk := List UInt8

/-- The chunks of a body, and whether it ends in an error. -/
structure Stream where
  chunks : List Chunk
  broken : Bool

/-- How long a body is. -/
def Stream.bytes (s : Stream) : Nat := (s.chunks.map List.length).sum

/-- What a response has for a body. -/
inductive Body where
  | none
  | text (message : String)
  | stream (s : Stream)

/-- The bytes of an upstream that are in a body. -/
def Body.bytes : Body → Nat
  | .stream s => s.bytes
  | _ => 0

/-- A response of the handler. -/
structure Response where
  status : Nat
  headers : List (String × String)
  body : Body

/-- A response that `fetch` resolves to, as far as the handler reads it. -/
structure Upstream where
  status : Nat
  location : Option String
  contentType : Option String
  contentLength : Option String
  transferEncoding : Option String
  body : Option Stream

/-- `ok`: a status from 200 to 299. -/
def Upstream.ok (up : Upstream) : Bool := 200 ≤ up.status && up.status ≤ 299

/-! ## The code

`fetch` of the Worker, from the request to the cache. -/

/-- The bindings of the Worker. -/
structure Env where
  allowedSourceHosts : Option String
  allowedOrigins : Option String

/-- A request; `src` is `url.searchParams.get('src')`. -/
structure Request where
  method : String
  urlOrigin : String
  pathname : String
  src : Option String
  origin : Option String
  referer : Option String

/-- `MAX_IMAGE_BYTES`, the most that is passed on of a body whose length cannot be
trusted. -/
def maxImageBytes : Nat := 32 * 1024 * 1024

/-- `MAX_REDIRECTS`, after the first fetch. -/
def maxRedirects : Nat := 4

/-- `IMMUTABLE_CACHE`: a week in the caches, as covers and pages do not change under
their URLs. -/
def immutableCache : String := "public, max-age=604800, immutable"

/-- `CORS_HEADERS`, which every response carries. -/
def corsHeaders : List (String × String) :=
  [("Access-Control-Allow-Origin", "*"),
    ("Access-Control-Allow-Methods", "GET, HEAD, OPTIONS"),
    ("Access-Control-Allow-Headers", "*"),
    ("Access-Control-Max-Age", "86400")]

/-- `errorResponse`: a text, under the headers that every response carries. -/
def errorResponse (status : Nat) (message : String) : Response :=
  ⟨status, ("Content-Type", "text/plain; charset=utf-8") :: corsHeaders, .text message⟩

/-- `withMethod`: an answer to `HEAD` has no body. -/
def withMethod (res : Response) (method : String) : Response :=
  if method = "HEAD" then { res with body := .none } else res

/-- `parseList`: a binding split at commas, each entry trimmed, the empty ones
dropped. -/
def parseList (raw : Option String) : List String :=
  ((truthy raw).elim [] fun text =>
    (text.toList.splitOn ',').map fun s => String.ofList (trim s)).filter (· ≠ "")

/-- `hostAllowed`: an entry of the list, or a subdomain of one; an empty list allows
nothing. -/
def hostAllowed (p : Platform) (hostname : String) (raw : Option String) : Bool :=
  let list := parseList raw
  if list.length = 0 then false
  else
    let host := p.toLowerCase hostname
    list.any fun allowed =>
      let a := p.toLowerCase allowed
      host = a || ("." ++ a).toList.isSuffixOf host.toList

/-- `originOf`: the origin of a `Referer` that parses. -/
def originOf (p : Platform) (referer : Option String) : Option String :=
  ((truthy referer).bind p.parseUrl).map Url.origin

/-- `originAllowed`: an empty list, or a request that names no origin, is let
through. -/
def originAllowed (p : Platform) (request : Request) (raw : Option String) : Bool :=
  let list := parseList raw
  if list.length = 0 then true
  else if (truthy request.origin).isNone && (truthy request.referer).isNone then true
  else
    match truthy (request.origin.or (originOf p request.referer)) with
    | none => true
    | some candidate => list.contains candidate

/-- `isRedirectStatus`: the five statuses that are followed by hand. -/
def isRedirectStatus (status : Nat) : Bool :=
  status = 301 || status = 302 || status = 303 || status = 307 || status = 308

/-- `contentType.split(';', 1)[0].trim().toLowerCase()`: what stands before the first
parameter, commas and all. -/
def declaredType (p : Platform) (contentType : String) : List Char :=
  EcmaScript.toLowerCase p.lowerBeyond (trim (contentType.toList.takeWhile (· ≠ ';')))

/-- `/^image\//i`, which looks at the beginning only. -/
def startsWithImage (type : List Char) : Bool :=
  "image/".toList.isPrefixOf (type.map Char.toLower)

/-- `isImageContentType`: not one of the two spellings of SVG, and begins like an
image. -/
def isImageContentType (p : Platform) (contentType : String) : Bool :=
  let type := declaredType p contentType
  if type = "image/svg+xml".toList || type = "image/svg".toList then false
  else startsWithImage type

/-- The protocols that are proxied. -/
def isHttp (url : Url) : Bool := url.protocol = "http:" || url.protocol = "https:"

/-- What `fetchFollowingRedirects` throws: a refusal of its own, or the platform's. -/
inductive Failure where
  /-- A `ProxyError`. -/
  | proxy (status : Nat) (message : String)
  /-- `fetch` rejects. -/
  | rejected

/-- A turn of the loop of `fetchFollowingRedirects`. -/
def followTurn (p : Platform) (allowRaw : Option String) (fetch : Nat → Url → Option Upstream)
    (hop : Nat) (current : Url) : Turn Url (Except Failure Upstream) :=
  match fetch hop current with
  | none => .done (.error .rejected)
  | some resp =>
      if !isRedirectStatus resp.status then .done (.ok resp)
      else
        match truthy resp.location with
        | none => .done (.error (.proxy 502 "Upstream redirect without a Location header"))
        | some location =>
            match p.resolve location current with
            | none => .done (.error (.proxy 502 "Upstream redirect to an invalid Location"))
            | some next =>
                if !isHttp next then
                  .done (.error (.proxy 400 "redirect target must be http(s)"))
                else if !hostAllowed p next.hostname allowRaw then
                  .done (.error (.proxy 400 "redirect host not allowed"))
                else .again next

/-- `fetchFollowingRedirects`, with the URLs that it fetches. -/
def fetchFollowingRedirects (p : Platform) (start : Url) (allowRaw : Option String)
    (fetch : Nat → Url → Option Upstream) : List Url × Except Failure Upstream :=
  let taken := loop (followTurn p allowRaw fetch) (maxRedirects + 1) 0 start
  (taken.1.map Prod.snd, taken.2.getD (.error (.proxy 502 "Too many redirects")))

/-- What `transform` lets through, and whether it runs into the cap. -/
def capChunks (max : Nat) : Nat → List Chunk → List Chunk × Bool
  | _, [] => ([], false)
  | total, chunk :: chunks =>
      if max < total + chunk.length then ([], true)
      else
        let rest := capChunks max (total + chunk.length) chunks
        (chunk :: rest.1, rest.2)

/-- `capStream`: the chunks up to the cap, and an error where one would go past it. -/
def capStream (body : Stream) (max : Nat) : Stream :=
  let capped := capChunks max 0 body.chunks
  ⟨capped.1, capped.2 || body.broken⟩

/-- `trustedLen`: a `Content-Length` that `Number` reads as positive and within the cap,
on a response without `Transfer-Encoding`. -/
def trustedLen (source : Upstream) : Bool :=
  source.contentLength.any fun declaredLen =>
    let len := number declaredLen.toList
    len.isFinite && (Binary64.ofNat 0).lt len && len.le (.ofNat maxImageBytes) &&
      source.transferEncoding.isNone

/-- `finalizeImage`: the response that is served and stored, with the upstream's type
and the Worker's own headers; the body is capped unless its length is trusted. -/
def finalizeImage (source : Upstream) (raw : Stream) (contentType : String) : Response :=
  { status := 200
    headers :=
      ("Content-Type", if contentType = "" then "application/octet-stream" else contentType) ::
      ("Cache-Control", immutableCache) ::
      ("X-Content-Type-Options", "nosniff") ::
      ("Content-Disposition", "inline") :: corsHeaders
    body := .stream (if trustedLen source then raw else capStream raw maxImageBytes) }

/-- A request with what it meets. -/
structure Exchange where
  request : Request
  env : Env
  /-- The answer to the fetch of a URL on a hop, if there is one. -/
  fetch : Nat → Url → Option Upstream
  /-- What `IMG_RATE_LIMITER.limit` says. -/
  success : Bool

/-- What the handler fetches, answers and caches. -/
structure Handled where
  fetched : List Url
  /-- The response in which the redirects end. -/
  answer : Option Upstream
  response : Response
  /-- What is put into the edge cache, and under which key. -/
  stored : Option (String × Response)

/-- A response without a fetch. -/
def Handled.plain (response : Response) : Handled := ⟨[], none, response, none⟩

/-- The handler after the fetch. -/
def serve (p : Platform) (method cacheKey : String) (fetched : List Url) (up : Upstream) :
    Handled :=
  match up.body with
  | none =>
      ⟨fetched, some up, errorResponse 502 ("Upstream " ++ toString up.status), none⟩
  | some raw =>
      if !up.ok then
        ⟨fetched, some up, errorResponse 502 ("Upstream " ++ toString up.status), none⟩
      else
        let contentType := up.contentType.getD ""
        if !isImageContentType p contentType then
          ⟨fetched, some up, errorResponse 502 "Upstream is not an image", none⟩
        else if (truthy up.contentLength).any fun declaredLen =>
            (Binary64.ofNat maxImageBytes).lt (number declaredLen.toList) then
          ⟨fetched, some up, errorResponse 502 "Upstream image too large", none⟩
        else
          let res := finalizeImage up raw contentType
          ⟨fetched, some up, withMethod res method, some (cacheKey, res)⟩

/-- The handler from the edge cache on. -/
def fetchImage (p : Platform) (cache : String → Option Response) (x : Exchange)
    (upstream : Url) : Handled :=
  let cacheKey := x.request.urlOrigin ++ "/img?src=" ++ p.encodeURIComponent upstream.href
  match cache cacheKey with
  | some cached => .plain (withMethod cached x.request.method)
  | none =>
      if !x.success then .plain (errorResponse 429 "Too Many Requests")
      else
        let followed := fetchFollowingRedirects p upstream x.env.allowedSourceHosts x.fetch
        match followed.2 with
        | .error (.proxy status message) =>
            ⟨followed.1, none, errorResponse status message, none⟩
        | .error .rejected =>
            ⟨followed.1, none, errorResponse 502 "Upstream fetch failed", none⟩
        | .ok up => serve p x.request.method cacheKey followed.1 up

/-- The `fetch` handler: the method, the path, the source URL and its host, the origin
of the request, and only then the cache and the upstream. -/
def handle (p : Platform) (cache : String → Option Response) (x : Exchange) : Handled :=
  if x.request.method = "OPTIONS" then .plain ⟨204, corsHeaders, .none⟩
  else if x.request.method ≠ "GET" ∧ x.request.method ≠ "HEAD" then
    .plain (errorResponse 405 "Method Not Allowed")
  else if x.request.pathname ≠ "/img" then
    if x.request.pathname = "/" ∨ x.request.pathname = "/healthz" then
      .plain ⟨200, corsHeaders, .text "ok"⟩
    else .plain (errorResponse 404 "Not Found")
  else
    match truthy x.request.src with
    | none => .plain (errorResponse 400 "Missing ?src")
    | some src =>
        match p.parseUrl src with
        | none => .plain (errorResponse 400 "Invalid ?src URL")
        | some upstream =>
            if !isHttp upstream then .plain (errorResponse 400 "src must be http(s)")
            else if !hostAllowed p upstream.hostname x.env.allowedSourceHosts then
              .plain (errorResponse 400 "src host not allowed")
            else if !originAllowed p x.request x.env.allowedOrigins then
              .plain (errorResponse 403 "Forbidden origin")
            else fetchImage p cache x upstream

/-! ## Runs

A run of exchanges over one edge cache; a `put` may land late or not at all. -/

/-- The edge cache, with every response in which redirects have ended. -/
structure Edge where
  cache : List (String × Response)
  answers : List Upstream

/-- `edge.match`: the latest entry under the key. -/
def Edge.find (s : Edge) (key : String) : Option Response :=
  (s.cache.find? fun entry => entry.1 = key).map Prod.snd

/-- An exchange, or a cache entry that is evicted. -/
inductive Event where
  /-- An exchange; what it stores may fail to land. -/
  | exchange (x : Exchange) (lands : Bool)
  /-- The platform drops an entry. -/
  | evict (key : String)

/-- The cache after an event. -/
def Edge.step (p : Platform) (s : Edge) : Event → Edge
  | .exchange x lands =>
      let h := handle p s.find x
      { cache := if lands then h.stored.toList ++ s.cache else s.cache
        answers := h.answer.toList ++ s.answers }
  | .evict key => { s with cache := s.cache.filter fun entry => entry.1 ≠ key }

/-! ## The policy

Hosts, bodies and media types, each on its own. -/

/-- The URL is http(s), and its host is an entry of the allowlist or a subdomain of
one. -/
structure Permitted (p : Platform) (raw : Option String) (url : Url) : Prop where
  http : url.protocol = "http:" ∨ url.protocol = "https:"
  host : ∃ allowed ∈ parseList raw, p.toLowerCase url.hostname = p.toLowerCase allowed ∨
    ∃ sub, p.toLowerCase url.hostname = sub ++ "." ++ p.toLowerCase allowed

/-- The media type of the response, as a client reads its header. -/
def Upstream.mediaType (up : Upstream) : Option MediaType.Essence :=
  MediaType.ofHeader (up.contentType.getD "").toList

/-- An ok response, no redirect, whose media type is an image and not an SVG. -/
structure IsImage (up : Upstream) : Prop where
  ok : 200 ≤ up.status ∧ up.status ≤ 299
  notRedirect : up.status ∉ [301, 302, 303, 307, 308]
  image : ∃ t, up.mediaType = some t ∧ t.type = "image".toList ∧
    t.subtype ∉ ["svg+xml".toList, "svg".toList]

/-- The upstream declares a positive length within the cap, and no other framing. -/
structure Declares (up : Upstream) : Prop where
  length : ∃ declaredLen, up.contentLength = some declaredLen ∧
    (Binary64.ofNat 0).lt (number declaredLen.toList) = true ∧
      (number declaredLen.toList).le (.ofNat maxImageBytes) = true
  framing : up.transferEncoding = none

/-- The response is made of this one, which is as `I` asks. -/
structure Serves (I : Upstream → Prop) (up : Upstream) (r : Response) : Prop where
  image : I up
  made : ∃ raw method, up.body = some raw ∧
    r = withMethod (finalizeImage up raw (up.contentType.getD "")) method
  bytes : r.body.bytes ≤ maxImageBytes ∨ Declares up

/-- What an exchange may do, as it is handled, where `I` says which answers may be
served. -/
structure Policed (I : Upstream → Prop) (p : Platform) (s : Edge) (x : Exchange)
    (h : Handled) : Prop where
  hosts : ∀ url ∈ h.fetched, Permitted p x.env.allowedSourceHosts url
  fetches : h.fetched.length ≤ maxRedirects + 1
  answered : ∀ up, h.answer = some up →
    ∃ hop, ∃ url ∈ h.fetched, x.fetch hop url = some up
  /-- A 200 for an image is made of what an upstream has answered, now or before. -/
  served : x.request.pathname = "/img" → h.response.status = 200 →
    ∃ up ∈ h.answer.toList ++ s.answers, Serves I up h.response
  stored : ∀ key r, h.stored = some (key, r) → ∃ up, h.answer = some up ∧ Serves I up r

/-- The header is a single value, and that names a media type. -/
structure NamesOne (contentType : String) : Prop where
  single : (MediaType.values .plain contentType.toList).length = 1
  named : (MediaType.parse contentType.toList).isSome = true

/-- An ok response, no redirect, that the type test lets through. -/
structure Passes (p : Platform) (up : Upstream) : Prop where
  ok : up.ok = true
  notRedirect : isRedirectStatus up.status = false
  test : isImageContentType p (up.contentType.getD "") = true

/-- Whatever the upstreams answer in the exchange, and the handler would serve, is as
`I` asks. -/
def Event.Meets (p : Platform) (I : Upstream → Prop) : Event → Prop
  | .exchange x _ => ∀ hop url up, x.fetch hop url = some up → Passes p up → I up
  | .evict _ => True

/-- Every answer that the handler would serve names one media type. -/
def Event.Plain (p : Platform) (e : Event) : Prop :=
  e.Meets p fun up => NamesOne (up.contentType.getD "")

section Policy

variable {p : Platform} {raw : Option String} {fetch : Nat → Url → Option Upstream}
variable {url next : Url} {up : Upstream} {hop : Nat} {I : Upstream → Prop}

/-! ### Hosts -/

theorem permitted_of_allowed (hhttp : isHttp url = true)
    (hhost : hostAllowed p url.hostname raw = true) : Permitted p raw url := by
  unfold hostAllowed at hhost
  dsimp only at hhost
  split at hhost
  · contradiction
  · obtain ⟨allowed, hallowed, hmatch⟩ := List.any_eq_true.mp hhost
    refine ⟨by simpa [isHttp] using hhttp, allowed, hallowed, ?_⟩
    rcases Bool.or_eq_true_iff.mp hmatch with hsame | hsuffix
    · exact Or.inl (of_decide_eq_true hsame)
    · obtain ⟨sub, hsub⟩ := List.isSuffixOf_iff_suffix.mp hsuffix
      refine Or.inr ⟨String.ofList sub, ?_⟩
      rw [← String.toList_inj, ← hsub]
      simp

/-- A turn goes on to a permitted URL, or returns the answer to its fetch, or
fails. -/
theorem followTurn_cases {P : Turn Url (Except Failure Upstream) → Prop}
    (hagain : ∀ next, Permitted p raw next → P (.again next))
    (hanswer : ∀ up, fetch hop url = some up → isRedirectStatus up.status = false →
      P (.done (.ok up)))
    (hrejected : P (.done (.error .rejected)))
    (hproxy : ∀ status message, status ≠ 200 → P (.done (.error (.proxy status message)))) :
    P (followTurn p raw fetch hop url) := by
  unfold followTurn
  cases hfetch : fetch hop url with
  | none => exact hrejected
  | some resp =>
      dsimp only
      by_cases hstatus : isRedirectStatus resp.status = true
      · rw [hstatus, Bool.not_true, if_neg Bool.false_ne_true]
        cases truthy resp.location with
        | none => exact hproxy 502 _ (by decide)
        | some location =>
            dsimp only
            cases p.resolve location url with
            | none => exact hproxy 502 _ (by decide)
            | some next =>
                dsimp only
                split
                · exact hproxy 400 _ (by decide)
                · next hhttp =>
                    split
                    · exact hproxy 400 _ (by decide)
                    · next hhost =>
                        rw [Bool.not_eq_true', Bool.not_eq_false] at hhttp hhost
                        exact hagain next (permitted_of_allowed hhttp hhost)
      · rw [Bool.not_eq_true] at hstatus
        rw [hstatus, Bool.not_false, if_pos rfl]
        exact hanswer resp hfetch hstatus

/-- What following the redirects of a permitted URL does. -/
structure Followed (p : Platform) (raw : Option String) (fetch : Nat → Url → Option Upstream)
    (result : List Url × Except Failure Upstream) : Prop where
  hosts : ∀ url ∈ result.1, Permitted p raw url
  fetches : result.1.length ≤ maxRedirects + 1
  answered : ∀ up, result.2 = .ok up → isRedirectStatus up.status = false ∧
    ∃ hop, ∃ url ∈ result.1, fetch hop url = some up
  failed : ∀ status message, result.2 = .error (.proxy status message) → status ≠ 200

/-- A turn that returns is one of those taken, or none does. -/
theorem returned_cases (r : Except Failure Upstream)
    (h : (fetchFollowingRedirects p url raw fetch).2 = r) :
    r = .error (.proxy 502 "Too many redirects") ∨
      ∃ hop, ∃ url' ∈ (fetchFollowingRedirects p url raw fetch).1,
        followTurn p raw fetch hop url' = .done r := by
  unfold fetchFollowingRedirects at h ⊢
  dsimp only at h ⊢
  cases hresult : (loop (followTurn p raw fetch) (maxRedirects + 1) 0 url).2 with
  | none =>
      rw [hresult] at h
      exact Or.inl h.symm
  | some r' =>
      rw [hresult, Option.getD_some] at h
      obtain ⟨x, hx, hdone⟩ := mem_loop_of_returned hresult
      rw [h] at hdone
      exact Or.inr ⟨x.1, x.2, List.mem_map.mpr ⟨x, hx, rfl⟩, hdone⟩

theorem followed_of_permitted (h : Permitted p raw url) :
    Followed p raw fetch (fetchFollowingRedirects p url raw fetch) where
  hosts := by
    intro u hu
    obtain ⟨x, hx, rfl⟩ := List.mem_map.mp hu
    refine forall_mem_loop h ?_ x hx
    intro hop url next _
    apply followTurn_cases (P := fun t => t = .again next → Permitted p raw next)
    case hagain =>
      intro next' hpermitted heq
      cases heq
      exact hpermitted
    all_goals nofun
  fetches := by
    show (List.map Prod.snd _).length ≤ _
    rw [List.length_map]
    exact length_loop_le
  answered := by
    intro up hok
    rcases returned_cases _ hok with hmany | ⟨hop, url', hurl, hdone⟩
    · contradiction
    · revert hdone
      apply followTurn_cases (P := fun t => t = .done (.ok up) →
        isRedirectStatus up.status = false ∧ ∃ hop, ∃ url ∈ _, fetch hop url = some up)
      case hanswer =>
        intro up' hfetch hstatus heq
        cases heq
        exact ⟨hstatus, hop, url', hurl, hfetch⟩
      all_goals nofun
  failed := by
    intro status message herror
    rcases returned_cases _ herror with hmany | ⟨hop, url', -, hdone⟩
    · cases hmany
      decide
    · revert hdone
      apply followTurn_cases (P := fun t => t = .done (.error (.proxy status message)) →
        status ≠ 200)
      case hproxy =>
        intro status' message' hstatus heq
        cases heq
        exact hstatus
      all_goals nofun

/-! ### Bodies -/

theorem bytes_capChunks (max total : Nat) (chunks : List Chunk) (h : total ≤ max) :
    total + ((capChunks max total chunks).1.map List.length).sum ≤ max := by
  induction chunks generalizing total with
  | nil => exact h
  | cons chunk chunks ih =>
      unfold capChunks
      split
      · exact h
      · next hcap =>
          have hrest := ih (total + chunk.length) (by omega)
          simp only [List.map_cons, List.sum_cons]
          omega

theorem bytes_capStream (body : Stream) (max : Nat) : (capStream body max).bytes ≤ max := by
  have hbytes := bytes_capChunks max 0 body.chunks (Nat.zero_le max)
  rw [Nat.zero_add] at hbytes
  exact hbytes

theorem declares_of_trustedLen (h : trustedLen up = true) : Declares up := by
  unfold trustedLen at h
  obtain ⟨declaredLen, hdeclared, htrusted⟩ := (Option.any_eq_true _ _).mp h
  simp only [Bool.and_eq_true, Option.isNone_iff_eq_none] at htrusted
  obtain ⟨⟨⟨-, hpos⟩, hcap⟩, hframing⟩ := htrusted
  exact ⟨⟨declaredLen, hdeclared, hpos, hcap⟩, hframing⟩

theorem body_withMethod (res : Response) (method : String) :
    (withMethod res method).body = .none ∨ withMethod res method = res := by
  unfold withMethod
  split
  · exact Or.inl rfl
  · exact Or.inr rfl

/-- To cut off a body twice is to cut it off. -/
theorem withMethod_withMethod (res : Response) (method method' : String) :
    ∃ m, withMethod (withMethod res method) method' = withMethod res m := by
  unfold withMethod
  by_cases h : method = "HEAD"
  · refine ⟨"HEAD", ?_⟩
    rw [if_pos h]
    split <;> rfl
  · rw [if_neg h]
    exact ⟨method', rfl⟩

theorem serves_finalizeImage {raw : Stream} (himage : I up) (hbody : up.body = some raw)
    (method : String) :
    Serves I up (withMethod (finalizeImage up raw (up.contentType.getD "")) method) where
  image := himage
  made := ⟨raw, method, hbody, rfl⟩
  bytes := by
    rcases body_withMethod (finalizeImage up raw (up.contentType.getD "")) method with
      hnone | hsame
    · rw [hnone]
      exact Or.inl (Nat.zero_le _)
    · rw [hsame]
      by_cases htrusted : trustedLen up = true
      · exact Or.inr (declares_of_trustedLen htrusted)
      · left
        show (if trustedLen up then raw else capStream raw maxImageBytes).bytes ≤ _
        rw [if_neg htrusted]
        exact bytes_capStream raw maxImageBytes

/-- A response stays one that is made of the upstream's if the method cuts its body off. -/
theorem Serves.withMethod {r : Response} (h : Serves I up r) (method : String) :
    Serves I up (ImageProxy.withMethod r method) := by
  obtain ⟨raw, m, hbody, rfl⟩ := h.made
  obtain ⟨m', hm'⟩ := withMethod_withMethod (finalizeImage up raw (up.contentType.getD "")) m
    method
  rw [hm']
  exact serves_finalizeImage h.image hbody m'

/-! ### The handler -/

/-- What the code trims and lowers of a part that names a media type are its two
tokens. -/
theorem declaredType_of_tokens {contentType : String} {lead type subtype trail : List Char}
    (hfront : contentType.toList.takeWhile (· ≠ ';') =
      lead ++ (type ++ '/' :: subtype) ++ trail)
    (hlead : ∀ c ∈ lead, MediaType.isBlank c = true)
    (htrail : ∀ c ∈ trail, MediaType.isBlank c = true)
    (htype : ∀ c ∈ type, MediaType.isToken c = true)
    (hsubtype : ∀ c ∈ subtype, MediaType.isToken c = true) :
    declaredType p contentType = type.map Char.toLower ++ '/' :: subtype.map Char.toLower := by
  have hspace : ∀ c, MediaType.isBlank c = true → isSpace c = true := by
    intro c hc
    simp only [MediaType.isBlank, Bool.or_eq_true, decide_eq_true_eq] at hc
    rcases hc with ((rfl | rfl) | rfl) | rfl <;> decide
  have htoken : ∀ c, MediaType.isToken c = true → isSpace c = false ∧ c.toNat < 128 :=
    fun c => MediaType.forall_isToken (P := fun c => isSpace c = false ∧ c.toNat < 128)
      (by decide +kernel)
  have hcore : ∀ c ∈ type ++ '/' :: subtype, isSpace c = false ∧ c.toNat < 128 := by
    intro c hc
    rcases List.mem_append.mp hc with hc | hc
    · exact htoken c (htype c hc)
    · rcases List.mem_cons.mp hc with rfl | hc
      · decide
      · exact htoken c (hsubtype c hc)
  rw [declaredType, hfront, trim_of_core (fun c hc => hspace c (hlead c hc))
    (fun c hc => (hcore c hc).1) (fun c hc => hspace c (htrail c hc)),
    toLowerCase_ascii fun c hc => (hcore c hc).2, List.map_append, List.map_cons]
  rfl

/-- A lowered token in front of a slash, where the code finds `image/`, is `image`. -/
theorem type_of_startsWithImage {type rest : List Char}
    (htype : ∀ c ∈ type, MediaType.isToken c = true)
    (h : startsWithImage (type.map Char.toLower ++ '/' :: rest) = true) :
    type.map Char.toLower = "image".toList := by
  -- lowering again changes nothing, and none of the characters is a slash
  have hlower : ∀ c, MediaType.isToken c = true →
      c.toLower.toLower = c.toLower ∧ c.toLower ≠ '/' :=
    fun c => MediaType.forall_isToken
      (P := fun c => c.toLower.toLower = c.toLower ∧ c.toLower ≠ '/') (by decide +kernel)
  have hagain : (type.map Char.toLower).map Char.toLower = type.map Char.toLower := by
    rw [List.map_map]
    exact List.map_congr_left fun c hc => (hlower c (htype c hc)).1
  have hslash : ∀ c ∈ type.map Char.toLower, decide (c ≠ '/') = true := by
    intro c hc
    obtain ⟨d, hd, rfl⟩ := List.mem_map.mp hc
    exact decide_eq_true (hlower d (htype d hd)).2
  obtain ⟨tail, htail⟩ := List.isPrefixOf_iff_prefix.mp h
  rw [List.map_append, hagain] at htail
  have hfronts := congrArg (List.takeWhile fun c : Char => decide (c ≠ '/')) htail
  rw [List.takeWhile_append_of_pos hslash, List.map_cons,
    List.takeWhile_cons_of_neg (by decide), List.append_nil] at hfronts
  exact hfronts.symm

/-- **The type test is right about one media type.**  A header of a single value that
names one, and that the test lets through, is of an image and of no SVG. -/
theorem image_of_single {contentType : String} (h : NamesOne contentType)
    (htest : isImageContentType p contentType = true) :
    ∃ t, MediaType.ofHeader contentType.toList = some t ∧ t.type = "image".toList ∧
      t.subtype ∉ ["svg+xml".toList, "svg".toList] := by
  obtain ⟨t, ht⟩ := Option.isSome_iff_exists.mp h.named
  obtain ⟨lead, type, subtype, trail, hfront, hlead, htrail, htype, hsubtype, rfl⟩ :=
    MediaType.parse_spec ht
  unfold isImageContentType at htest
  rw [declaredType_of_tokens hfront hlead htrail htype hsubtype] at htest
  dsimp only at htest
  split at htest
  case isTrue => contradiction
  case isFalse hsvg =>
  have himage : type.map Char.toLower = "image".toList := type_of_startsWithImage htype htest
  refine ⟨_, MediaType.ofHeader_of_single h.single ht ?_, himage, ?_⟩
  · intro hany
    have hstar : type.map Char.toLower = ['*'] := congrArg MediaType.Essence.type hany
    rw [himage] at hstar
    exact absurd hstar (by decide)
  · intro hmem
    apply hsvg
    have hsub : subtype.map Char.toLower = "svg+xml".toList ∨
        subtype.map Char.toLower = "svg".toList := List.mem_pair.mp hmem
    rw [himage]
    rcases hsub with hsub | hsub
    · rw [hsub]
      decide
    · rw [hsub]
      decide

/-- What the handler serves is an image, where its header names one media type. -/
theorem isImage_of_passes (h : Passes p up) (hone : NamesOne (up.contentType.getD "")) :
    IsImage up where
  ok := by simpa [Upstream.ok] using h.ok
  notRedirect := by simpa [isRedirectStatus, and_assoc] using h.notRedirect
  image := image_of_single hone h.test

variable {s : Edge} {x : Exchange} {lands : Bool}

theorem policed_plain {r : Response} (h : x.request.pathname = "/img" → r.status ≠ 200) :
    Policed I p s x (.plain r) where
  hosts := nofun
  fetches := Nat.zero_le _
  answered := nofun
  served himg hok := absurd hok (h himg)
  stored := nofun

/-- Every entry of the cache is made of what an upstream has answered. -/
def Clean (I : Upstream → Prop) (s : Edge) : Prop :=
  ∀ entry ∈ s.cache, ∃ up ∈ s.answers, Serves I up entry.2

theorem policed_cached (hclean : Clean I s) {key : String} {cached : Response}
    (hfind : s.find key = some cached) :
    Policed I p s x (.plain (withMethod cached x.request.method)) where
  hosts := nofun
  fetches := Nat.zero_le _
  answered := nofun
  served _ _ := by
    obtain ⟨entry, hentry, rfl⟩ := Option.map_eq_some_iff.mp hfind
    obtain ⟨up, hup, hserves⟩ := hclean entry (List.mem_of_find?_eq_some hentry)
    exact ⟨up, hup, hserves.withMethod _⟩
  stored := nofun

/-- A response of the handler's own, after the redirects. -/
theorem policed_error {result : List Url × Except Failure Upstream} {r : Response}
    (h : Followed p x.env.allowedSourceHosts x.fetch result) (hstatus : r.status ≠ 200)
    {answer : Option Upstream} (hanswer : ∀ up, answer = some up → result.2 = .ok up) :
    Policed I p s x ⟨result.1, answer, r, none⟩ where
  hosts := h.hosts
  fetches := h.fetches
  answered up hup := (h.answered up (hanswer up hup)).2
  served _ hok := absurd hok hstatus
  stored := nofun

theorem status_errorResponse (status : Nat) (message : String) :
    (errorResponse status message).status = status := rfl

theorem policed_serve {result : List Url × Except Failure Upstream}
    (hmeets : (Event.exchange x lands).Meets p I)
    (h : Followed p x.env.allowedSourceHosts x.fetch result) (hok : result.2 = .ok up)
    (key : String) : Policed I p s x (serve p x.request.method key result.1 up) := by
  have hanswer : ∀ up', some up = some up' → result.2 = .ok up' := by
    rintro up' ⟨⟩
    exact hok
  obtain ⟨hstatus, hfetched⟩ := h.answered up hok
  have hbad : (errorResponse 502 ("Upstream " ++ toString up.status)).status ≠ 200 := by
    rw [status_errorResponse]
    decide
  unfold serve
  split
  · exact policed_error h hbad hanswer
  · next raw hbody =>
      split
      · exact policed_error h hbad hanswer
      · next hsuccess =>
          dsimp only
          split
          · exact policed_error h (by decide) hanswer
          · next htype =>
              split
              · exact policed_error h (by decide) hanswer
              · rw [Bool.not_eq_true', Bool.not_eq_false] at hsuccess htype
                obtain ⟨hop, url, -, hfetch⟩ := hfetched
                have himage : I up := hmeets hop url up hfetch ⟨hsuccess, hstatus, htype⟩
                refine ⟨h.hosts, h.fetches, ?_, fun _ _ => ?_, ?_⟩
                · rintro up' ⟨⟩
                  exact (h.answered up hok).2
                · exact ⟨up, List.mem_append_left _ List.mem_cons_self,
                    serves_finalizeImage himage hbody _⟩
                · rintro key' r ⟨⟩
                  exact ⟨up, rfl, serves_finalizeImage himage hbody "GET"⟩

theorem policed_fetchImage (hmeets : (Event.exchange x lands).Meets p I) (hclean : Clean I s)
    (hpermitted : Permitted p x.env.allowedSourceHosts url) :
    Policed I p s x (fetchImage p s.find x url) := by
  have hfollowed : Followed p x.env.allowedSourceHosts x.fetch _ :=
    followed_of_permitted hpermitted
  unfold fetchImage
  dsimp only
  split
  · next cached hfind => exact policed_cached hclean hfind
  · split
    · exact policed_plain fun _ => by decide
    · split
      · next status message herror =>
          exact policed_error hfollowed (hfollowed.failed _ _ herror) nofun
      · exact policed_error hfollowed (by decide) nofun
      · next up hok => exact policed_serve hmeets hfollowed hok _

/-- One exchange, with a cache that is made of what may be served. -/
theorem policed_handle (hmeets : (Event.exchange x lands).Meets p I) (hclean : Clean I s) :
    Policed I p s x (handle p s.find x) := by
  unfold handle
  split
  · exact policed_plain fun _ => by decide
  · split
    · exact policed_plain fun _ => by decide
    · split
      · next himg =>
          split
          · exact policed_plain fun h => absurd h himg
          · exact policed_plain fun h => absurd h himg
      · split
        · exact policed_plain fun _ => by decide
        · split
          · exact policed_plain fun _ => by decide
          · split
            · exact policed_plain fun _ => by decide
            · next hhttp =>
                split
                · exact policed_plain fun _ => by decide
                · next hhost =>
                    split
                    · exact policed_plain fun _ => by decide
                    · rw [Bool.not_eq_true', Bool.not_eq_false] at hhttp hhost
                      exact policed_fetchImage hmeets hclean (permitted_of_allowed hhttp hhost)

/-! ### Every run -/

theorem clean_step (hclean : Clean I s) (e : Event) (hmeets : e.Meets p I) :
    Clean I (s.step p e) := by
  cases e with
  | exchange x lands =>
      have hpoliced : Policed I p s x (handle p s.find x) := policed_handle hmeets hclean
      have hold : ∀ entry ∈ s.cache, ∃ up ∈ (handle p s.find x).answer.toList ++ s.answers,
          Serves I up entry.2 := by
        intro entry hentry
        obtain ⟨up, hup, hserves⟩ := hclean entry hentry
        exact ⟨up, List.mem_append_right _ hup, hserves⟩
      intro entry hentry
      simp only [Edge.step] at hentry ⊢
      split at hentry
      · rcases List.mem_append.mp hentry with hnew | hentry
        · obtain ⟨key, r⟩ := entry
          obtain ⟨up, hanswer, hserves⟩ := hpoliced.stored key r (Option.mem_toList.mp hnew)
          rw [hanswer]
          exact ⟨up, List.mem_cons_self, hserves⟩
        · exact hold entry hentry
      · exact hold entry hentry
  | evict key => exact fun entry hentry => hclean entry (List.mem_of_mem_filter hentry)

/-- Every run, where whatever may be served is as `I` asks. -/
theorem policed_run {events : List Event} (hevents : ∀ e ∈ events, e.Meets p I)
    (hx : (Event.exchange x lands).Meets p I) :
    Policed I p (Machine.run (Edge.step p) ⟨[], []⟩ events) x
      (handle p (Machine.run (Edge.step p) ⟨[], []⟩ events).find x) := by
  apply policed_handle hx
  have hempty : Clean I ⟨[], []⟩ := fun _ h => absurd h List.not_mem_nil
  have hstep : ∀ (s : Edge) (e : Event), Clean I s → e.Meets p I → Clean I (s.step p e) :=
    fun _ e hclean hmeets => clean_step hclean e hmeets
  exact Machine.run_invariant_of_each hstep hempty (Machine.eachStep_of_forall hevents)

/-- **Whatever the upstreams answer**, the handler fetches from permitted hosts, follows
a bounded number of redirects, passes on no more than the cap or what was declared, and
serves and stores only what its own type test lets through. -/
theorem policed_passes (p : Platform) (events : List Event) (x : Exchange) :
    Policed (Passes p) p (Machine.run (Edge.step p) ⟨[], []⟩ events) x
      (handle p (Machine.run (Edge.step p) ⟨[], []⟩ events).find x) := by
  have hany : ∀ e : Event, e.Meets p (Passes p) := by
    intro e
    cases e with
    | exchange x lands => exact fun _ _ _ _ hpasses => hpasses
    | evict key => exact trivial
  have hlast : (Event.exchange x true).Meets p (Passes p) := hany _
  exact policed_run (fun e _ => hany e) hlast

/-- **The proxy fetches and serves what its policy allows**, over every run in which
each answer that it would serve names one media type.  The hosts, the number of fetches
and the bytes hold of every run (`policed_passes`); that what is served is an image and
no SVG is what takes the condition, since the type test reads a list of media types as
one. -/
theorem policed (p : Platform) (events : List Event) (x : Exchange)
    (hevents : ∀ e ∈ events, e.Plain p) (hx : (Event.exchange x true).Plain p) :
    Policed IsImage p (Machine.run (Edge.step p) ⟨[], []⟩ events) x
      (handle p (Machine.run (Edge.step p) ⟨[], []⟩ events).find x) := by
  have himage : ∀ e : Event, e.Plain p → e.Meets p IsImage := by
    intro e hplain
    cases e with
    | exchange x lands =>
        intro hop url up hfetch hpasses
        exact isImage_of_passes hpasses (hplain hop url up hfetch hpasses)
    | evict key => exact trivial
  exact policed_run (fun e he => himage e (hevents e he)) (himage _ hx)

end Policy

/-! ## A list of media types

What the handler takes for one type, and a client for several. -/

/-- A platform that knows one image. -/
def oneImage : Platform where
  parseUrl text :=
    if text = "https://cdn.test/1" then
      some ⟨"https://cdn.test/1", "https://cdn.test", "https:", "cdn.test"⟩
    else none
  resolve _ _ := none
  lowerBeyond _ c _ := [c]
  encodeURIComponent text := text

/-- A request for that image, whose host answers with this header. -/
def serving (contentType : String) : Exchange where
  request := ⟨"GET", "https://img.test", "/img", some "https://cdn.test/1", none, none⟩
  env := ⟨some "cdn.test", none⟩
  fetch _ _ := some ⟨200, none, some contentType, none, none, some ⟨[[60]], false⟩⟩
  success := true

/-- One media type is judged as a client judges it. -/
theorem policed_png :
    Policed IsImage oneImage (Machine.run (Edge.step oneImage) ⟨[], []⟩ [])
      (serving "image/png")
      (handle oneImage (Machine.run (Edge.step oneImage) ⟨[], []⟩ []).find
        (serving "image/png")) := by
  apply policed oneImage [] (serving "image/png")
  · intro e he
    exact absurd he List.not_mem_nil
  · intro hop url up hfetch _
    cases hfetch
    exact ⟨by decide, by decide⟩

/-- Of two media types the test sees the first and the client takes the last: an SVG is
served, and stored. -/
theorem not_policed_listed :
    ¬Policed IsImage oneImage (Machine.run (Edge.step oneImage) ⟨[], []⟩ [])
      (serving "image/png, image/svg+xml")
      (handle oneImage (Machine.run (Edge.step oneImage) ⟨[], []⟩ []).find
        (serving "image/png, image/svg+xml")) := by
  intro h
  obtain ⟨up, hup, hserves⟩ := h.served rfl (by decide)
  rcases List.mem_append.mp hup with hanswer | hold
  · obtain ⟨hop, url, -, hfetch⟩ := h.answered up (Option.mem_toList.mp hanswer)
    cases hfetch
    obtain ⟨t, ht, -, hsubtype⟩ := hserves.image.image
    have hsvg : MediaType.ofHeader "image/png, image/svg+xml".toList =
        some ⟨"image".toList, "svg+xml".toList⟩ := by decide
    cases hsvg.symm.trans ht
    exact hsubtype List.mem_cons_self
  · exact absurd hold List.not_mem_nil

end Komika.Worker.ImageProxy
