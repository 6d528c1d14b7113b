import OrderbookClient.Http1Parser
import OrderbookClient.QueryParams
import OrderbookClient.RequestHead

/-! # Requests: `HttpRequest`

The request of an upgrade: it is made from a URL, gets its headers, and is dumped.  A client has
one request for all its URLs: a redirect changes the URL, and what the new URL does not set stays.

* `parseUrl_eq`: what a URL sets.
* `parseUrl_mem`: what it leaves; `Fresh.parseUrl_host`: so the first URL gives the request its `Host`.
* `Clean`: a request made from a URL without line ends has none but its own; `Clean.dump`: its text is
  that of a head. -/

namespace OrderbookClient.Hv

open Json (Bytes)

/-! ### The code -/

/-- `StringCaseLess`. -/
def caseOrder (key : Bytes) : List ℕ := (caseKey (cString (cStr key))).map UInt8.toNat

/-- `http_headers`, in their order. -/
abbrev RequestHeaders := SortedMap caseOrder Bytes

/-- `HttpRequest`, as far as a `GET` without content uses it. -/
structure HttpRequest where
  httpMajor : ℕ
  httpMinor : ℕ
  headers : RequestHeaders
  url : Bytes
  scheme : Bytes
  host : Bytes
  port : ℕ
  path : Bytes
  queryParams : QueryParams
  redirect : Bool
  proxy : Bool

def defaultHttpPort : ℕ := 80

def defaultHttpsPort : ℕ := 443

def defaultHttpUserAgent : Bytes :=
  ascii "Mozilla/5.0 " ++ ascii "(Windows NT 10.0; WOW64) " ++ ascii "AppleWebKit/537.36 " ++
    ascii "(KHTML, like Gecko) " ++ ascii "Chrome/63.0.3239.132 " ++ ascii "Safari/537.36"

/-- `%d`, of a number that is not negative. -/
def decimal (n : ℕ) : Bytes := (Nat.toDigits 10 n).map (fun c => c.toNat.toUInt8)

/-- `url.substr(off, len)`. -/
def substr (url : Bytes) (field : HurlField) : Bytes := (url.drop field.off).take field.len

/-- What a `const char*` to the string sees. -/
abbrev chars (s : Bytes) : Bytes := cString (cStr s)

namespace HttpRequest

/-- The constructor, with `Init`. -/
def new : HttpRequest where
  httpMajor := 1
  httpMinor := 1
  headers := ((SortedMap.empty caseOrder Bytes).insert (ascii "User-Agent") defaultHttpUserAgent).insert
    (ascii "Accept") (ascii "*/*")
  url := []
  scheme := ascii "http"
  host := ascii "127.0.0.1"
  port := defaultHttpPort
  path := ascii "/"
  queryParams := .empty byteKey Bytes
  redirect := true
  proxy := false

/-- `headers[key] = value`. -/
def setHeader (r : HttpRequest) (key value : Bytes) : HttpRequest :=
  { r with headers := r.headers.insert key value }

/-- `GetHeader`. -/
def getHeader (r : HttpRequest) (key : Bytes) : Bytes := (r.headers.find key).getD []

/-- `Host`. -/
def hostHeader (r : HttpRequest) : Bytes := (r.headers.find (ascii "Host")).getD r.host

/-- Whether a host needs no port behind it. -/
def isDefaultPort (port : ℕ) : Prop :=
  port = 0 ∨ port = defaultHttpPort ∨ port = defaultHttpsPort

instance (port : ℕ) : Decidable (isDefaultPort port) := inferInstanceAs (Decidable (_ ∨ _))

/-- `%s:%d`. -/
def hostPort (host : Bytes) (port : ℕ) : Bytes := host ++ ascii ":" ++ decimal port

/-- `scheme://host:port/path`, for what the URL has of it. -/
def completeUrl (r : HttpRequest) : Bytes :=
  r.scheme ++ ascii "://" ++
    (if r.url ≠ [] ∧ (cStr r.url).head? ≠ some (byte '/') then r.url
    else if isDefaultPort r.port then r.hostHeader
    else hostPort (chars r.host) r.port) ++
    (if r.url ≠ [] ∧ (cStr r.url).head? = some (byte '/') then r.url
    else if 1 < r.path.length ∧ (cStr r.path).head? = some (byte '/') then r.path
    else if r.url = [] then ascii "/"
    else [])

/-- `DumpUrl`. -/
def dumpUrl (r : HttpRequest) : HttpRequest :=
  let r :=
    if r.url ≠ [] ∧ (cStr r.url).head? ≠ some (byte '/') ∧
        strstr (chars r.url) (ascii "://") ≠ none then r
    else { r with url := r.completeUrl }
  if strchr (chars r.url) (byte '?') = none ∧ r.queryParams.entries ≠ [] then
    { r with url := r.url ++ ascii "?" ++ dumpQueryParams r.queryParams }
  else r

/-- `FillHost`. -/
def fillHost (r : HttpRequest) (host : Bytes) (port : ℕ) : HttpRequest :=
  if r.headers.find (ascii "Host") = none then
    r.setHeader (ascii "Host") (if isDefaultPort port then host else hostPort host port)
  else r

/-- Where a URL points to. -/
def setOrigin (r : HttpRequest) (scheme_ host_ : Bytes) (port_ : ℕ) : HttpRequest :=
  (if r.proxy then r else { r with scheme := scheme_, host := host_, port := port_ }).fillHost
    (chars host_) port_

def setPath (r : HttpRequest) (field : HurlField) : HttpRequest :=
  if 0 < field.len then { r with path := r.url.drop field.off } else r

def setQuery (memory : ℕ → UInt8) (r : HttpRequest) (field : HurlField) : HttpRequest :=
  if 0 < field.len then
    { r with queryParams := parseQueryParams memory ((chars r.url).drop field.off) r.queryParams }
  else r

/-- `ParseUrl`, from the fields of the URL on. -/
def storeUrl (memory : ℕ → UInt8) (r : HttpRequest) (parser : Hurl) : HttpRequest :=
  let scheme_ := substr r.url parser.scheme
  let host_ := if 0 < parser.host.len then substr r.url parser.host else r.host
  let port_ :=
    if parser.port ≠ 0 then parser.port.toNat
    else if chars scheme_ ≠ ascii "https" then defaultHttpPort
    else defaultHttpsPort
  ((r.setOrigin scheme_ host_ port_).setPath parser.path).setQuery memory parser.query

/-- `ParseUrl`.  `memory` is what is behind the URL. -/
def parseUrl (memory : ℕ → UInt8) (r : HttpRequest) : HttpRequest :=
  let r := r.dumpUrl
  r.storeUrl memory (hvParseUrl (chars r.url)).2

/-- `DumpHeaders`.  Without content there is no `Content-Type` and no `Content-Length` to fill in. -/
def dumpHeaders (r : HttpRequest) : Bytes :=
  r.headers.entries.flatMap (fun header => header.1 ++ ascii ": " ++ header.2 ++ [cr, lf])

/-- `Dump(true, true)`. -/
def dump (memory : ℕ → UInt8) (r : HttpRequest) : HttpRequest × Bytes :=
  let r := r.parseUrl memory
  (r, ascii "GET " ++ chars (if r.proxy then r.url else r.path) ++ ascii " HTTP/" ++
    decimal r.httpMajor ++ ascii "." ++ decimal r.httpMinor ++ [cr, lf] ++ r.dumpHeaders ++ [cr, lf])

end HttpRequest

/-! ### What a URL sets -/

namespace Url

/-- The host of a URL, or that of a new request. -/
def hostOr (u : Url) : Bytes := if u.host = [] then HttpRequest.new.host else u.host

/-- The `Host` of a URL: the port is there if it is none of the default ones. -/
def hostHeader (u : Url) : Bytes :=
  if HttpRequest.isDefaultPort u.portNumber.toNat then u.hostOr
  else HttpRequest.hostPort u.hostOr u.portNumber.toNat

end Url

namespace HttpRequest

/-- A URL that is too long sets nothing but the origin. -/
theorem parseUrl_long {memory : ℕ → UInt8} {r : HttpRequest}
    (hlen : 65535 < (chars r.dumpUrl.url).length) :
    r.parseUrl memory = r.dumpUrl.setOrigin [] r.dumpUrl.host defaultHttpPort := by
  have hscheme : substr r.dumpUrl.url ⟨0, 0⟩ = [] := List.take_zero
  have hport : chars [] ≠ ascii "https" := by simp [chars, cString, cStr, ascii]
  unfold parseUrl hvParseUrl storeUrl
  dsimp only
  rw [if_pos hlen]
  simp only [Hurl.zero, hscheme, lt_irrefl, if_false, ne_eq, not_true_eq_false, if_pos hport, setPath,
    setQuery]

@[simp] theorem dumpUrl_headers (r : HttpRequest) : r.dumpUrl.headers = r.headers := by
  unfold dumpUrl
  dsimp only
  split_ifs <;> rfl

theorem setPath_headers (r : HttpRequest) (field : HurlField) :
    (r.setPath field).headers = r.headers := by
  unfold setPath
  split_ifs <;> rfl

theorem setQuery_headers (memory : ℕ → UInt8) (r : HttpRequest) (field : HurlField) :
    (r.setQuery memory field).headers = r.headers := by
  unfold setQuery
  split_ifs <;> rfl

/-- A header that is there is there behind `FillHost`, the `Host` too. -/
theorem fillHost_mem {r : HttpRequest} {header : Bytes × Bytes} (h : header ∈ r.headers.entries)
    (host : Bytes) (port : ℕ) : header ∈ (r.fillHost host port).headers.entries := by
  unfold fillHost
  by_cases hnone : r.headers.find (ascii "Host") = none
  · rw [if_pos hnone]
    exact SortedMap.mem_insertEntry_of_ne h (SortedMap.find_eq_none_iff.mp hnone header h)
  · rwa [if_neg hnone]

theorem setOrigin_headers (r : HttpRequest) (scheme_ host_ : Bytes) (port_ : ℕ) :
    ∃ d : HttpRequest, d.headers = r.headers ∧
      r.setOrigin scheme_ host_ port_ = d.fillHost (chars host_) port_ := by
  unfold setOrigin
  refine ⟨_, ?_, rfl⟩
  split_ifs <;> rfl

/-- **No URL changes a header that is there.** -/
theorem parseUrl_mem {r : HttpRequest} {header : Bytes × Bytes} (memory : ℕ → UInt8)
    (h : header ∈ r.headers.entries) : header ∈ (r.parseUrl memory).headers.entries := by
  unfold parseUrl storeUrl
  dsimp only
  rw [setQuery_headers, setPath_headers]
  obtain ⟨d, hd, heq⟩ := setOrigin_headers r.dumpUrl _ _ _
  rw [heq]
  apply fillHost_mem
  rw [hd, dumpUrl_headers]
  exact h

/-- No part of the request ends a line. -/
structure Clean (r : HttpRequest) : Prop where
  proxy : r.proxy = false
  version : r.httpMajor = 1 ∧ r.httpMinor = 1
  url : OneLine r.url
  scheme : OneLine r.scheme
  host : OneLine r.host
  path : OneLine r.path
  headers : ∀ header ∈ r.headers.entries, HeaderLike header

variable {r : HttpRequest}

theorem oneLine_chars {s : Bytes} (h : OneLine s) : OneLine (chars s) := by
  intro c hc
  obtain hc | hc := List.mem_append.mp ((List.takeWhile_prefix _).subset hc)
  · exact h c hc
  · obtain rfl := List.mem_singleton.mp hc
    decide

theorem oneLine_decimal (n : ℕ) : OneLine (decimal n) := by
  intro c hc
  obtain ⟨d, hd, rfl⟩ := List.mem_map.mp hc
  have hdigit := Nat.isDigit_of_mem_toDigits (by decide) le_rfl hd
  rw [Char.isDigit_iff_toNat] at hdigit
  have hnat : d.toNat.toUInt8.toNat = d.toNat % 256 := rfl
  have hdigits : '0'.toNat = 48 ∧ '9'.toNat = 57 := ⟨rfl, rfl⟩
  constructor
  · intro hcr
    rw [hcr] at hnat
    have hval : (cr : UInt8).toNat = 13 := rfl
    omega
  · intro hlf
    rw [hlf] at hnat
    have hval : (lf : UInt8).toNat = 10 := rfl
    omega

theorem oneLine_dumpQueryParams (params : QueryParams) : OneLine (dumpQueryParams params) := by
  have hescape : ∀ s, OneLine (escape s) := fun s c hc => (mem_escape c hc).2.2.2.2
  have hamp : OneLine [byte '&'] := by simp [OneLine, byte, cr, lf]
  have heq : OneLine [byte '='] := by simp [OneLine, byte, cr, lf]
  have hall : ∀ (pairs : List (Bytes × Bytes)) (query : Bytes), OneLine query →
      OneLine (pairs.foldl (fun query pair => (if query ≠ [] then query ++ [byte '&'] else query) ++
        escape pair.1 ++ [byte '='] ++ escape pair.2) query) := by
    intro pairs
    induction pairs with
    | nil => exact fun query h => h
    | cons pair pairs ih =>
        intro query h
        rw [List.foldl_cons]
        apply ih
        split_ifs
        · simp only [oneLine_append]
          exact ⟨⟨⟨⟨h, hamp⟩, hescape _⟩, heq⟩, hescape _⟩
        · simp only [oneLine_append]
          exact ⟨⟨⟨h, hescape _⟩, heq⟩, hescape _⟩
  exact hall params.entries [] oneLine_nil

theorem Clean.setHeader (h : r.Clean) {key value : Bytes} (hheader : HeaderLike (key, value)) :
    (r.setHeader key value).Clean where
  proxy := h.proxy
  version := h.version
  url := h.url
  scheme := h.scheme
  host := h.host
  path := h.path
  headers := by
    rintro ⟨name, v⟩ hmem
    obtain hmem | ⟨rfl, rfl | ⟨⟨name', v'⟩, hy, rfl⟩⟩ := SortedMap.mem_insertEntry _ hmem
    · exact h.headers _ hmem
    · exact hheader
    · have hold := h.headers _ hy
      exact ⟨hold.name_ne, hold.name, hheader.value⟩

theorem Clean.hostHeader (h : r.Clean) : OneLine r.hostHeader := by
  unfold HttpRequest.hostHeader SortedMap.find
  cases hfind : r.headers.entries.find? _ with
  | none => exact h.host
  | some header => exact (h.headers header (List.mem_of_find?_eq_some hfind)).value

theorem oneLine_hostPort {host : Bytes} (h : OneLine host) (port : ℕ) :
    OneLine (hostPort host port) := by
  have hcolon : OneLine (ascii ":") := by simp [OneLine, ascii, cr, lf]
  unfold hostPort
  simp only [oneLine_append]
  exact ⟨⟨h, hcolon⟩, oneLine_decimal port⟩

theorem Clean.fillHost (h : r.Clean) {host : Bytes} (hhost : OneLine host) (port : ℕ) :
    (r.fillHost host port).Clean := by
  have hname : ascii "Host" ≠ [] ∧ OneLine (ascii "Host") ∧ byte ':' ∉ ascii "Host" :=
    by simp [OneLine, ascii, byte, cr, lf]
  unfold HttpRequest.fillHost
  split_ifs
  · exact h.setHeader ⟨hname.1, hname.2, hhost⟩
  · exact h.setHeader ⟨hname.1, hname.2, oneLine_hostPort hhost port⟩
  · exact h

theorem Clean.completeUrl (h : r.Clean) : OneLine r.completeUrl := by
  have hsep : OneLine (ascii "://") := by simp [OneLine, ascii, cr, lf]
  have hslash : OneLine (ascii "/") := by simp [OneLine, ascii, cr, lf]
  unfold HttpRequest.completeUrl
  simp only [oneLine_append]
  refine ⟨⟨⟨h.scheme, hsep⟩, ?_⟩, ?_⟩
  · split_ifs
    · exact h.url
    · exact h.hostHeader
    · exact oneLine_hostPort (oneLine_chars h.host) r.port
  · split_ifs
    · exact h.url
    · exact h.path
    · exact hslash
    · exact oneLine_nil

theorem Clean.setUrl (h : r.Clean) {url : Bytes} (hurl : OneLine url) :
    { r with url := url }.Clean := ⟨h.proxy, h.version, hurl, h.scheme, h.host, h.path, h.headers⟩

theorem Clean.dumpUrl (h : r.Clean) : r.dumpUrl.Clean := by
  have hmark : OneLine (ascii "?") := by simp [OneLine, ascii, cr, lf]
  have hquery : ∀ {d : HttpRequest}, d.Clean → (if strchr (chars d.url) (byte '?') = none ∧
      d.queryParams.entries ≠ [] then { d with url := d.url ++ ascii "?" ++ dumpQueryParams d.queryParams }
        else d).Clean := by
    intro d hd
    split_ifs
    · apply hd.setUrl
      simp only [oneLine_append]
      exact ⟨⟨hd.url, hmark⟩, oneLine_dumpQueryParams _⟩
    · exact hd
  unfold HttpRequest.dumpUrl
  apply hquery
  split_ifs
  · exact h
  · exact h.setUrl h.completeUrl

theorem Clean.setOrigin (h : r.Clean) {scheme_ host_ : Bytes} (hscheme : OneLine scheme_)
    (hhost : OneLine host_) (port_ : ℕ) : (r.setOrigin scheme_ host_ port_).Clean := by
  unfold HttpRequest.setOrigin
  rw [if_neg (by simp [h.proxy])]
  have hset : Clean { r with scheme := scheme_, host := host_, port := port_ } :=
    ⟨h.proxy, h.version, h.url, hscheme, hhost, h.path, h.headers⟩
  exact hset.fillHost (oneLine_chars hhost) port_

theorem Clean.setPath (h : r.Clean) (field : HurlField) : (r.setPath field).Clean := by
  unfold HttpRequest.setPath
  split_ifs
  · exact ⟨h.proxy, h.version, h.url, h.scheme, h.host, h.url.of_subset (List.drop_subset _ _), h.headers⟩
  · exact h

theorem Clean.setQuery (h : r.Clean) (memory : ℕ → UInt8) (field : HurlField) :
    (r.setQuery memory field).Clean := by
  unfold HttpRequest.setQuery
  split_ifs
  · exact ⟨h.proxy, h.version, h.url, h.scheme, h.host, h.path, h.headers⟩
  · exact h

theorem Clean.substr (h : r.Clean) (field : HurlField) : OneLine (substr r.url field) :=
  h.url.of_subset (List.Subset.trans (List.take_subset _ _) (List.drop_subset _ _))

/-- **Whatever the parser of URLs finds.** -/
theorem Clean.storeUrl (h : r.Clean) (memory : ℕ → UInt8) (parser : Hurl) :
    (r.storeUrl memory parser).Clean := by
  have hhost : OneLine (if 0 < parser.host.len then Hv.substr r.url parser.host else r.host) := by
    split_ifs
    · exact h.substr _
    · exact h.host
  exact (((h.setOrigin (h.substr _) hhost _).setPath _).setQuery memory _)

theorem Clean.parseUrl (h : r.Clean) (memory : ℕ → UInt8) : (r.parseUrl memory).Clean :=
  h.dumpUrl.storeUrl memory _

/-! ### Dumping -/

/-- The head of the request. -/
def head (r : HttpRequest) : RequestHead := ⟨ascii "GET", chars r.path, r.headers.entries⟩

theorem Clean.head (h : r.Clean) : r.head.WellFormed where
  method := by
    have hmethod : OneLine (ascii "GET") ∧ byte ' ' ∉ ascii "GET" := by
      simp [OneLine, ascii, byte, cr, lf]
    exact hmethod
  target := oneLine_chars h.path
  headers := h.headers

theorem dump_fst (memory : ℕ → UInt8) : (r.dump memory).1 = r.parseUrl memory := by
  simp only [HttpRequest.dump]

/-- **A request is dumped as its head.** -/
theorem Clean.dump (h : r.Clean) (memory : ℕ → UInt8) :
    (r.dump memory).2 = (r.dump memory).1.head.text := by
  have hparsed := h.parseUrl memory
  rw [dump_fst]
  have hversion : ascii " HTTP/" ++ decimal 1 ++ ascii "." ++ decimal 1 = RequestHead.version := by
    decide +kernel
  have hmethod : ascii "GET " = ascii "GET" ++ ascii " " := rfl
  have hheaders (p : HttpRequest) :
      p.dumpHeaders = p.headers.entries.flatMap RequestHead.headerText := rfl
  unfold HttpRequest.dump
  dsimp only
  generalize r.parseUrl memory = p at hparsed ⊢
  rw [hparsed.version.1, hparsed.version.2, if_neg (by simp [hparsed.proxy]), hheaders, hmethod]
  unfold RequestHead.text HttpRequest.head
  dsimp only
  rw [← hversion]
  simp only [List.append_assoc]

end HttpRequest

end OrderbookClient.Hv
