import OrderbookClient.HttpParser

/-! # URLs: `hv_parse_url`

`hv_parse_url` notes where the parts of a URL lie, by the first separator it finds for each.

* `hvParseUrl_eq`: the parts lie where `Url.parse` cuts them off; `portNumber_digits`: the number of a
  port is the one its digits denote.
* `text_parse`, `parse_text`: so every string is taken apart into the parts of one URL, and a URL
  into the parts it was put together from. -/

namespace OrderbookClient.Hv

open Json (Bytes)

/-! ### String functions -/

/-- `strstr`, as an offset. -/
def strstr : Bytes → Bytes → Option ℕ
  | [], sub => if sub = [] then some 0 else none
  | c :: s, sub => if sub.isPrefixOf (c :: s) then some 0 else (strstr s sub).map (· + 1)

/-- `strchr`, as an offset. -/
def strchr (s : Bytes) (c : UInt8) : Option ℕ := s.findIdx? (· == c)

/-- `hv_strnchr`, as an offset. -/
def hvStrnchr (s : Bytes) (c : UInt8) (n : ℕ) : Option ℕ := strchr (s.take n) c

/-! ### The code -/

/-- One of `fields`. -/
structure HurlField where
  off : ℕ
  len : ℕ
  deriving DecidableEq, Repr

/-- `hurl_t`. -/
structure Hurl where
  scheme : HurlField
  username : HurlField
  password : HurlField
  host : HurlField
  portField : HurlField
  path : HurlField
  query : HurlField
  fragment : HurlField
  port : UInt16
  deriving DecidableEq, Repr

/-- The zeroes of `memset`. -/
def Hurl.zero : Hurl := ⟨⟨0, 0⟩, ⟨0, 0⟩, ⟨0, 0⟩, ⟨0, 0⟩, ⟨0, 0⟩, ⟨0, 0⟩, ⟨0, 0⟩, ⟨0, 0⟩, 0⟩

/-- `user:pswd`, up to the `@` at `pos`. -/
def parseUser (strURL : Bytes) (u : Hurl) (user pos : ℕ) : Hurl :=
  match (hvStrnchr (strURL.drop user) (byte ':') (pos - user)).map (user + ·) with
  | some pswd => { u with
      password := ⟨pswd + 1, pos - pswd - 1⟩
      username := ⟨user, pswd - user⟩ }
  | none => { u with username := ⟨user, pos - user⟩ }

/-- A turn of the loop under `atoi`.  A `char` has a sign. -/
def portStep (port : UInt16) (c : UInt8) : UInt16 := port * 10 + (c.toInt8.toInt16.toUInt16 - 48)

/-- `host:port`, up to `ep`. -/
def parsePort (strURL : Bytes) (u : Hurl) (host ep : ℕ) : Hurl :=
  match (hvStrnchr (strURL.drop host) (byte ':') (ep - host)).map (host + ·) with
  | some port => { u with
      portField := ⟨port + 1, ep - port - 1⟩
      port := ((strURL.drop (port + 1)).take (ep - port - 1)).foldl portStep 0
      host := ⟨host, port - host⟩ }
  | none => { u with
      port := if 0 < u.scheme.len ∧ (ascii "https://").isPrefixOf strURL then 443 else 80
      host := ⟨host, ep - host⟩ }

/-- `user:pswd@host:port`, from `sp` to `ep`. -/
def parseAuthority (strURL : Bytes) (u : Hurl) (sp ep : ℕ) : Hurl :=
  match (hvStrnchr (strURL.drop sp) (byte '@') (ep - sp)).map (sp + ·) with
  | some pos => parsePort strURL (parseUser strURL u sp pos) (pos + 1) ep
  | none => parsePort strURL u sp ep

/-- `/path?query#fragment`, from `sp` on. -/
def parsePath (strURL : Bytes) (u : Hurl) (sp : ℕ) : Hurl :=
  let ep := ((strchr (strURL.drop sp) (byte '?')).map (sp + ·)).getD strURL.length
  let u := { u with path := ⟨sp, ep - sp⟩ }
  if ep = strURL.length then u
  else
    let sp := ep + 1
    let ep := ((strchr (strURL.drop sp) (byte '#')).map (sp + ·)).getD strURL.length
    let u := { u with query := ⟨sp, ep - sp⟩ }
    if ep = strURL.length then u
    else { u with fragment := ⟨ep + 1, strURL.length - (ep + 1)⟩ }

/-- `hv_parse_url`, on the characters of a C string. -/
def hvParseUrl (strURL : Bytes) : ℤ × Hurl :=
  if 65535 < strURL.length then (-2, .zero)
  else
    -- scheme://
    let ep := strstr strURL (ascii "://")
    let u := { Hurl.zero with scheme := ⟨0, ep.getD 0⟩ }
    let sp := (ep.map (· + 3)).getD 0
    -- user:pswd@host:port
    let ep := ((strchr (strURL.drop sp) (byte '/')).map (sp + ·)).getD strURL.length
    let u := parseAuthority strURL u sp ep
    if ep = strURL.length then (0, u) else (0, parsePath strURL u ep)

/-! ### The parts of a URL -/

/-- What is in front of the first `c`, and what is behind it if there is one. -/
def cutAt (c : UInt8) (s : Bytes) : Bytes × Option Bytes :=
  (s.takeWhile (· != c), (s.dropWhile (· != c)).tail?)

/-- A part behind its separator. -/
def behind (c : UInt8) (part : Option Bytes) : Bytes := part.elim [] (fun s => c :: s)

theorem cutAt_of_append {c : UInt8} {a b : Bytes} (h : c ∉ a) :
    cutAt c (a ++ c :: b) = (a, some b) := by
  have hall : ∀ x ∈ a, (x != c) = true := by
    intro x hx
    rw [bne_iff_ne]
    rintro rfl
    exact h hx
  unfold cutAt
  rw [List.takeWhile_append_of_pos hall, List.dropWhile_append_of_pos hall,
    List.takeWhile_cons_of_neg (by simp), List.dropWhile_cons_of_neg (by simp)]
  simp

theorem cutAt_of_not_mem {c : UInt8} {s : Bytes} (h : c ∉ s) : cutAt c s = (s, none) := by
  have hall : ∀ x ∈ s, (x != c) = true := by
    intro x hx
    rw [bne_iff_ne]
    rintro rfl
    exact h hx
  unfold cutAt
  rw [List.takeWhile_eq_self_iff.mpr hall, List.dropWhile_eq_nil_iff.mpr hall]
  rfl

theorem cutAt_cases (c : UInt8) (s : Bytes) : (c ∉ s ∧ cutAt c s = (s, none)) ∨
    ∃ a b, s = a ++ c :: b ∧ c ∉ a ∧ cutAt c s = (a, some b) := by
  by_cases h : c ∈ s
  · obtain ⟨a, b, hs, ha⟩ := List.eq_append_cons_of_mem h
    exact .inr ⟨a, b, hs, ha, hs ▸ cutAt_of_append ha⟩
  · exact .inl ⟨h, cutAt_of_not_mem h⟩

theorem behind_cutAt {c : UInt8} (s : Bytes) : (cutAt c s).1 ++ behind c (cutAt c s).2 = s := by
  obtain ⟨-, hcut⟩ | ⟨a, b, rfl, -, hcut⟩ := cutAt_cases c s
  · rw [hcut]
    exact List.append_nil s
  · rw [hcut]
    rfl

theorem cutAt_behind {c : UInt8} {a : Bytes} (h : c ∉ a) (part : Option Bytes) :
    cutAt c (a ++ behind c part) = (a, part) := by
  cases part with
  | none => simpa [behind] using cutAt_of_not_mem h
  | some b => exact cutAt_of_append h

theorem not_mem_cutAt (c : UInt8) (s : Bytes) : c ∉ (cutAt c s).1 := by
  obtain ⟨h, hcut⟩ | ⟨a, b, -, h, hcut⟩ := cutAt_cases c s <;> rwa [hcut]

theorem strchr_eq (s : Bytes) (c : UInt8) :
    strchr s c = (cutAt c s).2.map (fun _ => (cutAt c s).1.length) := by
  unfold strchr
  obtain ⟨h, hcut⟩ | ⟨a, b, rfl, ha, hcut⟩ := cutAt_cases c s
  · rw [hcut, List.findIdx?_eq_none_iff.mpr]
    · rfl
    · intro x hx
      rw [beq_eq_false_iff_ne]
      rintro rfl
      exact h hx
  · rw [hcut, List.findIdx?_append, List.findIdx?_eq_none_iff.mpr]
    · simp [List.findIdx?_cons]
    · intro x hx
      rw [beq_eq_false_iff_ne]
      rintro rfl
      exact ha hx

/-- A URL as its parts.  The path is what is behind its `/`. -/
structure Url where
  scheme : Option Bytes
  user : Option (Bytes × Option Bytes)
  host : Bytes
  port : Option Bytes
  path : Option Bytes
  query : Option Bytes
  fragment : Option Bytes
  deriving DecidableEq, Repr

namespace Url

def schemeText (u : Url) : Bytes := u.scheme.elim [] (· ++ ascii "://")

def userText (u : Url) : Bytes := u.user.elim [] (fun n => n.1 ++ behind (byte ':') n.2 ++ [byte '@'])

def authority (u : Url) : Bytes := u.userText ++ u.host ++ behind (byte ':') u.port

def tail (u : Url) : Bytes :=
  behind (byte '/') u.path ++ behind (byte '?') u.query ++ behind (byte '#') u.fragment

/-- A URL put together from its parts. -/
def text (u : Url) : Bytes := u.schemeText ++ u.authority ++ u.tail

/-- What is in front of the first `://`, and what is behind it. -/
def cutScheme (s : Bytes) : Option Bytes × Bytes :=
  match strstr s (ascii "://") with
  | some n => (some (s.take n), s.drop (n + 3))
  | none => (none, s)

/-- A string as a URL, cut at the first separators. -/
def parse (s : Bytes) : Url :=
  let scheme := cutScheme s
  let tail := cutAt (byte '/') scheme.2
  let user := cutAt (byte '@') tail.1
  let host := cutAt (byte ':') (user.2.getD user.1)
  let path := tail.2.map (cutAt (byte '?'))
  let query := (path.bind Prod.snd).map (cutAt (byte '#'))
  { scheme := scheme.1
    user := user.2.map (fun _ => cutAt (byte ':') user.1)
    host := host.1
    port := host.2
    path := path.map Prod.fst
    query := query.map Prod.fst
    fragment := query.bind Prod.snd }

/-- The number of a port.  Without one it is that of the scheme. -/
def portNumber (u : Url) : UInt16 :=
  match u.port with
  | some port => port.foldl portStep 0
  | none => if u.scheme = some (ascii "https") then 443 else 80

theorem portStep_digit (port : UInt16) {d : ℕ} (h : d < 10) :
    portStep port (UInt8.ofNat (48 + d)) = port * 10 + UInt16.ofNat d := by
  have hdigit : ∀ d < 10, (UInt8.ofNat (48 + d)).toInt8.toInt16.toUInt16 - 48 = UInt16.ofNat d := by
    decide
  rw [portStep, hdigit d h]

/-- The number of a port in digits is the one they denote, modulo `2 ^ 16`. -/
theorem portNumber_digits {u : Url} {ds : List ℕ} (h : ∀ d ∈ ds, d < 10)
    (hport : u.port = some (ds.map (fun d => UInt8.ofNat (48 + d)))) :
    u.portNumber = UInt16.ofNat (Nat.ofDigits 10 ds.reverse) := by
  unfold portNumber
  rw [hport]
  dsimp only
  clear hport
  induction ds using List.reverseRecOn with
  | nil => rfl
  | append_singleton ds d ih =>
      rw [List.map_append, List.foldl_append, ih (fun x hx => h x (by simp [hx])), List.map_singleton,
        List.foldl_cons, List.foldl_nil, portStep_digit _ (h d (by simp)), List.reverse_concat,
        Nat.ofDigits_cons]
      simp [mul_comm, add_comm]

/-- No part has the separator in it that ends it, and none is without the one in front of it. -/
structure Plain (u : Url) : Prop where
  scheme : strstr u.text (ascii "://") = u.scheme.map List.length
  authority : byte '/' ∉ u.authority
  user : ∀ n, u.user = some n → byte '@' ∉ n.1 ++ behind (byte ':') n.2 ∧ byte ':' ∉ n.1
  host : u.user = none → byte '@' ∉ u.host ++ behind (byte ':') u.port
  port : byte ':' ∉ u.host
  path : ∀ path, u.path = some path → byte '?' ∉ path
  query : ∀ query, u.query = some query → byte '#' ∉ query
  path_of_query : u.path = none → u.query = none
  query_of_fragment : u.query = none → u.fragment = none

theorem strstr_some {sub s : Bytes} : ∀ {n : ℕ}, strstr s sub = some n →
    ∃ a b, s = a ++ sub ++ b ∧ a.length = n := by
  induction s with
  | nil =>
      intro n h
      unfold strstr at h
      split_ifs at h with hsub
      obtain rfl := Option.some.inj h
      exact ⟨[], [], by simp [hsub], rfl⟩
  | cons c s ih =>
      intro n h
      unfold strstr at h
      split_ifs at h with hprefix
      · obtain rfl := Option.some.inj h
        obtain ⟨b, hb⟩ := List.isPrefixOf_iff_prefix.mp hprefix
        exact ⟨[], b, hb.symm, rfl⟩
      · obtain ⟨m, hm, rfl⟩ := Option.map_eq_some_iff.mp h
        obtain ⟨a, b, hs, hlen⟩ := ih hm
        exact ⟨c :: a, b, by rw [hs]; rfl, by rw [List.length_cons, hlen]⟩

/-- The scheme is in front of the first `://`. -/
theorem cutScheme_text (s : Bytes) : (cutScheme s).1.elim [] (· ++ ascii "://") ++ (cutScheme s).2 = s ∧
    strstr s (ascii "://") = (cutScheme s).1.map List.length := by
  unfold cutScheme
  cases h : strstr s (ascii "://") with
  | none => exact ⟨rfl, rfl⟩
  | some n =>
      obtain ⟨a, b, rfl, rfl⟩ := strstr_some h
      have hdrop : (a ++ ascii "://" ++ b).drop (a.length + 3) = b := by
        rw [List.append_assoc, ← List.drop_drop, List.drop_left]
        rfl
      dsimp only
      rw [hdrop]
      simp [List.append_assoc]

theorem cutScheme_of_text {u : Url} (h : strstr u.text (ascii "://") = u.scheme.map List.length) :
    cutScheme u.text = (u.scheme, u.authority ++ u.tail) := by
  unfold cutScheme
  rw [h]
  cases hscheme : u.scheme with
  | none => simp [text, schemeText, hscheme]
  | some scheme =>
      have htext : u.text = scheme ++ (ascii "://" ++ (u.authority ++ u.tail)) := by
        simp [text, schemeText, hscheme]
      simp only [Option.map_some]
      rw [htext, List.take_left, ← List.drop_drop, List.drop_left]
      rfl

theorem authority_parse (s : Bytes) :
    (parse s).authority = (cutAt (byte '/') (cutScheme s).2).1 := by
  set a := (cutAt (byte '/') (cutScheme s).2).1 with ha
  have hhost := behind_cutAt (c := byte ':') ((cutAt (byte '@') a).2.getD (cutAt (byte '@') a).1)
  unfold authority userText parse
  dsimp only
  rw [← ha, List.append_assoc, hhost]
  obtain ⟨-, hcut⟩ | ⟨user, host, heq, -, hcut⟩ := cutAt_cases (byte '@') a
  · rw [hcut]
    rfl
  · rw [hcut]
    simp only [Option.map_some, Option.elim_some, Option.getD_some, behind_cutAt, heq]
    simp

theorem tail_parse (s : Bytes) :
    (parse s).tail = behind (byte '/') (cutAt (byte '/') (cutScheme s).2).2 := by
  unfold tail parse
  dsimp only
  cases (cutAt (byte '/') (cutScheme s).2).2 with
  | none => rfl
  | some t =>
      have hpath := behind_cutAt (c := byte '?') t
      simp only [Option.map_some, Option.bind_some]
      cases hquery : (cutAt (byte '?') t).2 with
      | none =>
          rw [hquery] at hpath
          simpa [behind] using hpath
      | some q =>
          rw [hquery] at hpath
          have hfragment := behind_cutAt (c := byte '#') q
          simp only [Option.map_some, Option.bind_some]
          simp only [behind, Option.elim_some, List.cons_append, List.append_assoc] at hpath hfragment ⊢
          rw [hfragment, hpath]

/-- **No byte of a string is lost.** -/
theorem text_parse (s : Bytes) : (parse s).text = s := by
  unfold text
  rw [authority_parse, tail_parse, List.append_assoc, behind_cutAt]
  exact (cutScheme_text s).1

/-- The parts are those between the first separators. -/
theorem plain_parse (s : Bytes) : (parse s).Plain where
  scheme := by
    rw [text_parse]
    exact (cutScheme_text s).2
  authority := by
    rw [authority_parse]
    exact not_mem_cutAt _ _
  user := by
    intro n hn
    obtain ⟨user, huser, rfl⟩ := Option.map_eq_some_iff.mp hn
    rw [behind_cutAt]
    exact ⟨not_mem_cutAt _ _, not_mem_cutAt _ _⟩
  host := by
    intro hnone
    have huser := Option.map_eq_none_iff.mp hnone
    show byte '@' ∉ (cutAt (byte ':') _).1 ++ behind (byte ':') (cutAt (byte ':') _).2
    rw [behind_cutAt, huser]
    exact not_mem_cutAt _ _
  port := not_mem_cutAt _ _
  path := by
    intro path hpath
    obtain ⟨r, hr, rfl⟩ := Option.map_eq_some_iff.mp hpath
    obtain ⟨t, -, rfl⟩ := Option.map_eq_some_iff.mp hr
    exact not_mem_cutAt _ _
  query := by
    intro query hquery
    obtain ⟨r, hr, rfl⟩ := Option.map_eq_some_iff.mp hquery
    obtain ⟨t, -, rfl⟩ := Option.map_eq_some_iff.mp hr
    exact not_mem_cutAt _ _
  path_of_query := by
    intro hpath
    have hnone := Option.map_eq_none_iff.mp hpath
    simp only [parse, hnone]
    rfl
  query_of_fragment := by
    intro hquery
    have hnone := Option.map_eq_none_iff.mp hquery
    simp only [parse, hnone]
    rfl

theorem cutAt_authority {u : Url} (h : u.Plain) :
    (cutAt (byte '@') u.authority).2.map
        (fun _ => cutAt (byte ':') (cutAt (byte '@') u.authority).1) = u.user ∧
      cutAt (byte ':') ((cutAt (byte '@') u.authority).2.getD (cutAt (byte '@') u.authority).1) =
        (u.host, u.port) := by
  cases huser : u.user with
  | none =>
      have hauthority : u.authority = u.host ++ behind (byte ':') u.port := by
        simp [authority, userText, huser]
      rw [hauthority, cutAt_of_not_mem (h.host huser)]
      exact ⟨rfl, cutAt_behind h.port _⟩
  | some n =>
      obtain ⟨hat, hcolon⟩ := h.user n huser
      have hauthority : u.authority =
          (n.1 ++ behind (byte ':') n.2) ++ byte '@' :: (u.host ++ behind (byte ':') u.port) := by
        simp [authority, userText, huser]
      rw [hauthority, cutAt_of_append hat]
      exact ⟨congrArg some (cutAt_behind hcolon _), cutAt_behind h.port _⟩

/-- What is behind the `/`. -/
def pathTail (u : Url) : Option Bytes := u.path.map (fun path =>
  path ++ behind (byte '?') (u.query.map (fun query => query ++ behind (byte '#') u.fragment)))

theorem tail_eq {u : Url} (h : u.Plain) : u.tail = behind (byte '/') u.pathTail := by
  unfold tail pathTail
  cases hpath : u.path with
  | none =>
      have hquery := h.path_of_query hpath
      rw [hquery, h.query_of_fragment hquery]
      rfl
  | some path =>
      cases hquery : u.query with
      | none => simp [behind, h.query_of_fragment hquery]
      | some query => simp [behind]

theorem cutAt_pathTail {u : Url} (h : u.Plain) : u.pathTail.map (cutAt (byte '?')) =
    u.path.map (fun path => (path, u.query.map (fun query => query ++ behind (byte '#') u.fragment))) := by
  unfold pathTail
  cases hpath : u.path with
  | none => rfl
  | some path => exact congrArg some (cutAt_behind (h.path path hpath) _)

/-- **A URL is taken apart into the parts it was put together from.** -/
theorem parse_text {u : Url} (h : u.Plain) : parse u.text = u := by
  obtain ⟨huser, hhost⟩ := cutAt_authority h
  have hcut : cutAt (byte '/') (u.authority ++ u.tail) = (u.authority, u.pathTail) := by
    rw [tail_eq h]
    exact cutAt_behind h.authority _
  have hpath := cutAt_pathTail h
  have hquery : ((u.path.map (fun path => (path, u.query.map (fun query =>
      query ++ behind (byte '#') u.fragment)))).bind Prod.snd).map (cutAt (byte '#')) =
      u.query.map (fun query => (query, u.fragment)) := by
    cases hp : u.path with
    | none => simp [h.path_of_query hp]
    | some path =>
        cases hq : u.query with
        | none => rfl
        | some query => exact congrArg some (cutAt_behind (h.query query hq) _)
  have hfragment : (u.query.map (fun query => (query, u.fragment))).bind Prod.snd = u.fragment := by
    cases hq : u.query with
    | none => exact (h.query_of_fragment hq).symm
    | some query => rfl
  unfold parse
  rw [cutScheme_of_text h.scheme]
  dsimp only
  rw [hcut]
  dsimp only
  rw [huser, hhost, hpath, hquery, hfragment]
  simp [Option.map_map, Function.comp_def]

/-- Where the parts lie in the text. -/
def fields (u : Url) : Hurl :=
  let user := u.schemeText.length
  let host := user + u.userText.length
  let port := host + u.host.length
  let path := port + (behind (byte ':') u.port).length
  let query := path + (behind (byte '/') u.path).length
  let fragment := query + (behind (byte '?') u.query).length
  { scheme := ⟨0, (u.scheme.map List.length).getD 0⟩
    username := u.user.elim ⟨0, 0⟩ (fun n => ⟨user, n.1.length⟩)
    password := (u.user.bind Prod.snd).elim ⟨0, 0⟩
      (fun p => ⟨host - 1 - p.length, p.length⟩)
    host := ⟨host, u.host.length⟩
    portField := u.port.elim ⟨0, 0⟩ (fun p => ⟨port + 1, p.length⟩)
    path := u.path.elim ⟨0, 0⟩ (fun p => ⟨path, p.length + 1⟩)
    query := u.query.elim ⟨0, 0⟩ (fun q => ⟨query + 1, q.length⟩)
    fragment := u.fragment.elim ⟨0, 0⟩ (fun f => ⟨fragment + 1, f.length⟩)
    port := u.portNumber }

end Url

/-! ### What `hv_parse_url` finds -/

theorem slice (pre a post : Bytes) :
    ((pre ++ a ++ post).drop pre.length).take (pre.length + a.length - pre.length) = a := by
  rw [List.append_assoc, List.drop_left, Nat.add_sub_cancel_left, List.take_left]

theorem hvStrnchr_eq (pre a post : Bytes) (c : UInt8) :
    hvStrnchr ((pre ++ a ++ post).drop pre.length) c (pre.length + a.length - pre.length) =
      (cutAt c a).2.map (fun _ => (cutAt c a).1.length) := by
  unfold hvStrnchr
  rw [slice, strchr_eq]

theorem parseUser_eq (pre a post : Bytes) (u : Hurl) :
    parseUser (pre ++ a ++ post) u pre.length (pre.length + a.length) = { u with
      username := ⟨pre.length, (cutAt (byte ':') a).1.length⟩
      password := (cutAt (byte ':') a).2.elim u.password
        (fun p => ⟨pre.length + a.length - p.length, p.length⟩) } := by
  unfold parseUser
  rw [hvStrnchr_eq]
  obtain ⟨-, hcut⟩ | ⟨name, password, rfl, -, hcut⟩ := cutAt_cases (byte ':') a
  · rw [hcut]
    simp
  · rw [hcut]
    simp
    omega

theorem parsePort_eq (pre a post : Bytes) (u : Hurl) :
    parsePort (pre ++ a ++ post) u pre.length (pre.length + a.length) = { u with
      host := ⟨pre.length, (cutAt (byte ':') a).1.length⟩
      portField := (cutAt (byte ':') a).2.elim u.portField
        (fun p => ⟨pre.length + (cutAt (byte ':') a).1.length + 1, p.length⟩)
      port := (cutAt (byte ':') a).2.elim
        (if 0 < u.scheme.len ∧ (ascii "https://").isPrefixOf (pre ++ a ++ post) then 443 else 80)
        (fun p => p.foldl portStep 0) } := by
  unfold parsePort
  rw [hvStrnchr_eq]
  obtain ⟨-, hcut⟩ | ⟨host, port, rfl, -, hcut⟩ := cutAt_cases (byte ':') a
  · rw [hcut]
    simp
  · have htext : pre ++ (host ++ byte ':' :: port) ++ post =
        (pre ++ host ++ [byte ':']) ++ (port ++ post) := by simp
    have hoff : pre.length + host.length + 1 = (pre ++ host ++ [byte ':']).length := by
      simp [Nat.add_assoc]
    have hlen : pre.length + (host ++ byte ':' :: port).length - (pre.length + host.length) - 1 =
        port.length := by
      simp
      omega
    have hslice : ((pre ++ (host ++ byte ':' :: port) ++ post).drop
        (pre.length + host.length + 1)).take
        (pre.length + (host ++ byte ':' :: port).length - (pre.length + host.length) - 1) = port := by
      rw [hlen, htext, hoff, List.drop_left, List.take_left]
    rw [hcut]
    simp only [Option.map_some, Option.elim_some]
    rw [hslice]
    simp
    omega

theorem strchr_behind {c : UInt8} {a : Bytes} (h : c ∉ a) (part : Option Bytes) :
    strchr (a ++ behind c part) c = part.map (fun _ => a.length) := by
  rw [strchr_eq, cutAt_behind h]

theorem parsePath_eq (pre : Bytes) (u : Hurl) {path : Bytes} {query : Option Bytes}
    (fragment : Option Bytes)
    (hpath : byte '?' ∉ path) (hquery : ∀ q, query = some q → byte '#' ∉ q) :
    parsePath (pre ++ byte '/' :: path ++
        behind (byte '?') (query.map (fun q => q ++ behind (byte '#') fragment))) u pre.length =
      { u with
        path := ⟨pre.length, path.length + 1⟩
        query := query.elim u.query (fun q => ⟨pre.length + path.length + 2, q.length⟩)
        fragment := (query.bind (fun _ => fragment)).elim u.fragment (fun f =>
          ⟨pre.length + path.length + 1 + (behind (byte '?') query).length + 1, f.length⟩) } := by
  have hslash : byte '?' ∉ byte '/' :: path := by
    rw [List.mem_cons]
    rintro (h | h)
    · exact absurd h (by decide)
    · exact hpath h
  unfold parsePath
  dsimp only
  rw [List.append_assoc, List.drop_left, strchr_behind hslash]
  cases query with
  | none => simp [behind]
  | some q =>
      have hq := hquery q rfl
      have hdrop : (pre ++ (byte '/' :: path ++ behind (byte '?')
          (some (q ++ behind (byte '#') fragment)))).drop
            (pre.length + (byte '/' :: path).length + 1) = q ++ behind (byte '#') fragment := by
        rw [Nat.add_assoc, ← List.drop_drop, List.drop_left, ← List.drop_drop, List.drop_left]
        rfl
      have hne : pre.length + (byte '/' :: path).length ≠
          (pre ++ (byte '/' :: path ++ behind (byte '?')
            (some (q ++ behind (byte '#') fragment)))).length := by
        simp [behind]
      simp only [Option.map_some, Option.getD_some, if_neg hne]
      rw [hdrop, strchr_behind hq]
      cases fragment with
      | none =>
          simp [behind]
          omega
      | some f =>
          have hne' : pre.length + (byte '/' :: path).length + 1 + q.length ≠
              (pre ++ (byte '/' :: path ++ behind (byte '?')
                (some (q ++ behind (byte '#') (some f))))).length := by
            simp [behind]
            omega
          simp only [Option.map_some, Option.getD_some, if_neg hne']
          simp [behind]
          omega

namespace Url

variable {u : Url}

theorem strstr_https (rest : Bytes) :
    strstr (ascii "https://" ++ rest) (ascii "://") = some 5 := by
  have htext : ascii "https://" ++ rest = byte 'h' :: byte 't' :: byte 't' :: byte 'p' :: byte 's' ::
      (ascii "://" ++ rest) := rfl
  have hend : strstr (ascii "://" ++ rest) (ascii "://") = some 0 := by
    have hprefix : (ascii "://").isPrefixOf (ascii "://" ++ rest) = true :=
      List.isPrefixOf_iff_prefix.mpr (List.prefix_append _ _)
    exact if_pos hprefix
  rw [htext]
  simp only [strstr, hend]
  rfl

theorem https_iff (h : u.Plain) :
    (0 < (u.scheme.map List.length).getD 0 ∧ (ascii "https://").isPrefixOf u.text = true) ↔
      u.scheme = some (ascii "https") := by
  constructor
  · rintro ⟨-, hprefix⟩
    obtain ⟨rest, hrest⟩ := List.isPrefixOf_iff_prefix.mp hprefix
    have hscheme := h.scheme
    rw [← hrest, strstr_https] at hscheme
    cases hs : u.scheme with
    | none =>
        rw [hs] at hscheme
        cases hscheme
    | some x =>
        rw [hs] at hscheme
        have hlen : x.length = 5 := (Option.some.inj hscheme).symm
        have htext : ascii "https://" ++ rest = x ++ (ascii "://" ++ (u.authority ++ u.tail)) := by
          rw [hrest]
          simp [text, schemeText, hs]
        have htake := congrArg (List.take 5) htext
        rw [← hlen, List.take_left, hlen] at htake
        rw [← htake]
        rfl
  · intro hs
    refine ⟨by rw [hs]; decide, List.isPrefixOf_iff_prefix.mpr ⟨u.authority ++ u.tail, ?_⟩⟩
    simp only [text, schemeText, hs, Option.elim_some, List.append_assoc]
    rfl

theorem parseAuthority_eq (h : u.Plain) (hurl : Hurl)
    (hscheme : hurl.scheme.len = (u.scheme.map List.length).getD 0)
    (hzero : hurl.username = ⟨0, 0⟩ ∧ hurl.password = ⟨0, 0⟩ ∧ hurl.portField = ⟨0, 0⟩) :
    parseAuthority u.text hurl u.schemeText.length (u.schemeText.length + u.authority.length) =
      { hurl with
        username := u.fields.username
        password := u.fields.password
        host := u.fields.host
        portField := u.fields.portField
        port := u.portNumber } := by
  obtain ⟨hname, hpassword, hport⟩ := hzero
  have hhttps := https_iff h
  have hnumber (p : Option Bytes) (hp : p = u.port) :
      p.elim (if 0 < (u.scheme.map List.length).getD 0 ∧ (ascii "https://").isPrefixOf u.text = true
        then 443 else 80) (fun p => p.foldl portStep 0) = u.portNumber := by
    subst hp
    unfold portNumber
    cases u.port with
    | some p => rfl
    | none => simp only [Option.elim_none, hhttps]
  unfold parseAuthority
  have hat := hvStrnchr_eq u.schemeText u.authority u.tail (byte '@')
  rw [show u.schemeText ++ u.authority ++ u.tail = u.text from rfl] at hat
  rw [hat]
  cases huser : u.user with
  | none =>
      have hauthority : u.authority = u.host ++ behind (byte ':') u.port := by
        simp [authority, userText, huser]
      have hcut := cutAt_behind h.port u.port
      have hparse := parsePort_eq u.schemeText u.authority u.tail hurl
      rw [show u.schemeText ++ u.authority ++ u.tail = u.text from rfl, hauthority, hcut, hscheme,
        hnumber u.port rfl] at hparse
      rw [hauthority, cutAt_of_not_mem (h.host huser)]
      simp only [Option.map_none]
      rw [hparse]
      cases hp : u.port <;> simp [fields, userText, huser, hname, hpassword, hport, hp]
  | some n =>
      obtain ⟨hnotat, hcolon⟩ := h.user n huser
      set name := n.1 ++ behind (byte ':') n.2 with hname_eq
      have hauthority : u.authority = name ++ byte '@' :: (u.host ++ behind (byte ':') u.port) := by
        simp [authority, userText, huser, hname_eq]
      rw [hauthority, cutAt_of_append hnotat]
      simp only [Option.map_some]
      have htext : u.text = u.schemeText ++ name ++
          (byte '@' :: (u.host ++ behind (byte ':') u.port) ++ u.tail) := by
        simp [text, hauthority]
      have htext' : u.text = (u.schemeText ++ name ++ [byte '@']) ++
          (u.host ++ behind (byte ':') u.port) ++ u.tail := by
        simp [text, hauthority]
      have huserparse := parseUser_eq u.schemeText name
        (byte '@' :: (u.host ++ behind (byte ':') u.port) ++ u.tail) hurl
      rw [← htext, hname_eq, cutAt_behind hcolon, ← hname_eq] at huserparse
      have hoff : u.schemeText.length + name.length + 1 =
          (u.schemeText ++ name ++ [byte '@']).length := by
        simp
        omega
      have hend : u.schemeText.length +
          (name ++ byte '@' :: (u.host ++ behind (byte ':') u.port)).length =
          (u.schemeText ++ name ++ [byte '@']).length + (u.host ++ behind (byte ':') u.port).length := by
        simp
        omega
      have hparse := parsePort_eq (u.schemeText ++ name ++ [byte '@'])
        (u.host ++ behind (byte ':') u.port) u.tail { hurl with
          username := ⟨u.schemeText.length, n.1.length⟩
          password := n.2.elim hurl.password
            (fun p => ⟨u.schemeText.length + name.length - p.length, p.length⟩) }
      rw [← htext', cutAt_behind h.port, hscheme, hnumber u.port rfl] at hparse
      rw [huserparse, hoff, hend, hparse]
      have huserText : u.userText.length = name.length + 1 := by
        simp [userText, huser, hname_eq, Nat.add_assoc]
      cases hp : u.port <;> cases hn : n.2 <;>
        simp [fields, huserText, huser, hpassword, hport, hp, hn]

/-- **What `hv_parse_url` finds are the parts**, in a URL that is not too long for its fields. -/
theorem hvParseUrl_text (h : u.Plain) (hlen : u.text.length ≤ 65535) :
    hvParseUrl u.text = (0, u.fields) := by
  have htext : u.text = u.schemeText ++ u.authority ++ u.tail := rfl
  have hsp : (((u.scheme.map List.length)).map (· + 3)).getD 0 = u.schemeText.length := by
    cases hs : u.scheme with
    | none => simp [schemeText, hs]
    | some x => simp [schemeText, hs, ascii]
  have hdrop : u.text.drop u.schemeText.length = u.authority ++ u.tail := by
    rw [htext, List.append_assoc, List.drop_left]
  have hslash : strchr (u.authority ++ u.tail) (byte '/') =
      u.pathTail.map (fun _ => u.authority.length) := by
    rw [tail_eq h, strchr_behind h.authority]
  have hep : (((u.pathTail.map (fun _ => u.authority.length))).map (u.schemeText.length + ·)).getD
      u.text.length = u.schemeText.length + u.authority.length := by
    cases hp : u.pathTail with
    | none =>
        have htail : u.tail = [] := by
          rw [tail_eq h, hp]
          rfl
        simp [text, htail]
    | some p => rfl
  unfold hvParseUrl
  rw [if_neg (by omega)]
  dsimp only
  rw [h.scheme, hsp, hdrop, hslash, hep, parseAuthority_eq h _ rfl ⟨rfl, rfl, rfl⟩]
  cases hp : u.path with
  | none =>
      have hquery := h.path_of_query hp
      have htail : u.tail = [] := by simp [tail, behind, hp, hquery, h.query_of_fragment hquery]
      rw [if_pos (by simp [text, htail])]
      simp [fields, hp, hquery, h.query_of_fragment hquery, Hurl.zero]
  | some path =>
      have hslashed : u.text = (u.schemeText ++ u.authority) ++ byte '/' :: path ++
          behind (byte '?') (u.query.map (fun q => q ++ behind (byte '#') u.fragment)) := by
        rw [htext, tail_eq h, pathTail, hp]
        simp [behind]
      rw [← List.length_append, if_neg (by rw [hslashed]; simp)]
      have hparse (hurl : Hurl) := parsePath_eq (u.schemeText ++ u.authority) hurl u.fragment
        (h.path path hp) h.query
      rw [← hslashed] at hparse
      rw [hparse]
      cases hq : u.query with
      | none =>
          simp [fields, authority, hp, hq, h.query_of_fragment hq, Hurl.zero]
          omega
      | some query =>
          cases hf : u.fragment <;> simp [fields, authority, hp, hq, hf, Hurl.zero, behind] <;> omega

end Url

/-- **`hv_parse_url` cuts a string into the parts of a URL.** -/
theorem hvParseUrl_eq {s : Bytes} (hlen : s.length ≤ 65535) :
    hvParseUrl s = (0, (Url.parse s).fields) := by
  have h := Url.hvParseUrl_text (Url.plain_parse s)
  rw [Url.text_parse] at h
  exact h hlen

/-- **Every string that is not too long is one URL**, and its parts are what is found. -/
theorem hvParseUrl_unique {s : Bytes} (hlen : s.length ≤ 65535) :
    ∃ u : Url, u.Plain ∧ u.text = s ∧ hvParseUrl s = (0, u.fields) ∧
      ∀ v : Url, v.Plain → v.text = s → v = u := by
  refine ⟨Url.parse s, Url.plain_parse s, Url.text_parse s, hvParseUrl_eq hlen, ?_⟩
  intro v hv htext
  rw [← htext, Url.parse_text hv]

theorem hvParseUrl_unique_user : ∃ u : Url, u.Plain ∧ u.text = ascii "ws://u:p@h:1/p?q#f" ∧
    hvParseUrl (ascii "ws://u:p@h:1/p?q#f") = (0, u.fields) ∧
      ∀ v : Url, v.Plain → v.text = ascii "ws://u:p@h:1/p?q#f" → v = u :=
  hvParseUrl_unique (by decide +kernel)

end OrderbookClient.Hv
