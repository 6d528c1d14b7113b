import Mathlib.Data.List.Lex
import OrderbookClient.SortedMap
import OrderbookClient.Url

/-! # Query parameters: `hurl.cpp` and `http_content.cpp`

`parse_query_params` walks over a query with two pointers and two lengths.  The lengths count the
characters of a key or a value that are no `=`, so behind a second `=` the value is read from there
on with the length of both, past the end of the query if need be.

* `parseQueryParams_text`: parameters of one key and one value are read as they stand, and nothing
  else is.
* `parse_dump`: so are all parameters that `dump_query_params` writes. -/

namespace OrderbookClient.Hv

open Json (Bytes)

/-! ### Escapes -/

/-- `IS_HEX`. -/
def isHex (c : UInt8) : Bool :=
  isNum c || (byte 'a' ≤ c && c ≤ byte 'f') || (byte 'A' ≤ c && c ≤ byte 'F')

def hex2i (hex : UInt8) : UInt8 :=
  if hex ≤ byte '9' then hex - byte '0'
  else if hex ≤ byte 'F' then hex - byte 'A' + 10
  else hex - byte 'a' + 10

def isUnambiguous (c : UInt8) : Bool :=
  (byte 'a' ≤ c && c ≤ byte 'z') || (byte 'A' ≤ c && c ≤ byte 'Z') || isNum c ||
    c == byte '-' || c == byte '_' || c == byte '.' || c == byte '~'

/-- A digit of `tab`. -/
def hexDigit (n : UInt8) : UInt8 := (ascii "0123456789ABCDEF").getD n.toNat 0

def escapeByte (c : UInt8) : Bytes :=
  if isUnambiguous c then [c] else [byte '%', hexDigit (c >>> 4), hexDigit (c &&& 0xF)]

/-- `HUrl::escape`. -/
def escape (str : Bytes) : Bytes := (cString (cStr str)).flatMap escapeByte

/-- The loop of `HUrl::unescape`, which has yet to skip some characters. -/
def unescapeFrom : ℕ → Bytes → Bytes
  | _, [] => []
  | skip + 1, _ :: p => unescapeFrom skip p
  | 0, c :: p =>
      if c = byte '%' ∧ isHex (p.getD 0 0) ∧ isHex (p.getD 1 0) then
        (hex2i (p.getD 0 0) <<< 4 ||| hex2i (p.getD 1 0)) :: unescapeFrom 2 p
      else (if c = byte '+' then byte ' ' else c) :: unescapeFrom 0 p

/-- `HUrl::unescape`. -/
def unescape (str : Bytes) : Bytes := unescapeFrom 0 (cString (cStr str))

/-! ### The code -/

/-- `std::less` on strings. -/
def byteKey (s : Bytes) : List ℕ := s.map UInt8.toNat

/-- `QueryParams`. -/
abbrev QueryParams := SortedMap byteKey Bytes

/-- `dump_query_params`. -/
def dumpQueryParams (params : QueryParams) : Bytes :=
  params.entries.foldl (fun query pair =>
    (if query ≠ [] then query ++ [byte '&'] else query) ++
      escape pair.1 ++ [byte '='] ++ escape pair.2) []

/-- The variables of `parse_query_params`; `value` is null in front of the first `=`, and the lengths
are `int`. -/
structure QueryState where
  inValue : Bool
  key : ℕ
  value : ℕ
  keyLen : ℤ
  valueLen : ℤ
  params : QueryParams

/-- `++len`. -/
def incr (len : ℤ) : ℤ := Int.bmod (len + 1) (2 ^ 32)

/-- `std::string(s + off, len)` for a C string `s`; `memory` is what is behind its terminator. -/
def readString (memory : ℕ → UInt8) (s : Bytes) (off len : ℕ) : Bytes :=
  (List.range' off len).map (fun i => if i ≤ s.length then s.getD i 0 else memory (i - s.length - 1))

/-- Store a parameter, if it has a key. -/
def storeParam (memory : ℕ → UInt8) (s : Bytes) (st : QueryState) : QueryState :=
  if st.keyLen = 0 then st
  else { st with
    params := st.params.insert (unescape (readString memory s st.key st.keyLen.toNat))
      (unescape (readString memory s st.value st.valueLen.toNat))
    keyLen := 0
    valueLen := 0 }

/-- The loop, with `p` at the given offset. -/
def parseParams (memory : ℕ → UInt8) (s : Bytes) : ℕ → Bytes → QueryState → QueryState
  | _, [], st => storeParam memory s st
  | p, c :: rest, st =>
      parseParams memory s (p + 1) rest
        (if c = byte '&' then { storeParam memory s st with inValue := false, key := p + 1 }
        else if c = byte '=' then { st with inValue := true, value := p + 1 }
        else if st.inValue then { st with valueLen := incr st.valueLen }
        else { st with keyLen := incr st.keyLen })

/-- `parse_query_params`. -/
def parseQueryParams (memory : ℕ → UInt8) (query : Bytes) (params : QueryParams) : QueryParams :=
  let p := ((query.findIdx? (· == byte '?')).map (· + 1)).getD 0
  (parseParams memory query p (query.drop p) ⟨false, p, 0, 0, 0, params⟩).params

/-! ### What is escaped is unescaped -/

theorem unescapeFrom_escapeByte : ∀ (c : UInt8) (rest : Bytes),
    unescapeFrom 0 (escapeByte c ++ rest) = c :: unescapeFrom 0 rest := by
  have hplain : ∀ c : UInt8, isUnambiguous c = true → c ≠ byte '%' ∧ c ≠ byte '+' := by
    decide +kernel
  have hhex : ∀ c : UInt8, isHex (hexDigit (c >>> 4)) = true ∧ isHex (hexDigit (c &&& 0xF)) = true ∧
      (hex2i (hexDigit (c >>> 4)) <<< 4 ||| hex2i (hexDigit (c &&& 0xF))) = c := by
    decide +kernel
  intro c rest
  unfold escapeByte
  split_ifs with h
  · obtain ⟨hpercent, hplus⟩ := hplain c h
    rw [List.singleton_append, unescapeFrom, if_neg (fun h => hpercent h.1), if_neg hplus]
  · obtain ⟨hhigh, hlow, hvalue⟩ := hhex c
    simp [unescapeFrom, hhigh, hlow, hvalue]

theorem unescapeFrom_escape {s : Bytes} :
    unescapeFrom 0 (s.flatMap escapeByte) = s := by
  induction s with
  | nil => rfl
  | cons c s ih => rw [List.flatMap_cons, unescapeFrom_escapeByte, ih]

theorem isUnambiguous_hexDigit {n : UInt8} (h : n.toNat < 16) : isUnambiguous (hexDigit n) = true := by
  have hdigits : ∀ x ∈ ascii "0123456789ABCDEF", isUnambiguous x = true := by decide +kernel
  unfold hexDigit
  rw [List.getD_eq_getElem _ _ (by exact h)]
  exact hdigits _ (List.getElem_mem _)

theorem mem_escapeByte {c : UInt8} : ∀ x ∈ escapeByte c, isUnambiguous x = true ∨ x = byte '%' := by
  have hhigh : ∀ c : UInt8, (c >>> 4).toNat < 16 ∧ (c &&& 0xF).toNat < 16 := by decide +kernel
  intro x hx
  unfold escapeByte at hx
  split_ifs at hx with h
  · obtain rfl := List.mem_singleton.mp hx
    exact .inl h
  · obtain rfl | rfl | rfl : x = byte '%' ∨ x = hexDigit (c >>> 4) ∨ x = hexDigit (c &&& 0xF) := by
      simpa using hx
    · exact .inr rfl
    · exact .inl (isUnambiguous_hexDigit (hhigh c).1)
    · exact .inl (isUnambiguous_hexDigit (hhigh c).2)

/-- The characters of what is escaped. -/
theorem mem_escape {s : Bytes} : ∀ c ∈ escape s, c ≠ 0 ∧ c ≠ byte '&' ∧ c ≠ byte '=' ∧ c ≠ byte '?' ∧
    c ≠ cr ∧ c ≠ lf := by
  have hplain : ∀ c : UInt8, isUnambiguous c = true ∨ c = byte '%' → c ≠ 0 ∧ c ≠ byte '&' ∧
      c ≠ byte '=' ∧ c ≠ byte '?' ∧ c ≠ cr ∧ c ≠ lf := by
    decide +kernel
  intro c hc
  obtain ⟨x, -, hx⟩ := List.mem_flatMap.mp hc
  exact hplain c (mem_escapeByte c hx)

theorem unescape_escape {s : Bytes} (h : ∀ c ∈ s, c ≠ 0) : unescape (escape s) = s := by
  unfold unescape
  rw [cString_cStr (fun c hc => (mem_escape c hc).1)]
  unfold escape
  rw [cString_cStr h, unescapeFrom_escape]

/-! ### Parameters -/

/-- A parameter as it stands in a query: `key` or `key=value`. -/
structure Param where
  key : Bytes
  value : Option Bytes
  key_ne : key ≠ []
  plain : ∀ c ∈ key ++ value.getD [], c ≠ byte '&' ∧ c ≠ byte '=' ∧ c ≠ byte '?'

namespace Param

def text (q : Param) : Bytes := q.key ++ behind (byte '=') q.value

/-- The parameter is stored. -/
def store (params : QueryParams) (q : Param) : QueryParams :=
  params.insert (unescape q.key) (unescape (q.value.getD []))

/-- Parameters as a query. -/
def query : List Param → Bytes
  | [] => []
  | q :: qs => q.text ++ qs.flatMap (fun q => byte '&' :: q.text)

end Param

variable {memory : ℕ → UInt8}

theorem readString_zero (s : Bytes) (off : ℕ) : readString memory s off 0 = [] := rfl

theorem readString_eq (pre a post : Bytes) :
    readString memory (pre ++ a ++ post) pre.length a.length = a := by
  apply List.ext_getElem
  · simp [readString]
  · intro i h₁ h₂
    simp only [readString, List.getElem_map, List.getElem_range', one_mul, List.append_assoc]
    rw [if_pos (by simp; omega), List.getD_eq_getElem?_getD,
      List.getElem?_append_right (by omega), Nat.add_sub_cancel_left,
      List.getElem?_append_left (by omega)]
    simp [h₂]

theorem incr_natCast {n : ℕ} (h : n + 1 < 2 ^ 31) : incr n = (n + 1 : ℕ) :=
  bmod_of_lt h

theorem parseParams_key {s : Bytes} {a : Bytes} : ∀ {p n : ℕ} {rest : Bytes} {st : QueryState},
    (∀ c ∈ a, c ≠ byte '&' ∧ c ≠ byte '=') → st.inValue = false → st.keyLen = n →
    n + a.length < 2 ^ 31 →
    parseParams memory s p (a ++ rest) st =
      parseParams memory s (p + a.length) rest { st with keyLen := (n + a.length : ℕ) } := by
  induction a with
  | nil =>
      intro p n rest st _ _ hn _
      rw [List.nil_append, List.length_nil, Nat.add_zero, Nat.add_zero, ← hn]
  | cons c a ih =>
      intro p n rest st ha hst hn hlen
      obtain ⟨hamp, heq⟩ := ha c (by simp)
      rw [List.length_cons] at hlen
      have hincr : incr st.keyLen = (n + 1 : ℕ) := by rw [hn, incr_natCast (by omega)]
      rw [List.cons_append, parseParams, if_neg hamp, if_neg heq, hst, if_neg (by simp)]
      refine (ih (n := n + 1) (fun x hx => ha x (by simp [hx])) rfl hincr (by omega)).trans ?_
      simp only [List.length_cons, Nat.add_assoc, Nat.add_comm 1]

theorem parseParams_value {s : Bytes} {a : Bytes} : ∀ {p n : ℕ} {rest : Bytes} {st : QueryState},
    (∀ c ∈ a, c ≠ byte '&' ∧ c ≠ byte '=') → st.inValue = true → st.valueLen = n →
    n + a.length < 2 ^ 31 →
    parseParams memory s p (a ++ rest) st =
      parseParams memory s (p + a.length) rest { st with valueLen := (n + a.length : ℕ) } := by
  induction a with
  | nil =>
      intro p n rest st _ _ hn _
      rw [List.nil_append, List.length_nil, Nat.add_zero, Nat.add_zero, ← hn]
  | cons c a ih =>
      intro p n rest st ha hst hn hlen
      obtain ⟨hamp, heq⟩ := ha c (by simp)
      rw [List.length_cons] at hlen
      have hincr : incr st.valueLen = (n + 1 : ℕ) := by rw [hn, incr_natCast (by omega)]
      rw [List.cons_append, parseParams, if_neg hamp, if_neg heq, if_pos hst]
      refine (ih (n := n + 1) (fun x hx => ha x (by simp [hx])) (by exact hst) (by exact hincr)
        (by omega)).trans ?_
      simp only [List.length_cons, Nat.add_assoc, Nat.add_comm 1]

theorem parseParams_param (q : Param) {s pre rest : Bytes} (hs : s = pre ++ q.text ++ rest)
    (hsize : s.length < 2 ^ 31) (v : ℕ) (params : QueryParams) :
    ∃ st : QueryState, parseParams memory s pre.length (q.text ++ rest)
        ⟨false, pre.length, v, 0, 0, params⟩ =
          parseParams memory s (pre ++ q.text).length rest st ∧
      storeParam memory s st =
        { st with
          params := q.store params
          keyLen := 0
          valueLen := 0 } := by
  have hkey : ∀ c ∈ q.key, c ≠ byte '&' ∧ c ≠ byte '=' := by
    intro c hc
    obtain ⟨h₁, h₂, -⟩ := q.plain c (by simp [hc])
    exact ⟨h₁, h₂⟩
  have hne : (q.key.length : ℤ) ≠ 0 := by
    simpa using q.key_ne
  have hzero : (0 : ℤ) = (0 : ℕ) := rfl
  have hreadKey : readString memory s pre.length q.key.length = q.key := by
    rw [hs, Param.text, ← List.append_assoc, List.append_assoc (pre ++ q.key)]
    exact readString_eq pre q.key _
  cases hvalue : q.value with
  | none =>
      have htext : q.text = q.key := by simp [Param.text, hvalue, behind]
      have hlen : q.key.length < 2 ^ 31 := by
        rw [hs, htext] at hsize
        simp only [List.length_append] at hsize
        omega
      refine ⟨⟨false, pre.length, v, q.key.length, 0, params⟩, ?_, ?_⟩
      · rw [htext, parseParams_key hkey rfl hzero (by omega)]
        simp
      · unfold storeParam
        rw [if_neg hne]
        simp only [Int.toNat_natCast, Int.toNat_zero, hreadKey, readString_zero, Param.store, hvalue,
          Option.getD_none]
  | some value =>
      have htext : q.text = q.key ++ byte '=' :: value := by simp [Param.text, hvalue, behind]
      have hlen : q.key.length + value.length < 2 ^ 31 := by
        rw [hs, htext] at hsize
        simp only [List.length_append, List.length_cons] at hsize
        omega
      have hplain : ∀ c ∈ value, c ≠ byte '&' ∧ c ≠ byte '=' := by
        intro c hc
        obtain ⟨h₁, h₂, -⟩ := q.plain c (by simp [hvalue, hc])
        exact ⟨h₁, h₂⟩
      have hreadValue : readString memory s (pre.length + q.key.length + 1) value.length = value := by
        have hs' : s = (pre ++ q.key ++ [byte '=']) ++ value ++ rest := by simp [hs, htext]
        have hoff : pre.length + q.key.length + 1 = (pre ++ q.key ++ [byte '=']).length := by
          simp [Nat.add_assoc]
        rw [hs', hoff]
        exact readString_eq _ value rest
      refine ⟨⟨true, pre.length, pre.length + q.key.length + 1, q.key.length, value.length, params⟩,
        ?_, ?_⟩
      · rw [htext, List.append_assoc, parseParams_key hkey rfl hzero (by omega), List.cons_append,
          parseParams, if_neg (by decide), if_pos rfl, parseParams_value hplain rfl hzero (by omega)]
        simp [Nat.add_assoc, Nat.add_comm 1]
      · unfold storeParam
        rw [if_neg hne]
        simp only [Int.toNat_natCast, hreadKey, hreadValue, Param.store, hvalue, Option.getD_some]

theorem parseParams_query {s : Bytes} {qs : List Param} : ∀ (q : Param) (pre : Bytes) (v : ℕ)
    (params : QueryParams), s = pre ++ Param.query (q :: qs) → s.length < 2 ^ 31 →
    (parseParams memory s pre.length (Param.query (q :: qs))
      ⟨false, pre.length, v, 0, 0, params⟩).params = (q :: qs).foldl Param.store params := by
  induction qs with
  | nil =>
      intro q pre v params hs hsize
      have hs' : s = pre ++ q.text ++ [] := by simpa [Param.query] using hs
      obtain ⟨st, hparse, hstore⟩ := parseParams_param q hs' hsize v params
      rw [List.append_nil] at hparse
      rw [Param.query, List.flatMap_nil, List.append_nil, hparse, parseParams, hstore]
      rfl
  | cons q' qs ih =>
      intro q pre v params hs hsize
      have hquery : Param.query (q :: q' :: qs) = q.text ++ byte '&' :: Param.query (q' :: qs) := by
        simp [Param.query]
      have hs' : s = pre ++ q.text ++ byte '&' :: Param.query (q' :: qs) := by simp [hs, hquery]
      obtain ⟨st, hparse, hstore⟩ := parseParams_param q hs' hsize v params
      have hnext := ih q' (pre ++ q.text ++ [byte '&']) st.value (q.store params) (by simp [hs']) hsize
      rw [hquery, hparse, parseParams, if_pos rfl, hstore]
      have hlen : (pre ++ q.text ++ [byte '&']).length = (pre ++ q.text).length + 1 := by
        simp [Nat.add_assoc]
      rw [hlen] at hnext
      exact hnext

theorem Param.mem_text {q : Param} {c : UInt8} (hc : c ∈ q.text) : c ≠ byte '?' := by
  have hplain := q.plain c
  unfold text at hc
  cases hvalue : q.value with
  | none =>
      rw [hvalue] at hc
      exact (hplain (List.mem_append_left _ (by simpa [behind] using hc))).2.2
  | some value =>
      rw [hvalue] at hc hplain
      obtain hc | rfl | hc : c ∈ q.key ∨ c = byte '=' ∨ c ∈ value := by simpa [behind] using hc
      · exact (hplain (List.mem_append_left _ hc)).2.2
      · decide
      · exact (hplain (List.mem_append_right _ hc)).2.2

theorem Param.mem_query {qs : List Param} {c : UInt8} (hc : c ∈ Param.query qs) : c ≠ byte '?' := by
  cases qs with
  | nil => cases hc
  | cons q qs =>
      obtain hc | hc := List.mem_append.mp hc
      · exact mem_text hc
      · obtain ⟨q', -, hc⟩ := List.mem_flatMap.mp hc
        obtain rfl | hc := List.mem_cons.mp hc
        · decide
        · exact mem_text hc

/-- **Parameters are read as they stand**, whatever is behind the query in memory. -/
theorem parseQueryParams_text {qs : List Param} (hsize : (Param.query qs).length < 2 ^ 31)
    (params : QueryParams) :
    parseQueryParams memory (Param.query qs) params = qs.foldl Param.store params := by
  have hmark : (Param.query qs).findIdx? (· == byte '?') = none := by
    rw [List.findIdx?_eq_none_iff]
    intro c hc
    simpa using Param.mem_query hc
  unfold parseQueryParams
  rw [hmark]
  cases qs with
  | nil => rfl
  | cons q qs => exact parseParams_query q [] 0 params rfl hsize

/-! ### What is dumped is read back -/

/-- A parameter as `dump_query_params` writes it. -/
def dumpedParam (pair : Bytes × Bytes) (h : pair.1 ≠ [] ∧ ∀ c ∈ pair.1 ++ pair.2, c ≠ 0) : Param where
  key := escape pair.1
  value := some (escape pair.2)
  key_ne := by
    obtain ⟨hne, hzero⟩ := h
    intro hnil
    have hback := unescape_escape (s := pair.1) (fun c hc => hzero c (by simp [hc]))
    rw [hnil] at hback
    exact hne hback.symm
  plain := by
    intro c hc
    obtain hc | hc := List.mem_append.mp hc
    · obtain ⟨-, h₁, h₂, h₃, -⟩ := mem_escape c hc
      exact ⟨h₁, h₂, h₃⟩
    · obtain ⟨-, h₁, h₂, h₃, -⟩ := mem_escape c hc
      exact ⟨h₁, h₂, h₃⟩

theorem foldl_dumpedParam : ∀ {pairs : List (Bytes × Bytes)}
    (h : ∀ pair ∈ pairs, pair.1 ≠ [] ∧ ∀ c ∈ pair.1 ++ pair.2, c ≠ 0) (params : QueryParams),
    (pairs.pmap dumpedParam h).foldl Param.store params =
      pairs.foldl (fun m e => m.insert e.1 e.2) params
  | [], _, _ => rfl
  | pair :: pairs, h, params => by
      have hzero := (h pair (by simp)).2
      have hkey := unescape_escape (s := pair.1) (fun c hc => hzero c (by simp [hc]))
      have hvalue := unescape_escape (s := pair.2) (fun c hc => hzero c (by simp [hc]))
      rw [List.pmap, List.foldl_cons, foldl_dumpedParam, List.foldl_cons]
      simp only [Param.store, dumpedParam, Option.getD_some, hkey, hvalue]

theorem foldl_dump : ∀ {pairs : List (Bytes × Bytes)}
    (h : ∀ pair ∈ pairs, pair.1 ≠ [] ∧ ∀ c ∈ pair.1 ++ pair.2, c ≠ 0) {query : Bytes}, query ≠ [] →
    pairs.foldl (fun query pair => (if query ≠ [] then query ++ [byte '&'] else query) ++
      escape pair.1 ++ [byte '='] ++ escape pair.2) query =
        query ++ (pairs.pmap dumpedParam h).flatMap (fun q => byte '&' :: q.text)
  | [], _, query, _ => by simp
  | pair :: pairs, h, query, hne => by
      rw [List.foldl_cons, if_pos hne, foldl_dump (fun x hx => h x (by simp [hx])) (by simp)]
      simp [Param.text, dumpedParam, behind]

theorem dumpQueryParams_eq {params : QueryParams}
    (h : ∀ pair ∈ params.entries, pair.1 ≠ [] ∧ ∀ c ∈ pair.1 ++ pair.2, c ≠ 0) :
    dumpQueryParams params = Param.query (params.entries.pmap dumpedParam h) := by
  obtain ⟨entries, sorted⟩ := params
  cases entries with
  | nil => rfl
  | cons pair pairs =>
      have hpairs : ∀ x ∈ pairs, x.1 ≠ [] ∧ ∀ c ∈ x.1 ++ x.2, c ≠ 0 := fun x hx => h x (by simp [hx])
      unfold dumpQueryParams
      rw [List.foldl_cons, foldl_dump hpairs (by simp)]
      simp [Param.query, Param.text, dumpedParam, behind]

/-- **Parameters are read back as they were dumped**, if none has an empty key or a NUL in it. -/
theorem parse_dump {params : QueryParams}
    (h : ∀ pair ∈ params.entries, pair.1 ≠ [] ∧ ∀ c ∈ pair.1 ++ pair.2, c ≠ 0)
    (hsize : (dumpQueryParams params).length < 2 ^ 31) :
    parseQueryParams memory (dumpQueryParams params) (.empty byteKey Bytes) = params := by
  rw [dumpQueryParams_eq h] at hsize ⊢
  rw [parseQueryParams_text hsize, foldl_dumpedParam, SortedMap.foldl_insert]

/-- Three parameters, among them one without a value. -/
def someParams : QueryParams :=
  (((SortedMap.empty byteKey Bytes).insert (ascii "k&") (ascii "v=")).insert (ascii "a b") []).insert
    (ascii "z") (ascii "%?")

theorem parse_dump_params :
    parseQueryParams (fun _ => 0) (dumpQueryParams someParams) (.empty byteKey Bytes) = someParams :=
  parse_dump (by decide +kernel) (by decide +kernel)

end OrderbookClient.Hv
