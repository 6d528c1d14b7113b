import Mathlib.Tactic
import OrderbookClient.Http1Parser

/-! # Header lines, and how `http_parser` reads them

A `HeaderLine` is a line as a server may write it.  The parser matches the names it acts on while
it reads them, with one automaton for all of them: `Matched` says what its state means, and
`matched_fieldChar` that a byte keeps that.

`readsLine_line`: a line is handed on as its name and its value, and does to the parser what the name
says. -/

namespace OrderbookClient.Hv

open Json (Bytes)
open Spans

/-! ### Names -/

/-- What the parser does with the value of a header. -/
inductive HeaderKind
  | plain | connection | contentLength | transferEncoding | upgrade
  deriving DecidableEq, Repr

/-- The names the parser acts on. -/
def knownNames : List (Bytes × HeaderKind) :=
  [(ascii "connection", .connection), (ascii "proxy-connection", .connection),
    (ascii "content-length", .contentLength), (ascii "transfer-encoding", .transferEncoding),
    (ascii "upgrade", .upgrade)]

/-- The kind of a name in lower case. -/
def nameKind (name : Bytes) : HeaderKind := (knownNames.lookup name).getD .plain

/-- The kind that a state stands for behind a name. -/
def HeaderState.kind : HeaderState → HeaderKind
  | .connection => .connection
  | .contentLength => .contentLength
  | .transferEncoding => .transferEncoding
  | .upgrade => .upgrade
  | _ => .plain

/-- The part `n` of the known name `lit` is read, which no other known name begins with. -/
structure Matching (lit n : Bytes) (index : ℕ) : Prop where
  isPrefix : n <+: lit
  ne : n ≠ lit
  index_eq : index + 1 = n.length
  only : ∀ known ∈ knownNames, n <+: known.1 → known.1 = lit

/-- What the state of the parser means behind the part `n` of a name. -/
def Matched (n : Bytes) (index : ℕ) : HeaderState → Prop
  | .general => ∀ known ∈ knownNames, ¬ n <+: known.1
  | .C => n = ascii "c" ∧ index = 0
  | .CO => n = ascii "co" ∧ index = 1
  | .CON => n = ascii "con" ∧ index = 2
  | .matchingConnection => Matching (ascii "connection") n index
  | .matchingProxyConnection => Matching (ascii "proxy-connection") n index
  | .matchingContentLength => Matching (ascii "content-length") n index
  | .matchingTransferEncoding => Matching (ascii "transfer-encoding") n index
  | .matchingUpgrade => Matching (ascii "upgrade") n index
  | .connection => n = ascii "connection" ∨ n = ascii "proxy-connection"
  | .contentLength => n = ascii "content-length"
  | .transferEncoding => n = ascii "transfer-encoding"
  | .upgrade => n = ascii "upgrade"
  | _ => False

theorem matchNext_eq {n rest : Bytes} {x : UInt8} {p : HttpParser} (h : p.index + 1 = n.length)
    (miss hit : HeaderState) (c : UInt8) :
    HttpParser.matchNext (n ++ x :: rest) miss hit p c = { p with
      index := n.length
      headerState := if x = c then if rest = [] then hit else p.headerState else miss } := by
  have hget : (cStr (n ++ x :: rest))[p.index + 1]? = some x := by
    rw [h]
    simp [cStr]
  unfold HttpParser.matchNext
  dsimp only
  rw [hget, h]
  by_cases hx : x = c
  · cases rest with
    | nil => simp [hx]
    | cons y rest => simp [hx]
  · simp [hx]

theorem Matching.step {lit n : Bytes} {miss hit : HeaderState} {p : HttpParser}
    (h : Matching lit n p.index) (c : UInt8)
    (hmiss : ∀ m i, (∀ known ∈ knownNames, ¬ m <+: known.1) → Matched m i miss)
    (hhit : ∀ i, Matched lit i hit) (hstay : ∀ m i, Matching lit m i → Matched m i p.headerState) :
    Matched (n ++ [c]) (HttpParser.matchNext lit miss hit p c).index
      (HttpParser.matchNext lit miss hit p c).headerState := by
  obtain ⟨rest, rfl⟩ := h.isPrefix
  have hrest : rest ≠ [] := by
    rintro rfl
    exact h.ne (by simp)
  obtain ⟨x, rest, rfl⟩ := List.exists_cons_of_ne_nil hrest
  have honly : ∀ known ∈ knownNames, n ++ [c] <+: known.1 → known.1 = n ++ x :: rest := by
    intro known hknown hpre
    exact h.only known hknown ((List.prefix_append n [c]).trans hpre)
  rw [matchNext_eq h.index_eq]
  dsimp only
  by_cases hx : x = c
  · subst hx
    rw [if_pos rfl]
    by_cases hnil : rest = []
    · subst hnil
      rw [if_pos rfl]
      exact hhit _
    · rw [if_neg hnil]
      exact hstay _ _ ⟨⟨rest, by simp⟩, by simpa using hnil, by simp, honly⟩
  · rw [if_neg hx]
    apply hmiss
    intro known hknown hpre
    rw [honly known hknown hpre] at hpre
    rw [List.prefix_append_right_inj] at hpre
    exact hx (List.cons_prefix_cons.mp hpre).1.symm

/-- Behind `n` the known names go on with bytes from `next` only. -/
theorem not_prefix_of_notMem {n : Bytes} {c : UInt8} (next : Bytes)
    (h : ∀ known ∈ knownNames, n.isPrefixOf known.1 → known.1[n.length]?.all (· ∈ next))
    (hc : c ∉ next) : ∀ known ∈ knownNames, ¬ n ++ [c] <+: known.1 := by
  rintro ⟨lit, kind⟩ hknown ⟨rest, rfl⟩
  have hnext := h _ hknown (by simp)
  exact hc (by simpa using hnext)

/-- **Every byte of a name keeps the meaning of the state.** -/
theorem matched_fieldChar {n : Bytes} {p : HttpParser} (h : Matched n p.index p.headerState)
    (c : UInt8) : Matched (n ++ [c]) (p.fieldChar c).index (p.fieldChar c).headerState := by
  have hmiss : ∀ m i, (∀ known ∈ knownNames, ¬ m <+: known.1) → Matched m i .general :=
    fun m i hm => hm
  unfold HttpParser.fieldChar
  cases hs : p.headerState with
  | general =>
      rw [hs] at h
      intro known hknown hpre
      exact h known hknown ((List.prefix_append n [c]).trans hpre)
  | C =>
      rw [hs] at h
      obtain ⟨rfl, hi⟩ := h
      dsimp only
      split_ifs with hc
      · subst hc
        exact ⟨by decide, by rw [hi]⟩
      · exact not_prefix_of_notMem [byte 'o'] (by decide) (by simpa using hc)
  | CO =>
      rw [hs] at h
      obtain ⟨rfl, hi⟩ := h
      dsimp only
      split_ifs with hc
      · subst hc
        exact ⟨by decide, by rw [hi]⟩
      · exact not_prefix_of_notMem [byte 'n'] (by decide) (by simpa using hc)
  | CON =>
      rw [hs] at h
      obtain ⟨rfl, hi⟩ := h
      dsimp only
      split_ifs with hn ht
      · subst hn
        exact ⟨by decide, by decide, by rw [hi]; rfl, by decide⟩
      · subst ht
        exact ⟨by decide, by decide, by rw [hi]; rfl, by decide⟩
      · exact not_prefix_of_notMem [byte 'n', byte 't'] (by decide) (by simpa using ⟨hn, ht⟩)
  | matchingConnection =>
      rw [hs] at h
      exact h.step c hmiss (fun _ => .inl rfl) (fun m i hm => by rw [hs]; exact hm)
  | matchingProxyConnection =>
      rw [hs] at h
      exact h.step c hmiss (fun _ => .inr rfl) (fun m i hm => by rw [hs]; exact hm)
  | matchingContentLength | matchingTransferEncoding | matchingUpgrade =>
      rw [hs] at h
      exact h.step c hmiss (fun _ => rfl) (fun m i hm => by rw [hs]; exact hm)
  | connection =>
      rw [hs] at h
      obtain rfl | rfl := h
      · exact not_prefix_of_notMem [] (by decide) List.not_mem_nil
      · exact not_prefix_of_notMem [] (by decide) List.not_mem_nil
  | contentLength | transferEncoding | upgrade =>
      rw [hs] at h
      obtain rfl := h
      exact not_prefix_of_notMem [] (by decide) List.not_mem_nil
  | _ =>
      rw [hs] at h
      exact h.elim

theorem matched_fieldStart (c : UInt8) : Matched [c] 0 (HttpParser.fieldStart c) := by
  unfold HttpParser.fieldStart
  split_ifs with hc hp ht hu
  · subst hc
    exact ⟨rfl, rfl⟩
  · subst hp
    exact ⟨by decide, by decide, rfl, by decide⟩
  · subst ht
    exact ⟨by decide, by decide, rfl, by decide⟩
  · subst hu
    exact ⟨by decide, by decide, rfl, by decide⟩
  · exact not_prefix_of_notMem (n := []) [byte 'c', byte 'p', byte 't', byte 'u'] (by decide)
      (by simpa using ⟨hc, hp, ht, hu⟩)

theorem nameKind_plain {n : Bytes} (h : ∀ known ∈ knownNames, known.1 ≠ n) :
    nameKind n = .plain := by
  unfold nameKind
  rw [List.lookup_eq_none_iff.mpr]
  · rfl
  · intro known hknown
    simpa using (h known hknown).symm

theorem Matching.kind {lit n : Bytes} {index : ℕ} (h : Matching lit n index) :
    nameKind n = .plain := by
  apply nameKind_plain
  rintro known hknown rfl
  exact h.ne (h.only known hknown (List.prefix_refl _))

/-- Behind the whole name the state tells its kind. -/
theorem Matched.kind {n : Bytes} {index : ℕ} {h : HeaderState} (hm : Matched n index h) :
    h.kind = nameKind n := by
  cases h with
  | general =>
      symm
      apply nameKind_plain
      rintro known hknown rfl
      exact hm known hknown (List.prefix_refl _)
  | C | CO | CON =>
      obtain ⟨rfl, -⟩ := hm
      decide
  | matchingConnection | matchingProxyConnection | matchingContentLength | matchingTransferEncoding
  | matchingUpgrade => exact (Matching.kind hm).symm
  | connection =>
      obtain rfl | rfl := hm
      · decide
      · decide
  | contentLength | transferEncoding | upgrade =>
      obtain rfl := hm
      decide
  | _ => exact hm.elim

/-! ### Lines -/

/-- A header line. -/
structure HeaderLine where
  name : Bytes
  /-- The blanks behind the colon. -/
  blanks : Bytes
  value : Bytes
  name_ne : name ≠ []
  name_token : ∀ c ∈ name, token c ≠ 0
  blanks_blank : ∀ c ∈ blanks, c = byte ' ' ∨ c = tab
  value_char : ∀ c ∈ value, isHeaderChar c = true ∧ c ≠ cr ∧ c ≠ lf
  value_head : ∀ c ∈ value.head?, c ≠ byte ' ' ∧ c ≠ tab

namespace HeaderLine

def text (l : HeaderLine) : Bytes := l.name ++ byte ':' :: l.blanks ++ l.value ++ [cr, lf]

def kind (l : HeaderLine) : HeaderKind := nameKind (caseKey l.name)

/-- A line of a response to an upgrade: the parser acts on its name only if that is `Upgrade`, or
`Connection` with the value `upgrade`. -/
def Ordinary (l : HeaderLine) : Prop :=
  l.kind = .plain ∨ (l.kind = .upgrade ∧ l.value ≠ []) ∨
    (l.kind = .connection ∧ caseKey l.value = ascii "upgrade")

/-- The flag that an ordinary line sets. -/
def setFlags (l : HeaderLine) (flags : HttpFlags) : HttpFlags :=
  match l.kind with
  | .upgrade => { flags with upgrade := true }
  | .connection => { flags with connectionUpgrade := true }
  | _ => flags

/-- The callbacks of a line. -/
def calls (l : HeaderLine) : List (Call HttpSpan HttpNotice UInt8) :=
  [.data .headerField l.name, .data .headerValue l.value]

/-- The line behind its name. -/
def tail (l : HeaderLine) : Bytes := [byte ':'] ++ l.blanks ++ (l.value ++ [cr, lf])

theorem text_eq (l : HeaderLine) : l.text = l.name ++ l.tail := by
  simp [text, tail]

end HeaderLine

theorem token_toLower : ∀ c : UInt8, token c ≠ 0 → token c = toLower c := by decide +kernel

theorem map_token {name : Bytes} (h : ∀ c ∈ name, token c ≠ 0) : name.map token = caseKey name :=
  List.map_congr_left (fun c hc => token_toLower c (h c hc))

/-! ### Reading a line -/

namespace HttpParser

variable {skipBody : Bool} {p : HttpParser}

theorem executeByte_header (hs : p.state.parsingHeader = true) (hn : p.nread + 1 ≤ maxHeaderSize)
    (c : UInt8) : executeByte skipBody p c = dispatch skipBody { p with nread := p.nread + 1 } c := by
  unfold executeByte
  rw [if_pos hs, if_neg (by omega)]

theorem steps_turn {q : HttpParser} {c : UInt8} {ops : List (Op HttpSpan HttpNotice)}
    (m : Mark HttpSpan UInt8) (h : executeByte skipBody p c = q.turn ops) :
    Steps (parser skipBody) p m [c] (applyAll c m ops).2 q (grow c (applyAll c m ops).1) := by
  have hturn : (parser skipBody).turn p c = q.turn ops := h
  have hsteps := Steps.single (P := parser skipBody) (s := p) (c := c) (by rw [hturn]; rfl) m
  rw [hturn] at hsteps
  exact hsteps

theorem steps_goto {q : HttpParser} {c : UInt8} (h : executeByte skipBody p c = q.turn []) :
    Steps (parser skipBody) p none [c] [] q none :=
  steps_turn none h

theorem steps_inside {q : HttpParser} {c : UInt8} {k : HttpSpan} {d : Bytes}
    (h : executeByte skipBody p c = q.turn []) :
    Steps (parser skipBody) p (some (k, d)) [c] [] q (some (k, d ++ [c])) :=
  steps_turn _ h

theorem steps_mark {q : HttpParser} {c : UInt8} {k : HttpSpan}
    (h : executeByte skipBody p c = q.turn [.mark k]) :
    Steps (parser skipBody) p none [c] [] q (some (k, [c])) :=
  steps_turn none h

theorem steps_data {q : HttpParser} {c : UInt8} {k : HttpSpan} {d : Bytes}
    (h : executeByte skipBody p c = q.turn [.data k]) :
    Steps (parser skipBody) p (some (k, d)) [c] [.data k d] q none := by
  have hsteps := steps_turn (some (k, d)) h
  simpa [applyAll, Op.apply, grow] using hsteps

variable (skipBody)

theorem fieldChar_eq (p : HttpParser) (c : UInt8) : p.fieldChar c =
    { p with headerState := (p.fieldChar c).headerState, index := (p.fieldChar c).index } := by
  unfold fieldChar matchNext
  cases p.headerState <;> dsimp only <;> split_ifs <;> rfl

theorem steps_field : ∀ {name n d : Bytes} {p : HttpParser}, p.state = .headerField →
    Matched n p.index p.headerState → (∀ c ∈ name, token c ≠ 0) →
    p.nread + name.length ≤ maxHeaderSize →
    ∃ i h, Matched (n ++ name.map token) i h ∧
      Steps (parser skipBody) p (some (.headerField, d)) name []
        { p with index := i, headerState := h, nread := p.nread + name.length }
        (some (.headerField, d ++ name))
  | [], n, d, p, hs, hm, _, _ =>
      ⟨p.index, p.headerState, by simpa using hm, by simpa using Steps.refl _ _⟩
  | c :: name, n, d, p, hs, hm, htok, hn => by
      have htok' : token c ≠ 0 ∧ ∀ x ∈ name, token x ≠ 0 := by simpa using htok
      rw [List.length_cons] at hn
      have hbyte : executeByte skipBody p c =
          (({ p with nread := p.nread + 1 } : HttpParser).fieldChar (token c)).turn [] := by
        rw [executeByte_header (by rw [hs]; rfl) (by omega)]
        unfold dispatch
        simp only [hs]
        unfold headerField
        rw [if_pos htok'.1]
      have hstep := steps_inside (k := .headerField) (d := d) hbyte
      have hm' : Matched (n ++ [token c])
          (({ p with nread := p.nread + 1 } : HttpParser).fieldChar (token c)).index
          (({ p with nread := p.nread + 1 } : HttpParser).fieldChar (token c)).headerState :=
        matched_fieldChar (p := { p with nread := p.nread + 1 }) hm (token c)
      rw [fieldChar_eq] at hstep
      generalize (({ p with nread := p.nread + 1 } : HttpParser).fieldChar (token c)).index = i at *
      generalize (({ p with nread := p.nread + 1 } : HttpParser).fieldChar (token c)).headerState = h at *
      obtain ⟨i', h', hm'', hsteps⟩ := steps_field (d := d ++ [c])
        (p := { p with nread := p.nread + 1, index := i, headerState := h }) hs hm' htok'.2
        (by dsimp only; omega)
      refine ⟨i', h', by simpa using hm'', ?_⟩
      have := hstep.trans hsteps
      simpa [Nat.add_assoc, Nat.add_comm 1] using this

theorem steps_name {name : Bytes} (hne : name ≠ []) (htok : ∀ c ∈ name, token c ≠ 0)
    (hs : p.state = .headerFieldStart) (hn : p.nread + name.length ≤ maxHeaderSize) :
    ∃ i h, Matched (caseKey name) i h ∧
      Steps (parser skipBody) p none name []
        { p with state := .headerField, index := i, headerState := h, nread := p.nread + name.length }
        (some (.headerField, name)) := by
  obtain ⟨c, name, rfl⟩ := List.exists_cons_of_ne_nil hne
  have htok' : token c ≠ 0 ∧ ∀ x ∈ name, token x ≠ 0 := by simpa using htok
  rw [List.length_cons] at hn
  have hends : c ≠ cr ∧ c ≠ lf := by
    constructor
    · rintro rfl
      exact htok'.1 (by decide)
    · rintro rfl
      exact htok'.1 (by decide)
  have hbyte : executeByte skipBody p c = { p with
      state := .headerField
      index := 0
      headerState := fieldStart (token c)
      nread := p.nread + 1 }.turn [.mark .headerField] := by
    rw [executeByte_header (by rw [hs]; rfl) (by omega)]
    unfold dispatch
    simp only [hs]
    unfold headerFieldStart
    rw [if_neg hends.1, if_neg hends.2, if_neg htok'.1]
  obtain ⟨i, h, hm, hsteps⟩ := steps_field skipBody (d := [c]) (n := [token c])
    (p := { p with
      state := .headerField
      index := 0
      headerState := fieldStart (token c)
      nread := p.nread + 1 }) rfl (matched_fieldStart _) htok'.2 (by dsimp only; omega)
  refine ⟨i, h, by simpa [← map_token htok] using hm, ?_⟩
  have := (steps_mark hbyte).trans hsteps
  simpa [Nat.add_assoc, Nat.add_comm 1] using this

theorem steps_colon (hs : p.state = .headerField) (hn : p.nread + 1 ≤ maxHeaderSize) (d : Bytes) :
    Steps (parser skipBody) p (some (.headerField, d)) [byte ':'] [.data .headerField d]
      { p with state := .headerValueDiscardWs, nread := p.nread + 1 } none := by
  apply steps_data
  rw [executeByte_header (by rw [hs]; rfl) hn]
  unfold dispatch
  simp only [hs]
  unfold headerField
  rw [if_neg (by decide), if_pos rfl]

theorem steps_blanks : ∀ {blanks : Bytes} {p : HttpParser}, p.state = .headerValueDiscardWs →
    (∀ c ∈ blanks, c = byte ' ' ∨ c = tab) → p.nread + blanks.length ≤ maxHeaderSize →
    Steps (parser skipBody) p none blanks [] { p with nread := p.nread + blanks.length } none
  | [], p, _, _, _ => by simpa using Steps.refl p none
  | c :: blanks, p, hs, hblank, hn => by
      have hblank' : (c = byte ' ' ∨ c = tab) ∧ ∀ x ∈ blanks, x = byte ' ' ∨ x = tab := by
        simpa using hblank
      rw [List.length_cons] at hn
      have hbyte : executeByte skipBody p c = { p with nread := p.nread + 1 }.turn [] := by
        rw [executeByte_header (by rw [hs]; rfl) (by omega)]
        unfold dispatch
        simp only [hs]
        unfold headerValueDiscardWs
        rw [if_pos hblank'.1]
      have hsteps := steps_blanks (p := { p with nread := p.nread + 1 }) hs hblank'.2 (by dsimp only; omega)
      have := (steps_goto hbyte).trans hsteps
      simpa [Nat.add_assoc, Nat.add_comm 1] using this

/-! ### Reading a value -/

/-- A state that a value does nothing to. -/
structure Idle (h : HeaderState) : Prop where
  ne : h ≠ .contentLength
  finish : ∀ p : HttpParser, p.headerState = h → p.finishHeader = p.flags
  start : ∀ (p : HttpParser) (c : UInt8), p.headerState = h → p.headerValueStart c =
    { p with state := .headerValue, index := 0, headerState := .general }.turn [.mark .headerValue]

theorem idle_of_matched {n : Bytes} {i : ℕ} {h : HeaderState} (hm : Matched n i h)
    (hk : nameKind n = .plain) : Idle h := by
  rw [← hm.kind] at hk
  cases h with
  | general | C | CO | CON | matchingConnection | matchingProxyConnection | matchingContentLength
  | matchingTransferEncoding | matchingUpgrade =>
      refine ⟨by simp, fun p hp => ?_, fun p c hp => ?_⟩
      · simp [finishHeader, hp]
      · simp [headerValueStart, hp]
  | connection | contentLength | transferEncoding | upgrade => cases hk
  | _ => exact hm.elim

theorem steps_value : ∀ {value d : Bytes} {p : HttpParser}, p.state = .headerValue →
    p.headerState = .general → (∀ c ∈ value, isHeaderChar c = true ∧ c ≠ cr ∧ c ≠ lf) →
    p.nread + value.length ≤ maxHeaderSize →
    Steps (parser skipBody) p (some (.headerValue, d)) value []
      { p with nread := p.nread + value.length } (some (.headerValue, d ++ value))
  | [], d, p, _, _, _, _ => by simpa using Steps.refl p (some (HttpSpan.headerValue, d))
  | c :: value, d, p, hs, hh, hchar, hn => by
      have hchar' : (isHeaderChar c = true ∧ c ≠ cr ∧ c ≠ lf) ∧
          ∀ x ∈ value, isHeaderChar x = true ∧ x ≠ cr ∧ x ≠ lf := by
        simpa using hchar
      obtain ⟨⟨hc, hcr, hlf⟩, hrest⟩ := hchar'
      rw [List.length_cons] at hn
      have hbyte : executeByte skipBody p c = { p with nread := p.nread + 1 }.turn [] := by
        rw [executeByte_header (by rw [hs]; rfl) (by omega)]
        unfold dispatch
        simp only [hs]
        unfold headerValue
        rw [if_neg hcr, if_neg hlf, if_neg (by simp [hc])]
        simp [valueChar, hh]
      have hsteps := steps_value (d := d ++ [c])
        (p := { p with nread := p.nread + 1 }) hs hh hrest (by dsimp only; omega)
      have := (steps_inside hbyte).trans hsteps
      simpa [Nat.add_assoc, Nat.add_comm 1] using this

theorem steps_lineEnd (hs : p.state = .headerValue) (hn : p.nread + 2 ≤ maxHeaderSize) (d : Bytes) :
    Steps (parser skipBody) p (some (.headerValue, d)) [cr, lf] [.data .headerValue d]
      { p with state := .headerValueLws, nread := p.nread + 2 } none := by
  have hcr : executeByte skipBody p cr =
      { p with state := .headerAlmostDone, nread := p.nread + 1 }.turn [.data .headerValue] := by
    rw [executeByte_header (by rw [hs]; rfl) (by omega)]
    unfold dispatch
    simp only [hs]
    unfold headerValue
    rw [if_pos rfl]
  have hlf : executeByte skipBody { p with state := .headerAlmostDone, nread := p.nread + 1 } lf =
      { p with state := .headerValueLws, nread := p.nread + 2 }.turn [] := by
    rw [executeByte_header rfl (by dsimp only; omega)]
    rfl
  exact (steps_data hcr).trans (steps_goto hlf)

variable {skipBody} in
theorem run_eq_of_turn {q : HttpParser} {c : UInt8}
    (h : executeByte skipBody p c = executeByte skipBody q c) (m : Mark HttpSpan UInt8) (rest : Bytes) :
    (parser skipBody).run p m (c :: rest) = (parser skipBody).run q m (c :: rest) := by
  have hturn : (parser skipBody).turn p c = (parser skipBody).turn q c := h
  rw [Parser.run, Parser.run, hturn]

/-- The line is finished where the next one does not continue it. -/
theorem run_lineEnd (hs : p.state = .headerValueLws) (hn : p.nread + 1 ≤ maxHeaderSize) {c : UInt8}
    (hc : c ≠ byte ' ' ∧ c ≠ tab) (rest : Bytes) :
    (parser skipBody).run p none (c :: rest) =
      (parser skipBody).run { p with state := .headerFieldStart, flags := p.finishHeader } none
        (c :: rest) := by
  apply run_eq_of_turn
  rw [executeByte_header (by rw [hs]; rfl) hn, executeByte_header (p := { p with
    state := .headerFieldStart, flags := p.finishHeader }) rfl hn]
  unfold dispatch
  simp only [hs]
  unfold headerValueLws
  rw [if_neg (not_or.mpr hc)]
  rfl

/-- The same behind an empty value, which is handed on then. -/
theorem run_emptyLineEnd (hs : p.state = .headerValueDiscardLws) (hn : p.nread + 1 ≤ maxHeaderSize)
    (hh : Idle p.headerState) {c : UInt8} (hc : c ≠ byte ' ' ∧ c ≠ tab) (rest : Bytes) :
    (parser skipBody).run p none (c :: rest) =
      ((parser skipBody).run { p with state := .headerFieldStart } none (c :: rest)).behind
        [.data .headerValue []] 0 := by
  have hturn : executeByte skipBody p c = after [.mark .headerValue, .data .headerValue]
      (executeByte skipBody { p with state := .headerFieldStart } c) := by
    rw [executeByte_header (by rw [hs]; rfl) hn,
      executeByte_header (p := { p with state := .headerFieldStart }) rfl hn]
    unfold dispatch
    simp only [hs]
    unfold headerValueDiscardLws
    rw [if_neg (not_or.mpr hc), if_neg hh.ne, hh.finish]
    · rfl
  exact run_reexecute (P := parser skipBody) hturn none rest

/-- Up to the first byte of the next line, which is no blank. -/
def ReadsLine (skipBody : Bool) (p : HttpParser) (cs : Bytes)
    (calls : List (Call HttpSpan HttpNotice UInt8)) (q : HttpParser) : Prop :=
  ∀ c rest, c ≠ byte ' ' ∧ c ≠ tab → (parser skipBody).run p none (cs ++ c :: rest) =
    ((parser skipBody).run q none (c :: rest)).behind calls cs.length

variable {skipBody} in
theorem readsLine_value {q : HttpParser} {value : Bytes}
    (h : Steps (parser skipBody) p none value [] q (some (.headerValue, value)))
    (hs : q.state = .headerValue) (hn : q.nread + 3 ≤ maxHeaderSize) :
    ReadsLine skipBody p (value ++ [cr, lf]) [.data .headerValue value]
      { q with state := .headerFieldStart, flags := q.finishHeader, nread := q.nread + 2 } := by
  intro c rest hc
  have hsteps := h.trans (steps_lineEnd skipBody hs (by omega) value)
  rw [hsteps, run_lineEnd skipBody rfl (by dsimp only; omega) hc]
  rfl

theorem steps_valueHead {q : HttpParser} {c : UInt8} (hs : p.state = .headerValueDiscardWs)
    (hn : p.nread + 1 ≤ maxHeaderSize) (hblank : c ≠ byte ' ' ∧ c ≠ tab) (hend : c ≠ cr ∧ c ≠ lf)
    (h : ({ p with nread := p.nread + 1 } : HttpParser).headerValueStart c =
      q.turn [.mark .headerValue]) :
    Steps (parser skipBody) p none [c] [] q (some (.headerValue, [c])) := by
  apply steps_mark
  rw [executeByte_header (by rw [hs]; rfl) hn]
  unfold dispatch
  simp only [hs]
  unfold headerValueDiscardWs
  rw [if_neg (not_or.mpr hblank), if_neg hend.1, if_neg hend.2, ← h]
  simp only [hs]

theorem readsLine_empty (hs : p.state = .headerValueDiscardWs) (hn : p.nread + 3 ≤ maxHeaderSize)
    (hh : Idle p.headerState) :
    ReadsLine skipBody p [cr, lf] [.data .headerValue []]
      { p with state := .headerFieldStart, nread := p.nread + 2 } := by
  have hcr : executeByte skipBody p cr =
      { p with state := .headerValueDiscardWsAlmostDone, nread := p.nread + 1 }.turn [] := by
    rw [executeByte_header (by rw [hs]; rfl) (by omega)]
    unfold dispatch
    simp only [hs]
    unfold headerValueDiscardWs
    rw [if_neg (by decide), if_pos rfl]
    rfl
  have hlf : executeByte skipBody
      { p with state := .headerValueDiscardWsAlmostDone, nread := p.nread + 1 } lf =
      { p with state := .headerValueDiscardLws, nread := p.nread + 2 }.turn [] := by
    rw [executeByte_header rfl (by dsimp only; omega)]
    rfl
  intro c rest hc
  have hsteps := (steps_goto hcr).trans (steps_goto hlf)
  rw [show [cr, lf] = [cr] ++ [lf] from rfl, hsteps, run_emptyLineEnd skipBody (p := { p with
    state := .headerValueDiscardLws, nread := p.nread + 2 }) rfl (by dsimp only; omega) hh hc]
  simp [Result.behind_behind]

theorem readsLine_plain {value : Bytes} (hs : p.state = .headerValueDiscardWs)
    (hh : Idle p.headerState) (hchar : ∀ c ∈ value, isHeaderChar c = true ∧ c ≠ cr ∧ c ≠ lf)
    (hhead : ∀ c ∈ value.head?, c ≠ byte ' ' ∧ c ≠ tab)
    (hn : p.nread + value.length + 3 ≤ maxHeaderSize) :
    ∃ i h, ReadsLine skipBody p (value ++ [cr, lf]) [.data .headerValue value] { p with
      state := .headerFieldStart, index := i, headerState := h, nread := p.nread + value.length + 2 } := by
  cases value with
  | nil => exact ⟨p.index, p.headerState, readsLine_empty skipBody hs hn hh⟩
  | cons c value =>
      have hchar' : (isHeaderChar c = true ∧ c ≠ cr ∧ c ≠ lf) ∧
          ∀ x ∈ value, isHeaderChar x = true ∧ x ≠ cr ∧ x ≠ lf := by
        simpa using hchar
      rw [List.length_cons] at hn
      have hstart := steps_valueHead skipBody hs (by omega) (hhead c rfl) hchar'.1.2
        (hh.start _ c rfl)
      have hsteps := hstart.trans (steps_value skipBody (d := [c]) rfl rfl hchar'.2 (by dsimp only; omega))
      refine ⟨0, .general, ?_⟩
      have := readsLine_value hsteps rfl (by dsimp only; omega)
      simpa [finishHeader, Nat.add_assoc, Nat.add_comm 1] using this

theorem readsLine_upgrade {value : Bytes} (hs : p.state = .headerValueDiscardWs)
    (hh : p.headerState = .upgrade) (hne : value ≠ [])
    (hchar : ∀ c ∈ value, isHeaderChar c = true ∧ c ≠ cr ∧ c ≠ lf)
    (hhead : ∀ c ∈ value.head?, c ≠ byte ' ' ∧ c ≠ tab)
    (hn : p.nread + value.length + 3 ≤ maxHeaderSize) :
    ∃ i h, ReadsLine skipBody p (value ++ [cr, lf]) [.data .headerValue value] { p with
      state := .headerFieldStart
      index := i
      headerState := h
      flags.upgrade := true
      nread := p.nread + value.length + 2 } := by
  obtain ⟨c, value, rfl⟩ := List.exists_cons_of_ne_nil hne
  have hchar' : (isHeaderChar c = true ∧ c ≠ cr ∧ c ≠ lf) ∧
      ∀ x ∈ value, isHeaderChar x = true ∧ x ≠ cr ∧ x ≠ lf := by
    simpa using hchar
  rw [List.length_cons] at hn
  have hvalue : ({ p with nread := p.nread + 1 } : HttpParser).headerValueStart c =
      { p with
        state := .headerValue
        index := 0
        flags.upgrade := true
        headerState := .general
        nread := p.nread + 1 }.turn [.mark .headerValue] := by
    simp [headerValueStart, hh]
  have hstart := steps_valueHead skipBody hs (by omega) (hhead c rfl) hchar'.1.2 hvalue
  have hsteps := hstart.trans (steps_value skipBody (d := [c]) rfl rfl hchar'.2 (by dsimp only; omega))
  refine ⟨0, .general, ?_⟩
  have := readsLine_value hsteps rfl (by dsimp only; omega)
  simpa [finishHeader, Nat.add_assoc, Nat.add_comm 1] using this

theorem lower_of_toLower : ∀ c : UInt8, toLower c ∈ ascii "upgrade" → lower c = toLower c := by
  decide +kernel

/-- One more byte of the value `upgrade`, in any case. -/
theorem executeByte_connection {n rest : Bytes} {c : UInt8} (hs : p.state = .headerValue)
    (hh : p.headerState = .matchingConnectionUpgrade) (hi : p.index + 1 = n.length)
    (hlit : n ++ toLower c :: rest = ascii "upgrade")
    (hchar : isHeaderChar c = true ∧ c ≠ cr ∧ c ≠ lf) (hn : p.nread + 1 ≤ maxHeaderSize) :
    executeByte skipBody p c = { p with
      nread := p.nread + 1
      index := n.length
      headerState := if rest = [] then .connectionUpgrade else .matchingConnectionUpgrade }.turn [] := by
  have hmem : toLower c ∈ ascii "upgrade" := by
    rw [← hlit]
    simp
  rw [executeByte_header (by rw [hs]; rfl) hn]
  unfold dispatch
  simp only [hs]
  unfold headerValue
  rw [if_neg hchar.2.1, if_neg hchar.2.2, if_neg (by simp [hchar.1])]
  unfold valueChar
  simp only [hh]
  rw [← hlit, matchNext_eq, lower_of_toLower c hmem, if_pos rfl]
  exact hi

theorem steps_connection {value : Bytes} : ∀ {c : UInt8} {n d : Bytes} {p : HttpParser},
    p.state = .headerValue → p.headerState = .matchingConnectionUpgrade → p.index + 1 = n.length →
    n ++ toLower c :: caseKey value = ascii "upgrade" →
    (∀ x ∈ c :: value, isHeaderChar x = true ∧ x ≠ cr ∧ x ≠ lf) →
    p.nread + value.length + 1 ≤ maxHeaderSize →
    ∃ i, Steps (parser skipBody) p (some (.headerValue, d)) (c :: value) []
      { p with index := i, headerState := .connectionUpgrade, nread := p.nread + value.length + 1 }
      (some (.headerValue, d ++ c :: value)) := by
  induction value with
  | nil =>
      intro c n d p hs hh hi hlit hchar hn
      have hbyte := executeByte_connection skipBody hs hh hi hlit
        (hchar c List.mem_cons_self) hn
      exact ⟨n.length, steps_inside hbyte⟩
  | cons x value ih =>
      intro c n d p hs hh hi hlit hchar hn
      rw [List.length_cons] at hn
      have hbyte := executeByte_connection skipBody hs hh hi hlit
        (hchar c List.mem_cons_self) (by omega)
      obtain ⟨i, hsteps⟩ := ih (c := x) (n := n ++ [toLower c]) (d := d ++ [c])
        (p := { p with
          nread := p.nread + 1, index := n.length, headerState := .matchingConnectionUpgrade })
        hs rfl (by simp) (by simpa [caseKey] using hlit) (fun y hy => hchar y (List.mem_cons_of_mem c hy))
        (by dsimp only; omega)
      refine ⟨i, ?_⟩
      have := (steps_inside (k := .headerValue) (d := d) hbyte).trans hsteps
      simpa [Nat.add_assoc, Nat.add_comm 1] using this

theorem readsLine_connection {value : Bytes} (hs : p.state = .headerValueDiscardWs)
    (hh : p.headerState = .connection) (hvalue : caseKey value = ascii "upgrade")
    (hchar : ∀ c ∈ value, isHeaderChar c = true ∧ c ≠ cr ∧ c ≠ lf)
    (hhead : ∀ c ∈ value.head?, c ≠ byte ' ' ∧ c ≠ tab)
    (hn : p.nread + value.length + 3 ≤ maxHeaderSize) :
    ∃ i h, ReadsLine skipBody p (value ++ [cr, lf]) [.data .headerValue value] { p with
      state := .headerFieldStart
      index := i
      headerState := h
      flags.connectionUpgrade := true
      nread := p.nread + value.length + 2 } := by
  match value, hvalue with
  | [c], hvalue =>
      have hlength : 1 = 7 := congrArg List.length hvalue
      omega
  | c :: x :: value, hvalue =>
      have hchar' : (isHeaderChar c = true ∧ c ≠ cr ∧ c ≠ lf) ∧
          ∀ y ∈ x :: value, isHeaderChar y = true ∧ y ≠ cr ∧ y ≠ lf := by
        simpa using hchar
      have hlit : [toLower c] ++ toLower x :: caseKey value = ascii "upgrade" := hvalue
      have hc : toLower c = byte 'u' := (List.cons.inj hlit).1
      have hlower : lower c = byte 'u' := by
        rw [← hc]
        exact lower_of_toLower c (by rw [hc]; decide)
      rw [List.length_cons, List.length_cons] at hn
      have hstart : ({ p with nread := p.nread + 1 } : HttpParser).headerValueStart c =
          { p with
            state := .headerValue
            index := 0
            headerState := .matchingConnectionUpgrade
            nread := p.nread + 1 }.turn [.mark .headerValue] := by
        simp [headerValueStart, hh, hlower, connectionStart]
      have hfirst := steps_valueHead skipBody hs (by omega) (hhead c rfl) hchar'.1.2 hstart
      obtain ⟨i, hrest⟩ := steps_connection skipBody (d := [c]) (p := { p with
            state := .headerValue
            index := 0
            headerState := .matchingConnectionUpgrade
            nread := p.nread + 1 }) rfl rfl rfl hlit hchar'.2 (by dsimp only; omega)
      have hsteps := hfirst.trans hrest
      refine ⟨i, .connectionUpgrade, ?_⟩
      have := readsLine_value hsteps rfl (by dsimp only; omega)
      simpa [finishHeader, Nat.add_assoc, Nat.add_comm 1] using this

/-- From behind a name to the next line: `d` is what is marked of the name. -/
theorem readsLine_tail {l : HeaderLine} (hl : l.Ordinary) (hs : p.state = .headerField)
    (hm : Matched (caseKey l.name) p.index p.headerState)
    (hn : p.nread + l.tail.length + 1 ≤ maxHeaderSize) :
    ∃ i h, ∀ d c rest, c ≠ byte ' ' ∧ c ≠ tab →
      (parser skipBody).run p (some (.headerField, d)) (l.tail ++ c :: rest) =
        ((parser skipBody).run { p with
          state := .headerFieldStart
          index := i
          headerState := h
          flags := l.setFlags p.flags
          nread := p.nread + l.tail.length } none (c :: rest)).behind
            [.data .headerField d, .data .headerValue l.value] l.tail.length := by
  have hlength : l.tail.length = l.blanks.length + l.value.length + 3 := by
    simp [HeaderLine.tail]
    omega
  have hcolon := steps_colon skipBody hs (by omega)
  have hblanks := steps_blanks skipBody (p := { p with
    state := .headerValueDiscardWs, nread := p.nread + 1 }) rfl l.blanks_blank (by dsimp only; omega)
  have hnread : p.nread + 1 + l.blanks.length + l.value.length + 2 = p.nread + l.tail.length := by
    omega
  have hkind : p.headerState.kind = l.kind := hm.kind
  have hfinish : ∀ i' h' flags, ReadsLine skipBody { p with
      state := .headerValueDiscardWs, nread := p.nread + 1 + l.blanks.length } (l.value ++ [cr, lf])
      [.data .headerValue l.value] { p with
        state := .headerFieldStart, index := i', headerState := h', flags := flags,
        nread := p.nread + 1 + l.blanks.length + l.value.length + 2 } →
      ∀ d c rest, c ≠ byte ' ' ∧ c ≠ tab →
        (parser skipBody).run p (some (.headerField, d)) (l.tail ++ c :: rest) =
          ((parser skipBody).run { p with
            state := .headerFieldStart, index := i', headerState := h', flags := flags,
            nread := p.nread + l.tail.length } none (c :: rest)).behind
              [.data .headerField d, .data .headerValue l.value] l.tail.length := by
    intro i' h' flags hline d c rest hc
    have hhead := (hcolon d).trans hblanks
    have htext : l.tail ++ c :: rest =
        [byte ':'] ++ l.blanks ++ (l.value ++ [cr, lf] ++ c :: rest) := by
      simp [HeaderLine.tail]
    have hparsed : ([byte ':'] ++ l.blanks).length + (l.value ++ [cr, lf]).length = l.tail.length := by
      simp only [hlength, List.length_append, List.length_cons, List.length_nil]
      omega
    rw [htext, hhead, hline c rest hc, Result.behind_behind, hnread, hparsed]
    rfl
  obtain hplain | ⟨hupgrade, hne⟩ | ⟨hconnection, hvalue⟩ := hl
  · obtain ⟨i', h', hline⟩ := readsLine_plain skipBody (p := { p with
      state := .headerValueDiscardWs, nread := p.nread + 1 + l.blanks.length }) rfl
      (idle_of_matched hm hplain) l.value_char l.value_head (by dsimp only; omega)
    refine ⟨i', h', ?_⟩
    simp only [HeaderLine.setFlags, hplain]
    exact hfinish i' h' _ hline
  · have hh : p.headerState = .upgrade := by
      rw [hupgrade] at hkind
      revert hkind
      cases p.headerState <;> simp [HeaderState.kind]
    obtain ⟨i', h', hline⟩ := readsLine_upgrade skipBody (p := { p with
      state := .headerValueDiscardWs, nread := p.nread + 1 + l.blanks.length }) rfl hh hne
      l.value_char l.value_head (by dsimp only; omega)
    refine ⟨i', h', ?_⟩
    simp only [HeaderLine.setFlags, hupgrade]
    exact hfinish i' h' _ hline
  · have hh : p.headerState = .connection := by
      rw [hconnection] at hkind
      revert hkind
      cases p.headerState <;> simp [HeaderState.kind]
    obtain ⟨i', h', hline⟩ := readsLine_connection skipBody (p := { p with
      state := .headerValueDiscardWs, nread := p.nread + 1 + l.blanks.length }) rfl hh hvalue
      l.value_char l.value_head (by dsimp only; omega)
    refine ⟨i', h', ?_⟩
    simp only [HeaderLine.setFlags, hconnection]
    exact hfinish i' h' _ hline

/-- **A line is handed on as its name and its value**, and sets the flag of its kind. -/
theorem readsLine_line {l : HeaderLine} (hl : l.Ordinary) (hs : p.state = .headerFieldStart)
    (hn : p.nread + l.text.length + 1 ≤ maxHeaderSize) :
    ∃ i h, ReadsLine skipBody p l.text l.calls { p with
      index := i
      headerState := h
      flags := l.setFlags p.flags
      nread := p.nread + l.text.length } := by
  rw [l.text_eq, List.length_append] at hn
  obtain ⟨i, h, hm, hname⟩ := steps_name skipBody l.name_ne l.name_token hs (by omega)
  obtain ⟨i', h', htail⟩ := readsLine_tail skipBody hl (p := { p with
    state := .headerField, index := i, headerState := h, nread := p.nread + l.name.length }) rfl hm
    (by dsimp only; omega)
  refine ⟨i', h', fun c rest hc => ?_⟩
  rw [l.text_eq, List.append_assoc, hname, htail l.name c rest hc, Result.behind_behind,
    List.length_append, ← hs, Nat.add_assoc]
  rfl

end HttpParser

end OrderbookClient.Hv
