import OrderbookClient.HeaderLine

/-! # The response to an upgrade

An `UpgradeResponse` is the answer of a server that switches protocols, as the grammar of HTTP has
it: any reason, any headers beside `Upgrade` and `Connection`, in any order.

`execute_upgrade`: the parser reads it and stops right behind it, and hands on its headers.
`feed_upgrade`: so the response is complete, with these headers and the status 101. -/

namespace OrderbookClient.Hv

open Json (Bytes)
open Spans

/-- The text of a response. -/
def responseText (reason : Bytes) (lines : List HeaderLine) : Bytes :=
  ascii "HTTP/1.1 101 " ++ (reason ++ [cr, lf]) ++ lines.flatMap HeaderLine.text ++ [cr, lf]

structure UpgradeResponse where
  reason : Bytes
  lines : List HeaderLine
  reason_char : ∀ c ∈ reason, c ≠ cr ∧ c ≠ lf
  ordinary : ∀ l ∈ lines, l.Ordinary
  upgrade : ∃ l ∈ lines, l.kind = .upgrade
  connection : ∃ l ∈ lines, l.kind = .connection
  fits : (responseText reason lines).length ≤ maxHeaderSize

namespace UpgradeResponse

def text (r : UpgradeResponse) : Bytes := responseText r.reason r.lines

/-- The callbacks of the response. -/
def calls (r : UpgradeResponse) : List (Call HttpSpan HttpNotice UInt8) :=
  [.notify .messageBegin, .data .status r.reason] ++ r.lines.flatMap HeaderLine.calls ++
    [.notify (.headersComplete 1 1 101), .notify .messageComplete]

end UpgradeResponse

/-! ### The status line -/

namespace HttpParser

variable (skipBody : Bool) {p : HttpParser}

/-- The parser behind the status code. -/
def behindStatusCode : HttpParser := { init with
  state := .resStatusStart
  contentLength := ullongMax
  httpMajor := 1
  httpMinor := 1
  statusCode := 101
  nread := 13 }

theorem steps_statusCode : Steps (parser skipBody) init none (ascii "HTTP/1.1 101 ")
    [.notify .messageBegin] behindStatusCode none := by
  have hrun : (parser skipBody).run init none (ascii "HTTP/1.1 101 ") =
      ⟨behindStatusCode, [.notify .messageBegin], .more, 13⟩ := by
    cases skipBody <;> decide +kernel
  exact (parser_tame skipBody).steps_of_run (.inl ⟨rfl, rfl⟩) hrun rfl

theorem steps_reason : ∀ {reason d : Bytes} {p : HttpParser}, p.state = .resStatus →
    (∀ c ∈ reason, c ≠ cr ∧ c ≠ lf) → p.nread + reason.length ≤ maxHeaderSize →
    Steps (parser skipBody) p (some (.status, d)) reason []
      { p with nread := p.nread + reason.length } (some (.status, d ++ reason))
  | [], d, p, _, _, _ => by simpa using Steps.refl p (some (HttpSpan.status, d))
  | c :: reason, d, p, hs, hchar, hn => by
      have hchar' : (c ≠ cr ∧ c ≠ lf) ∧ ∀ x ∈ reason, x ≠ cr ∧ x ≠ lf := by simpa using hchar
      rw [List.length_cons] at hn
      have hbyte : executeByte skipBody p c = { p with nread := p.nread + 1 }.turn [] := by
        rw [executeByte_header (by rw [hs]; rfl) (by omega)]
        unfold dispatch
        simp only [hs]
        unfold resStatus
        rw [if_neg hchar'.1.1, if_neg hchar'.1.2]
      have hsteps := steps_reason (d := d ++ [c]) (p := { p with nread := p.nread + 1 }) hs hchar'.2
        (by dsimp only; omega)
      have := (steps_inside hbyte).trans hsteps
      simpa [Nat.add_assoc, Nat.add_comm 1] using this

theorem steps_statusLine {reason : Bytes} (hs : p.state = .resStatusStart)
    (hchar : ∀ c ∈ reason, c ≠ cr ∧ c ≠ lf) (hn : p.nread + reason.length + 2 ≤ maxHeaderSize) :
    Steps (parser skipBody) p none (reason ++ [cr, lf]) [.data .status reason]
      { p with state := .headerFieldStart, index := 0, nread := p.nread + reason.length + 2 } none := by
  cases reason with
  | nil =>
      have hcr : executeByte skipBody p cr =
          { p with state := .resLineAlmostDone, index := 0, nread := p.nread + 1 }.turn
            [.mark .status, .data .status] := by
        rw [executeByte_header (by rw [hs]; rfl) (by omega)]
        unfold dispatch
        simp only [hs]
        rfl
      have hlf : executeByte skipBody
          { p with state := .resLineAlmostDone, index := 0, nread := p.nread + 1 } lf =
          { p with state := .headerFieldStart, index := 0, nread := p.nread + 2 }.turn [] := by
        rw [executeByte_header rfl (by dsimp only; omega)]
        rfl
      exact (steps_turn none hcr).trans (steps_goto hlf)
  | cons c reason =>
      have hchar' : (c ≠ cr ∧ c ≠ lf) ∧ ∀ x ∈ reason, x ≠ cr ∧ x ≠ lf := by simpa using hchar
      rw [List.length_cons] at hn
      have hfirst : executeByte skipBody p c =
          { p with state := .resStatus, index := 0, nread := p.nread + 1 }.turn [.mark .status] := by
        rw [executeByte_header (by rw [hs]; rfl) (by omega)]
        unfold dispatch
        simp only [hs]
        unfold resStatusStart
        dsimp only
        rw [if_neg (not_or.mpr hchar'.1)]
      have hreason := steps_reason skipBody (d := [c])
        (p := { p with state := .resStatus, index := 0, nread := p.nread + 1 }) rfl hchar'.2
        (by dsimp only; omega)
      have hcr : executeByte skipBody
          { p with state := .resStatus, index := 0, nread := p.nread + 1 + reason.length } cr =
          { p with
            state := .resLineAlmostDone
            index := 0
            nread := p.nread + 1 + reason.length + 1 }.turn [.data .status] := by
        rw [executeByte_header rfl (by dsimp only; omega)]
        rfl
      have hlf : executeByte skipBody { p with
            state := .resLineAlmostDone
            index := 0
            nread := p.nread + 1 + reason.length + 1 } lf =
          { p with
            state := .headerFieldStart
            index := 0
            nread := p.nread + 1 + reason.length + 2 }.turn [] := by
        rw [executeByte_header rfl (by dsimp only; omega)]
        rfl
      have := ((steps_mark hfirst).trans hreason).trans ((steps_data hcr).trans (steps_goto hlf))
      simpa [Nat.add_assoc, Nat.add_comm 1] using this

/-! ### The headers -/

/-- The flags behind some lines. -/
def flagsOf (flags : HttpFlags) (lines : List HeaderLine) : HttpFlags :=
  lines.foldl (fun flags l => l.setFlags flags) flags

/-- Ordinary lines set two flags and no other. -/
theorem flagsOf_eq (lines : List HeaderLine) : ∀ flags : HttpFlags, flagsOf flags lines =
    { flags with
      upgrade := flags.upgrade || lines.any (fun l => l.kind = .upgrade)
      connectionUpgrade := flags.connectionUpgrade ||
        lines.any (fun l => l.kind = .connection) } := by
  induction lines with
  | nil =>
      intro flags
      simp [flagsOf]
  | cons l lines ih =>
      intro flags
      have hrest := ih (l.setFlags flags)
      unfold flagsOf at hrest ⊢
      rw [List.foldl_cons, hrest]
      unfold HeaderLine.setFlags
      cases hk : l.kind <;> simp [hk]

theorem not_blank_of_token : ∀ c : UInt8, token c ≠ 0 → c ≠ byte ' ' ∧ c ≠ tab := by
  decide +kernel

theorem text_head (l : HeaderLine) : ∃ c rest, l.text = c :: rest ∧ c ≠ byte ' ' ∧ c ≠ tab := by
  obtain ⟨c, name, hname⟩ := List.exists_cons_of_ne_nil l.name_ne
  exact ⟨c, name ++ byte ':' :: l.blanks ++ l.value ++ [cr, lf], by simp [HeaderLine.text, hname],
    not_blank_of_token c (l.name_token c (by simp [hname]))⟩

/-- The byte behind a line begins the next one, or is `c`. -/
theorem next_byte (lines : List HeaderLine) {c : UInt8} (rest : Bytes) (hc : c ≠ byte ' ' ∧ c ≠ tab) :
    ∃ x next, lines.flatMap HeaderLine.text ++ c :: rest = x :: next ∧ x ≠ byte ' ' ∧ x ≠ tab := by
  cases lines with
  | nil => exact ⟨c, rest, rfl, hc⟩
  | cons l lines =>
      obtain ⟨x, tail, htext, hx⟩ := text_head l
      exact ⟨x, tail ++ lines.flatMap HeaderLine.text ++ c :: rest, by simp [htext], hx⟩

theorem readsLine_lines (lines : List HeaderLine) : ∀ {p : HttpParser},
    p.state = .headerFieldStart → (∀ l ∈ lines, l.Ordinary) →
    p.nread + (lines.flatMap HeaderLine.text).length + 1 ≤ maxHeaderSize →
    ∃ i h, ReadsLine skipBody p (lines.flatMap HeaderLine.text) (lines.flatMap HeaderLine.calls)
      { p with
        index := i
        headerState := h
        flags := flagsOf p.flags lines
        nread := p.nread + (lines.flatMap HeaderLine.text).length } := by
  induction lines with
  | nil =>
      intro p _ _ _
      exact ⟨p.index, p.headerState, fun c rest _ => by simp [flagsOf, Result.behind]⟩
  | cons l lines ih =>
      intro p hs hl hn
      have hl' : l.Ordinary ∧ ∀ x ∈ lines, x.Ordinary := by simpa using hl
      rw [List.flatMap_cons, List.length_append] at hn
      obtain ⟨i, h, hline⟩ := readsLine_line skipBody hl'.1 hs (by omega)
      obtain ⟨i', h', hlines⟩ := ih (p := { p with
        index := i
        headerState := h
        flags := l.setFlags p.flags
        nread := p.nread + l.text.length }) hs hl'.2 (by dsimp only; omega)
      refine ⟨i', h', fun c rest hc => ?_⟩
      obtain ⟨x, next, hnext, hx⟩ := next_byte lines rest hc
      have hrun := hline x next hx
      rw [← hnext, hlines c rest hc, Result.behind_behind] at hrun
      rw [List.flatMap_cons, List.append_assoc, hrun]
      simp [flagsOf, Nat.add_assoc]

/-! ### The end of the headers -/

/-- The parser behind the headers of an upgrade. -/
structure Upgrading (p : HttpParser) : Prop where
  state : p.state = .headerFieldStart
  upgrade : p.flags.upgrade = true
  connection : p.flags.connectionUpgrade = true
  trailing : p.flags.trailing = false
  chunked : p.flags.chunked = false
  contentLength : p.contentLength = ullongMax
  statusCode : p.statusCode = 101

/-- The parser at `s_headers_done`, in front of the switch. -/
def upgraded (skipBody : Bool) (p : HttpParser) : HttpParser := { p with
  state := .headersDone
  flags.skipBody := skipBody || p.flags.skipBody
  nread := 0
  upgrade := true }

theorem run_headersEnd (h : Upgrading p) (hn : p.nread + 2 ≤ maxHeaderSize) :
    ∃ q, q.httpErrno = p.httpErrno ∧ ∀ rest, (parser skipBody).run p none (cr :: lf :: rest) =
      ⟨q, [.notify (.headersComplete p.httpMajor p.httpMinor 101), .notify .messageComplete], .exit, 2⟩ := by
  have hcr : executeByte skipBody p cr =
      { p with state := .headersAlmostDone, nread := p.nread + 1 }.turn [] := by
    rw [executeByte_header (by rw [h.state]; rfl) (by omega)]
    unfold dispatch
    simp only [h.state]
    rfl
  have hlf : executeByte skipBody { p with state := .headersAlmostDone, nread := p.nread + 1 } lf =
      after [.notify (.headersComplete p.httpMajor p.httpMinor p.statusCode)]
        (upgraded skipBody p).completeUpgrade := by
    rw [executeByte_header rfl (by dsimp only; omega)]
    show headersAlmostDone skipBody _ lf = _
    unfold headersAlmostDone
    simp only [h.trailing, h.chunked, h.upgrade, h.connection, h.statusCode, ne_eq, not_true_eq_false,
      Bool.false_eq_true, Bool.false_and, Bool.and_self, beq_self_eq_true, if_false]
    congr 1
    unfold headersDone
    simp [upgraded, h.upgrade, h.connection, h.trailing, h.chunked, h.contentLength, h.statusCode]
  refine ⟨(upgraded skipBody p).completeUpgrade.state, rfl, fun rest => ?_⟩
  have hrun : (parser skipBody).run p none ([cr] ++ lf :: rest) = _ := steps_goto hcr (lf :: rest)
  have hturn : (parser skipBody).turn
      { p with state := .headersAlmostDone, nread := p.nread + 1 } lf = _ := hlf
  rw [show [cr] ++ lf :: rest = cr :: lf :: rest from rfl] at hrun
  rw [hrun, run_exit (by rw [hturn]; rfl), hturn]
  rw [h.statusCode]
  rfl

end HttpParser

namespace UpgradeResponse

open HttpParser

theorem flagsOf_lines (r : UpgradeResponse) : flagsOf .none r.lines =
    { HttpFlags.none with upgrade := true, connectionUpgrade := true } := by
  have hupgrade : r.lines.any (fun l => l.kind = .upgrade) = true := by
    simpa using r.upgrade
  have hconnection : r.lines.any (fun l => l.kind = .connection) = true := by
    simpa using r.connection
  rw [flagsOf_eq, hupgrade, hconnection]
  rfl

/-- The parser behind the status line. -/
def behindStatusLine (r : UpgradeResponse) : HttpParser := { behindStatusCode with
  state := .headerFieldStart
  index := 0
  nread := 13 + r.reason.length + 2 }

/-- The status line. -/
def head (r : UpgradeResponse) : Bytes := ascii "HTTP/1.1 101 " ++ (r.reason ++ [cr, lf])

theorem length_head (r : UpgradeResponse) : r.head.length = 13 + r.reason.length + 2 := by
  simp only [head, List.length_append, List.length_cons, List.length_nil, Nat.add_assoc]
  rfl

theorem text_eq (r : UpgradeResponse) :
    r.text = r.head ++ (r.lines.flatMap HeaderLine.text ++ [cr, lf]) := by
  simp [text, responseText, head]

theorem length_text (r : UpgradeResponse) : r.text.length =
    r.head.length + (r.lines.flatMap HeaderLine.text).length + 2 := by
  rw [text_eq, List.length_append, List.length_append]
  rfl

theorem room (r : UpgradeResponse) :
    13 + r.reason.length + 2 + (r.lines.flatMap HeaderLine.text).length + 2 ≤ maxHeaderSize := by
  have hfits : r.text.length ≤ maxHeaderSize := r.fits
  rwa [length_text, length_head] at hfits

theorem steps_head (r : UpgradeResponse) (skipBody : Bool) :
    Steps (parser skipBody) .init none r.head [.notify .messageBegin, .data .status r.reason]
      r.behindStatusLine none := by
  have hroom := r.room
  exact (steps_statusCode skipBody).trans (steps_statusLine skipBody (p := behindStatusCode) rfl
    r.reason_char (by show 13 + _ + 2 ≤ _; omega))

/-- The parser in front of the line that ends the headers. -/
def behindLines (r : UpgradeResponse) (i : ℕ) (h : HeaderState) : HttpParser :=
  { r.behindStatusLine with
    index := i
    headerState := h
    flags := flagsOf .none r.lines
    nread := 13 + r.reason.length + 2 + (r.lines.flatMap HeaderLine.text).length }

theorem upgrading_behindLines (r : UpgradeResponse) (i : ℕ) (h : HeaderState) :
    Upgrading (r.behindLines i h) := by
  refine ⟨rfl, ?_, ?_, ?_, ?_, rfl, rfl⟩
  all_goals exact congrArg _ r.flagsOf_lines

/-- **The parser stops behind the response**, and has handed on all of it. -/
theorem execute_upgrade (r : UpgradeResponse) (skipBody : Bool) :
    ∃ q : HttpParser, q.httpErrno = none ∧ ∀ rest,
      (parser skipBody).execute .init (r.text ++ rest) = ⟨q, r.calls, .exit, r.text.length⟩ := by
  have hroom := r.room
  obtain ⟨i, h, hlines⟩ := readsLine_lines skipBody r.lines (p := r.behindStatusLine) rfl
    r.ordinary (by show 13 + _ + 2 + _ + 1 ≤ _; omega)
  obtain ⟨q, hq, hend⟩ := run_headersEnd skipBody (r.upgrading_behindLines i h) r.room
  refine ⟨q, hq, fun rest => ?_⟩
  have htext : r.text ++ rest =
      r.head ++ (r.lines.flatMap HeaderLine.text ++ cr :: lf :: rest) := by
    simp [text_eq]
  have hbehind : (parser skipBody).run (r.behindLines i h) none (cr :: lf :: rest) =
      ⟨q, [.notify (.headersComplete 1 1 101), .notify .messageComplete], .exit, 2⟩ := hend rest
  have hrun : (parser skipBody).run r.behindStatusLine none
      (r.lines.flatMap HeaderLine.text ++ cr :: lf :: rest) =
      ((parser skipBody).run (r.behindLines i h) none (cr :: lf :: rest)).behind
        (r.lines.flatMap HeaderLine.calls) (r.lines.flatMap HeaderLine.text).length :=
    hlines cr (lf :: rest) (by decide)
  show (parser skipBody).run .init none (r.text ++ rest) = _
  rw [htext, r.steps_head skipBody, hrun, hbehind, Result.behind_behind, length_text]
  simp [Result.behind, calls, Nat.add_assoc]

end UpgradeResponse

/-! ### The response that is assembled -/

namespace Http1Parser

/-- No value is left of a header that is stored. -/
def Clean (hp : Http1Parser) : Prop := hp.headerField = [] → hp.headerValue = []

theorem handleHeader_clear {hp : Http1Parser} (h : hp.Clean) :
    hp.handleHeader.headerField = [] ∧ hp.handleHeader.headerValue = [] := by
  unfold handleHeader
  by_cases hf : hp.headerField = []
  · rw [if_neg (not_not.mpr hf)]
    exact ⟨hf, h hf⟩
  · rw [if_pos hf]
    exact ⟨rfl, rfl⟩

theorem handleHeader_of_ne {hp : Http1Parser} (h : hp.headerField ≠ []) :
    hp.handleHeader =
      { hp with
        parsed := { hp.parsed with headers := hp.parsed.headers.set hp.headerField hp.headerValue }
        headerField := []
        headerValue := [] } :=
  if_pos h

theorem handle_line {hp : Http1Parser} (h : hp.Clean) (l : HeaderLine) :
    l.calls.foldl handle hp =
      { hp.handleHeader with
        state := .headerValue
        headerField := l.name
        headerValue := l.value } := by
  obtain ⟨hf, hv⟩ := handleHeader_clear h
  simp [HeaderLine.calls, handle, onHeaderField, onHeaderValue, hf, hv]

/-- Header by header: the last one is stored when the next begins, or at the end. -/
theorem handle_lines (lines : List HeaderLine) : ∀ {hp : Http1Parser}, hp.Clean → ∃ s,
    ((lines.flatMap HeaderLine.calls).foldl handle hp).handleHeader =
      { hp.handleHeader with
        state := s
        parsed := { hp.handleHeader.parsed with
          headers := lines.foldl (fun hs l => hs.set l.name l.value)
            hp.handleHeader.parsed.headers } } := by
  induction lines with
  | nil =>
      intro hp _
      exact ⟨hp.handleHeader.state, rfl⟩
  | cons l lines ih =>
      intro hp h
      obtain ⟨hf, hv⟩ := handleHeader_clear h
      rw [List.flatMap_cons, List.foldl_append, handle_line h]
      have hclean : Clean { hp.handleHeader with
          state := .headerValue
          headerField := l.name
          headerValue := l.value } := fun hname => absurd hname l.name_ne
      obtain ⟨s, hs⟩ := ih hclean
      refine ⟨s, hs.trans ?_⟩
      have hstored : { hp.handleHeader with
          state := .headerValue
          headerField := l.name
          headerValue := l.value }.handleHeader =
          { hp.handleHeader with
            state := .headerValue
            parsed := { hp.handleHeader.parsed with
              headers := hp.handleHeader.parsed.headers.set l.name l.value } } := by
        refine (handleHeader_of_ne l.name_ne).trans ?_
        simp [hf, hv]
      rw [hstored, List.foldl_cons]

end Http1Parser

namespace UpgradeResponse

open Http1Parser

/-- The headers as they are stored. -/
def headers (r : UpgradeResponse) : HttpHeaders :=
  r.lines.foldl (fun hs l => hs.set l.name l.value) []

/-- The assembled response. -/
def parsed (r : UpgradeResponse) : HttpResponse := ⟨1, 1, 101, r.headers, []⟩

theorem text_ne (r : UpgradeResponse) : r.text ≠ [] := by
  intro h
  have := congrArg List.length h
  simp only [text, responseText, List.length_append, List.length_cons, List.length_nil] at this
  omega

/-- **The response is complete** behind its last byte, with its headers. -/
theorem feed_upgrade (r : UpgradeResponse) :
    ∃ q : HttpParser, q.httpErrno = none ∧ ∀ rest,
      Http1Parser.new.feed (r.text ++ rest) =
        (⟨q, false, .messageComplete, [], [], r.parsed⟩, r.text.length) := by
  obtain ⟨q, hq, hrun⟩ := r.execute_upgrade false
  refine ⟨q, hq, fun rest => ?_⟩
  have hexecute : Http1Parser.new.execute (r.text ++ rest) = ⟨q, r.calls, .exit, r.text.length⟩ := by
    rw [← hrun rest]
    exact HttpParser.execute_eq false rfl (by simp [r.text_ne])
  rw [feed_of_execute hexecute]
  have hclean : Clean { Http1Parser.new with state := .status } := fun _ => rfl
  obtain ⟨s, hlines⟩ := handle_lines r.lines hclean
  have hcalls : r.calls.foldl handle Http1Parser.new =
      ⟨.init, false, .messageComplete, [], [], r.parsed⟩ := by
    simp only [calls, List.foldl_append, List.foldl_cons, List.foldl_nil]
    show (((r.lines.flatMap HeaderLine.calls).foldl handle
      { Http1Parser.new with state := .status }).onHeadersComplete 1 1 101).handle
        (.notify .messageComplete) = _
    unfold onHeadersComplete
    rw [hlines]
    rfl
  rw [hcalls]

end UpgradeResponse

end OrderbookClient.Hv
