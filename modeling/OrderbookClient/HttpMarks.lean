import OrderbookClient.HttpParser

/-! # The turns of `http_parser`

`keeps_dispatch`: every turn keeps the discipline of the marks, and is inside the name of a header
only on a byte of a name, one lemma for each function of the `switch`.

`parser_tame`: so where the input is cut makes no difference to the parser, and none to its
callbacks but for the span at the cut. -/

namespace OrderbookClient.Hv

open Json (Bytes)
open Spans

namespace HttpState

/-- The states in front of the first byte of a line. -/
def lineStart : HttpState → Bool
  | .headerFieldStart | .headerValueLws | .headerValueDiscardLws => true
  | _ => false

/-- Behind `c` the parser is inside a name only if `c` continues one, or begins it, and in front of a
line only behind a line feed. -/
def Lands (named : Prop) (c : UInt8) : HttpState → Prop
  | .headerField => token c ≠ 0 ∧ named
  | .headerFieldStart | .headerValueLws | .headerValueDiscardLws => c = lf
  | _ => True

end HttpState

namespace HttpParser

/-- The span that a state is inside of. -/
def span (p : HttpParser) : Option HttpSpan :=
  match p.state with
  | .headerField => some .headerField
  | .headerValue => some .headerValue
  | .resStatus => some .status
  | .bodyIdentity | .bodyIdentityEof | .chunkData | .chunkDataAlmostDone => some .body
  | _ => none

/-- A turn on `c` from inside the span `o` keeps the discipline and lands where `c` leads, and an
error is one of its own. -/
def Keeps (e : Option HttpErrno) (named : Prop) (c : UInt8) (o : Option HttpSpan) (t : HttpTurn) :
    Prop :=
  match t.ctl with
  | .error => t.state.httpErrno ≠ none
  | .exit => Threads o t.ops none ∧ t.state.httpErrno = e
  | .more => t.state.httpErrno = e ∧ t.state.state.Lands named c ∧
      ∃ o', Threads o t.ops o' ∧ Fits t.state.carried t.state.span o'

variable {e : Option HttpErrno} {named : Prop} {c : UInt8}

theorem keeps_fail (o : Option HttpSpan) (p : HttpParser) (errno : HttpErrno) :
    Keeps e named c o (p.fail errno) := by
  simp [Keeps, fail]

/-- A turn that goes on, from its operations and the state behind it. -/
theorem keeps_turn {o o' : Option HttpSpan} {p : HttpParser} {ops : List (Op HttpSpan HttpNotice)}
    (hp : p.httpErrno = e) (hl : p.state.Lands named c) (ho : Threads o ops o')
    (h : Fits p.carried p.span o') : Keeps e named c o (p.turn ops) :=
  ⟨hp, hl, o', ho, h⟩

/-- The operations in front of a `REEXECUTE`. -/
theorem keeps_after {o o' : Option HttpSpan} {ops : List (Op HttpSpan HttpNotice)} {t : HttpTurn}
    (ho : Threads o ops o') (h : Keeps e named c o' t) : Keeps e named c o (after ops t) := by
  unfold Keeps at h ⊢
  unfold after
  cases hctl : t.ctl with
  | error => simpa [hctl] using h
  | exit =>
      simp only [hctl] at h ⊢
      exact ⟨ho.append h.1, h.2⟩
  | more =>
      simp only [hctl] at h ⊢
      obtain ⟨herrno, hl, o'', ho'', hfits⟩ := h
      exact ⟨herrno, hl, o'', ho.append ho'', hfits⟩

/-- Outside of all spans. -/
theorem fits_none {p : HttpParser} (h : p.carried = none) : Fits p.carried p.span none :=
  .inl ⟨rfl, h⟩

/-- Inside a span. -/
theorem fits_some {p : HttpParser} {k : HttpSpan} (h : p.span = some k) :
    Fits p.carried p.span (some k) :=
  .inr ⟨by simp, h.symm⟩

/-- Going to a state that is outside of all spans. -/
theorem keeps_goto {p : HttpParser} {s : HttpState} (hp : p.httpErrno = e) (hl : s.Lands named c)
    (hs : { p with state := s }.carried = none) : Keeps e named c none (p.goto s) :=
  keeps_turn hp hl rfl (fits_none hs)

theorem keeps_expect {p : HttpParser} {s : HttpState} {expected : UInt8} (hp : p.httpErrno = e)
    (hl : s.Lands named expected) (hs : { p with state := s }.carried = none) :
    Keeps e named c none (p.expect expected c s) := by
  unfold expect
  split
  · next hc =>
      rw [hc]
      exact keeps_goto hp hl hs
  · exact keeps_fail _ _ _

/-! ### Turns that end a message -/

theorem newMessage_carried (p : HttpParser) : { p with state := p.newMessage }.carried = none := by
  unfold newMessage
  cases p.shouldKeepAlive <;> rfl

theorem newMessage_lands (p : HttpParser) : p.newMessage.Lands named c := by
  unfold newMessage
  cases p.shouldKeepAlive <;> trivial

theorem keeps_complete {p : HttpParser} (hp : p.httpErrno = e) : Keeps e named c none p.complete :=
  keeps_turn hp p.newMessage_lands ⟨rfl, rfl⟩ (fits_none p.newMessage_carried)

theorem keeps_completeUpgrade {p : HttpParser} (hp : p.httpErrno = e) :
    Keeps e named c none p.completeUpgrade :=
  ⟨⟨rfl, rfl⟩, hp⟩

theorem keeps_messageDone {p : HttpParser} (hp : p.httpErrno = e) :
    Keeps e named c none p.messageDone := by
  unfold messageDone
  split
  · exact keeps_completeUpgrade hp
  · exact keeps_complete hp

theorem keeps_headersDone {p : HttpParser} (hp : p.httpErrno = e) :
    Keeps e named c none (p.headersDone c) := by
  unfold headersDone
  dsimp only
  split_ifs
  · exact keeps_fail _ _ _
  · exact keeps_completeUpgrade hp
  · exact keeps_complete hp
  · exact keeps_goto hp trivial rfl
  · exact keeps_complete hp
  · exact keeps_goto hp trivial rfl
  · exact keeps_complete hp
  · exact keeps_goto hp trivial rfl

theorem keeps_headersAlmostDone (skipBody : Bool) {p : HttpParser}
    (hp : p.httpErrno = e) :
    Keeps e named c none (headersAlmostDone skipBody p c) := by
  unfold headersAlmostDone
  dsimp only
  split_ifs
  · exact keeps_fail _ _ _
  · exact keeps_after ⟨rfl, rfl⟩ (keeps_messageDone hp)
  · exact keeps_fail _ _ _
  · exact keeps_after ⟨rfl, rfl⟩ (keeps_headersDone hp)

/-! ### Turns of a header -/

theorem keeps_turn_value {p : HttpParser} (hp : p.httpErrno = e) (hs : p.state = .headerValue) :
    Keeps e named c none (p.turn [.mark .headerValue]) :=
  keeps_turn hp (hs ▸ trivial) ⟨.inl rfl, rfl⟩ (fits_some (by simp [span, hs]))

/-- Inside a value. -/
theorem keeps_inside_value {p : HttpParser} (hp : p.httpErrno = e) (hs : p.state = .headerValue) :
    Keeps e named c (some .headerValue) (p.turn []) :=
  keeps_turn hp (hs ▸ trivial) rfl (fits_some (by simp [span, hs]))

theorem keeps_headerFieldStart (skipBody : Bool) (hn : named) {p : HttpParser}
    (hp : p.httpErrno = e) :
    Keeps e named c none (headerFieldStart skipBody p c) := by
  unfold headerFieldStart
  split_ifs with hcr hlf htoken
  · exact keeps_goto hp trivial rfl
  · exact keeps_headersAlmostDone skipBody hp
  · exact keeps_fail _ _ _
  · exact keeps_turn hp ⟨htoken, hn⟩ ⟨.inl rfl, rfl⟩ (fits_some rfl)

@[simp] theorem matchNext_state (lit : Bytes) (miss hit : HeaderState) (p : HttpParser) (c : UInt8) :
    (matchNext lit miss hit p c).state = p.state := by
  unfold matchNext
  dsimp only
  split_ifs <;> rfl

@[simp] theorem matchNext_httpErrno (lit : Bytes) (miss hit : HeaderState) (p : HttpParser)
    (c : UInt8) : (matchNext lit miss hit p c).httpErrno = p.httpErrno := by
  unfold matchNext
  dsimp only
  split_ifs <;> rfl

@[simp] theorem fieldChar_state (p : HttpParser) (c : UInt8) : (p.fieldChar c).state = p.state := by
  unfold fieldChar
  split <;> simp

@[simp] theorem fieldChar_httpErrno (p : HttpParser) (c : UInt8) :
    (p.fieldChar c).httpErrno = p.httpErrno := by
  unfold fieldChar
  split <;> simp

theorem keeps_headerField (hn : named) {p : HttpParser} (hp : p.httpErrno = e)
    (hs : p.state = .headerField) :
    Keeps e named c (some .headerField) (p.headerField c) := by
  unfold headerField
  split_ifs with htoken
  · have hl : (p.fieldChar (token c)).state.Lands named c := by
      rw [fieldChar_state, hs]
      exact ⟨htoken, hn⟩
    exact keeps_turn (by simpa using hp) hl rfl (fits_some (by simp [span, hs]))
  · exact keeps_turn hp trivial ⟨.inr rfl, rfl⟩ (fits_none rfl)
  · exact keeps_fail _ _ _

theorem keeps_headerValueStart {p : HttpParser} (hp : p.httpErrno = e) :
    Keeps e named c none (p.headerValueStart c) := by
  unfold headerValueStart
  dsimp only
  split
  case h_3 =>
    split_ifs
    · exact keeps_fail _ _ _
    · exact keeps_fail _ _ _
    · exact keeps_turn_value hp rfl
  all_goals exact keeps_turn_value hp rfl

theorem keeps_headerValueDiscardWs {p : HttpParser} (hp : p.httpErrno = e)
    (hs : p.state = .headerValueDiscardWs) :
    Keeps e named c none (p.headerValueDiscardWs c) := by
  unfold headerValueDiscardWs
  split_ifs with hblank hcr hlf
  · exact keeps_turn hp (hs ▸ trivial) rfl (fits_none (by simp [carried, hs]))
  · exact keeps_goto hp trivial rfl
  · exact keeps_goto hp hlf rfl
  · exact keeps_headerValueStart hp

theorem keeps_headerValueDiscardLws (skipBody : Bool) (hn : named) {p : HttpParser}
    (hp : p.httpErrno = e) :
    Keeps e named c none (headerValueDiscardLws skipBody p c) := by
  unfold headerValueDiscardLws
  split_ifs
  · exact keeps_goto hp trivial rfl
  · exact keeps_fail _ _ _
  · exact keeps_after ⟨.inl rfl, .inr rfl, rfl⟩ (keeps_headerFieldStart skipBody hn hp)

theorem keeps_headerAlmostDone {p : HttpParser} (hp : p.httpErrno = e) :
    Keeps e named c none (p.headerAlmostDone c) := by
  unfold headerAlmostDone
  split_ifs with hlf
  · exact keeps_goto hp hlf rfl
  · exact keeps_fail _ _ _

theorem keeps_headerValueLws (skipBody : Bool) (hn : named) {p : HttpParser}
    (hp : p.httpErrno = e) :
    Keeps e named c none (headerValueLws skipBody p c) := by
  unfold headerValueLws
  split_ifs
  · exact keeps_headerValueStart hp
  · exact keeps_headerFieldStart skipBody hn hp

theorem keeps_valueChar {p : HttpParser} (hp : p.httpErrno = e)
    (hs : p.state = .headerValue) :
    Keeps e named c (some .headerValue) (p.valueChar c) := by
  unfold valueChar
  split
  all_goals try split_ifs
  all_goals first
    | exact keeps_fail _ _ _
    | exact keeps_inside_value (by simpa using hp) (by simpa using hs)

theorem keeps_headerValue {p : HttpParser} (hp : p.httpErrno = e)
    (hs : p.state = .headerValue) :
    Keeps e named c (some .headerValue) (p.headerValue c) := by
  unfold headerValue
  split_ifs
  · exact keeps_turn hp trivial ⟨.inr rfl, rfl⟩ (fits_none rfl)
  · exact keeps_after ⟨.inr rfl, rfl⟩ (keeps_headerAlmostDone hp)
  · exact keeps_fail _ _ _
  · exact keeps_valueChar hp hs

/-! ### Turns of the status line -/

theorem keeps_startRes {p : HttpParser} (hp : p.httpErrno = e)
    (hs : p.state = .startRes) :
    Keeps e named c none (p.startRes c) := by
  unfold startRes
  dsimp only
  split_ifs
  · exact keeps_turn hp (hs ▸ trivial) rfl (fits_none (by simp [carried, hs]))
  · exact keeps_turn hp trivial ⟨rfl, rfl⟩ (fits_none rfl)
  · exact keeps_fail _ _ _

theorem keeps_version {p : HttpParser} {store : ℕ → HttpParser}
    (hp : ∀ n, (store n).httpErrno = e) (hl : ∀ n, (store n).state.Lands named c)
    (hs : ∀ n, (store n).carried = none) :
    Keeps e named c none (p.version c store) := by
  unfold version
  split_ifs
  · exact keeps_turn (hp _) (hl _) rfl (fits_none (hs _))
  · exact keeps_fail _ _ _

theorem keeps_resFirstStatusCode {p : HttpParser} (hp : p.httpErrno = e)
    (hs : p.state = .resFirstStatusCode) :
    Keeps e named c none (p.resFirstStatusCode c) := by
  unfold resFirstStatusCode
  split_ifs
  · exact keeps_turn hp trivial rfl (fits_none rfl)
  · exact keeps_turn hp (hs ▸ trivial) rfl (fits_none (by simp [carried, hs]))
  · exact keeps_fail _ _ _

theorem keeps_resStatus {p : HttpParser} (hp : p.httpErrno = e)
    (hs : p.state = .resStatus) :
    Keeps e named c (some .status) (p.resStatus c) := by
  unfold resStatus
  split_ifs with hcr hlf
  · exact keeps_turn hp trivial ⟨.inr rfl, rfl⟩ (fits_none rfl)
  · exact keeps_turn hp hlf ⟨.inr rfl, rfl⟩ (fits_none rfl)
  · exact keeps_turn hp (hs ▸ trivial) rfl (fits_some (by simp [span, hs]))

theorem keeps_resStatusStart {p : HttpParser} (hp : p.httpErrno = e) :
    Keeps e named c none (p.resStatusStart c) := by
  unfold resStatusStart
  dsimp only
  split_ifs
  · exact keeps_after ⟨.inl rfl, rfl⟩ (keeps_resStatus hp rfl)
  · exact keeps_turn hp trivial ⟨.inl rfl, rfl⟩ (fits_some rfl)

theorem keeps_resStatusCode {p : HttpParser} (hp : p.httpErrno = e)
    (hs : p.state = .resStatusCode) :
    Keeps e named c none (p.resStatusCode c) := by
  unfold resStatusCode
  dsimp only
  split_ifs
  · exact keeps_fail _ _ _
  · exact keeps_turn hp (hs ▸ trivial) rfl (fits_none (by simp [carried, hs]))
  · exact keeps_goto hp trivial rfl
  · exact keeps_resStatusStart hp
  · exact keeps_fail _ _ _

/-! ### Turns of a body -/

/-- In front of a byte of a body the mark may be set or not. -/
def InBody (o : Option HttpSpan) : Prop := o = none ∨ o = some .body

theorem keeps_turn_body {o : Option HttpSpan} (ho : InBody o) {p : HttpParser}
    (hp : p.httpErrno = e) (hl : p.state.Lands named c) (hs : p.span = some .body) :
    Keeps e named c o (p.turn [.mark .body]) :=
  keeps_turn hp hl ⟨ho, rfl⟩ (fits_some hs)

theorem keeps_bodyIdentity {o : Option HttpSpan} (ho : InBody o) {p : HttpParser}
    (hp : p.httpErrno = e) (hs : p.state = .bodyIdentity) : Keeps e named c o p.bodyIdentity := by
  unfold bodyIdentity
  dsimp only
  split_ifs
  · exact keeps_after ⟨ho, rfl, rfl⟩ (keeps_messageDone hp)
  · exact keeps_turn_body ho hp (hs ▸ trivial) (by simp [span, hs])

theorem keeps_chunkData {o : Option HttpSpan} (ho : InBody o) {p : HttpParser}
    (hp : p.httpErrno = e) (hs : p.state = .chunkData) : Keeps e named c o p.chunkData := by
  unfold chunkData
  dsimp only
  split_ifs
  · exact keeps_turn_body ho hp trivial rfl
  · exact keeps_turn_body ho hp (hs ▸ trivial) (by simp [span, hs])

theorem keeps_chunkDataAlmostDone {o : Option HttpSpan} (ho : InBody o) {p : HttpParser}
    (hp : p.httpErrno = e) :
    Keeps e named c o (p.chunkDataAlmostDone c) := by
  unfold chunkDataAlmostDone
  split_ifs
  · exact keeps_turn hp trivial ⟨ho, rfl⟩ (fits_none rfl)
  · exact keeps_fail _ _ _

theorem keeps_chunkSizeStart {p : HttpParser} (hp : p.httpErrno = e) :
    Keeps e named c none (p.chunkSizeStart c) := by
  unfold chunkSizeStart
  split
  · exact keeps_fail _ _ _
  · exact keeps_turn hp trivial rfl (fits_none rfl)

theorem keeps_chunkSize {p : HttpParser} (hp : p.httpErrno = e)
    (hs : p.state = .chunkSize) : Keeps e named c none (p.chunkSize c) := by
  unfold chunkSize
  by_cases hcr : c = cr
  · rw [if_pos hcr]
    exact keeps_goto hp trivial rfl
  · rw [if_neg hcr]
    cases unhex c with
    | none =>
        dsimp only
        split_ifs
        · exact keeps_goto hp trivial rfl
        · exact keeps_fail _ _ _
    | some d =>
        dsimp only
        split_ifs
        · exact keeps_fail _ _ _
        · exact keeps_turn hp (hs ▸ trivial) rfl (fits_none (by simp [carried, hs]))

theorem keeps_chunkSizeAlmostDone {p : HttpParser} (hp : p.httpErrno = e) :
    Keeps e named c none (p.chunkSizeAlmostDone c) := by
  unfold chunkSizeAlmostDone
  split_ifs with hlf hlast
  · exact keeps_fail _ _ _
  · exact keeps_turn hp (not_not.mp hlf) ⟨rfl, rfl⟩ (fits_none rfl)
  · exact keeps_turn hp trivial ⟨rfl, rfl⟩ (fits_none rfl)

theorem keeps_chunkDataDone {p : HttpParser} (hp : p.httpErrno = e) :
    Keeps e named c none (p.chunkDataDone c) := by
  unfold chunkDataDone
  split_ifs
  · exact keeps_turn hp trivial ⟨rfl, rfl⟩ (fits_none rfl)
  · exact keeps_fail _ _ _

theorem Fits.none_of {p : HttpParser} {o : Option HttpSpan} (h : Fits p.carried p.span o)
    (hspan : p.span = none) : o = none := by
  obtain ⟨ho, -⟩ | ⟨ho, ho'⟩ := h
  · exact ho
  · exact absurd (ho'.trans hspan) ho

theorem Fits.some_of {p : HttpParser} {o : Option HttpSpan} {k : HttpSpan}
    (h : Fits p.carried p.span o) (hcarried : p.carried = some k) (hspan : p.span = some k) :
    o = some k := by
  obtain ⟨-, hnone⟩ | ⟨-, ho⟩ := h
  · rw [hcarried] at hnone
    cases hnone
  · exact ho.trans hspan

theorem Fits.inBody {p : HttpParser} {o : Option HttpSpan} (h : Fits p.carried p.span o)
    (hspan : p.span = some .body) : InBody o := by
  obtain ⟨ho, -⟩ | ⟨-, ho⟩ := h
  · exact .inl ho
  · exact .inr (ho.trans hspan)

/-- **Every turn keeps the discipline of the marks.** -/
theorem keeps_dispatch (skipBody : Bool) {p : HttpParser} {o : Option HttpSpan}
    (hp : p.httpErrno = e) (ho : Fits p.carried p.span o) :
    Keeps e (p.state = .headerField ∨ p.state.lineStart = true) c o (dispatch skipBody p c) := by
  have hnone : p.span = none → o = none := Fits.none_of ho
  have hbody : p.span = some .body → InBody o := Fits.inBody ho
  unfold dispatch
  cases hs : p.state with
  | resStatus =>
      obtain rfl := Fits.some_of ho (k := .status) (by simp [carried, hs]) (by simp [span, hs])
      exact keeps_resStatus hp hs
  | headerField =>
      obtain rfl := Fits.some_of ho (k := .headerField) (by simp [carried, hs]) (by simp [span, hs])
      exact keeps_headerField (.inl rfl) hp hs
  | headerValue =>
      obtain rfl := Fits.some_of ho (k := .headerValue) (by simp [carried, hs]) (by simp [span, hs])
      exact keeps_headerValue hp hs
  | chunkData => exact keeps_chunkData (hbody (by simp [span, hs])) hp hs
  | chunkDataAlmostDone => exact keeps_chunkDataAlmostDone (hbody (by simp [span, hs])) hp
  | bodyIdentity => exact keeps_bodyIdentity (hbody (by simp [span, hs])) hp hs
  | bodyIdentityEof =>
      have hspan : p.span = some .body := by simp [span, hs]
      exact keeps_turn_body (hbody hspan) hp (by rw [hs]; trivial) hspan
  | dead =>
      obtain rfl := hnone (by simp [span, hs])
      dsimp only
      split_ifs
      · exact keeps_turn hp (by rw [hs]; trivial) rfl (fits_none (by simp [carried, hs]))
      · exact keeps_fail _ _ _
  | startRes =>
      obtain rfl := hnone (by simp [span, hs])
      exact keeps_startRes hp hs
  | resH | resHT | resHTT | resHTTP =>
      obtain rfl := hnone (by simp [span, hs])
      exact keeps_expect hp trivial rfl
  | resLineAlmostDone | headerValueDiscardWsAlmostDone =>
      obtain rfl := hnone (by simp [span, hs])
      exact keeps_expect hp rfl rfl
  | resHttpMajor | resHttpMinor =>
      obtain rfl := hnone (by simp [span, hs])
      exact keeps_version (fun _ => hp) (fun _ => trivial) (fun _ => rfl)
  | resHttpDot | resHttpEnd =>
      obtain rfl := hnone (by simp [span, hs])
      dsimp only
      split_ifs
      · exact keeps_goto hp trivial rfl
      · exact keeps_fail _ _ _
  | resFirstStatusCode =>
      obtain rfl := hnone (by simp [span, hs])
      exact keeps_resFirstStatusCode hp hs
  | resStatusCode =>
      obtain rfl := hnone (by simp [span, hs])
      exact keeps_resStatusCode hp hs
  | resStatusStart =>
      obtain rfl := hnone (by simp [span, hs])
      exact keeps_resStatusStart hp
  | headerFieldStart =>
      obtain rfl := hnone (by simp [span, hs])
      exact keeps_headerFieldStart skipBody (.inr rfl) hp
  | headerValueDiscardWs =>
      obtain rfl := hnone (by simp [span, hs])
      exact keeps_headerValueDiscardWs hp hs
  | headerValueDiscardLws =>
      obtain rfl := hnone (by simp [span, hs])
      exact keeps_headerValueDiscardLws skipBody (.inr rfl) hp
  | headerValueStart =>
      obtain rfl := hnone (by simp [span, hs])
      exact keeps_headerValueStart hp
  | headerValueLws =>
      obtain rfl := hnone (by simp [span, hs])
      exact keeps_headerValueLws skipBody (.inr rfl) hp
  | headerAlmostDone =>
      obtain rfl := hnone (by simp [span, hs])
      exact keeps_headerAlmostDone hp
  | chunkSizeStart =>
      obtain rfl := hnone (by simp [span, hs])
      exact keeps_chunkSizeStart hp
  | chunkSize =>
      obtain rfl := hnone (by simp [span, hs])
      exact keeps_chunkSize hp hs
  | chunkParameters =>
      obtain rfl := hnone (by simp [span, hs])
      dsimp only
      split_ifs
      · exact keeps_goto hp trivial rfl
      · exact keeps_turn hp (by rw [hs]; trivial) rfl (fits_none (by simp [carried, hs]))
  | chunkSizeAlmostDone =>
      obtain rfl := hnone (by simp [span, hs])
      exact keeps_chunkSizeAlmostDone hp
  | headersAlmostDone =>
      obtain rfl := hnone (by simp [span, hs])
      exact keeps_headersAlmostDone skipBody hp
  | headersDone =>
      obtain rfl := hnone (by simp [span, hs])
      exact keeps_headersDone hp
  | chunkDataDone =>
      obtain rfl := hnone (by simp [span, hs])
      exact keeps_chunkDataDone hp
  | messageDone =>
      obtain rfl := hnone (by simp [span, hs])
      exact keeps_messageDone hp

theorem keeps_executeByte (skipBody : Bool) {p : HttpParser} {o : Option HttpSpan}
    (hp : p.httpErrno = e) (ho : Fits p.carried p.span o) :
    Keeps e (p.state = .headerField ∨ p.state.lineStart = true) c o (executeByte skipBody p c) := by
  unfold executeByte
  split_ifs
  · exact keeps_fail _ _ _
  · exact keeps_dispatch (p := { p with nread := p.nread + 1 }) skipBody hp ho
  · exact keeps_dispatch skipBody hp ho

/-- A byte of a body marks it, or hands it on. -/
theorem executeByte_resumes (skipBody : Bool) (p : HttpParser) (c : UInt8)
    (h : (executeByte skipBody p c).ctl ≠ .error) (hspan : p.span ≠ none) (hcarried : p.carried = none) :
    (executeByte skipBody p c).ops ≠ [] := by
  unfold executeByte at h ⊢
  unfold dispatch at h ⊢
  cases hs : p.state with
  | bodyIdentity =>
      simp only [hs, HttpState.parsingHeader] at h ⊢
      unfold bodyIdentity
      dsimp only
      split_ifs <;> simp_all [after, turn]
  | chunkData =>
      simp only [hs, HttpState.parsingHeader] at h ⊢
      unfold chunkData
      dsimp only
      split_ifs <;> simp_all [turn]
  | chunkDataAlmostDone =>
      simp only [hs, HttpState.parsingHeader] at h ⊢
      unfold chunkDataAlmostDone at h ⊢
      split_ifs at h ⊢ <;> simp_all [turn, fail]
  | bodyIdentityEof => simp [HttpState.parsingHeader, turn]
  | _ => simp [span, carried, hs] at hspan hcarried

theorem parser_tame (skipBody : Bool) : Tame (parser skipBody) span where
  carried p := by
    show p.carried = none ∨ p.carried = p.span
    unfold carried span
    cases p.state <;> simp
  more p c o hctl ho := by
    have h := keeps_executeByte (c := c) skipBody rfl ho
    unfold Keeps at h
    have hctl' : (executeByte skipBody p c).ctl = .more := hctl
    rw [hctl'] at h
    exact h.2.2
  exit p c o hctl ho := by
    have h := keeps_executeByte (c := c) skipBody rfl ho
    unfold Keeps at h
    have hctl' : (executeByte skipBody p c).ctl = .exit := hctl
    rw [hctl'] at h
    exact h.1
  resumes p c := executeByte_resumes skipBody p c

/-- Where a turn goes on. -/
theorem executeByte_lands {skipBody : Bool} {p : HttpParser} {c : UInt8}
    (hctl : (executeByte skipBody p c).ctl = .more) : (executeByte skipBody p c).state.state.Lands
      (p.state = .headerField ∨ p.state.lineStart = true) c := by
  have h := keeps_executeByte (c := c) skipBody rfl ((parser_tame skipBody).opening p)
  unfold Keeps at h
  rw [hctl] at h
  exact h.2.1

/-! ### Errors -/

/-- An error is what a turn ends with, and nothing else sets one. -/
theorem executeByte_httpErrno (skipBody : Bool) (p : HttpParser) (c : UInt8) :
    ((executeByte skipBody p c).ctl ≠ .error →
      (executeByte skipBody p c).state.httpErrno = p.httpErrno) ∧
    ((executeByte skipBody p c).ctl = .error →
      (executeByte skipBody p c).state.httpErrno ≠ none) := by
  have h := keeps_executeByte (c := c) skipBody rfl ((parser_tame skipBody).opening p)
  unfold Keeps at h
  cases hctl : (executeByte skipBody p c).ctl with
  | more =>
      rw [hctl] at h
      exact ⟨fun _ => h.1, fun hbad => by cases hbad⟩
  | exit =>
      rw [hctl] at h
      exact ⟨fun _ => h.2, fun hbad => by cases hbad⟩
  | error =>
      rw [hctl] at h
      exact ⟨fun hbad => absurd rfl hbad, fun _ => h⟩

theorem execute_eq (skipBody : Bool) {p : HttpParser} (hp : p.httpErrno = none) {data : Bytes}
    (hdata : data ≠ []) : p.execute skipBody data = (parser skipBody).execute p data := by
  unfold execute
  rw [if_neg (by simpa using hp), if_neg hdata]

/-- **An error is reported exactly where the parser does not read on.** -/
theorem execute_httpErrno (skipBody : Bool) {p : HttpParser} (hp : p.httpErrno = none)
    {data : Bytes} (hdata : data ≠ []) :
    (p.execute skipBody data).state.httpErrno ≠ none ↔ (p.execute skipBody data).ctl = .error := by
  rw [execute_eq skipBody hp hdata]
  constructor
  · intro hne
    by_contra hctl
    exact hne (run_keeps (I := fun q => q.httpErrno = none)
      (fun q c h hq => ((executeByte_httpErrno skipBody q c).1 h).trans hq) hp hctl)
  · intro hctl
    exact run_fails (E := fun q => q.httpErrno ≠ none)
      (fun q c h => (executeByte_httpErrno skipBody q c).2 h) hctl

/-- The parser works on only without an error. -/
theorem httpErrno_of_more {skipBody : Bool} {p : HttpParser} {data : Bytes}
    (h : (p.execute skipBody data).ctl = .more) : p.httpErrno = none := by
  by_contra hp
  unfold execute at h
  rw [if_pos hp] at h
  cases h

end HttpParser

end OrderbookClient.Hv
