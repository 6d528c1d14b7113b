import OrderbookClient.JsonReader
import OrderbookClient.Document

/-! # The subscription request: `WSClient::subscribe`

`subscribe` builds its JSON-RPC request with a fixed sequence of writer calls around a loop over
the instrument names, and passes `buffer.GetString()` on as a C string.

`subscribeWriter` is that sequence, call by call, and `subscribeText` the string `send` gets.
The calls are those of `Doc.accept` for one document (`subscribeWriter_eq`), so everything
about the request follows from the theory of written documents: the writer ends complete and
the text is a JSON text denoting the request, and nothing else. -/

namespace OrderbookClient

open Json RapidJson

/-- The loop over the instruments: `writer.String(instrument.c_str())`. -/
def writeInstruments : List Bytes → Writer → Option Writer
  | [], w => some w
  | instrument :: instruments, w => do
      let w ← w.string (cStr instrument)
      writeInstruments instruments w

/-- The writer calls of `subscribe`. -/
def subscribeWriter (m_request_id : ℤ) (instruments : List Bytes) : Option Writer := do
  let w := Writer.new StringBuffer.new
  let w ← w.startObject
  let w ← w.key (cStr (ascii "jsonrpc"))
  let w ← w.string (cStr (ascii "2.0"))
  let w ← w.key (cStr (ascii "id"))
  let w ← w.int m_request_id
  let w ← w.key (cStr (ascii "method"))
  let w ← w.string (cStr (ascii "public/subscribe"))
  let w ← w.key (cStr (ascii "params"))
  let w ← w.startObject
  let w ← w.key (cStr (ascii "channels"))
  let w ← w.startArray
  let w ← writeInstruments instruments w
  let w ← w.endArray
  let w ← w.endObject
  w.endObject

/-- The text `subscribe` passes to `send`: `buffer.GetString()` up to its terminator. -/
def subscribeText (m_request_id : ℤ) (instruments : List Bytes) : Option Bytes := do
  let w ← subscribeWriter m_request_id instruments
  let (_, memory) ← StringBuffer.getString w.os
  return cString memory

/-! ### The request as a document -/

/-- What `c_str()` lets the writer see of a name: the bytes before its first NUL. -/
def seenName (s : Bytes) : Bytes := cString (cStr s)

/-- The request `subscribe` writes. -/
def requestDoc (m_request_id : ℤ) (instruments : List Bytes) : Doc :=
  .obj [(ascii "jsonrpc", .str (ascii "2.0")),
    (ascii "id", .int m_request_id),
    (ascii "method", .str (ascii "public/subscribe")),
    (ascii "params", .obj [(ascii "channels", .arr (instruments.map (fun s => .str (seenName s))))])]

/-- What the request denotes. -/
def requestValue (m_request_id : ℤ) (instruments : List Bytes) : Value :=
  .object [(ascii "jsonrpc", .string (ascii "2.0")),
    (ascii "id", .number m_request_id),
    (ascii "method", .string (ascii "public/subscribe")),
    (ascii "params", .object [(ascii "channels", .array (instruments.map .string))])]

theorem values_strs (ss : List Bytes) : Doc.values (ss.map .str) = ss.map .string := by
  induction ss with
  | nil => rfl
  | cons s ss ih => simp [Doc.values, Doc.value, ih]

theorem requestDoc_value (m_request_id : ℤ) (instruments : List Bytes) :
    (requestDoc m_request_id instruments).value = requestValue m_request_id (instruments.map seenName) := by
  have h := values_strs (instruments.map seenName)
  rw [List.map_map] at h
  simp only [requestDoc, requestValue, Doc.value, Doc.memberValues]
  exact congrArg (fun vs => Value.object [(ascii "jsonrpc", .string (ascii "2.0")),
    (ascii "id", .number m_request_id), (ascii "method", .string (ascii "public/subscribe")),
    (ascii "params", .object [(ascii "channels", .array vs)])]) h

theorem fitsElements_strs (ss : List Bytes) (h : ∀ s ∈ ss, Doc.FitsSizeType s) :
    Doc.FitsElements (ss.map .str) := by
  induction ss with
  | nil => trivial
  | cons s ss ih =>
      have hs := h s (by simp)
      have hss := ih (fun t ht => h t (by simp [ht]))
      simp only [List.map_cons, Doc.FitsElements, Doc.Fits]
      exact ⟨hs, hss⟩

/-- A string literal of the source fits and has no NUL. -/
def IsLiteral (s : Bytes) : Prop := Doc.FitsSizeType s ∧ ∀ b ∈ s, b ≠ 0

theorem ascii_isLiteral : IsLiteral (ascii "jsonrpc") ∧ IsLiteral (ascii "2.0") ∧
    IsLiteral (ascii "id") ∧ IsLiteral (ascii "method") ∧ IsLiteral (ascii "public/subscribe") ∧
    IsLiteral (ascii "params") ∧ IsLiteral (ascii "channels") := by
  simp only [IsLiteral, Doc.FitsSizeType]
  decide +kernel

theorem requestDoc_fits {m_request_id : ℤ} (hid : IsInt32 m_request_id) {instruments : List Bytes}
    (hs : ∀ s ∈ instruments, Doc.FitsSizeType (seenName s)) :
    (requestDoc m_request_id instruments).Fits := by
  obtain ⟨h1, h2, h3, h4, h5, h6, h7⟩ := ascii_isLiteral
  have helems : Doc.FitsElements (instruments.map (fun s => .str (seenName s))) := by
    have := fitsElements_strs (instruments.map seenName) (by simpa using hs)
    rwa [List.map_map] at this
  simp only [requestDoc, Doc.Fits, Doc.FitsMembers]
  exact ⟨h1.1, h2.1, h3.1, hid, h4.1, h5.1, h6.1, ⟨h7.1, helems, trivial⟩, trivial⟩

/-! ### The calls of `subscribe` are those for the document -/

theorem string_cStr {w : Writer} {s : Bytes} (h : Doc.FitsSizeType (seenName s)) :
    w.string (cStr s) = w.stringN (seenName s) (seenName s).length := by
  have hstr : w.string (cStr s) = w.stringN (cStr s) (seenName s).length :=
    Writer.string_eq_stringN h
  have htake : (cStr s).take (seenName s).length = seenName s := cString_prefix (cStr s)
  rw [hstr, ← Writer.stringN_take, htake]

theorem string_literal {w : Writer} {s : Bytes} (h : IsLiteral s) :
    w.string (cStr s) = w.stringN s s.length := by
  have hseen : seenName s = s := cString_cStr h.2
  have := string_cStr (w := w) (s := s) (by rw [hseen]; exact h.1)
  rwa [hseen] at this

theorem key_literal {w : Writer} {s : Bytes} (h : IsLiteral s) :
    w.key (cStr s) = w.keyN s s.length := string_literal h

theorem writeInstruments_eq {instruments : List Bytes}
    (hs : ∀ s ∈ instruments, Doc.FitsSizeType (seenName s)) (w : Writer) :
    writeInstruments instruments w =
      Doc.acceptElements (instruments.map (fun s => .str (seenName s))) w := by
  induction instruments generalizing w with
  | nil => rfl
  | cons s ss ih =>
      have h := string_cStr (w := w) (hs s (by simp))
      simp only [writeInstruments, List.map_cons, Doc.acceptElements, Doc.accept, h]
      refine Option.bind_congr ?_
      intro w' _
      exact ih (fun t ht => hs t (by simp [ht])) w'

/-- **`subscribe` writes its document.** -/
theorem subscribeWriter_eq (m_request_id : ℤ) {instruments : List Bytes}
    (hs : ∀ s ∈ instruments, Doc.FitsSizeType (seenName s)) :
    subscribeWriter m_request_id instruments =
      (requestDoc m_request_id instruments).accept (Writer.new StringBuffer.new) := by
  obtain ⟨h1, h2, h3, h4, h5, h6, h7⟩ := ascii_isLiteral
  simp only [subscribeWriter, requestDoc, Doc.accept, Doc.acceptMembers, key_literal h1,
    string_literal h2, key_literal h3, key_literal h4, string_literal h5, key_literal h6,
    key_literal h7, writeInstruments_eq hs]
  simp [Option.bind_assoc]

/-- **The request for any names**: each instrument is requested under the bytes before its
first NUL. -/
theorem subscribeText_eq (m_request_id : ℤ) (hid : IsInt32 m_request_id) (instruments : List Bytes)
    (hs : ∀ s ∈ instruments, Doc.FitsSizeType (seenName s)) :
    ∃ w text, subscribeWriter m_request_id instruments = some w ∧ w.isComplete = true ∧
      subscribeText m_request_id instruments = some text ∧
      Text text (requestValue m_request_id (instruments.map seenName)) := by
  have hfits := requestDoc_fits hid hs
  obtain ⟨w, e, hc, hb, ht⟩ := Doc.write_document _ hfits
  rw [← subscribeWriter_eq m_request_id hs] at e
  rw [requestDoc_value] at ht
  obtain ⟨os, hg, -⟩ := StringBuffer.getString_eq w.os
  refine ⟨w, _, e, hc, ?_, ht⟩
  have hz := Doc.text_ne_zero _ hfits
  have hcs : cString (w.os.bytes ++ [0]) = (requestDoc m_request_id instruments).text := by
    rw [hb]
    exact cString_cStr (fun b hb h0 => hz (h0 ▸ hb))
  simp [subscribeText, e, hg, hcs]

/-- **The request is well formed.**  For any instrument names without NUL that fit in
`SizeType`, the writer calls of `subscribe` fail no assertion and leave the writer complete, and
the text sent is a JSON text denoting the request with exactly these names, and only that. -/
theorem subscribe_request (m_request_id : ℤ) (hid : 0 ≤ m_request_id ∧ m_request_id < 2 ^ 31)
    (instruments : List Bytes) (hnul : ∀ s ∈ instruments, ∀ b ∈ s, b ≠ 0)
    (hsize : ∀ s ∈ instruments, 2 + 6 * s.length < 2 ^ 32) :
    ∃ w text, subscribeWriter m_request_id instruments = some w ∧
      w.hasRoot = true ∧ w.levels = [] ∧
      subscribeText m_request_id instruments = some text ∧
      Text text (.object [(ascii "jsonrpc", .string (ascii "2.0")),
        (ascii "id", .number m_request_id),
        (ascii "method", .string (ascii "public/subscribe")),
        (ascii "params", .object [(ascii "channels", .array (instruments.map .string))])]) ∧
      ∀ v, Text text v → v = .object [(ascii "jsonrpc", .string (ascii "2.0")),
        (ascii "id", .number m_request_id),
        (ascii "method", .string (ascii "public/subscribe")),
        (ascii "params", .object [(ascii "channels", .array (instruments.map .string))])] := by
  have hseen : ∀ s ∈ instruments, seenName s = s := fun s hs => cString_cStr (hnul s hs)
  have hmap : instruments.map seenName = instruments := by
    conv_rhs => rw [← List.map_id instruments]
    exact List.map_congr_left hseen
  obtain ⟨w, text, e, hc, ht, hv⟩ := subscribeText_eq m_request_id
    ⟨by omega, hid.2⟩ instruments (fun s hs => by rw [hseen s hs]; exact hsize s hs)
  rw [hmap] at hv
  simp only [Writer.isComplete, Bool.and_eq_true, List.isEmpty_iff] at hc
  exact ⟨w, text, e, hc.1, hc.2, ht, hv, fun v hv' => hv'.unique hv⟩

/-- The first request of `main`: two order books under the id `0`. -/
theorem subscribe_request_main :
    ∃ w text, subscribeWriter 0 [ascii "book.ADA_USDC-PERPETUAL.none.20.100ms",
        ascii "book.BTC-PERPETUAL.none.20.100ms"] = some w ∧
      w.hasRoot = true ∧ w.levels = [] ∧
      subscribeText 0 [ascii "book.ADA_USDC-PERPETUAL.none.20.100ms",
        ascii "book.BTC-PERPETUAL.none.20.100ms"] = some text ∧
      Text text (requestValue 0 [ascii "book.ADA_USDC-PERPETUAL.none.20.100ms",
        ascii "book.BTC-PERPETUAL.none.20.100ms"]) := by
  obtain ⟨w, text, h1, h2, h3, h4, h5, -⟩ := subscribe_request 0 (by norm_num)
    [ascii "book.ADA_USDC-PERPETUAL.none.20.100ms", ascii "book.BTC-PERPETUAL.none.20.100ms"]
    (by decide +kernel) (by decide +kernel)
  exact ⟨w, text, h1, h2, h3, h4, h5⟩

end OrderbookClient
