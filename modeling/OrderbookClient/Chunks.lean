import OrderbookClient.HttpNames
import OrderbookClient.Upgrade

/-! # The response in chunks

A response comes in chunks of any size.

* `feedAll_stream`: if each chunk but the last is parsed to its end, and none of them ends inside the
  name of a header or right behind it, the chunks are read as the stream is.
* `feedAll_whole`: so an upgrade response is assembled as if it came at once.
* `feed_cut`: a header whose name is cut is lost. -/

namespace OrderbookClient.Hv

open Json (Bytes)
open Spans

/-! ### Any response -/

namespace Http1Parser

/-- The chunks, one after the other. -/
def feedAll (hp : Http1Parser) (chunks : List Bytes) : Http1Parser :=
  chunks.foldl (fun hp data => (hp.feedRecvData data).1) hp

theorem feedAll_concat (hp : Http1Parser) (chunks : List Bytes) (data : Bytes) :
    hp.feedAll (chunks ++ [data]) = ((hp.feedAll chunks).feed data).1 := by
  simp [feedAll, feedRecvData]

/-- Each chunk is parsed to its end, and there the parser stands neither inside the name of a header
nor right behind one. -/
def Takes : Http1Parser → List Bytes → Prop
  | _, [] => True
  | hp, data :: chunks => data ≠ [] ∧ (hp.execute data).ctl = .more ∧
      (hp.execute data).state.state ≠ .headerField ∧ Takes (hp.feed data).1 chunks

instance decidableTakes : ∀ (hp : Http1Parser) (chunks : List Bytes), Decidable (hp.Takes chunks)
  | _, [] => inferInstanceAs (Decidable True)
  | hp, data :: chunks =>
      have := decidableTakes (hp.feed data).1 chunks
      inferInstanceAs (Decidable (_ ∧ _ ∧ _ ∧ _))

theorem takes_concat {chunks : List Bytes} {data : Bytes} : ∀ {hp : Http1Parser},
    hp.Takes chunks → data ≠ [] → ((hp.feedAll chunks).execute data).ctl = .more →
    ((hp.feedAll chunks).execute data).state.state ≠ .headerField → hp.Takes (chunks ++ [data]) := by
  induction chunks with
  | nil =>
      intro hp _ hdata hmore hname
      exact ⟨hdata, hmore, hname, trivial⟩
  | cons first chunks ih =>
      rintro hp ⟨hne, hfirst, hcut, hrest⟩ hdata hmore hname
      exact ⟨hne, hfirst, hcut, ih hrest hdata hmore hname⟩

/-- The parser at the end of the stream, and why it stops there. -/
theorem execute_flatten {chunks : List Bytes} {data : Bytes} (hdata : data ≠ []) :
    ∀ {hp : Http1Parser}, hp.Takes chunks →
      (hp.execute (chunks.flatten ++ data)).ctl = ((hp.feedAll chunks).execute data).ctl ∧
      (hp.execute (chunks.flatten ++ data)).state = ((hp.feedAll chunks).execute data).state := by
  induction chunks with
  | nil =>
      intro hp _
      exact ⟨rfl, rfl⟩
  | cons first chunks ih =>
      rintro hp ⟨hne, hmore, -, hrest⟩
      obtain ⟨hstate, hctl, -⟩ := Continues.cut
        (b := chunks.flatten ++ data) ⟨hne, by simp [hdata], hmore⟩
      obtain ⟨hctl', hstate'⟩ := ih hrest
      rw [List.flatten_cons, List.append_assoc]
      exact ⟨hctl.trans hctl', hstate.trans hstate'⟩

theorem feed_flatten {chunks : List Bytes} {data : Bytes} (hdata : data ≠ []) :
    ∀ {hp : Http1Parser}, hp.Takes chunks → ((hp.feedAll chunks).execute data).ctl ≠ .error →
      hp.feed (chunks.flatten ++ data) =
        (((hp.feedAll chunks).feed data).1,
          chunks.flatten.length + ((hp.feedAll chunks).feed data).2) := by
  induction chunks with
  | nil =>
      intro hp _ _
      simp [feedAll]
  | cons first chunks ih =>
      rintro hp ⟨hne, hmore, hcut, hrest⟩ hok
      have hcont : Continues hp first (chunks.flatten ++ data) := ⟨hne, by simp [hdata], hmore⟩
      have hok' : ((hp.feed first).1.execute (chunks.flatten ++ data)).ctl ≠ .error := by
        rw [(execute_flatten hdata hrest).1]
        exact hok
      rw [List.flatten_cons, List.append_assoc, hcont.feed hcut hok', ih hrest hok, List.length_append,
        Nat.add_assoc]
      rfl

/-- **Where a response is cut does not matter**, but in the name of a header: the chunks are read as
the stream is. -/
theorem feedAll_stream {hp : Http1Parser} {chunks : List Bytes} {data : Bytes}
    (hchunks : hp.Takes chunks) (hdata : data ≠ [])
    (hok : ((hp.feedAll chunks).execute data).ctl ≠ .error) :
    hp.feedRecvData (chunks.flatten ++ data) =
      (((hp.feedAll chunks).feedRecvData data).1,
        Int.bmod (chunks.flatten.length + ((hp.feedAll chunks).feedRecvData data).2) (2 ^ 32)) := by
  unfold feedRecvData
  rw [feed_flatten hdata hchunks hok]
  simp

/-- A response that is cut inside a value, in a chunk's size and in its body. -/
def cutResponse : List Bytes :=
  [ascii "HTTP/1.1 200 OK\r\nTransfer-Encoding: chu", ascii "nked\r\n\r\n", ascii "0",
    ascii "5\r\nhe"]

theorem feedAll_stream_cutResponse :
    new.feedRecvData (cutResponse.flatten ++ ascii "llo\r\n0\r\n\r\n") =
      (((new.feedAll cutResponse).feedRecvData (ascii "llo\r\n0\r\n\r\n")).1,
        Int.bmod (cutResponse.flatten.length +
          ((new.feedAll cutResponse).feedRecvData (ascii "llo\r\n0\r\n\r\n")).2) (2 ^ 32)) :=
  feedAll_stream (by decide +kernel) (by decide +kernel) (by decide +kernel)

end Http1Parser

/-! ### An upgrade response -/

namespace UpgradeResponse

open Http1Parser

theorem more_of_short (r : UpgradeResponse) {a b tail : Bytes} (ha : a ≠ [])
    (hab : a ++ b = r.text ++ tail) (hlt : a.length < r.text.length) :
    (Http1Parser.new.execute a).ctl = .more := by
  obtain ⟨q, -, hrun⟩ := r.execute_upgrade false
  have hexecute : Http1Parser.new.execute a = (HttpParser.parser false).execute .init a :=
    HttpParser.execute_eq false rfl ha
  rw [hexecute]
  apply more_of_lt_parsed (b := b)
  have hwhole : (HttpParser.parser false).execute .init (a ++ b) =
      ⟨q, r.calls, .exit, r.text.length⟩ := by
    rw [hab, hrun]
  have : ((HttpParser.parser false).execute .init (a ++ b)).parsed = r.text.length := by rw [hwhole]
  exact lt_of_lt_of_eq hlt this.symm

/-- No chunk of a response ends inside the name of a header, or right behind it. -/
def Whole (chunks : List Bytes) : Prop := ∀ pre, pre <+: chunks → endsInName pre.flatten = false

theorem takes_whole (r : UpgradeResponse) (tail : Bytes) : ∀ {chunks : List Bytes} {rest : Bytes},
    (∀ data ∈ chunks, data ≠ []) → chunks.flatten ++ rest = r.text ++ tail →
    chunks.flatten.length < r.text.length → Whole chunks → Http1Parser.new.Takes chunks := by
  intro chunks
  induction chunks using List.reverseRecOn with
  | nil =>
      intro rest _ _ _ _
      trivial
  | append_singleton chunks data ih =>
      intro rest hne hflat hlt hwhole
      have hlast := hwhole _ (List.prefix_refl _)
      have hflatten : (chunks ++ [data]).flatten = chunks.flatten ++ data := by simp
      rw [hflatten] at hflat hlt hlast
      have hdata : data ≠ [] := hne data (by simp)
      have hlt' : chunks.flatten.length < r.text.length := by
        rw [List.length_append] at hlt
        omega
      have htakes := ih (fun x hx => hne x (by simp [hx])) (by rw [← hflat, List.append_assoc]) hlt'
        (fun pre hpre => hwhole pre (hpre.trans (List.prefix_append _ _)))
      obtain ⟨hctl, hstate⟩ := execute_flatten hdata htakes
      have hmore := r.more_of_short (by simp [hdata]) hflat hlt
      apply takes_concat htakes hdata (hctl.symm.trans hmore)
      rw [← hstate]
      intro hs
      have hexecute : Http1Parser.new.execute (chunks.flatten ++ data) =
          (HttpParser.parser false).execute .init (chunks.flatten ++ data) :=
        HttpParser.execute_eq false rfl (by simp [hdata])
      rw [hexecute] at hmore hs
      rw [HttpParser.endsInName_of_headerField hmore hs] at hlast
      cases hlast

theorem new_feed_nil : Http1Parser.new.feed [] = (Http1Parser.new, 0) := by
  decide +kernel

theorem feedAll_eq (r : UpgradeResponse) (tail : Bytes) {chunks : List Bytes} {rest : Bytes}
    (hne : ∀ data ∈ chunks, data ≠ []) (hflat : chunks.flatten ++ rest = r.text ++ tail)
    (hlt : chunks.flatten.length < r.text.length)
    (hname : ∀ pre, pre <+: chunks → pre ≠ chunks → endsInName pre.flatten = false) :
    Http1Parser.new.feedAll chunks = (Http1Parser.new.feed chunks.flatten).1 := by
  obtain rfl | ⟨chunks, data, rfl⟩ := List.eq_nil_or_concat' chunks
  · rw [List.flatten_nil, new_feed_nil]
    rfl
  · have hflatten : (chunks ++ [data]).flatten = chunks.flatten ++ data := by simp
    rw [hflatten] at hflat hlt ⊢
    have hdata : data ≠ [] := hne data (by simp)
    have hlt' : chunks.flatten.length < r.text.length := by
      rw [List.length_append] at hlt
      omega
    have htakes := r.takes_whole tail (fun x hx => hne x (by simp [hx]))
      (by rw [← hflat, List.append_assoc]) hlt' (fun pre hpre => hname pre
        (hpre.trans (List.prefix_append _ _)) (by
          rintro rfl
          exact absurd hpre.length_le (by simp)))
    have hmore := r.more_of_short (by simp [hdata]) hflat hlt
    have hok : ((Http1Parser.new.feedAll chunks).execute data).ctl ≠ .error := by
      rw [← (execute_flatten hdata htakes).1, hmore]
      simp
    rw [feedAll_concat, feed_flatten hdata htakes hok]

/-- **Where the response is cut does not matter**, but in the names of its headers. -/
theorem feedAll_whole (r : UpgradeResponse) {chunks : List Bytes} {data tail : Bytes}
    (hne : ∀ x ∈ chunks ++ [data], x ≠ []) (hflat : chunks.flatten ++ data = r.text ++ tail)
    (hlt : chunks.flatten.length < r.text.length) (hwhole : Whole chunks) :
    ∃ q : HttpParser, q.httpErrno = none ∧
      (Http1Parser.new.feedAll chunks).feed data =
        (⟨q, false, .messageComplete, [], [], r.parsed⟩, r.text.length - chunks.flatten.length) := by
  obtain ⟨q, hq, hrun⟩ := r.feed_upgrade
  refine ⟨q, hq, ?_⟩
  have hdata : data ≠ [] := hne data (by simp)
  have htakes := r.takes_whole tail (fun x hx => hne x (by simp [hx])) hflat hlt hwhole
  have hok : ((Http1Parser.new.feedAll chunks).execute data).ctl ≠ .error := by
    obtain ⟨q', -, hexit⟩ := r.execute_upgrade false
    have hexecute : Http1Parser.new.execute (r.text ++ tail) =
        (HttpParser.parser false).execute .init (r.text ++ tail) :=
      HttpParser.execute_eq false rfl (by simp [r.text_ne])
    rw [← (execute_flatten hdata htakes).1, hflat, hexecute, hexit]
    simp
  have hstream := feed_flatten hdata htakes hok
  rw [hflat, hrun tail] at hstream
  obtain ⟨hfirst, hsecond⟩ := Prod.mk.inj hstream
  apply Prod.ext
  · exact hfirst.symm
  · dsimp only
    omega

end UpgradeResponse

/-! ### A name that is cut -/

/-- The parser of a response behind `read` bytes of it, which end in the beginning `name` of the name
of a header, behind the headers `before`. -/
structure InName (p : HttpParser) (before : List HeaderLine) (name : Bytes) (read : ℕ) : Prop where
  state : p.state = .headerField
  matched : Matched (caseKey name) p.index p.headerState
  flags : p.flags = HttpParser.flagsOf .none before
  nread : p.nread = read
  contentLength : p.contentLength = ullongMax
  statusCode : p.statusCode = 101
  httpMajor : p.httpMajor = 1
  httpMinor : p.httpMinor = 1
  httpErrno : p.httpErrno = none

namespace UpgradeResponse

open HttpParser

theorem length_lines (r : UpgradeResponse) {before after : List HeaderLine} {l : HeaderLine}
    (hlines : r.lines = before ++ l :: after) : (r.lines.flatMap HeaderLine.text).length =
      (before.flatMap HeaderLine.text).length + (l.name.length + l.tail.length) +
        (after.flatMap HeaderLine.text).length := by
  rw [hlines, List.flatMap_append, List.flatMap_cons, l.text_eq]
  simp only [List.length_append]
  omega

theorem ordinary_lines (r : UpgradeResponse) {before after : List HeaderLine} {l : HeaderLine}
    (hlines : r.lines = before ++ l :: after) :
    (∀ x ∈ before, x.Ordinary) ∧ l.Ordinary ∧ ∀ x ∈ after, x.Ordinary := by
  have := r.ordinary
  rw [hlines] at this
  simpa [or_imp, forall_and] using this

/-- The first chunk: what is there of the name is handed on. -/
theorem execute_name (r : UpgradeResponse) {before after : List HeaderLine} {l : HeaderLine}
    {name rest : Bytes} (hlines : r.lines = before ++ l :: after) (hname : l.name = name ++ rest)
    (hne : name ≠ []) :
    ∃ p, InName p before name (r.head ++ before.flatMap HeaderLine.text ++ name).length ∧
      (parser false).execute .init (r.head ++ before.flatMap HeaderLine.text ++ name) =
        ⟨p, [.notify .messageBegin, .data .status r.reason] ++ before.flatMap HeaderLine.calls ++
          [.data .headerField name], .more,
          (r.head ++ before.flatMap HeaderLine.text ++ name).length⟩ := by
  have hroom := r.room
  have hlength := r.length_lines hlines
  rw [hname, List.length_append] at hlength
  have htoken : ∀ c ∈ name, token c ≠ 0 := fun c hc => l.name_token c (by simp [hname, hc])
  obtain ⟨i, h, hbefore⟩ := readsLine_lines false before (p := r.behindStatusLine) rfl
    (r.ordinary_lines hlines).1 (by show 13 + _ + 2 + _ + 1 ≤ _; omega)
  obtain ⟨i', h', hm, hsteps⟩ := steps_name false (p := { r.behindStatusLine with
    index := i
    headerState := h
    flags := flagsOf .none before
    nread := 13 + r.reason.length + 2 + (before.flatMap HeaderLine.text).length }) hne htoken rfl
    (by dsimp only; omega)
  obtain ⟨c, cs, hcs⟩ := List.exists_cons_of_ne_nil hne
  have hrun := hbefore c cs (not_blank_of_token c (htoken c (by simp [hcs])))
  rw [← hcs] at hrun
  have hlen : (r.head ++ before.flatMap HeaderLine.text ++ name).length =
      13 + r.reason.length + 2 + (before.flatMap HeaderLine.text).length + name.length := by
    simp only [List.length_append, r.length_head]
  refine ⟨{ r.behindStatusLine with
    state := .headerField
    index := i'
    headerState := h'
    flags := flagsOf .none before
    nread := 13 + r.reason.length + 2 + (before.flatMap HeaderLine.text).length + name.length },
    ⟨rfl, hm, rfl, hlen.symm, rfl, rfl, rfl, rfl, rfl⟩, ?_⟩
  show (parser false).run .init none _ = _
  rw [List.append_assoc, r.steps_head false, hrun]
  refine (congrArg (fun end_ => (Result.behind end_ _ _).behind _ _) hsteps.run_eq).trans ?_
  simp only [Result.behind, leftover, List.nil_append, List.length_append, Nat.add_assoc,
    List.append_assoc]

/-- The second chunk: the rest of the name is handed on as another piece, also if it is empty. -/
theorem execute_rest (r : UpgradeResponse) {before after : List HeaderLine} {l : HeaderLine}
    {name rest : Bytes} {p : HttpParser} (hlines : r.lines = before ++ l :: after)
    (hname : l.name = name ++ rest)
    (hp : InName p before name (r.head ++ before.flatMap HeaderLine.text ++ name).length) :
    ∃ q : HttpParser, q.httpErrno = none ∧ ∀ tail, (parser false).execute p
      (rest ++ l.tail ++ after.flatMap HeaderLine.text ++ [cr, lf] ++ tail) =
        ⟨q, [.data .headerField rest, .data .headerValue l.value] ++ after.flatMap HeaderLine.calls ++
          [.notify (.headersComplete 1 1 101), .notify .messageComplete], .exit,
          (rest ++ l.tail ++ after.flatMap HeaderLine.text ++ [cr, lf]).length⟩ := by
  have hroom := r.room
  have hlength := r.length_lines hlines
  rw [hname, List.length_append] at hlength
  have hread := hp.nread
  simp only [List.length_append, r.length_head] at hread
  have hordinary := (r.ordinary_lines hlines).2
  have htoken : ∀ c ∈ rest, token c ≠ 0 := fun c hc => l.name_token c (by simp [hname, hc])
  obtain ⟨i₁, h₁, hm₁, hrest⟩ := steps_field false (d := []) hp.state hp.matched htoken
    (by omega)
  have hkey : caseKey name ++ rest.map token = caseKey l.name := by
    rw [map_token htoken, hname]
    simp [caseKey]
  rw [hkey] at hm₁
  obtain ⟨i₂, h₂, htail⟩ := readsLine_tail false hordinary.1 (p := { p with
    index := i₁, headerState := h₁, nread := p.nread + rest.length }) hp.state hm₁
    (by dsimp only; omega)
  obtain ⟨i₃, h₃, hafter⟩ := readsLine_lines false after (p := { p with
    state := .headerFieldStart
    index := i₂
    headerState := h₂
    flags := l.setFlags p.flags
    nread := p.nread + rest.length + l.tail.length }) rfl hordinary.2 (by dsimp only; omega)
  have hflags : flagsOf (l.setFlags p.flags) after = flagsOf .none r.lines := by
    rw [hlines, hp.flags]
    simp [flagsOf]
  have hupgrading : Upgrading { p with
      state := .headerFieldStart
      index := i₃
      headerState := h₃
      flags := flagsOf (l.setFlags p.flags) after
      nread := p.nread + rest.length + l.tail.length + (after.flatMap HeaderLine.text).length } := by
    refine ⟨rfl, ?_, ?_, ?_, ?_, hp.contentLength, hp.statusCode⟩
    all_goals exact congrArg _ (hflags.trans r.flagsOf_lines)
  obtain ⟨q, hq, hend⟩ := run_headersEnd false hupgrading (by dsimp only; omega)
  refine ⟨q, hq.trans hp.httpErrno, fun tail => ?_⟩
  have hopening : (parser false).opening p = some (.headerField, []) := by
    show ((carried p).map (fun k => (k, []))) = _
    rw [carried, hp.state]
    rfl
  obtain ⟨x, next, hnext, hx⟩ := next_byte after (c := cr) (lf :: tail) (by decide)
  have htext : rest ++ l.tail ++ after.flatMap HeaderLine.text ++ [cr, lf] ++ tail =
      rest ++ (l.tail ++ x :: next) := by
    rw [← hnext]
    simp
  show (parser false).run p ((parser false).opening p) _ = _
  rw [hopening, htext, hrest, htail _ x next hx, ← hnext, hafter cr (lf :: tail) (by decide)]
  refine (congrArg (fun end_ => ((Result.behind end_ _ _).behind _ _).behind _ _) (hend tail)).trans ?_
  simp only [Result.behind, hp.httpMajor, hp.httpMinor, List.length_append, List.length_cons,
    List.length_nil, Nat.add_assoc, List.append_assoc, List.nil_append, List.cons_append]

end UpgradeResponse

/-! ### The header that is lost -/

theorem HttpHeaders.get_set (key value : Bytes) {k : Bytes} (hs : HttpHeaders) :
    (hs.set key value).get k = if caseKey key = caseKey k then value else hs.get k := by
  induction hs with
  | nil => by_cases h : caseKey key = caseKey k <;> simp [HttpHeaders.set, HttpHeaders.get, h]
  | cons x hs ih =>
      unfold HttpHeaders.set
      by_cases hx : caseKey x.1 = caseKey key
      · rw [if_pos hx]
        by_cases h : caseKey key = caseKey k <;> simp [HttpHeaders.get, hx, h]
      · rw [if_neg hx]
        unfold HttpHeaders.get at ih ⊢
        by_cases hk : caseKey x.1 = caseKey k
        · have hne : caseKey key ≠ caseKey k := fun h => hx (hk.trans h.symm)
          simp [hk, hne]
        · simpa [hk] using ih

theorem HttpHeaders.get_congr {hs : HttpHeaders} {k k' : Bytes} (h : caseKey k = caseKey k') :
    hs.get k = hs.get k' := by
  unfold HttpHeaders.get
  rw [h]

theorem HttpHeaders.get_lines {k : Bytes} {lines : List HeaderLine} : ∀ {hs : HttpHeaders},
    (∀ l ∈ lines, caseKey l.name ≠ caseKey k) →
    (lines.foldl (fun hs l => HttpHeaders.set hs l.name l.value) hs).get k = hs.get k := by
  induction lines with
  | nil =>
      intro hs _
      rfl
  | cons l lines ih =>
      intro hs h
      rw [List.foldl_cons, ih (fun x hx => h x (by simp [hx])), HttpHeaders.get_set,
        if_neg (h l (by simp))]

namespace Http1Parser

/-- Nothing is found under `k`, and nothing will be by storing the header at hand. -/
structure Lost (k : Bytes) (hp : Http1Parser) : Prop where
  get : hp.parsed.headers.get k = []
  field : caseKey hp.headerField = caseKey k → hp.headerValue = []

theorem Lost.handleHeader {k : Bytes} {hp : Http1Parser} (h : Lost k hp) :
    hp.handleHeader.parsed.headers.get k = [] ∧ hp.handleHeader.headerField = [] := by
  unfold Http1Parser.handleHeader
  by_cases hf : hp.headerField = []
  · rw [if_neg (not_not.mpr hf)]
    exact ⟨h.get, hf⟩
  · rw [if_pos hf]
    refine ⟨?_, rfl⟩
    dsimp only
    rw [HttpHeaders.get_set]
    split_ifs with hk
    · exact h.field hk
    · exact h.get

/-- The calls name no header `k`. -/
def Unnamed (k : Bytes) (calls : List (Call HttpSpan HttpNotice UInt8)) : Prop :=
  ∀ d, .data .headerField d ∈ calls → caseKey d ≠ caseKey k

theorem caseKey_nil_ne {k : Bytes} (hk : k ≠ []) : caseKey [] ≠ caseKey k := by
  simpa [caseKey, eq_comm] using hk

/-- What is lost behind the name of another header stays lost. -/
theorem Lost.handle {k : Bytes} (hk : k ≠ []) {hp : Http1Parser} (h : Lost k hp)
    (hfield : caseKey hp.headerField ≠ caseKey k) {call : Call HttpSpan HttpNotice UInt8}
    (hcall : Unnamed k [call]) :
    Lost k (hp.handle call) ∧ caseKey (hp.handle call).headerField ≠ caseKey k := by
  obtain ⟨hget, hempty⟩ := h.handleHeader
  have hnil := caseKey_nil_ne hk
  cases call with
  | data span d =>
      cases span with
      | headerField =>
          have hd : caseKey (hp.handleHeader.headerField ++ d) ≠ caseKey k := by
            rw [hempty, List.nil_append]
            exact hcall d (by simp)
          exact ⟨⟨hget, fun heq => absurd heq hd⟩, hd⟩
      | status | headerValue | body => exact ⟨⟨h.get, fun heq => absurd heq hfield⟩, hfield⟩
  | notify n =>
      cases n with
      | headersComplete =>
          have hf : caseKey hp.handleHeader.headerField ≠ caseKey k := by
            rw [hempty]
            exact hnil
          exact ⟨⟨hget, fun heq => absurd heq hf⟩, hf⟩
      | messageBegin | messageComplete | chunkHeader | chunkComplete =>
          exact ⟨⟨h.get, fun heq => absurd heq hfield⟩, hfield⟩

theorem Lost.foldl {k : Bytes} (hk : k ≠ []) {calls : List (Call HttpSpan HttpNotice UInt8)} :
    ∀ {hp : Http1Parser}, Lost k hp → caseKey hp.headerField ≠ caseKey k → Unnamed k calls →
      Lost k (calls.foldl Http1Parser.handle hp) := by
  induction calls with
  | nil =>
      intro hp h _ _
      exact h
  | cons call calls ih =>
      intro hp h hfield hcalls
      have hcall : Unnamed k [call] := by
        intro d hd
        obtain rfl := List.mem_singleton.mp hd
        exact hcalls d (by simp)
      obtain ⟨hlost, hfield'⟩ := h.handle hk hfield hcall
      exact ih hlost hfield' (fun d hd => hcalls d (by simp [hd]))

theorem unnamed_lines {k : Bytes} {lines : List HeaderLine}
    (h : ∀ l ∈ lines, caseKey l.name ≠ caseKey k) : Unnamed k (lines.flatMap HeaderLine.calls) := by
  intro d hd
  obtain ⟨l, hl, hmem⟩ := List.mem_flatMap.mp hd
  have : d = l.name := by simpa [HeaderLine.calls] using hmem
  rw [this]
  exact h l hl

end Http1Parser

namespace UpgradeResponse

open Http1Parser

/-- **A header is lost if its name is cut.**  The response is complete without it. -/
theorem feed_cut (r : UpgradeResponse) {before after : List HeaderLine} {l : HeaderLine}
    {name rest : Bytes} (hlines : r.lines = before ++ l :: after) (hname : l.name = name ++ rest)
    (hne : name ≠ []) (hother : ∀ x ∈ before ++ after, caseKey x.name ≠ caseKey l.name)
    {data tail : Bytes}
    (hdata : r.head ++ before.flatMap HeaderLine.text ++ name ++ data = r.text ++ tail) :
    ∃ hp : Http1Parser, (Http1Parser.new.feed
        (r.head ++ before.flatMap HeaderLine.text ++ name)).1.feed data =
          (hp, r.text.length - (r.head ++ before.flatMap HeaderLine.text ++ name).length) ∧
      hp.getError = false ∧ hp.isComplete = true ∧ hp.parsed.statusCode = 101 ∧
      hp.parsed.headers.get l.name = [] := by
  obtain ⟨p, hp, hfirst⟩ := r.execute_name hlines hname hne
  obtain ⟨q, hq, hsecond⟩ := r.execute_rest hlines hname hp
  set first := r.head ++ before.flatMap HeaderLine.text ++ name with hfirst_eq
  set second := rest ++ l.tail ++ after.flatMap HeaderLine.text ++ [cr, lf] with hsecond_eq
  have htext : r.text = first ++ second := by
    rw [hfirst_eq, hsecond_eq, text_eq, hlines, List.flatMap_append, List.flatMap_cons, l.text_eq,
      hname]
    simp
  have hdata' : data = second ++ tail := by
    rw [htext] at hdata
    exact List.append_cancel_left (hdata.trans (List.append_assoc first second tail))
  have hexecute : Http1Parser.new.execute first = ⟨p, _, .more, first.length⟩ :=
    (HttpParser.execute_eq false rfl (by simp [hfirst_eq, hne])).trans hfirst
  -- what the first chunk leaves
  have hclean : Clean { Http1Parser.new with state := .status } := fun _ => rfl
  obtain ⟨state, hbefore⟩ := handle_lines before hclean
  have hfed : (Http1Parser.new.feed first).1 =
      ⟨p, false, .headerField, name, [],
        ⟨1, 1, 200, before.foldl (fun hs x => hs.set x.name x.value) [], []⟩⟩ := by
    rw [feed_of_execute hexecute]
    simp only [List.foldl_append, List.foldl_cons, List.foldl_nil]
    show { Http1Parser.onHeaderField ((before.flatMap HeaderLine.calls).foldl handle
      { Http1Parser.new with state := .status }) name with parser := p } = _
    unfold onHeaderField
    rw [hbefore]
    rfl
  have hlost : Lost l.name (Http1Parser.new.feed first).1 := by
    rw [hfed]
    exact ⟨HttpHeaders.get_lines (fun x hx => hother x (by simp [hx])), fun _ => rfl⟩
  have hrest : caseKey rest ≠ caseKey l.name := by
    intro h
    have hlen := congrArg List.length h
    have hpos := List.length_pos_of_ne_nil hne
    simp only [caseKey, hname, List.length_map, List.length_append] at hlen
    omega
  -- the second chunk begins a header of its own
  set calls : List (Call HttpSpan HttpNotice UInt8) := [.data .headerValue l.value] ++
    after.flatMap HeaderLine.calls ++ [.notify (.headersComplete 1 1 101), .notify .messageComplete]
    with hcalls_eq
  have hexecute' : (Http1Parser.new.feed first).1.execute data =
      ⟨q, .data .headerField rest :: calls, .exit, second.length⟩ := by
    rw [hfed, hdata']
    exact (HttpParser.execute_eq false hp.httpErrno (by simp [hsecond_eq])).trans (hsecond tail)
  obtain ⟨hget, hempty⟩ := hlost.handleHeader
  have hcalls : Unnamed l.name calls := by
    intro d hd
    simp only [hcalls_eq, List.mem_append, List.mem_cons, List.not_mem_nil, or_false, reduceCtorEq,
      Call.data.injEq, false_and, false_or] at hd
    exact unnamed_lines (fun x hx => hother x (by simp [hx])) d hd
  set begun := (Http1Parser.new.feed first).1.onHeaderField rest with hbegun
  have hfield : begun.headerField = rest := by
    show (Http1Parser.new.feed first).1.handleHeader.headerField ++ rest = rest
    rw [hempty, List.nil_append]
  have hbegun_lost : Lost l.name begun := ⟨hget, fun h => absurd (hfield ▸ h) hrest⟩
  have hend := hbegun_lost.foldl (by simp [hname, hne]) (hfield.symm ▸ hrest) hcalls
  refine ⟨{ calls.foldl handle begun with parser := q }, ?_, ?_, ?_, ?_, hend.get⟩
  · have hparsed : r.text.length - first.length = second.length := by
      rw [htext, List.length_append, Nat.add_sub_cancel_left]
    rw [hparsed, feed_of_execute hexecute']
    rfl
  · simp [getError, hq]
  · simp [hcalls_eq, isComplete, handle]
  · simp [hcalls_eq, handle, onHeadersComplete]

end UpgradeResponse

end OrderbookClient.Hv
