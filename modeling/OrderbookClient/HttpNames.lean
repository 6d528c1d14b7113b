import OrderbookClient.Http1Parser

/-! # Where a chunk ends inside the name of a header

`http_parser` is in the state `s_header_field` inside the name of a header and right behind it.

`endsInName_of_headerField`: what it has read then ends in bytes of a token behind a line feed. -/

namespace OrderbookClient.Hv

open Json (Bytes)
open Spans

/-- The last bytes, back to a line feed, are those of a token, and there is one.  In the head of a
response they are then the name of a header, or its beginning. -/
def endsInName (data : Bytes) : Bool :=
  let name := data.reverse.takeWhile (fun c => token c ≠ 0)
  name ≠ [] && (data.reverse.drop name.length).head? = some lf

theorem endsInName_concat {data : Bytes} {c : UInt8} (hc : token c ≠ 0)
    (h : endsInName data = true ∨ data.getLast? = some lf) : endsInName (data ++ [c]) = true := by
  have hrev : (data ++ [c]).reverse = c :: data.reverse := by simp
  unfold endsInName at h ⊢
  rw [hrev, List.takeWhile_cons_of_pos (by simpa using hc)]
  dsimp only
  obtain h | h := h
  · simp only [Bool.and_eq_true, decide_eq_true_eq] at h
    simpa using h.2
  · rw [← List.head?_reverse] at h
    have hnone : data.reverse.takeWhile (fun c => token c ≠ 0) = [] := by
      cases hdata : data.reverse with
      | nil => rfl
      | cons x xs =>
          rw [hdata] at h
          obtain rfl : x = lf := by simpa using h
          exact List.takeWhile_cons_of_neg (by decide)
    rw [hnone]
    simpa using h

namespace HttpParser

/-- Where the parser is behind `data`. -/
structure Behind (data : Bytes) (p : HttpParser) : Prop where
  name : p.state = .headerField → endsInName data = true
  line : p.state.lineStart = true → data.getLast? = some lf

theorem Behind.concat {data : Bytes} {c : UInt8} {p q : HttpParser} (h : Behind data p)
    (hl : q.state.Lands (p.state = .headerField ∨ p.state.lineStart = true) c) :
    Behind (data ++ [c]) q := by
  constructor
  · intro hs
    rw [hs] at hl
    obtain ⟨htoken, hfrom⟩ := hl
    exact endsInName_concat htoken (hfrom.imp h.name h.line)
  · intro hs
    have hc : c = lf := by
      unfold HttpState.lineStart at hs
      split at hs
      all_goals simp_all [HttpState.Lands]
    rw [hc, List.getLast?_concat]

theorem Behind.run {skipBody : Bool} : ∀ {cs data : Bytes} {p : HttpParser}
    {m : Mark HttpSpan UInt8}, Behind data p → ((parser skipBody).run p m cs).ctl = .more →
    Behind (data ++ cs) ((parser skipBody).run p m cs).state
  | [], data, p, m, h, _ => by
      rw [List.append_nil, run_nil]
      exact h
  | c :: cs, data, p, m, h, hmore => by
      have hctl : (executeByte skipBody p c).ctl = .more := by
        cases hcase : (executeByte skipBody p c).ctl with
        | more => rfl
        | exit =>
            rw [run_exit (P := parser skipBody) hcase] at hmore
            cases hmore
        | error =>
            rw [run_error (P := parser skipBody) hcase] at hmore
            cases hmore
      have hnext := h.concat (executeByte_lands hctl)
      rw [run_more (P := parser skipBody) hctl] at hmore ⊢
      have ih := hnext.run hmore
      rwa [List.append_assoc] at ih

/-- **Inside a name, as the bytes show it.** -/
theorem endsInName_of_headerField {skipBody : Bool} {data : Bytes}
    (hmore : ((parser skipBody).execute .init data).ctl = .more)
    (hs : ((parser skipBody).execute .init data).state.state = .headerField) :
    endsInName data = true := by
  have h : Behind [] init := ⟨by simp [init], by simp [init, HttpState.lineStart]⟩
  exact (h.run hmore).name hs

end HttpParser

end OrderbookClient.Hv
