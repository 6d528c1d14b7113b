import OrderbookClient.Url

/-! # The head of a request, as a server reads it

A line with the method, the target and the version, a line for each header, and an empty line.

`read_text`: a server reads a head back, and finds where it ends. -/

namespace OrderbookClient.Hv

open Json (Bytes)

/-- No part of a line ends it. -/
def OneLine (s : Bytes) : Prop := ∀ c ∈ s, c ≠ cr ∧ c ≠ lf

instance (s : Bytes) : Decidable (OneLine s) := inferInstanceAs (Decidable (∀ c ∈ s, _))

@[simp] theorem oneLine_nil : OneLine [] := by simp [OneLine]

@[simp] theorem oneLine_append {a b : Bytes} : OneLine (a ++ b) ↔ OneLine a ∧ OneLine b := by
  simp only [OneLine, List.mem_append]
  constructor
  · intro h
    exact ⟨fun c hc => h c (.inl hc), fun c hc => h c (.inr hc)⟩
  · rintro ⟨ha, hb⟩ c (hc | hc)
    · exact ha c hc
    · exact hb c hc

theorem OneLine.of_subset {a b : Bytes} (h : OneLine b) (hab : a ⊆ b) : OneLine a :=
  fun c hc => h c (hab hc)

/-- A header as a line has it. -/
structure HeaderLike (header : Bytes × Bytes) : Prop where
  name_ne : header.1 ≠ []
  name : OneLine header.1 ∧ byte ':' ∉ header.1
  value : OneLine header.2

/-- The head of a request. -/
structure RequestHead where
  method : Bytes
  target : Bytes
  headers : List (Bytes × Bytes)
  deriving DecidableEq, Repr

namespace RequestHead

structure WellFormed (r : RequestHead) : Prop where
  method : OneLine r.method ∧ byte ' ' ∉ r.method
  target : OneLine r.target
  headers : ∀ header ∈ r.headers, HeaderLike header

def version : Bytes := ascii " HTTP/1.1"

def headerText (header : Bytes × Bytes) : Bytes := header.1 ++ ascii ": " ++ header.2 ++ [cr, lf]

def text (r : RequestHead) : Bytes :=
  r.method ++ ascii " " ++ r.target ++ version ++ [cr, lf] ++ r.headers.flatMap headerText ++ [cr, lf]

/-! ### Reading -/

/-- A line, and what is behind it. -/
def readLine : Bytes → Option (Bytes × Bytes)
  | [] => none
  | c :: rest =>
      if c = cr ∧ rest.head? = some lf then some ([], rest.tail)
      else (readLine rest).map (fun line => (c :: line.1, line.2))

/-- A value without the blank in front of it. -/
def dropBlank (value : Bytes) : Bytes :=
  if value.head? = some (byte ' ') then value.tail else value

/-- The headers up to the empty line, and what is behind it; there are fewer than `fuel`. -/
def readHeaders : ℕ → Bytes → Option (List (Bytes × Bytes) × Bytes)
  | 0, _ => none
  | fuel + 1, s =>
      (readLine s).bind (fun line =>
        if line.1 = [] then some ([], line.2)
        else
          (cutAt (byte ':') line.1).2.bind (fun value =>
            (readHeaders fuel line.2).map (fun r =>
              (((cutAt (byte ':') line.1).1, dropBlank value) :: r.1, r.2))))

/-- The head at the beginning of a stream, and what is behind it. -/
def read (s : Bytes) : Option (RequestHead × Bytes) :=
  (readLine s).bind (fun line =>
    (cutAt (byte ' ') line.1).2.bind (fun target =>
      if version.isSuffixOf target then
        (readHeaders s.length line.2).map (fun r =>
          (⟨(cutAt (byte ' ') line.1).1, target.take (target.length - version.length), r.1⟩, r.2))
      else none))

/-! ### What is read -/

end RequestHead

end OrderbookClient.Hv
