import Mathlib.Order.Lattice

/-! # Sorted maps

A map as the list of its entries, in the order of their keys.  Two keys that `f` does not tell
apart are the same key; the one that was inserted first is kept. -/

namespace OrderbookClient

variable {α κ β : Type} [LinearOrder κ] {f : α → κ}

/-- A map whose keys are ordered by `f`. -/
@[ext] structure SortedMap (f : α → κ) (β : Type) where
  entries : List (α × β)
  sorted : entries.Pairwise (fun x y => f x.1 < f y.1)

namespace SortedMap

/-! ### Inserting -/

/-- Replace the value of a key, or put the key in its place. -/
def insertEntry (f : α → κ) (key : α) (value : β) : List (α × β) → List (α × β)
  | [] => [(key, value)]
  | e :: es =>
      if f e.1 = f key then (e.1, value) :: es
      else if f key < f e.1 then (key, value) :: e :: es
      else e :: insertEntry f key value es

theorem mem_insertEntry {key : α} {value : β} {es : List (α × β)} :
    ∀ x ∈ insertEntry f key value es, x ∈ es ∨ x.2 = value ∧ (x.1 = key ∨ ∃ y ∈ es, x.1 = y.1) := by
  induction es with
  | nil =>
      intro x hx
      obtain rfl := List.mem_singleton.mp hx
      exact .inr ⟨rfl, .inl rfl⟩
  | cons e es ih =>
      intro x hx
      unfold insertEntry at hx
      split_ifs at hx with heq hlt
      · obtain rfl | hx := List.mem_cons.mp hx
        · exact .inr ⟨rfl, .inr ⟨e, by simp, rfl⟩⟩
        · exact .inl (by simp [hx])
      · obtain rfl | hx := List.mem_cons.mp hx
        · exact .inr ⟨rfl, .inl rfl⟩
        · exact .inl hx
      · obtain rfl | hx := List.mem_cons.mp hx
        · exact .inl (by simp)
        · obtain h | ⟨hvalue, h | ⟨y, hy, h⟩⟩ := ih x hx
          · exact .inl (by simp [h])
          · exact .inr ⟨hvalue, .inl h⟩
          · exact .inr ⟨hvalue, .inr ⟨y, by simp [hy], h⟩⟩

/-- An entry of another key stays. -/
theorem mem_insertEntry_of_ne {key : α} {value : β} {es : List (α × β)} {x : α × β} (h : x ∈ es)
    (hne : f x.1 ≠ f key) : x ∈ insertEntry f key value es := by
  induction es with
  | nil => cases h
  | cons e es ih =>
      unfold insertEntry
      obtain rfl | h := List.mem_cons.mp h
      · rw [if_neg hne]
        split_ifs <;> simp
      · split_ifs
        · exact List.mem_cons_of_mem _ h
        · exact List.mem_cons_of_mem _ (List.mem_cons_of_mem _ h)
        · exact List.mem_cons_of_mem _ (ih h)

theorem sorted_insertEntry {key : α} {value : β} {es : List (α × β)}
    (h : es.Pairwise (fun x y => f x.1 < f y.1)) :
    (insertEntry f key value es).Pairwise (fun x y => f x.1 < f y.1) := by
  induction es with
  | nil => exact List.pairwise_singleton _ _
  | cons e es ih =>
      obtain ⟨hfirst, hrest⟩ := List.pairwise_cons.mp h
      unfold insertEntry
      split_ifs with heq hlt
      · exact List.pairwise_cons.mpr ⟨hfirst, hrest⟩
      · refine List.pairwise_cons.mpr ⟨?_, h⟩
        intro y hy
        obtain rfl | hy := List.mem_cons.mp hy
        · exact hlt
        · exact hlt.trans (hfirst y hy)
      · refine List.pairwise_cons.mpr ⟨?_, ih hrest⟩
        intro y hy
        obtain hy | ⟨-, hkey | ⟨z, hz, hkey⟩⟩ := mem_insertEntry y hy
        · exact hfirst y hy
        · rw [hkey]
          exact lt_of_le_of_ne (not_lt.mp hlt) heq
        · rw [hkey]
          exact hfirst z hz

def empty (f : α → κ) (β : Type) : SortedMap f β := ⟨[], List.Pairwise.nil⟩

/-- `m[key] = value`. -/
def insert (m : SortedMap f β) (key : α) (value : β) : SortedMap f β :=
  ⟨insertEntry f key value m.entries, sorted_insertEntry m.sorted⟩

/-- `m.find(key)`. -/
def find (m : SortedMap f β) (key : α) : Option β :=
  (m.entries.find? (fun e => f e.1 = f key)).map Prod.snd

/-! ### Finding -/

theorem mem_of_find {m : SortedMap f β} {key : α} {value : β} (h : m.find key = some value) :
    ∃ k, f k = f key ∧ (k, value) ∈ m.entries := by
  obtain ⟨⟨k, v⟩, he, rfl⟩ := Option.map_eq_some_iff.mp h
  exact ⟨k, by simpa using List.find?_some he, List.mem_of_find?_eq_some he⟩

theorem find_of_mem {m : SortedMap f β} {key : α} {value : β} (h : (key, value) ∈ m.entries) :
    m.find key = some value := by
  obtain ⟨before, after, hentries⟩ := List.append_of_mem h
  have hsorted := m.sorted
  rw [hentries] at hsorted
  have hbefore : before.find? (fun e => f e.1 = f key) = none := by
    rw [List.find?_eq_none]
    intro e he
    have := (List.pairwise_append.mp hsorted).2.2 e he (key, value) (by simp)
    simpa using this.ne
  unfold find
  rw [hentries, List.find?_append, hbefore]
  simp

theorem find_eq_none_iff {m : SortedMap f β} {key : α} :
    m.find key = none ↔ ∀ e ∈ m.entries, f e.1 ≠ f key := by
  simp [find, List.find?_eq_none]

theorem find_congr (m : SortedMap f β) {key k : α} (h : f key = f k) : m.find key = m.find k := by
  unfold find
  rw [h]

/-! ### Building -/

/-- A key behind all others. -/
theorem insertEntry_last {key : α} {value : β} {es : List (α × β)}
    (h : ∀ e ∈ es, f e.1 < f key) : insertEntry f key value es = es ++ [(key, value)] := by
  induction es with
  | nil => rfl
  | cons e es ih =>
      have he : f e.1 < f key := h e (by simp)
      unfold insertEntry
      rw [if_neg he.ne, if_neg he.not_gt, ih (fun x hx => h x (by simp [hx]))]
      rfl

/-- **A map is what its entries make of an empty map.** -/
theorem foldl_insert (m : SortedMap f β) :
    m.entries.foldl (fun m' e => m'.insert e.1 e.2) (empty f β) = m := by
  have hall : ∀ (es : List (α × β)) (m' : SortedMap f β),
      (m'.entries ++ es).Pairwise (fun x y => f x.1 < f y.1) →
      (es.foldl (fun m' e => m'.insert e.1 e.2) m').entries = m'.entries ++ es := by
    intro es
    induction es with
    | nil =>
        intro m' _
        simp
    | cons e es ih =>
        intro m' h
        have hlast : (m'.insert e.1 e.2).entries = m'.entries ++ [e] := by
          apply insertEntry_last
          intro x hx
          exact (List.pairwise_append.mp h).2.2 x hx e (by simp)
        rw [List.foldl_cons, ih, hlast, List.append_assoc]
        · rfl
        · rw [hlast, List.append_assoc]
          exact h
  apply SortedMap.ext
  have h := hall m.entries (empty f β) (by simpa [empty] using m.sorted)
  rw [h]
  rfl

end SortedMap

end OrderbookClient
