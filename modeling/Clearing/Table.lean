/-!
Finite maps with their keys in order.

A `Table` is a list of entries whose keys ascend, so equal maps are equal tables (`ext_get?`) and
walking one visits the keys in order.  A key type says how its keys are ordered by ranking them
among the natural numbers, no two alike.

Everything the rest of the library knows of a table is what `get?` finds after each operation:
`get?_empty`, `get?_insert`, `get?_erase`, and `mem_entries_iff` for walking.
-/

namespace Clearing

/-- A type whose values can serve as keys, in the order of their ranks. -/
class Key (κ : Type) where
  rank : κ → Nat
  rank_inj : ∀ {a b : κ}, rank a = rank b → a = b

instance : Key Nat := ⟨id, id⟩

/-- A finite map from `κ` to `α`, kept by ascending key. -/
structure Table (κ α : Type) [Key κ] where
  entries : List (κ × α)
  ascending : entries.Pairwise fun x y => Key.rank x.1 < Key.rank y.1

namespace Table

variable {κ α β : Type} [Key κ]

open Key

/-! ### Entry lists -/

/-- The value of the first entry under a key. -/
def lookup (k : κ) : List (κ × α) → Option α
  | [] => none
  | (key, value) :: rest => if rank key = rank k then some value else lookup k rest

/-- Puts an entry in its place, over the one with the same key. -/
def place (k : κ) (v : α) : List (κ × α) → List (κ × α)
  | [] => [(k, v)]
  | (key, value) :: rest =>
    if rank k < rank key then (k, v) :: (key, value) :: rest
    else if rank k = rank key then (k, v) :: rest
    else (key, value) :: place k v rest

theorem mem_place {k : κ} {v : α} {l : List (κ × α)} {e : κ × α} (h : e ∈ place k v l) :
    e = (k, v) ∨ e ∈ l := by
  induction l with
  | nil => simpa [place] using h
  | cons x rest ih =>
    simp only [place] at h
    split at h
    · simpa using h
    · split at h
      · rcases List.mem_cons.1 h with rfl | h
        · exact .inl rfl
        · exact .inr (List.mem_cons_of_mem _ h)
      · rcases List.mem_cons.1 h with rfl | h
        · exact .inr (List.mem_cons_self ..)
        · exact (ih h).imp_right (List.mem_cons_of_mem _)

theorem place_ascending {k : κ} {v : α} {l : List (κ × α)}
    (h : l.Pairwise fun x y => rank x.1 < rank y.1) :
    (place k v l).Pairwise fun x y => rank x.1 < rank y.1 := by
  induction l with
  | nil => simp [place]
  | cons x rest ih =>
    obtain ⟨hx, hrest⟩ := List.pairwise_cons.1 h
    simp only [place]
    split
    · rename_i hlt
      refine List.pairwise_cons.2 ⟨fun y hy => ?_, h⟩
      rcases List.mem_cons.1 hy with rfl | hy
      · exact hlt
      · exact Nat.lt_trans hlt (hx y hy)
    · split
      · rename_i heq
        exact List.pairwise_cons.2 ⟨fun y hy => by have := hx y hy; simp only; omega, hrest⟩
      · refine List.pairwise_cons.2 ⟨fun y hy => ?_, ih hrest⟩
        rcases mem_place hy with rfl | hy
        · simp only; omega
        · exact hx y hy

theorem lookup_place (k : κ) (v : α) (l : List (κ × α)) (k' : κ) :
    lookup k' (place k v l) = if rank k = rank k' then some v else lookup k' l := by
  induction l with
  | nil => rfl
  | cons x rest ih =>
    simp only [place]
    split
    · rfl
    · split
      · rename_i heq
        simp only [lookup]
        split
        · rfl
        · rw [if_neg (by omega)]
      · simp only [lookup, ih]
        split
        · rw [if_neg (by omega)]
        · rfl

theorem lookup_eq_some_iff {k : κ} {v : α} {l : List (κ × α)}
    (h : l.Pairwise fun x y => rank x.1 < rank y.1) : lookup k l = some v ↔ (k, v) ∈ l := by
  induction l with
  | nil => simp [lookup]
  | cons x rest ih =>
    obtain ⟨hx, hrest⟩ := List.pairwise_cons.1 h
    simp only [lookup, List.mem_cons]
    split
    · rename_i heq
      have hk : x.1 = k := rank_inj heq
      constructor
      · intro hv
        cases hv
        exact .inl (by rw [← hk])
      · rintro (hv | hv)
        · rw [← hv]
        · exact absurd (hx _ hv) (by simp only; omega)
    · rename_i hne
      rw [ih hrest]
      constructor
      · exact .inr
      · rintro (hv | hv)
        · rw [← hv] at hne
          exact absurd rfl hne
        · exact hv

theorem lookup_filter (keep : κ → Bool) (l : List (κ × α)) (k : κ) :
    lookup k (l.filter fun e => keep e.1) = if keep k then lookup k l else none := by
  induction l with
  | nil => simp [lookup]
  | cons x rest ih =>
    obtain ⟨key, value⟩ := x
    by_cases hk : rank key = rank k
    · have := rank_inj hk
      subst this
      by_cases hkeep : keep key <;> simp [hkeep, lookup, ih]
    · by_cases hkeep : keep key <;> simp [hkeep, lookup, ih, hk]

/-- There is nothing under a key before all others. -/
theorem lookup_eq_none_of_lt {k : κ} {l : List (κ × α)} (h : ∀ e ∈ l, rank k < rank e.1) :
    lookup k l = none := by
  induction l with
  | nil => rfl
  | cons x rest ih =>
    have hlt := h x (List.mem_cons_self ..)
    rw [lookup, if_neg (by omega)]
    exact ih fun e he => h e (List.mem_cons_of_mem _ he)

/-- The first entries are the same where each list holds that of the other. -/
theorem head_eq_of_mem {x y : κ × α} {xs ys : List (κ × α)}
    (hx : ∀ e ∈ xs, rank x.1 < rank e.1) (hy : ∀ e ∈ ys, rank y.1 < rank e.1)
    (hxm : x ∈ y :: ys) (hym : y ∈ x :: xs) : x = y := by
  rcases List.mem_cons.1 hxm with e | hxm
  · exact e
  · rcases List.mem_cons.1 hym with e | hym
    · exact e.symm
    · have := hx y hym
      have := hy x hxm
      omega

/-- Entries with the same lookups are the same, since their keys ascend. -/
theorem eq_of_lookup {l m : List (κ × α)} (hl : l.Pairwise fun x y => rank x.1 < rank y.1)
    (hm : m.Pairwise fun x y => rank x.1 < rank y.1) (h : ∀ k, lookup k l = lookup k m) :
    l = m := by
  induction l generalizing m with
  | nil =>
    cases m with
    | nil => rfl
    | cons y ys => simpa [lookup] using h y.1
  | cons x xs ih =>
    obtain ⟨hx, hxs⟩ := List.pairwise_cons.1 hl
    cases m with
    | nil => simpa [lookup] using (h x.1).symm
    | cons y ys =>
      obtain ⟨hy, hys⟩ := List.pairwise_cons.1 hm
      have hxm : x ∈ y :: ys := (lookup_eq_some_iff hm).1 (by rw [← h x.1]; simp [lookup])
      have hym : y ∈ x :: xs := (lookup_eq_some_iff hl).1 (by rw [h y.1]; simp [lookup])
      obtain rfl := head_eq_of_mem hx hy hxm hym
      rw [ih hxs hys fun k => ?_]
      by_cases hr : rank x.1 = rank k
      · obtain rfl : x.1 = k := rank_inj hr
        rw [lookup_eq_none_of_lt hx, lookup_eq_none_of_lt hy]
      · have hk := h k
        simpa only [lookup, if_neg hr] using hk

/-! ### Tables -/

/-- The table without entries. -/
def empty : Table κ α := ⟨[], .nil⟩

instance : Inhabited (Table κ α) := ⟨empty⟩

/-- The value under a key. -/
def get? (t : Table κ α) (k : κ) : Option α :=
  lookup k t.entries

/-- Whether there is a value under a key. -/
def contains (t : Table κ α) (k : κ) : Bool :=
  (t.get? k).isSome

/-- Sets the value under a key. -/
def insert (t : Table κ α) (k : κ) (v : α) : Table κ α :=
  ⟨place k v t.entries, place_ascending t.ascending⟩

/-- Keeps the entries whose key passes a test. -/
def filterKeys (t : Table κ α) (keep : κ → Bool) : Table κ α :=
  ⟨t.entries.filter fun e => keep e.1, t.ascending.filter _⟩

/-- Removes a key. -/
def erase (t : Table κ α) (k : κ) : Table κ α :=
  t.filterKeys fun key => rank key != rank k

/-- The keys, ascending. -/
def keys (t : Table κ α) : List κ :=
  t.entries.map (·.1)

/-- The values, by ascending key. -/
def values (t : Table κ α) : List α :=
  t.entries.map (·.2)

/-- The number of entries. -/
def size (t : Table κ α) : Nat :=
  t.entries.length

/-- The table of a list of entries; of two with one key, the later counts. -/
def ofEntries (l : List (κ × α)) : Table κ α :=
  l.foldl (fun t e => t.insert e.1 e.2) empty

@[simp] theorem get?_empty (k : κ) : (empty : Table κ α).get? k = none := rfl

theorem mem_entries_iff {t : Table κ α} {k : κ} {v : α} :
    (k, v) ∈ t.entries ↔ t.get? k = some v :=
  (lookup_eq_some_iff t.ascending).symm

theorem get?_insert (t : Table κ α) (k k' : κ) (v : α) :
    (t.insert k v).get? k' = if rank k = rank k' then some v else t.get? k' :=
  lookup_place k v t.entries k'

@[simp] theorem get?_insert_self (t : Table κ α) (k : κ) (v : α) :
    (t.insert k v).get? k = some v := by
  simp [get?_insert]

theorem get?_insert_of_ne (t : Table κ α) {k k' : κ} (v : α) (h : k' ≠ k) :
    (t.insert k v).get? k' = t.get? k' := by
  rw [get?_insert, if_neg fun hr => h (rank_inj hr).symm]

theorem get?_filterKeys (t : Table κ α) (keep : κ → Bool) (k : κ) :
    (t.filterKeys keep).get? k = if keep k then t.get? k else none :=
  lookup_filter keep t.entries k

@[simp] theorem get?_erase_self (t : Table κ α) (k : κ) : (t.erase k).get? k = none := by
  simp [erase, get?_filterKeys]

theorem get?_erase_of_ne (t : Table κ α) {k k' : κ} (h : k' ≠ k) :
    (t.erase k).get? k' = t.get? k' := by
  rw [erase, get?_filterKeys, if_pos]
  simpa using fun hr => h (rank_inj hr)

/-- Two tables with the same lookups are the same table. -/
theorem ext_get? {t u : Table κ α} (h : ∀ k, t.get? k = u.get? k) : t = u := by
  obtain ⟨l, hl⟩ := t
  obtain ⟨m, hm⟩ := u
  obtain rfl : l = m := eq_of_lookup hl hm h
  rfl

instance [DecidableEq κ] [DecidableEq α] : DecidableEq (Table κ α) := fun t u =>
  if h : t.entries = u.entries then
    .isTrue (by cases t; cases u; cases h; rfl)
  else .isFalse fun e => h (e ▸ rfl)

end Table

/-- A finite set of keys, kept in order. -/
abbrev KeySet (κ : Type) [Key κ] := Table κ Unit

namespace KeySet

variable {κ : Type} [Key κ]

/-- Adds a key. -/
def add (s : KeySet κ) (k : κ) : KeySet κ :=
  Table.insert s k ()

/-- The set of the keys in a list. -/
def ofList (l : List κ) : KeySet κ :=
  l.foldl add Table.empty

end KeySet

end Clearing
