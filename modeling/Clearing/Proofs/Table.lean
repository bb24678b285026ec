import Clearing.Table
import Mathlib.Algebra.Order.BigOperators.Group.List
import Mathlib.Algebra.Ring.Int.Defs

/-!
Tables seen through their keys and through sums over their values.

A table answers for one key at a time.  Two views of it as a whole are needed beside that: which
keys it has, each of them once, and what its values add up to.  An operation on a table shows in
both views at one key only: `total_insert` and `total_erase` say by how much a sum moves.
-/

namespace Clearing

namespace Table

open Key

variable {κ α β : Type} [Key κ]

/-! ### Lookups -/

theorem get?_insert_eq [DecidableEq κ] (t : Table κ α) (k k' : κ) (v : α) :
    (t.insert k v).get? k' = if k' = k then some v else t.get? k' := by
  by_cases h : k' = k
  · rw [if_pos h, h, get?_insert_self]
  · rw [if_neg h, get?_insert_of_ne t v h]

theorem get?_erase_eq [DecidableEq κ] (t : Table κ α) (k k' : κ) :
    (t.erase k).get? k' = if k' = k then none else t.get? k' := by
  by_cases h : k' = k
  · rw [if_pos h, h, get?_erase_self]
  · rw [if_neg h, get?_erase_of_ne t h]

theorem insert_comm [DecidableEq κ] (t : Table κ α) {k k' : κ} (v v' : α) (h : k ≠ k') :
    (t.insert k v).insert k' v' = (t.insert k' v').insert k v := by
  refine ext_get? fun other => ?_
  simp only [get?_insert_eq]
  by_cases hk : other = k
  · rw [if_neg (hk ▸ h), if_pos hk, if_pos hk]
  · rw [if_neg hk, if_neg hk]

theorem erase_insert [DecidableEq κ] (t : Table κ α) (k : κ) (v : α) :
    (t.insert k v).erase k = t.erase k :=
  ext_get? fun k' => by
    rw [get?_erase_eq, get?_erase_eq, get?_insert_eq]
    by_cases h : k' = k
    · rw [if_pos h, if_pos h]
    · rw [if_neg h, if_neg h, if_neg h]

/-! ### Keys -/

theorem mem_keys_iff {t : Table κ α} {k : κ} : k ∈ t.keys ↔ ∃ v, t.get? k = some v := by
  unfold keys
  rw [List.mem_map]
  constructor
  · rintro ⟨⟨key, v⟩, hmem, rfl⟩
    exact ⟨v, mem_entries_iff.1 hmem⟩
  · rintro ⟨v, hv⟩
    exact ⟨(k, v), mem_entries_iff.2 hv, rfl⟩

theorem keys_ascending (t : Table κ α) : t.keys.Pairwise fun a b => rank a < rank b :=
  List.pairwise_map.2 t.ascending

theorem keys_nodup (t : Table κ α) : t.keys.Nodup :=
  t.keys_ascending.imp fun h heq => by
    rw [heq] at h
    exact Nat.lt_irrefl _ h

theorem mem_values_iff {t : Table κ α} {v : α} : v ∈ t.values ↔ ∃ k, t.get? k = some v := by
  unfold values
  rw [List.mem_map]
  constructor
  · rintro ⟨⟨k, value⟩, hmem, rfl⟩
    exact ⟨k, mem_entries_iff.1 hmem⟩
  · rintro ⟨k, hk⟩
    exact ⟨(k, v), mem_entries_iff.2 hk, rfl⟩

/-! ### Sums over the values -/

/-- What the values of a table add up to, each weighed by `f`. -/
def total (f : α → Int) (t : Table κ α) : Int :=
  (t.values.map f).sum

/-- What the value under a key adds to a sum, which is nothing where there is none. -/
def share (f : α → Int) (t : Table κ α) (k : κ) : Int :=
  ((t.get? k).map f).getD 0

theorem sum_place (f : α → Int) (k : κ) (v : α) (l : List (κ × α))
    (h : l.Pairwise fun x y => rank x.1 < rank y.1) :
    ((place k v l).map fun e => f e.2).sum + ((lookup k l).map f).getD 0
      = (l.map fun e => f e.2).sum + f v := by
  induction l with
  | nil => simp [place, lookup]
  | cons x rest ih =>
    obtain ⟨hx, hrest⟩ := List.pairwise_cons.1 h
    simp only [place, lookup]
    by_cases hlt : rank k < rank x.1
    · have hnone : lookup k rest = none :=
        lookup_eq_none_of_lt fun e he => Nat.lt_trans hlt (hx e he)
      rw [if_pos hlt, if_neg (by omega), hnone]
      simp only [List.map_cons, List.sum_cons, Option.map_none, Option.getD_none]
      omega
    · rw [if_neg hlt]
      by_cases heq : rank k = rank x.1
      · rw [if_pos heq, if_pos heq.symm]
        simp only [List.map_cons, List.sum_cons, Option.map_some, Option.getD_some]
        omega
      · have hrec := ih hrest
        rw [if_neg heq, if_neg (by omega)]
        simp only [List.map_cons, List.sum_cons]
        omega

theorem sum_filter_ne (f : α → Int) (k : κ) (l : List (κ × α))
    (h : l.Pairwise fun x y => rank x.1 < rank y.1) :
    ((l.filter fun e => rank e.1 != rank k).map fun e => f e.2).sum + ((lookup k l).map f).getD 0
      = (l.map fun e => f e.2).sum := by
  induction l with
  | nil => simp [lookup]
  | cons x rest ih =>
    obtain ⟨hx, hrest⟩ := List.pairwise_cons.1 h
    have hrec := ih hrest
    by_cases hk : rank x.1 = rank k
    · have hnone : lookup k rest = none :=
        lookup_eq_none_of_lt fun e he => by rw [← hk]; exact hx e he
      rw [hnone] at hrec
      rw [List.filter_cons_of_neg (by simpa using hk), lookup, if_pos hk]
      simp only [List.map_cons, List.sum_cons, Option.map_some, Option.getD_some,
        Option.map_none, Option.getD_none] at hrec ⊢
      omega
    · rw [List.filter_cons_of_pos (by simpa using hk), lookup, if_neg hk]
      simp only [List.map_cons, List.sum_cons]
      omega

theorem total_eq_sum_entries (f : α → Int) (t : Table κ α) :
    t.total f = (t.entries.map fun e => f e.2).sum := by
  unfold total values
  rw [List.map_map]
  rfl

theorem total_insert (f : α → Int) (t : Table κ α) (k : κ) (v : α) :
    (t.insert k v).total f + t.share f k = t.total f + f v := by
  rw [total_eq_sum_entries, total_eq_sum_entries]
  exact sum_place f k v t.entries t.ascending

theorem total_erase (f : α → Int) (t : Table κ α) (k : κ) :
    (t.erase k).total f + t.share f k = t.total f := by
  rw [total_eq_sum_entries, total_eq_sum_entries]
  exact sum_filter_ne f k t.entries t.ascending

/-- The table with a function applied to every value. -/
def mapValues (g : α → β) (t : Table κ α) : Table κ β :=
  ⟨t.entries.map fun e => (e.1, g e.2), List.pairwise_map.2 t.ascending⟩

theorem get?_mapValues (g : α → β) (t : Table κ α) (k : κ) :
    (t.mapValues g).get? k = (t.get? k).map g := by
  unfold mapValues get?
  dsimp only
  induction t.entries with
  | nil => rfl
  | cons x rest ih =>
    rw [List.map_cons, lookup, lookup, ih]
    split <;> rfl

theorem total_mapValues (f : β → Int) (g : α → β) (t : Table κ α) :
    (t.mapValues g).total f = t.total fun a => f (g a) := by
  rw [total_eq_sum_entries, total_eq_sum_entries]
  unfold mapValues
  rw [List.map_map]
  rfl

/-- Tables whose values look alike have the same sum. -/
theorem total_congr (f : β → Int) (g : α → β) {t u : Table κ α}
    (h : ∀ k, (t.get? k).map g = (u.get? k).map g) :
    (t.total fun a => f (g a)) = u.total fun a => f (g a) := by
  have hsame : t.mapValues g = u.mapValues g :=
    ext_get? fun k => by rw [get?_mapValues, get?_mapValues, h k]
  calc (t.total fun a => f (g a)) = (t.mapValues g).total f := (total_mapValues f g t).symm
    _ = (u.mapValues g).total f := by rw [hsame]
    _ = u.total fun a => f (g a) := total_mapValues f g u

end Table

/-! ### Sets of keys -/

namespace KeySet

variable {κ : Type} [Key κ]

theorem mem_keys_add {s : KeySet κ} {k k' : κ} :
    k' ∈ (s.add k).keys ↔ k' = k ∨ k' ∈ s.keys := by
  classical
  simp only [Table.mem_keys_iff, KeySet.add, Table.get?_insert_eq]
  by_cases h : k' = k <;> simp [h]

theorem mem_keys_ofList {ks : List κ} {k : κ} : k ∈ (ofList ks).keys ↔ k ∈ ks := by
  have hadd : ∀ (ks : List κ) (s : KeySet κ),
      k ∈ (ks.foldl add s).keys ↔ k ∈ ks ∨ k ∈ s.keys := by
    intro ks
    induction ks with
    | nil => simp
    | cons first rest ih =>
      intro s
      rw [List.foldl_cons, ih, mem_keys_add, List.mem_cons]
      exact or_left_comm.trans or_assoc.symm
  unfold ofList
  rw [hadd]
  exact or_iff_left List.not_mem_nil

theorem mem_keys_erase {s : KeySet κ} {k k' : κ} :
    k' ∈ (Table.erase s k).keys ↔ k' ≠ k ∧ k' ∈ s.keys := by
  classical
  simp only [Table.mem_keys_iff, Table.get?_erase_eq]
  by_cases h : k' = k <;> simp [h]

end KeySet

end Clearing
