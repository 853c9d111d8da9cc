import Mathlib.Data.List.Nodup
import Mathlib.Data.List.Basic

/-!
# Data.Table

Tables of rows with a primary key and a second unique key. The two uniqueness constraints are
fields, so a table that breaks one cannot be built: `insert?` refuses a row whose keys are taken,
and `modify` changes one row without touching its keys.

Lookups are determined by the rows (`find?_eq_some`, `findUnique?_eq_some`); `mem_insert`,
`mem_modify` and `mem_remove` say which rows each change leaves.
-/

namespace Data

/-- Rows with a primary key `key` and a second unique key `ukey`. -/
@[ext] structure Table (ρ κ μ : Type) (key : ρ → κ) (ukey : ρ → μ) where
  rows : List ρ
  key_nodup : (rows.map key).Nodup
  ukey_nodup : (rows.map ukey).Nodup

theorem find?_eq_some_of_nodup {ρ κ : Type} [DecidableEq κ] {f : ρ → κ} {l : List ρ} {k : κ} {r : ρ}
    (hn : (l.map f).Nodup) :
    l.find? (fun x => decide (f x = k)) = some r ↔ r ∈ l ∧ f r = k := by
  constructor
  · intro h
    exact ⟨List.mem_of_find?_eq_some h, by simpa using List.find?_some h⟩
  · rintro ⟨hr, rfl⟩
    obtain ⟨x, hx⟩ : ∃ x, l.find? (fun x => decide (f x = f r)) = some x := by
      apply Option.isSome_iff_exists.mp
      rw [List.find?_isSome]
      exact ⟨r, hr, by simp⟩
    have hf : f x = f r := by simpa using List.find?_some hx
    rw [hx, List.inj_on_of_nodup_map hn (List.mem_of_find?_eq_some hx) hr hf]

namespace Table

variable {ρ κ μ : Type} {key : ρ → κ} {ukey : ρ → μ}

def empty : Table ρ κ μ key ukey := ⟨[], by simp, by simp⟩

def HasKey (t : Table ρ κ μ key ukey) (k : κ) : Prop := ∃ r ∈ t.rows, key r = k

theorem key_inj (t : Table ρ κ μ key ukey) {r r' : ρ} (hr : r ∈ t.rows) (hr' : r' ∈ t.rows)
    (h : key r = key r') : r = r' :=
  List.inj_on_of_nodup_map t.key_nodup hr hr' h

theorem ukey_inj (t : Table ρ κ μ key ukey) {r r' : ρ} (hr : r ∈ t.rows) (hr' : r' ∈ t.rows)
    (h : ukey r = ukey r') : r = r' :=
  List.inj_on_of_nodup_map t.ukey_nodup hr hr' h

/-- The rows that `p` does not select. -/
def remove (t : Table ρ κ μ key ukey) (p : ρ → Bool) : Table ρ κ μ key ukey where
  rows := t.rows.filter fun r => !p r
  key_nodup := (List.filter_sublist.map key).nodup t.key_nodup
  ukey_nodup := (List.filter_sublist.map ukey).nodup t.ukey_nodup

theorem mem_remove {t : Table ρ κ μ key ukey} {p : ρ → Bool} {r : ρ} :
    r ∈ (t.remove p).rows ↔ r ∈ t.rows ∧ p r = false := by
  simp [remove]

section Primary

variable [DecidableEq κ]

instance (t : Table ρ κ μ key ukey) (k : κ) : Decidable (t.HasKey k) :=
  inferInstanceAs (Decidable (∃ r ∈ t.rows, key r = k))

def find? (t : Table ρ κ μ key ukey) (k : κ) : Option ρ := t.rows.find? fun r => decide (key r = k)

theorem find?_eq_some {t : Table ρ κ μ key ukey} {k : κ} {r : ρ} :
    t.find? k = some r ↔ r ∈ t.rows ∧ key r = k :=
  find?_eq_some_of_nodup t.key_nodup

theorem find?_eq_none {t : Table ρ κ μ key ukey} {k : κ} :
    t.find? k = none ↔ ∀ r ∈ t.rows, key r ≠ k := by
  simp [find?, List.find?_eq_none]

/-- Changes the row with primary key `k`, if there is one. -/
def modify (t : Table ρ κ μ key ukey) (k : κ) (f : ρ → ρ) (hkey : ∀ r, key (f r) = key r)
    (hukey : ∀ r, ukey (f r) = ukey r) : Table ρ κ μ key ukey where
  rows := t.rows.map fun r => if key r = k then f r else r
  key_nodup := by
    have h : (key ∘ fun r => if key r = k then f r else r) = key := by
      funext r
      simp only [Function.comp]
      split
      · exact hkey r
      · rfl
    rw [List.map_map, h]
    exact t.key_nodup
  ukey_nodup := by
    have h : (ukey ∘ fun r => if key r = k then f r else r) = ukey := by
      funext r
      simp only [Function.comp]
      split
      · exact hukey r
      · rfl
    rw [List.map_map, h]
    exact t.ukey_nodup

section Modify

variable {t : Table ρ κ μ key ukey} {k : κ} {f : ρ → ρ} {hkey : ∀ r, key (f r) = key r}
  {hukey : ∀ r, ukey (f r) = ukey r}

theorem mem_modify {x : ρ} :
    x ∈ (t.modify k f hkey hukey).rows ↔
      (x ∈ t.rows ∧ key x ≠ k) ∨ ∃ r ∈ t.rows, key r = k ∧ x = f r := by
  simp only [modify, List.mem_map]
  constructor
  · rintro ⟨r, hr, rfl⟩
    by_cases hk : key r = k
    · exact .inr ⟨r, hr, hk, by rw [if_pos hk]⟩
    · exact .inl ⟨by rwa [if_neg hk], by rwa [if_neg hk]⟩
  · rintro (⟨hx, hk⟩ | ⟨r, hr, hk, rfl⟩)
    · exact ⟨x, hx, if_neg hk⟩
    · exact ⟨r, hr, if_pos hk⟩

theorem hasKey_modify {k' : κ} : (t.modify k f hkey hukey).HasKey k' ↔ t.HasKey k' := by
  constructor
  · rintro ⟨x, hx, rfl⟩
    obtain ⟨hx, -⟩ | ⟨r, hr, -, rfl⟩ := mem_modify.mp hx
    · exact ⟨x, hx, rfl⟩
    · exact ⟨r, hr, (hkey r).symm⟩
  · rintro ⟨r, hr, rfl⟩
    by_cases hk : key r = k
    · exact ⟨f r, mem_modify.mpr (.inr ⟨r, hr, hk, rfl⟩), hkey r⟩
    · exact ⟨r, mem_modify.mpr (.inl ⟨hr, hk⟩), rfl⟩

theorem find?_modify_self : (t.modify k f hkey hukey).find? k = (t.find? k).map f := by
  cases h : t.find? k with
  | none =>
    rw [Option.map_none, find?_eq_none]
    rw [find?_eq_none] at h
    intro x hx hxk
    obtain ⟨hx, hne⟩ | ⟨r, hr, hk, -⟩ := mem_modify.mp hx
    · exact hne hxk
    · exact h r hr hk
  | some r =>
    obtain ⟨hr, hk⟩ := find?_eq_some.mp h
    rw [Option.map_some, find?_eq_some]
    exact ⟨mem_modify.mpr (.inr ⟨r, hr, hk, rfl⟩), by rw [hkey, hk]⟩

theorem find?_modify_ne {k' : κ} (hne : k' ≠ k) :
    (t.modify k f hkey hukey).find? k' = t.find? k' := by
  cases h : t.find? k' with
  | none =>
    rw [find?_eq_none] at h ⊢
    intro x hx hxk
    obtain ⟨hx, -⟩ | ⟨r, hr, hk, rfl⟩ := mem_modify.mp hx
    · exact h x hx hxk
    · exact hne (by rw [← hxk, hkey, hk])
  | some r =>
    obtain ⟨hr, hk⟩ := find?_eq_some.mp h
    rw [find?_eq_some]
    exact ⟨mem_modify.mpr (.inl ⟨hr, fun h' => hne (hk.symm.trans h')⟩), hk⟩

end Modify

end Primary

section Unique

variable [DecidableEq μ]

def findUnique? (t : Table ρ κ μ key ukey) (u : μ) : Option ρ :=
  t.rows.find? fun r => decide (ukey r = u)

theorem findUnique?_eq_some {t : Table ρ κ μ key ukey} {u : μ} {r : ρ} :
    t.findUnique? u = some r ↔ r ∈ t.rows ∧ ukey r = u :=
  find?_eq_some_of_nodup t.ukey_nodup

end Unique

section Insert

variable [DecidableEq κ] [DecidableEq μ]

/-- Adds a row, unless one of its keys is taken. -/
def insert? (t : Table ρ κ μ key ukey) (r : ρ) : Option (Table ρ κ μ key ukey) :=
  if h : ∀ x ∈ t.rows, key x ≠ key r ∧ ukey x ≠ ukey r then
    some {
      rows := t.rows ++ [r]
      key_nodup := by
        rw [List.map_append, List.map_singleton, ← List.concat_eq_append, List.nodup_concat]
        refine ⟨?_, t.key_nodup⟩
        rw [List.mem_map]
        rintro ⟨x, hx, hk⟩
        exact (h x hx).1 hk
      ukey_nodup := by
        rw [List.map_append, List.map_singleton, ← List.concat_eq_append, List.nodup_concat]
        refine ⟨?_, t.ukey_nodup⟩
        rw [List.mem_map]
        rintro ⟨x, hx, hk⟩
        exact (h x hx).2 hk }
  else none

theorem insert?_eq_some {t t' : Table ρ κ μ key ukey} {r : ρ} :
    t.insert? r = some t' ↔
      (∀ x ∈ t.rows, key x ≠ key r ∧ ukey x ≠ ukey r) ∧ t'.rows = t.rows ++ [r] := by
  unfold insert?
  split
  · rename_i h
    constructor
    · intro heq
      cases heq
      exact ⟨h, rfl⟩
    · rintro ⟨-, hrows⟩
      rw [Option.some.injEq]
      exact Table.ext hrows.symm
  · rename_i h
    constructor
    · intro heq
      cases heq
    · rintro ⟨hfree, -⟩
      exact absurd hfree h

theorem insert?_eq_none {t : Table ρ κ μ key ukey} {r : ρ} :
    t.insert? r = none ↔ ∃ x ∈ t.rows, key x = key r ∨ ukey x = ukey r := by
  unfold insert?
  split
  · rename_i h
    constructor
    · intro heq
      cases heq
    · rintro ⟨x, hx, hk | hu⟩
      · exact absurd hk (h x hx).1
      · exact absurd hu (h x hx).2
  · rename_i h
    simp only [true_iff]
    by_contra hne
    push Not at hne
    exact h fun x hx => hne x hx

theorem mem_insert {t t' : Table ρ κ μ key ukey} {r x : ρ} (h : t.insert? r = some t') :
    x ∈ t'.rows ↔ x ∈ t.rows ∨ x = r := by
  rw [(insert?_eq_some.mp h).2]
  simp

theorem hasKey_insert {t t' : Table ρ κ μ key ukey} {r : ρ} {k : κ} (h : t.insert? r = some t')
    (hk : t.HasKey k) : t'.HasKey k := by
  obtain ⟨x, hx, rfl⟩ := hk
  exact ⟨x, (mem_insert h).mpr (.inl hx), rfl⟩

end Insert

end Table

end Data
