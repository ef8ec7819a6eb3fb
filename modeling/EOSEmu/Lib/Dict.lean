import Mathlib.Data.List.Basic
import Mathlib.Data.List.Nodup
import Mathlib.Data.List.Perm.Subperm
import Mathlib.Data.List.TakeWhile

/-!
# Finite maps as association lists

`Dict κ ν` is a hash map: an association list with distinct keys, whose list order is the
iteration order. The order of a hash map is unspecified, so `Dict.toFront` moves an entry to the
front without changing what any lookup answers; a program that may iterate in any order is one
that may also take such steps. `SeqMap ν` is an ordered map keyed by natural numbers, whose list
is strictly ascending. Both answer lookups by `List.lookup`, and every operation has the lemma
that says how it changes the answers.
-/

namespace Lib

section Lookup
variable {κ ν σ : Type*}

/-! ## Lookups in a list of entries -/

/-- A lookup tests the first entry. -/
theorem lookup_cons_ite [DecidableEq κ] (k k' : κ) (v : ν) (l : List (κ × ν)) :
    ((k', v) :: l).lookup k = if k = k' then some v else l.lookup k := by
  rw [List.lookup_cons]
  by_cases h : k = k'
  · simp [h]
  · rw [beq_eq_false_iff_ne.2 h, if_neg h]

/-- A key that is not in the list has no entry. -/
theorem lookup_eq_none [BEq κ] [LawfulBEq κ] {l : List (κ × ν)} {k : κ} :
    l.lookup k = none ↔ k ∉ l.map Prod.fst := by
  rw [List.lookup_eq_none_iff, List.mem_map]
  constructor
  · rintro h ⟨e, he, rfl⟩
    simpa using h e he
  · intro h e he
    exact bne_iff_ne.2 fun hk => h ⟨e, he, hk.symm⟩

/-- A lookup in a list whose values are mapped. -/
theorem lookup_map_value [BEq κ] {μ : Type*} (f : ν → μ) (l : List (κ × ν)) (k : κ) :
    (l.map fun e => (e.1, f e.2)).lookup k = (l.lookup k).map f := by
  induction l with
  | nil => rfl
  | cons e l ih =>
      obtain ⟨k', v'⟩ := e
      rw [List.map_cons, List.lookup_cons, List.lookup_cons, ih]
      cases k == k' <;> rfl

/-- With distinct keys, an entry of the list is exactly what the lookup of its key answers. -/
theorem mem_iff_lookup [BEq κ] [LawfulBEq κ] {l : List (κ × ν)} (hnd : (l.map Prod.fst).Nodup)
    {k : κ} {v : ν} : (k, v) ∈ l ↔ l.lookup k = some v := by
  induction l with
  | nil => simp
  | cons e l ih =>
      obtain ⟨k', v'⟩ := e
      rw [List.map_cons, List.nodup_cons] at hnd
      rw [List.mem_cons, List.lookup_cons]
      by_cases hk : k = k'
      · subst hk
        have hno : (k, v) ∉ l := fun hm => hnd.1 (List.mem_map.2 ⟨_, hm, rfl⟩)
        simp [hno, eq_comm]
      · rw [beq_false_of_ne hk, ← ih hnd.2]
        simp [hk]

/-- Two lists with distinct keys hold the same values up to `g` at every key iff they are equally
long and every entry of the first finds its like in the second. -/
theorem lookup_map_eq_iff [BEq κ] [LawfulBEq κ] {μ : Type*} {g : ν → μ} {a b : List (κ × ν)}
    (ha : (a.map Prod.fst).Nodup) (hb : (b.map Prod.fst).Nodup) :
    (a.length = b.length ∧ ∀ e ∈ a, ∃ v, b.lookup e.1 = some v ∧ g e.2 = g v) ↔
      ∀ k, (a.lookup k).map g = (b.lookup k).map g := by
  constructor
  · rintro ⟨hlen, hall⟩ k
    have hsub : a.map Prod.fst ⊆ b.map Prod.fst := by
      intro j hj
      obtain ⟨e, he, rfl⟩ := List.mem_map.1 hj
      obtain ⟨v, hv, _⟩ := hall e he
      exact List.mem_map.2 ⟨_, (mem_iff_lookup hb).2 hv, rfl⟩
    -- equally many distinct keys, so the keys are the same
    have hperm : (a.map Prod.fst).Perm (b.map Prod.fst) :=
      (ha.subperm hsub).perm_of_length_le (by rw [List.length_map, List.length_map, hlen])
    cases hk : a.lookup k with
    | none =>
        have hno := lookup_eq_none.1 hk
        rw [hperm.mem_iff] at hno
        rw [lookup_eq_none.2 hno]
    | some v =>
        obtain ⟨w, hw, hg⟩ := hall (k, v) ((mem_iff_lookup ha).2 hk)
        rw [hw, Option.map_some, Option.map_some, hg]
  · intro hmaps
    have hkeys : ∀ k, k ∈ a.map Prod.fst ↔ k ∈ b.map Prod.fst := by
      intro k
      rw [← not_iff_not, ← lookup_eq_none, ← lookup_eq_none]
      have hk := hmaps k
      cases h : a.lookup k <;> cases h' : b.lookup k <;> simp_all
    have hperm : (a.map Prod.fst).Perm (b.map Prod.fst) :=
      (List.perm_ext_iff_of_nodup ha hb).2 hkeys
    refine ⟨by simpa using hperm.length_eq, fun e he => ?_⟩
    have hk := hmaps e.1
    rw [(mem_iff_lookup ha).1 he, Option.map_some] at hk
    obtain ⟨v, hv, hg⟩ := Option.map_eq_some_iff.1 hk.symm
    exact ⟨v, hv, hg.symm⟩

/-- A search through all entries that only one key can answer is a lookup of that key. -/
theorem findSome?_key [DecidableEq κ] {τ : Type*} {l : List (κ × ν)}
    (hnd : (l.map Prod.fst).Nodup) {k : κ} {g : κ → ν → Option τ}
    (hother : ∀ j v, (j, v) ∈ l → j ≠ k → g j v = none) :
    l.findSome? (fun e => g e.1 e.2) = (l.lookup k).bind (g k) := by
  induction l with
  | nil => rfl
  | cons e l ih =>
      obtain ⟨j, v⟩ := e
      rw [List.map_cons, List.nodup_cons] at hnd
      have hrest := ih hnd.2 fun i w hm => hother i w (List.mem_cons_of_mem _ hm)
      rw [List.findSome?_cons, lookup_cons_ite]
      by_cases hk : k = j
      · subst hk
        have hnone : l.lookup k = none := lookup_eq_none.2 hnd.1
        rw [if_pos rfl, hrest, hnone]
        cases hg : g k v <;> simp [hg]
      · rw [if_neg hk, hother j v List.mem_cons_self (Ne.symm hk), hrest]

/-- A filter on the keys answers the lookups of the keys it keeps, and no others. -/
theorem lookup_filter_key [DecidableEq κ] (p : κ → Bool) (l : List (κ × ν)) (k : κ) :
    (l.filter fun e => p e.1).lookup k = if p k then l.lookup k else none := by
  induction l with
  | nil => simp
  | cons e l ih =>
      obtain ⟨k', v'⟩ := e
      rw [List.filter_cons, lookup_cons_ite]
      by_cases hk : k = k'
      · subst hk
        by_cases hp : p k <;> simp [hp, ih]
      · by_cases hp : p k' <;> simp [hp, hk, ih, lookup_cons_ite]

/-- A filter on whole entries, over distinct keys: an entry is found when it was found and
passes. -/
theorem lookup_filter [DecidableEq κ] {l : List (κ × ν)} (hnd : (l.map Prod.fst).Nodup)
    (p : κ → ν → Bool) (k : κ) :
    (l.filter fun e => p e.1 e.2).lookup k = (l.lookup k).filter (p k) := by
  have hnd' : ((l.filter fun e => p e.1 e.2).map Prod.fst).Nodup :=
    hnd.sublist (List.filter_sublist.map _)
  ext v
  rw [← mem_iff_lookup hnd', List.mem_filter, mem_iff_lookup hnd, Option.filter_eq_some_iff]

/-- With distinct keys, the entries of one key are what its lookup answers. -/
theorem filter_key [DecidableEq κ] {l : List (κ × ν)} (hnd : (l.map Prod.fst).Nodup) (k : κ) :
    l.filter (fun e => e.1 = k) = (l.lookup k).toList.map fun v => (k, v) := by
  induction l with
  | nil => rfl
  | cons e l ih =>
      obtain ⟨k', v'⟩ := e
      rw [List.map_cons, List.nodup_cons] at hnd
      rw [List.filter_cons, lookup_cons_ite]
      by_cases hk : k = k'
      · subst hk
        have hrest : l.filter (fun e => e.1 = k) = [] := by
          rw [List.filter_eq_nil_iff]
          intro e he hek
          exact hnd.1 (List.mem_map.2 ⟨e, he, of_decide_eq_true hek⟩)
        simp [hrest]
      · simp [hk, Ne.symm hk, ih hnd.2]

/-! ## One pass over the entries with an accumulator -/

/-- Rewrites every value in iteration order, threading an accumulator: a loop over a map that
updates its values in place. -/
def mapAccum (f : σ → κ → ν → σ × ν) : σ → List (κ × ν) → σ × List (κ × ν)
  | s, [] => (s, [])
  | s, (k, v) :: l =>
      let r := f s k v
      let rest := mapAccum f r.1 l
      (rest.1, (k, r.2) :: rest.2)

/-- The pass keeps the keys, in order. -/
theorem mapAccum_keys (f : σ → κ → ν → σ × ν) (s : σ) (l : List (κ × ν)) :
    (mapAccum f s l).2.map Prod.fst = l.map Prod.fst := by
  induction l generalizing s with
  | nil => rfl
  | cons e l ih => simp [mapAccum, ih]

/-- What the pass leaves at a key: nothing where there was nothing, otherwise the old value
rewritten at some accumulator. -/
theorem lookup_mapAccum [DecidableEq κ] (f : σ → κ → ν → σ × ν) (s : σ) (l : List (κ × ν)) (k : κ) :
    ((mapAccum f s l).2.lookup k = none ∧ l.lookup k = none) ∨
    ∃ s' v, l.lookup k = some v ∧ (mapAccum f s l).2.lookup k = some (f s' k v).2 := by
  induction l generalizing s with
  | nil => exact .inl ⟨rfl, rfl⟩
  | cons e l ih =>
      obtain ⟨k', v'⟩ := e
      by_cases hk : k = k'
      · subst hk
        exact .inr ⟨s, v', by simp, by simp [mapAccum]⟩
      · simpa only [mapAccum, lookup_cons_ite, if_neg hk] using ih (f s k' v').1

/-- A pass seen from one key: where the accumulator's part `g` is only touched by the rewriting of
that key, the pass is that rewriting. -/
theorem mapAccum_at [DecidableEq κ] {τ : Type*} {f : σ → κ → ν → σ × ν} {g : σ → τ} {k : κ}
    (hother : ∀ s j v, j ≠ k → g (f s j v).1 = g s) (s : σ) {l : List (κ × ν)}
    (hnd : (l.map Prod.fst).Nodup) :
    (l.lookup k = none ∧ (mapAccum f s l).2.lookup k = none ∧ g (mapAccum f s l).1 = g s) ∨
    ∃ s' v, l.lookup k = some v ∧ (mapAccum f s l).2.lookup k = some (f s' k v).2 ∧
      g s' = g s ∧ g (mapAccum f s l).1 = g (f s' k v).1 := by
  induction l generalizing s with
  | nil => exact .inl ⟨rfl, rfl, rfl⟩
  | cons e l ih =>
      obtain ⟨j, v⟩ := e
      rw [List.map_cons, List.nodup_cons] at hnd
      have hrest := ih (f s j v).1 hnd.2
      by_cases hk : k = j
      · subst hk
        have hnone : l.lookup k = none := lookup_eq_none.2 hnd.1
        rcases hrest with ⟨_, _, hg⟩ | ⟨_, w, hw, _⟩
        · exact .inr ⟨s, v, by simp, by simp [mapAccum], rfl, hg⟩
        · rw [hnone] at hw; cases hw
      · have hj : g (f s j v).1 = g s := hother s j v (Ne.symm hk)
        simp only [mapAccum, lookup_cons_ite, if_neg hk]
        rwa [hj] at hrest

/-- The pass stores what one rewriting makes of the old value, and the accumulator then only moves
on along a relation that every rewriting follows. -/
theorem lookup_mapAccum_le [DecidableEq κ] {f : σ → κ → ν → σ × ν} {R : σ → σ → Prop}
    (hrefl : ∀ s, R s s) (htrans : ∀ s t u, R s t → R t u → R s u)
    (hstep : ∀ s k v, R s (f s k v).1) (s : σ) (l : List (κ × ν)) :
    R s (mapAccum f s l).1 ∧ ∀ k v', (mapAccum f s l).2.lookup k = some v' →
      ∃ s' v, l.lookup k = some v ∧ v' = (f s' k v).2 ∧ R (f s' k v).1 (mapAccum f s l).1 := by
  induction l generalizing s with
  | nil => exact ⟨hrefl s, fun _ _ h => nomatch h⟩
  | cons e l ih =>
      obtain ⟨j, v⟩ := e
      obtain ⟨hrest, hall⟩ := ih (f s j v).1
      refine ⟨htrans _ _ _ (hstep s j v) hrest, fun k v' h => ?_⟩
      simp only [mapAccum, lookup_cons_ite] at h ⊢
      by_cases hk : k = j
      · subst hk
        rw [if_pos rfl] at h ⊢
        exact ⟨s, v, rfl, (Option.some.inj h).symm, hrest⟩
      · rw [if_neg hk] at h ⊢
        exact hall k v' h

/-- A pass that rewrites the values with `p` and collects what it made of them. -/
theorem mapAccum_collect {p : ν → Bool} {g : ν → ν} (out : List ν) (l : List (κ × ν)) :
    (mapAccum (fun (out : List ν) _ v => if p v then (out ++ [g v], g v) else (out, v)) out l).1 =
      out ++ (l.filter fun e => p e.2).map fun e => g e.2 := by
  induction l generalizing out with
  | nil => simp [mapAccum]
  | cons e l ih =>
      simp only [mapAccum, ih]
      cases hp : p e.2 <;> simp [hp]

/-- A property of the accumulator that every single rewriting keeps holds after the pass. -/
theorem mapAccum_inv {f : σ → κ → ν → σ × ν} {P : σ → Prop} {l : List (κ × ν)}
    (hstep : ∀ s k v, (k, v) ∈ l → P s → P (f s k v).1) {s : σ} (hs : P s) :
    P (mapAccum f s l).1 := by
  induction l generalizing s with
  | nil => exact hs
  | cons e l ih =>
      obtain ⟨k, v⟩ := e
      exact ih (fun s k v hm => hstep s k v (List.mem_cons_of_mem _ hm))
        (hstep s k v List.mem_cons_self hs)

end Lookup

/-! ## Hash maps -/

/-- A hash map: distinct keys, in the order an iteration visits them. -/
structure Dict (κ ν : Type*) where
  entries : List (κ × ν)
  nodup : (entries.map Prod.fst).Nodup

namespace Dict
variable {κ ν σ : Type*}

/-- The empty map. -/
def empty : Dict κ ν := ⟨[], by simp⟩

instance : Inhabited (Dict κ ν) := ⟨empty⟩

section
variable [DecidableEq κ]

/-- The value at a key. -/
def get? (d : Dict κ ν) (k : κ) : Option ν := d.entries.lookup k

/-- Whether the key has a value. -/
def contains (d : Dict κ ν) (k : κ) : Bool := (d.get? k).isSome

/-- Removes a key. -/
def erase (d : Dict κ ν) (k : κ) : Dict κ ν :=
  ⟨d.entries.filter fun e => e.1 ≠ k, d.nodup.sublist (List.filter_sublist.map _)⟩

/-- Stores a value at a key: in place of the old one, or as a new entry. -/
def set (d : Dict κ ν) (k : κ) (v : ν) : Dict κ ν :=
  if h : k ∈ d.entries.map Prod.fst then
    ⟨d.entries.map fun e => (e.1, if e.1 = k then v else e.2), by
      rw [List.map_map]
      exact d.nodup⟩
  else ⟨(k, v) :: d.entries, List.nodup_cons.2 ⟨h, d.nodup⟩⟩

/-- Moves a key's entry to the front of the iteration order. -/
def toFront (d : Dict κ ν) (k : κ) : Dict κ ν :=
  match d.get? k with
  | some v => (d.erase k).set k v
  | none => d

end

/-- Removes every entry that satisfies `p`. -/
def eraseIf (d : Dict κ ν) (p : κ → ν → Bool) : Dict κ ν :=
  ⟨d.entries.filter fun e => !p e.1 e.2, d.nodup.sublist (List.filter_sublist.map _)⟩

/-- One pass over the entries that rewrites the values and threads an accumulator. -/
def mapAccum (d : Dict κ ν) (f : σ → κ → ν → σ × ν) (s : σ) : σ × Dict κ ν :=
  let r := Lib.mapAccum f s d.entries
  (r.1, ⟨r.2, by rw [mapAccum_keys]; exact d.nodup⟩)

variable [DecidableEq κ]

@[simp] theorem get?_empty (k : κ) : (empty : Dict κ ν).get? k = none := rfl

/-- The entries are exactly the answered keys. -/
theorem mem_entries {d : Dict κ ν} {k : κ} {v : ν} : (k, v) ∈ d.entries ↔ d.get? k = some v :=
  mem_iff_lookup d.nodup

/-- Maps whose entries are the same up to `f` answer the same up to `f`. -/
theorem get?_congr {μ : Type*} {f : ν → μ} {d d' : Dict κ ν}
    (h : d.entries.map (fun e => (e.1, f e.2)) = d'.entries.map fun e => (e.1, f e.2)) (k : κ) :
    (d.get? k).map f = (d'.get? k).map f := by
  rw [get?, get?, ← lookup_map_value, ← lookup_map_value, h]

/-- The entries of one key. -/
theorem filter_key (d : Dict κ ν) (k : κ) :
    d.entries.filter (fun e => e.1 = k) = (d.get? k).toList.map fun v => (k, v) :=
  Lib.filter_key d.nodup k

/-- Removing a key changes that key's answer only. -/
@[simp] theorem get?_erase (d : Dict κ ν) (k j : κ) :
    (d.erase k).get? j = if j = k then none else d.get? j := by
  have h := lookup_filter_key (fun x => decide (x ≠ k)) d.entries j
  simpa [get?, erase, ite_not] using h

/-- A search through all entries that only one key can answer is a lookup of that key. -/
theorem findSome?_entries {τ : Type*} {d : Dict κ ν} {k : κ} {g : κ → ν → Option τ}
    (hother : ∀ j v, d.get? j = some v → j ≠ k → g j v = none) :
    d.entries.findSome? (fun e => g e.1 e.2) = (d.get? k).bind (g k) :=
  findSome?_key d.nodup fun j v hm => hother j v (mem_entries.1 hm)

/-- A key with no entry has no answer. -/
theorem get?_eq_none {d : Dict κ ν} {k : κ} : d.get? k = none ↔ k ∉ d.entries.map Prod.fst := by
  constructor
  · intro h hm
    obtain ⟨⟨j, v⟩, he, rfl⟩ := List.mem_map.1 hm
    rw [mem_entries.1 he] at h
    cases h
  · intro h
    cases hg : d.get? k with
    | none => rfl
    | some v => exact absurd (List.mem_map.2 ⟨_, mem_entries.2 hg, rfl⟩) h

/-- Storing at a key changes that key's answer only. -/
@[simp] theorem get?_set (d : Dict κ ν) (k j : κ) (v : ν) :
    (d.set k v).get? j = if j = k then some v else d.get? j := by
  unfold set
  split
  · next h =>
      have hmap : ∀ l : List (κ × ν), (l.map fun e => (e.1, if e.1 = k then v else e.2)).lookup j =
          if j = k then (l.lookup j).map fun _ => v else l.lookup j := by
        intro l
        induction l with
        | nil => simp
        | cons e l ih =>
            rw [List.map_cons, lookup_cons_ite, lookup_cons_ite, ih]
            by_cases hj : j = e.1
            · subst hj; by_cases hk : e.1 = k <;> simp [hk]
            · simp [hj]
      have hj := hmap d.entries
      unfold get?
      rw [hj]
      split
      · next hjk =>
          cases hg : d.get? j with
          | none => rw [get?_eq_none, hjk] at hg; exact absurd h hg
          | some w => rw [get?] at hg; rw [hg]; rfl
      · rfl
  · next h => exact lookup_cons_ite j k v d.entries

/-- The iteration order does not change the answers. -/
@[simp] theorem get?_toFront (d : Dict κ ν) (k j : κ) : (d.toFront k).get? j = d.get? j := by
  unfold toFront
  split
  · next v hv =>
      rw [get?_set, get?_erase]
      split
      · next hj => rw [hj, hv]
      · rfl
  · rfl

/-- A filtered map answers with the surviving entries. -/
@[simp] theorem get?_eraseIf (d : Dict κ ν) (p : κ → ν → Bool) (k : κ) :
    (d.eraseIf p).get? k = (d.get? k).filter fun v => !p k v :=
  lookup_filter d.nodup (fun k v => !p k v) k

/-- A map filtered on its keys. -/
theorem get?_eraseIf_key (d : Dict κ ν) (p : κ → Bool) (k : κ) :
    (d.eraseIf fun k _ => p k).get? k = if p k then none else d.get? k := by
  have h := lookup_filter_key (fun x => !p x) d.entries k
  show (d.entries.filter fun e => !p e.1).lookup k = _
  rw [h, get?]
  cases p k <;> rfl

/-- What a pass leaves at a key. -/
theorem get?_mapAccum (d : Dict κ ν) (f : σ → κ → ν → σ × ν) (s : σ) (k : κ) :
    ((d.mapAccum f s).2.get? k = none ∧ d.get? k = none) ∨
    ∃ s' v, d.get? k = some v ∧ (d.mapAccum f s).2.get? k = some (f s' k v).2 :=
  lookup_mapAccum f s d.entries k

/-- A pass seen from one key. -/
theorem mapAccum_at {τ : Type*} {f : σ → κ → ν → σ × ν} {g : σ → τ} {k : κ}
    (hother : ∀ s j v, j ≠ k → g (f s j v).1 = g s) (d : Dict κ ν) (s : σ) :
    (d.get? k = none ∧ (d.mapAccum f s).2.get? k = none ∧ g (d.mapAccum f s).1 = g s) ∨
    ∃ s' v, d.get? k = some v ∧ (d.mapAccum f s).2.get? k = some (f s' k v).2 ∧
      g s' = g s ∧ g (d.mapAccum f s).1 = g (f s' k v).1 :=
  Lib.mapAccum_at hother s d.nodup

/-- What a pass leaves at a key, with an accumulator that moves along a relation. -/
theorem mapAccum_le {f : σ → κ → ν → σ × ν} {R : σ → σ → Prop} (hrefl : ∀ s, R s s)
    (htrans : ∀ s t u, R s t → R t u → R s u) (hstep : ∀ s k v, R s (f s k v).1) (d : Dict κ ν)
    (s : σ) : R s (d.mapAccum f s).1 ∧ ∀ k v', (d.mapAccum f s).2.get? k = some v' →
      ∃ s' v, d.get? k = some v ∧ v' = (f s' k v).2 ∧ R (f s' k v).1 (d.mapAccum f s).1 :=
  lookup_mapAccum_le hrefl htrans hstep s d.entries

/-- The accumulator of a pass keeps what every single rewriting of an entry keeps. -/
theorem mapAccum_inv {d : Dict κ ν} {f : σ → κ → ν → σ × ν} {P : σ → Prop}
    (hstep : ∀ s k v, d.get? k = some v → P s → P (f s k v).1) {s : σ} (hs : P s) :
    P (d.mapAccum f s).1 :=
  Lib.mapAccum_inv (fun s k v hm => hstep s k v (mem_entries.1 hm)) hs

@[simp] theorem contains_iff {d : Dict κ ν} {k : κ} :
    d.contains k = true ↔ ∃ v, d.get? k = some v := by
  rw [contains, Option.isSome_iff_exists]

/-- Storing a value that agrees with the old one on `g` takes nothing from what the entries show
under `g`. -/
theorem map_set_sublist {μ : Type*} {g : ν → μ} {d : Dict κ ν} {k : κ} {v : ν}
    (h : ∀ w, d.get? k = some w → g w = g v) :
    (d.entries.map fun e => g e.2).Sublist ((d.set k v).entries.map fun e => g e.2) := by
  unfold set
  split
  · dsimp only
    rw [List.map_map]
    refine (List.map_congr_left fun e he => ?_ : List.map _ _ = List.map _ _) ▸ List.Sublist.refl _
    obtain ⟨j, w⟩ := e
    dsimp only [Function.comp_apply]
    split
    · next hj => exact (h w (mem_entries.1 (hj ▸ he))).symm
    · rfl
  · exact List.sublist_cons_self _ _

omit [DecidableEq κ] in
/-- A pass that keeps `g` of every value keeps what the entries show under `g`. -/
theorem map_mapAccum {μ : Type*} {g : ν → μ} {f : σ → κ → ν → σ × ν}
    (h : ∀ s k v, g (f s k v).2 = g v) (d : Dict κ ν) (s : σ) :
    ((d.mapAccum f s).2.entries.map fun e => g e.2) = d.entries.map fun e => g e.2 := by
  have hall : ∀ (l : List (κ × ν)) (s : σ), ((Lib.mapAccum f s l).2.map fun e => g e.2) =
    l.map fun e => g e.2 := by
    intro l
    induction l with
    | nil => exact fun _ => rfl
    | cons e l ih =>
        intro s
        rw [Lib.mapAccum, List.map_cons, List.map_cons, ih, h]
  exact hall d.entries s

end Dict

/-! ## Ordered maps on the natural numbers -/

/-- Inserts into an ascending list, replacing the value of an equal key. -/
def insertAsc {ν : Type*} (k : ℕ) (v : ν) : List (ℕ × ν) → List (ℕ × ν)
  | [] => [(k, v)]
  | (k', v') :: l =>
      if k < k' then (k, v) :: (k', v') :: l
      else if k = k' then (k, v) :: l
      else (k', v') :: insertAsc k v l

section
variable {ν : Type*}

/-- The keys of an insertion. -/
theorem mem_keys_insertAsc {k j : ℕ} {v : ν} {l : List (ℕ × ν)} :
    j ∈ (insertAsc k v l).map Prod.fst ↔ j = k ∨ j ∈ l.map Prod.fst := by
  induction l with
  | nil => simp [insertAsc]
  | cons e l ih =>
      obtain ⟨k', v'⟩ := e
      unfold insertAsc
      split
      · simp
      · split
        · next _ hk => subst hk; simp
        · rw [List.map_cons, List.mem_cons, ih, List.map_cons, List.mem_cons]
          tauto

/-- Insertion keeps the list ascending. -/
theorem insertAsc_sorted {k : ℕ} {v : ν} {l : List (ℕ × ν)}
    (h : (l.map Prod.fst).Pairwise (· < ·)) :
    ((insertAsc k v l).map Prod.fst).Pairwise (· < ·) := by
  induction l with
  | nil => simp [insertAsc]
  | cons e l ih =>
      obtain ⟨k', v'⟩ := e
      rw [List.map_cons, List.pairwise_cons] at h
      unfold insertAsc
      split
      · next hlt =>
          rw [List.map_cons, List.pairwise_cons]
          refine ⟨fun j hj => ?_, List.pairwise_cons.2 h⟩
          rcases List.mem_cons.1 hj with rfl | hj
          · exact hlt
          · exact Nat.lt_trans hlt (h.1 j hj)
      · split
        · next _ hk => subst hk; exact List.pairwise_cons.2 h
        · next hge hne =>
            rw [List.map_cons, List.pairwise_cons]
            refine ⟨fun j hj => ?_, ih h.2⟩
            rcases mem_keys_insertAsc.1 hj with rfl | hj
            · show k' < j; omega
            · exact h.1 j hj

/-- An insertion adds one entry at most. -/
theorem length_insertAsc_le (k : ℕ) (v : ν) (l : List (ℕ × ν)) :
    (insertAsc k v l).length ≤ l.length + 1 := by
  induction l with
  | nil => exact Nat.le_refl _
  | cons e l ih =>
      unfold insertAsc
      split
      · exact Nat.le_refl _
      · split
        · exact Nat.le_succ _
        · rw [List.length_cons, List.length_cons]
          omega

/-- Insertion answers the inserted key with the inserted value. -/
theorem lookup_insertAsc (k j : ℕ) (v : ν) (l : List (ℕ × ν))
    (h : (l.map Prod.fst).Pairwise (· < ·)) :
    (insertAsc k v l).lookup j = if j = k then some v else l.lookup j := by
  induction l with
  | nil => by_cases hj : j = k <;> simp [insertAsc, lookup_cons_ite, hj]
  | cons e l ih =>
      obtain ⟨k', v'⟩ := e
      rw [List.map_cons, List.pairwise_cons] at h
      unfold insertAsc
      split
      · by_cases hj : j = k <;> simp [lookup_cons_ite, hj]
      · split
        · next _ hk => subst hk; by_cases hj : j = k <;> simp [lookup_cons_ite, hj]
        · next hge hne =>
            rw [lookup_cons_ite, ih h.2, lookup_cons_ite]
            by_cases hj : j = k'
            · subst hj
              have : j ≠ k := by omega
              simp [this]
            · simp [hj]

/-- A list of strictly ascending keys has distinct keys. -/
theorem nodup_of_ascending {l : List (ℕ × ν)} (h : (l.map Prod.fst).Pairwise (· < ·)) :
    (l.map Prod.fst).Nodup :=
  h.imp fun hlt => Nat.ne_of_lt hlt

/-- On an ascending list, dropping the keys up to a bound from the front removes exactly
those. -/
theorem dropWhile_le_eq_filter {l : List (ℕ × ν)} (h : (l.map Prod.fst).Pairwise (· < ·)) (b : ℕ) :
    l.dropWhile (fun e => e.1 ≤ b) = l.filter fun e => b < e.1 := by
  induction l with
  | nil => rfl
  | cons e l ih =>
      rw [List.map_cons, List.pairwise_cons] at h
      rw [List.dropWhile_cons, List.filter_cons]
      by_cases he : e.1 ≤ b
      · simp [he, ih h.2]
      · have hall : ∀ x ∈ l, b < x.1 := fun x hx =>
          Nat.lt_trans (Nat.not_le.1 he) (h.1 _ (List.mem_map_of_mem hx))
        simp [he, Nat.not_le.1 he, List.filter_eq_self.2 (fun x hx => decide_eq_true (hall x hx))]

/-- In an ascending list the keys up to a bound are a front part. -/
theorem mem_takeWhile_of_le {l : List ℕ} (h : l.Pairwise (· < ·)) {k b : ℕ} (hk : k ∈ l)
    (hb : k ≤ b) : k ∈ l.takeWhile (· ≤ b) := by
  induction l with
  | nil => exact hk
  | cons j l ih =>
      rw [List.pairwise_cons] at h
      rw [List.takeWhile_cons]
      rcases List.mem_cons.1 hk with rfl | hk
      · simp [hb]
      · have hj : j ≤ b := Nat.le_trans (Nat.le_of_lt (h.1 k hk)) hb
        simp [hj, ih h.2 hk]

end

/-- An ordered map keyed by natural numbers: strictly ascending entries. -/
structure SeqMap (ν : Type*) where
  entries : List (ℕ × ν)
  sorted : (entries.map Prod.fst).Pairwise (· < ·)

namespace SeqMap
variable {ν σ : Type*}

/-- The empty map. -/
def empty : SeqMap ν := ⟨[], by simp⟩

instance : Inhabited (SeqMap ν) := ⟨empty⟩

/-- The value at a key. -/
def get? (m : SeqMap ν) (k : ℕ) : Option ν := m.entries.lookup k

/-- Whether the key has a value. -/
def contains (m : SeqMap ν) (k : ℕ) : Bool := (m.get? k).isSome

/-- Whether the map has no entry. -/
def isEmpty (m : SeqMap ν) : Bool := m.entries.isEmpty

/-- Stores a value at a key, replacing the old one. -/
def set (m : SeqMap ν) (k : ℕ) (v : ν) : SeqMap ν :=
  ⟨insertAsc k v m.entries, insertAsc_sorted m.sorted⟩

/-- Removes a key. -/
def erase (m : SeqMap ν) (k : ℕ) : SeqMap ν :=
  ⟨m.entries.filter fun e => e.1 ≠ k, m.sorted.sublist (List.filter_sublist.map _)⟩

/-- Removes entries from the front while their key is at most `b`. -/
def dropUpTo (m : SeqMap ν) (b : ℕ) : SeqMap ν :=
  ⟨m.entries.dropWhile fun e => e.1 ≤ b, m.sorted.sublist ((List.dropWhile_sublist _).map _)⟩

/-- One pass over the entries that rewrites the values and threads an accumulator. -/
def mapAccum (m : SeqMap ν) (f : σ → ℕ → ν → σ × ν) (s : σ) : σ × SeqMap ν :=
  let r := Lib.mapAccum f s m.entries
  (r.1, ⟨r.2, by rw [mapAccum_keys]; exact m.sorted⟩)

@[simp] theorem get?_empty (k : ℕ) : (empty : SeqMap ν).get? k = none := rfl

/-- The entries are exactly the answered keys. -/
theorem mem_entries {m : SeqMap ν} {k : ℕ} {v : ν} : (k, v) ∈ m.entries ↔ m.get? k = some v :=
  mem_iff_lookup (nodup_of_ascending m.sorted)

/-- Storing at a key changes that key's answer only. -/
@[simp] theorem get?_set (m : SeqMap ν) (k j : ℕ) (v : ν) :
    (m.set k v).get? j = if j = k then some v else m.get? j :=
  lookup_insertAsc k j v m.entries m.sorted

/-- Removing a key changes that key's answer only. -/
@[simp] theorem get?_erase (m : SeqMap ν) (k j : ℕ) :
    (m.erase k).get? j = if j = k then none else m.get? j := by
  have h := lookup_filter_key (fun x => decide (x ≠ k)) m.entries j
  simpa [get?, erase, ite_not] using h

/-- Dropping up to a bound removes exactly the keys up to it. -/
@[simp] theorem get?_dropUpTo (m : SeqMap ν) (b j : ℕ) :
    (m.dropUpTo b).get? j = if j ≤ b then none else m.get? j := by
  have h := lookup_filter_key (fun x => decide (b < x)) m.entries j
  show (m.entries.dropWhile fun e => decide (e.1 ≤ b)).lookup j = _
  rw [dropWhile_le_eq_filter m.sorted, h, get?]
  by_cases hj : j ≤ b
  · rw [if_pos hj, if_neg (by simpa using hj)]
  · rw [if_neg hj, if_pos (by simpa using hj)]

@[simp] theorem contains_iff {m : SeqMap ν} {k : ℕ} :
    m.contains k = true ↔ ∃ v, m.get? k = some v := by
  rw [contains, Option.isSome_iff_exists]

/-- Removing a present key makes the map smaller. -/
theorem erase_length_lt {m : SeqMap ν} {k : ℕ} {v : ν} (h : m.get? k = some v) :
    (m.erase k).entries.length < m.entries.length := by
  refine List.length_filter_lt_length_iff_exists.2 ⟨(k, v), mem_entries.2 h, by simp⟩

/-- Storing makes the map larger by one at most. -/
theorem length_set_le (m : SeqMap ν) (k : ℕ) (v : ν) :
    (m.set k v).entries.length ≤ m.entries.length + 1 :=
  length_insertAsc_le k v m.entries

/-- Where the map has all keys of a range up to the bound, dropping makes it smaller by the
range. -/
theorem length_dropUpTo_le {m : SeqMap ν} {b e e' : ℕ} (hb : e' ≤ b + 1)
    (hall : ∀ k, e ≤ k → k < e' → m.contains k = true) :
    (m.dropUpTo b).entries.length + (e' - e) ≤ m.entries.length := by
  have hdrop : (m.dropUpTo b).entries = m.entries.filter fun x => !decide (x.1 ≤ b) := by
    refine (dropWhile_le_eq_filter m.sorted b).trans (List.filter_congr fun x _ => ?_)
    simp only [← not_le, decide_not]
  have hsub : List.range' e (e' - e) ⊆ (m.entries.filter fun x => decide (x.1 ≤ b)).map
    Prod.fst := by
    intro k hk
    rw [List.mem_range'_1] at hk
    obtain ⟨v, hv⟩ := contains_iff.1 (hall k hk.1 (by omega))
    have hle : k ≤ b := by omega
    exact List.mem_map_of_mem (List.mem_filter.2 ⟨mem_entries.2 hv, decide_eq_true hle⟩)
  have hnodup : (List.range' e (e' - e)).Nodup := List.nodup_range'
  have hlength := (hnodup.subperm hsub).length_le
  have hsplit := m.entries.length_eq_length_filter_add fun x => decide (x.1 ≤ b)
  rw [List.length_range', List.length_map] at hlength
  rw [hdrop]
  omega

/-- What a pass leaves at a key. -/
theorem get?_mapAccum (m : SeqMap ν) (f : σ → ℕ → ν → σ × ν) (s : σ) (k : ℕ) :
    ((m.mapAccum f s).2.get? k = none ∧ m.get? k = none) ∨
    ∃ s' v, m.get? k = some v ∧ (m.mapAccum f s).2.get? k = some (f s' k v).2 :=
  lookup_mapAccum f s m.entries k

/-- What a pass leaves at a key, with an accumulator that moves along a relation. -/
theorem mapAccum_le {f : σ → ℕ → ν → σ × ν} {R : σ → σ → Prop} (hrefl : ∀ s, R s s)
    (htrans : ∀ s t u, R s t → R t u → R s u) (hstep : ∀ s k v, R s (f s k v).1) (m : SeqMap ν)
    (s : σ) : R s (m.mapAccum f s).1 ∧ ∀ k v', (m.mapAccum f s).2.get? k = some v' →
      ∃ s' v, m.get? k = some v ∧ v' = (f s' k v).2 ∧ R (f s' k v).1 (m.mapAccum f s).1 :=
  lookup_mapAccum_le hrefl htrans hstep s m.entries

/-- The accumulator of a pass keeps what every single rewriting of an entry keeps. -/
theorem mapAccum_inv {m : SeqMap ν} {f : σ → ℕ → ν → σ × ν} {P : σ → Prop}
    (hstep : ∀ s k v, m.get? k = some v → P s → P (f s k v).1) {s : σ} (hs : P s) :
    P (m.mapAccum f s).1 :=
  Lib.mapAccum_inv (fun s k v hm => hstep s k v (mem_entries.1 hm)) hs

end SeqMap

end Lib
