import Mathlib.Data.List.Induction
import Mathlib.Data.List.Basic
import Mathlib.Data.Finmap

/-!
# Replaying edits of a keyed store from two lists

A keyed store is edited by `put k v` and `del k`. A recorder keeps the puts and the dels of a
sequence of edits in two lists, and the store later takes all puts before all dels (`Keyed.apply`).
`Keyed.replay` takes the same edits one at a time. Running the dels last means that a put that
follows a del of its key is lost (`Keyed.values_apply_of_deleted`), so the two agree exactly when
no key has lost a put that matters (`Keyed.Settled`, `Keyed.apply_eq_replay`).

A store may hold several values under one key: `put` rewrites the first of them, `del` removes it.
-/

namespace Lib

/-- A store with several values under a key. `Alike` says that two stores hold the same keys in the
same places. -/
structure Keyed (σ κ υ : Type*) where
  put : κ → υ → σ → σ
  del : κ → σ → σ
  values : κ → σ → List υ
  Alike : σ → σ → Prop
  values_put_self : ∀ k v s, values k (put k v s) = v :: (values k s).tail
  values_put_of_ne : ∀ j k v s, j ≠ k → values j (put k v s) = values j s
  values_del_self : ∀ k s, values k (del k s) = (values k s).tail
  values_del_of_ne : ∀ j k s, j ≠ k → values j (del k s) = values j s
  del_put_self : ∀ k v s, del k (put k v s) = del k s
  del_put_of_ne : ∀ j k v s, j ≠ k → del k (put j v s) = put j v (del k s)
  del_comm : ∀ j k s, del j (del k s) = del k (del j s)
  alike_refl : ∀ s, Alike s s
  alike_put : ∀ k v w s t, Alike s t → Alike (put k v s) (put k w t)
  alike_put_left : ∀ k v s t, values k s ≠ [] → Alike s t → Alike (put k v s) t
  alike_del : ∀ k s t, Alike s t → Alike (del k s) (del k t)
  alike_ext : ∀ s t, Alike s t → (∀ k, values k s = values k t) → s = t

/-- One edit. -/
inductive Edit (κ υ : Type*) where
  | put (k : κ) (v : υ)
  | del (k : κ)
  deriving DecidableEq, Repr

namespace Edit
variable {κ υ : Type*}

/-- The puts of a sequence of edits, as they are recorded. -/
def puts (es : List (Edit κ υ)) : List (κ × υ) :=
  es.filterMap fun e => match e with
    | put k v => some (k, v)
    | del _ => none

/-- The dels of a sequence of edits, as they are recorded. -/
def dels (es : List (Edit κ υ)) : List κ :=
  es.filterMap fun e => match e with
    | put _ _ => none
    | del k => some k

section
variable {es : List (Edit κ υ)} {k : κ} {v : υ}

@[simp] theorem puts_nil : puts ([] : List (Edit κ υ)) = [] := rfl

@[simp] theorem dels_nil : dels ([] : List (Edit κ υ)) = [] := rfl

@[simp] theorem puts_cons_put : puts (.put k v :: es) = (k, v) :: puts es := rfl

@[simp] theorem puts_cons_del : puts (.del k :: es) = puts es := rfl

@[simp] theorem dels_cons_put : dels (.put k v :: es) = dels es := rfl

@[simp] theorem dels_cons_del : dels (.del k :: es) = k :: dels es := rfl

@[simp] theorem puts_append (es es' : List (Edit κ υ)) : puts (es ++ es') = puts es ++ puts es' :=
  List.filterMap_append

@[simp] theorem dels_append (es es' : List (Edit κ υ)) : dels (es ++ es') = dels es ++ dels es' :=
  List.filterMap_append

@[simp] theorem puts_map_put (ps : List (κ × υ)) : puts (ps.map fun p => .put p.1 p.2) = ps := by
  simp [puts]

@[simp] theorem dels_map_put (ps : List (κ × υ)) : dels (ps.map fun p => .put p.1 p.2) = [] := by
  simp [dels]

@[simp] theorem puts_map_del (ks : List κ) : puts (ks.map fun k => (.del k : Edit κ υ)) = [] := by
  simp [puts]

@[simp] theorem dels_map_del (ks : List κ) : dels (ks.map fun k => (.del k : Edit κ υ)) = ks := by
  simp [dels]

@[simp] theorem puts_snoc_put : puts (es ++ [.put k v]) = puts es ++ [(k, v)] := by simp [puts]

@[simp] theorem puts_snoc_del : puts (es ++ [.del k]) = puts es := by simp [puts]

@[simp] theorem dels_snoc_put : dels (es ++ [.put k v]) = dels es := by simp [dels]

@[simp] theorem dels_snoc_del : dels (es ++ [.del k]) = dels es ++ [k] := by simp [dels]

end

variable [DecidableEq κ]

/-- The value of the last put of a key that no del of that key follows. -/
def pending (k : κ) (es : List (Edit κ υ)) : Option υ :=
  es.foldl (fun o e => match e with
    | put j v => if j = k then some v else o
    | del j => if j = k then none else o) none

/-- What the last edit of a key asks for: a value, or none at all. -/
def last (k : κ) (es : List (Edit κ υ)) : Option (Option υ) :=
  es.foldl (fun o e => match e with
    | put j v => if j = k then some (some v) else o
    | del j => if j = k then some none else o) none

/-- The puts that no del of their key follows. -/
def survivors (es : List (Edit κ υ)) : List (κ × υ) :=
  es.foldl (fun ps e => match e with
    | put k v => ps ++ [(k, v)]
    | del k => ps.filter fun p => p.1 ≠ k) []

variable {es : List (Edit κ υ)} {j k : κ} {v : υ}

@[simp] theorem survivors_snoc_put : survivors (es ++ [.put k v]) = survivors es ++ [(k, v)] := by
  simp [survivors]

@[simp] theorem survivors_snoc_del :
    survivors (es ++ [.del k]) = (survivors es).filter fun p => p.1 ≠ k := by
  simp [survivors]

@[simp] theorem pending_snoc_put :
    pending k (es ++ [.put j v]) = if j = k then some v else pending k es := by
  simp [pending]

@[simp] theorem pending_snoc_del :
    pending k (es ++ [.del j]) = if j = k then none else pending k es := by
  simp [pending]

@[simp] theorem last_snoc_put : last k (es ++ [.put j v]) = if j = k then some
    (some v) else last k es := by
  simp [last]

@[simp] theorem last_snoc_del : last k (es ++ [.del j]) = if j =
    k then some none else last k es := by
  simp [last]

/-- A surviving put leaves something pending. -/
theorem pending_of_survivor {p : κ × υ} (h : p ∈ survivors es) : pending p.1 es ≠ none := by
  induction es using List.reverseRec with
  | nil => cases h
  | append_singleton es e ih =>
      cases e with
      | put j v =>
          rw [survivors_snoc_put, List.mem_append, List.mem_singleton] at h
          rw [pending_snoc_put]
          split
          · simp
          · next hj =>
              rcases h with h | rfl
              · exact ih h
              · exact absurd rfl hj
      | del j =>
          rw [survivors_snoc_del, List.mem_filter] at h
          have hne : ¬ j = p.1 := fun heq => of_decide_eq_true h.2 heq.symm
          rw [pending_snoc_del, if_neg hne]
          exact ih h.1

/-- The puts of keys that are never deleted survive. -/
theorem survivors_filter (es : List (Edit κ υ)) : (survivors es).filter (fun p => p.1 ∉ dels es) =
    (puts es).filter fun p => p.1 ∉ dels es := by
  induction es using List.reverseRec with
  | nil => rfl
  | append_singleton es e ih =>
      cases e with
      | put j v =>
          rw [survivors_snoc_put, puts_snoc_put, dels_snoc_put, List.filter_append,
            List.filter_append, ih]
      | del j =>
          have hsplit : ∀ ps : List (κ × υ), (ps.filter fun p => p.1 ∉ dels es ++ [j]) =
              (ps.filter fun p => p.1 ∉ dels es).filter fun p => p.1 ≠ j := by
            intro ps
            rw [List.filter_filter]
            refine List.filter_congr fun p _ => ?_
            simp [and_comm]
          rw [survivors_snoc_del, puts_snoc_del, dels_snoc_del, hsplit, hsplit, ← ih,
            List.filter_filter, List.filter_filter, List.filter_filter]
          refine List.filter_congr fun p _ => ?_
          rw [Bool.and_comm, ← Bool.and_assoc, Bool.and_self]

/-- A key that is edited but has nothing pending was deleted last. -/
theorem last_eq_pending (h : last k es ≠ none) : last k es = some (pending k es) := by
  induction es using List.reverseRec with
  | nil => exact absurd rfl h
  | append_singleton es e ih =>
      cases e with
      | put j v =>
          rw [last_snoc_put] at h ⊢
          rw [pending_snoc_put]
          split
          · rfl
          · next hj => exact ih (by rwa [if_neg hj] at h)
      | del j =>
          rw [last_snoc_del] at h ⊢
          rw [pending_snoc_del]
          split
          · rfl
          · next hj => exact ih (by rwa [if_neg hj] at h)

/-- A deleted key, and one with something pending, is edited. -/
theorem last_ne_none (h : k ∈ dels es ∨ pending k es ≠ none) : last k es ≠ none := by
  induction es using List.reverseRec with
  | nil => simp [dels, pending] at h
  | append_singleton es e ih =>
      cases e with
      | put j v =>
          rw [last_snoc_put]
          rw [dels_snoc_put, pending_snoc_put] at h
          split
          · simp
          · next hj => exact ih (by rwa [if_neg hj] at h)
      | del j =>
          rw [last_snoc_del]
          rw [dels_snoc_del, pending_snoc_del, List.mem_append, List.mem_singleton] at h
          split
          · simp
          · next hj =>
              rw [if_neg hj] at h
              rcases h with (h | h) | h
              · exact ih (.inl h)
              · exact absurd h.symm hj
              · exact ih (.inr h)

/-- An edited key is deleted, or has something pending. -/
theorem of_last_ne_none (h : last k es ≠ none) : k ∈ dels es ∨ pending k es ≠ none := by
  induction es using List.reverseRec with
  | nil => exact absurd rfl h
  | append_singleton es e ih =>
      cases e with
      | put j v =>
          rw [last_snoc_put] at h
          rw [dels_snoc_put, pending_snoc_put]
          split
          · simp
          · next hj => exact ih (by rwa [if_neg hj] at h)
      | del j =>
          rw [last_snoc_del] at h
          rw [dels_snoc_del, pending_snoc_del, List.mem_append, List.mem_singleton]
          split
          · next hj => exact .inl (.inr hj.symm)
          · next hj =>
              rcases ih (by rwa [if_neg hj] at h) with h | h
              · exact .inl (.inl h)
              · exact .inr h

end Edit

namespace Keyed
variable {σ κ υ : Type*} (K : Keyed σ κ υ)

/-- Performs one edit. -/
def run (s : σ) : Edit κ υ → σ
  | .put k v => K.put k v s
  | .del k => K.del k s

/-- The edits one at a time. -/
def replay (es : List (Edit κ υ)) (s : σ) : σ := es.foldl K.run s

/-- The recorded puts, then the recorded dels. -/
def apply (puts : List (κ × υ)) (dels : List κ) (s : σ) : σ :=
  dels.foldl (fun s k => K.del k s) (puts.foldl (fun s p => K.put p.1 p.2 s) s)

variable {K} {es : List (Edit κ υ)} {s t : σ} {k : κ} {v : υ}

@[simp] theorem replay_snoc {e : Edit κ υ} : K.replay (es ++ [e]) s = K.run (K.replay es s) e := by
  simp [replay]

@[simp] theorem replay_append {es' : List (Edit κ υ)} :
    K.replay (es ++ es') s = K.replay es' (K.replay es s) := by
  simp [replay]

@[simp] theorem apply_nil : K.apply [] [] s = s := rfl

/-- Puts alone. -/
theorem apply_puts (ps : List (κ × υ)) :
    K.apply ps [] s = K.replay (ps.map fun p => .put p.1 p.2) s := by
  rw [replay, List.foldl_map]
  rfl

/-- Dels alone. -/
theorem apply_dels (ks : List κ) :
    K.apply [] ks s = K.replay (ks.map fun k => (.del k : Edit κ υ)) s := by
  rw [replay, List.foldl_map]
  rfl

/-- A recorded del is the last thing done. -/
theorem apply_snoc_del {puts : List (κ × υ)} {dels : List κ} :
    K.apply puts (dels ++ [k]) s = K.del k (K.apply puts dels s) := by
  simp [apply]

variable [DecidableEq κ]

/-- A del moves in front of the puts and swallows those of its key. -/
theorem del_foldl_put (k : κ) (ps : List (κ × υ)) :
    K.del k (ps.foldl (fun s p => K.put p.1 p.2 s) s) =
    (ps.filter fun p => p.1 ≠ k).foldl (fun s p => K.put p.1 p.2 s) (K.del k s) := by
  induction ps generalizing s with
  | nil => rfl
  | cons p ps ih =>
      rw [List.foldl_cons, ih, List.filter_cons]
      by_cases hk : p.1 = k
      · rw [hk, K.del_put_self, if_neg (by simp)]
      · rw [K.del_put_of_ne _ _ _ _ hk, if_pos (by simpa using hk), List.foldl_cons]

/-- The recorded edits, with the dels moved to the front. -/
theorem apply_eq (ps : List (κ × υ)) (ks : List κ) : K.apply ps ks s =
    (ps.filter fun p => p.1 ∉ ks).foldl (fun s p => K.put p.1 p.2 s)
      (ks.foldl (fun s k => K.del k s) s) := by
  induction ks using List.reverseRec with
  | nil => simp [apply]
  | append_singleton ks k ih =>
      have hsplit : (ps.filter fun p => p.1 ∉ ks ++ [k]) =
          (ps.filter fun p => p.1 ∉ ks).filter fun p => p.1 ≠ k := by
        rw [List.filter_filter]
        refine List.filter_congr fun p _ => ?_
        simp [and_comm]
      rw [apply_snoc_del, ih, del_foldl_put, hsplit, List.foldl_append]
      rfl

/-- The edits one at a time, with the dels moved to the front. -/
theorem replay_eq (es : List (Edit κ υ)) : K.replay es s =
    (Edit.survivors es).foldl (fun s p => K.put p.1 p.2 s)
      ((Edit.dels es).foldl (fun s k => K.del k s) s) := by
  induction es using List.reverseRec with
  | nil => rfl
  | append_singleton es e ih =>
      rw [replay_snoc, ih]
      cases e with
      | put j v => rw [Edit.survivors_snoc_put, Edit.dels_snoc_put, List.foldl_append]; rfl
      | del j =>
          rw [Edit.survivors_snoc_del, Edit.dels_snoc_del, List.foldl_append]
          exact del_foldl_put j _

/-- What the edits one at a time leave under a key: the first values go with the dels, and a
pending put stands in front. -/
theorem values_replay (k : κ) : K.values k (K.replay es s) = match Edit.pending k es with
    | none => (K.values k s).drop ((Edit.dels es).count k)
    | some v => v :: ((K.values k s).drop ((Edit.dels es).count k)).tail := by
  induction es using List.reverseRec with
  | nil => rfl
  | append_singleton es e ih =>
      rw [replay_snoc]
      cases e with
      | put j v =>
          rw [run, Edit.pending_snoc_put, Edit.dels_snoc_put]
          by_cases hj : j = k
          · subst hj
            rw [K.values_put_self, ih, if_pos rfl]
            cases Edit.pending j es <;> rfl
          · rw [K.values_put_of_ne _ _ _ _ (Ne.symm hj), ih, if_neg hj]
      | del j =>
          rw [run, Edit.pending_snoc_del, Edit.dels_snoc_del, List.count_append]
          by_cases hj : j = k
          · subst hj
            rw [K.values_del_self, ih, if_pos rfl]
            have hone : [j].count j = 1 := by simp
            rw [hone, ← List.tail_drop]
            cases Edit.pending j es <;> rfl
          · rw [K.values_del_of_ne _ _ _ (Ne.symm hj), ih, if_neg hj]
            have hzero : [j].count k = 0 := by simp [hj]
            rw [hzero, Nat.add_zero]

/-- What a run of dels leaves under a key. -/
theorem values_foldl_del (k : κ) (ks : List κ) :
    K.values k (ks.foldl (fun s k => K.del k s) s) = (K.values k s).drop (ks.count k) := by
  induction ks generalizing s with
  | nil => rfl
  | cons j ks ih =>
      rw [List.foldl_cons, ih, List.count_cons]
      by_cases hj : j = k
      · subst hj
        rw [K.values_del_self, List.drop_tail]
        simp
      · rw [K.values_del_of_ne _ _ _ (Ne.symm hj)]
        simp [hj]

/-- A run of puts changes a key by the puts of that key only. -/
theorem values_foldl_put (hst : K.values k s = K.values k t) (ps : List (κ × υ)) :
    K.values k (ps.foldl (fun s p => K.put p.1 p.2 s) s) =
      K.values k ((ps.filter fun p => p.1 = k).foldl (fun s p => K.put p.1 p.2 s) t) := by
  induction ps generalizing s t with
  | nil => exact hst
  | cons p ps ih =>
      rw [List.foldl_cons, List.filter_cons]
      by_cases hk : p.1 = k
      · rw [if_pos (by simpa using hk), List.foldl_cons]
        refine ih ?_
        rw [hk, K.values_put_self, K.values_put_self, hst]
      · rw [if_neg (by simpa using hk)]
        refine ih ?_
        rw [K.values_put_of_ne _ _ _ _ (Ne.symm hk), hst]

/-- A recorded del runs after every put of its key, so nothing pending is left. -/
theorem values_apply_of_deleted (hdel : k ∈ Edit.dels es) :
    K.values k (K.apply (Edit.puts es) (Edit.dels es) s) =
      (K.values k s).drop ((Edit.dels es).count k) := by
  have hnone : ((Edit.puts es).filter fun p => p.1 ∉ Edit.dels es).filter (fun p => p.1 = k) =
    [] := by
    rw [List.filter_filter, List.filter_eq_nil_iff]
    intro p _ hp
    obtain ⟨hk, hkeep⟩ := (Bool.and_eq_true _ _).mp hp
    rw [of_decide_eq_true hk] at hkeep
    exact of_decide_eq_true hkeep hdel
  rw [apply_eq, values_foldl_put rfl, hnone]
  exact values_foldl_del k _

/-- A key with no recorded del is left as by the edits one at a time. -/
theorem values_apply_of_kept (hkeep : k ∉ Edit.dels es) :
    K.values k (K.apply (Edit.puts es) (Edit.dels es) s) = K.values k (K.replay es s) := by
  have hall : ∀ ps : List (κ × υ), (ps.filter fun p => p.1 ∉ Edit.dels es).filter
    (fun p => p.1 = k) = ps.filter fun p => p.1 = k := by
    intro ps
    rw [List.filter_filter]
    refine List.filter_congr fun p _ => ?_
    by_cases hk : p.1 = k <;> simp [hk, hkeep]
  rw [apply_eq, replay_eq, ← Edit.survivors_filter, values_foldl_put rfl, hall,
    ← values_foldl_put rfl]

/-- The key lost no put that matters: it has no del, or no put after its last del, or the values
the dels leave begin with what that put would have stored. -/
def Settled (K : Keyed σ κ υ) (es : List (Edit κ υ)) (s : σ) (k : κ) : Prop :=
  k ∉ Edit.dels es ∨ Edit.pending k es = none ∨
    (K.values k s)[(Edit.dels es).count k]? = Edit.pending k es

instance [DecidableEq υ] : Decidable (Settled K es s k) :=
  inferInstanceAs (Decidable (_ ∨ _ ∨ _))

/-- A key is settled exactly when both ways leave the same values under it. -/
theorem settled_iff_values (k : κ) : Settled K es s k ↔
    K.values k (K.apply (Edit.puts es) (Edit.dels es) s) = K.values k (K.replay es s) := by
  rw [Settled]
  by_cases hdel : k ∈ Edit.dels es
  · rw [values_apply_of_deleted hdel, values_replay]
    cases hp : Edit.pending k es with
    | none => simp
    | some v =>
        rw [← List.head?_drop]
        cases (K.values k s).drop ((Edit.dels es).count k) with
        | nil => simp [hdel]
        | cons w ws => simp [hdel]
  · simp [values_apply_of_kept hdel, hdel]

/-- Leaving out puts of keys that have values keeps the same keys in the same places. -/
theorem alike_foldl_put {q : κ × υ → Bool} {ps : List (κ × υ)} (hst : K.Alike s t)
    (hroom : ∀ p ∈ ps, q p = false → K.values p.1 s ≠ []) :
    K.Alike (ps.foldl (fun s p => K.put p.1 p.2 s) s)
      ((ps.filter q).foldl (fun s p => K.put p.1 p.2 s) t) := by
  induction ps generalizing s t with
  | nil => exact hst
  | cons p ps ih =>
      have hkeep : ∀ r ∈ ps, q r = false → K.values r.1 (K.put p.1 p.2 s) ≠ [] := by
        intro r hr hq
        by_cases hk : r.1 = p.1
        · rw [hk, K.values_put_self]
          simp
        · rw [K.values_put_of_ne _ _ _ _ hk]
          exact hroom r (List.mem_cons_of_mem _ hr) hq
      rw [List.foldl_cons, List.filter_cons]
      cases hq : q p with
      | true => exact ih (K.alike_put _ _ _ _ _ hst) hkeep
      | false => exact ih (K.alike_put_left _ _ _ _ (hroom p List.mem_cons_self hq) hst) hkeep

/-- Taking all puts before all dels is the same as the edits one at a time exactly when every key
is settled. -/
theorem apply_eq_replay : K.apply (Edit.puts es) (Edit.dels es) s = K.replay es s ↔
    ∀ k, Settled K es s k := by
  constructor
  · intro h k
    rw [settled_iff_values, h]
  · intro h
    refine (K.alike_ext _ _ ?_ fun k => ((settled_iff_values k).1 (h k)).symm).symm
    rw [replay_eq, apply_eq, ← Edit.survivors_filter]
    refine alike_foldl_put (K.alike_refl _) fun p hp hq => ?_
    -- a survivor of a deleted key finds a value of its own to overwrite
    have hpend := Edit.pending_of_survivor hp
    rcases h p.1 with hdel | hnone | hroom
    · simp [hdel] at hq
    · exact absurd hnone hpend
    · rw [values_foldl_del]
      intro hnil
      rw [← List.head?_drop, hnil] at hroom
      exact hpend hroom.symm

/-- A key with at most one value is settled exactly when its last edit decides it. -/
theorem settled_iff_last (hone : (K.values k s).length ≤ 1) : Settled K es s k ↔
    ∀ o, Edit.last k es = some o →
      K.values k (K.apply (Edit.puts es) (Edit.dels es) s) = o.toList := by
  by_cases hdel : k ∈ Edit.dels es
  · have hpos : 0 < (Edit.dels es).count k := List.count_pos_iff.2 hdel
    have hlen : (K.values k s).length ≤ (Edit.dels es).count k := by omega
    have hlast := Edit.last_eq_pending (Edit.last_ne_none (.inl hdel))
    rw [values_apply_of_deleted hdel, List.drop_eq_nil_of_le hlen, Settled,
      List.getElem?_eq_none hlen, hlast]
    cases Edit.pending k es <;> simp [hdel]
  · refine iff_of_true (.inl hdel) fun o ho => ?_
    have hne : Edit.last k es ≠ none := by rw [ho]; simp
    have hlast := Edit.last_eq_pending hne
    obtain ⟨v, hv⟩ := Option.ne_none_iff_exists'.1 ((Edit.of_last_ne_none hne).resolve_left hdel)
    have ho' : o = some v := Option.some.inj (ho.symm.trans (hlast.trans (congrArg some hv)))
    have htail : ((K.values k s).drop ((Edit.dels es).count k)).tail = [] := by
      rw [List.tail_drop]
      exact List.drop_eq_nil_of_le (by omega)
    rw [values_apply_of_kept hdel, values_replay, hv, ho', Option.toList_some]
    show v :: _ = [v]
    rw [htail]

end Keyed

/-! ## The two stores -/

section
variable {κ υ : Type*} [DecidableEq κ]

/-- Writes the first entry of the key, or appends one. -/
def upsert (k : κ) (v : υ) : List (κ × υ) → List (κ × υ)
  | [] => [(k, v)]
  | e :: l => if e.1 = k then (e.1, v) :: l else e :: upsert k v l

/-- Removes the first entry of the key, if there is one. -/
def eraseFirst (k : κ) (l : List (κ × υ)) : List (κ × υ) := l.eraseP fun e => e.1 = k

/-- The values of a key, in order. -/
def valuesOf (k : κ) (l : List (κ × υ)) : List υ := (l.filter fun e => e.1 = k).map Prod.snd

/-- The values of a list with one more entry in front. -/
theorem valuesOf_cons (k : κ) (e : κ × υ) (l : List (κ × υ)) :
    valuesOf k (e :: l) = if e.1 = k then e.2 :: valuesOf k l else valuesOf k l := by
  rw [valuesOf, List.filter_cons]
  by_cases h : e.1 = k <;> simp [h, valuesOf]

/-- A key has at most one value in a list of distinct keys. -/
theorem valuesOf_length_le {l : List (κ × υ)} (h : (l.map Prod.fst).Nodup) (k : κ) :
    (valuesOf k l).length ≤ 1 := by
  induction l with
  | nil => exact Nat.zero_le 1
  | cons e l ih =>
      rw [List.map_cons, List.nodup_cons] at h
      rw [valuesOf_cons]
      split
      · next hk =>
          have hnil : valuesOf k l = [] := by
            rw [valuesOf, List.map_eq_nil_iff, List.filter_eq_nil_iff]
            intro e' he' hk'
            exact h.1 (List.mem_map.2 ⟨e', he', (of_decide_eq_true hk').trans hk.symm⟩)
          rw [hnil]
          exact Nat.le_refl 1
      · exact ih h.2

/-- Removing from a list with one more entry in front. -/
theorem eraseFirst_cons (k : κ) (e : κ × υ) (l : List (κ × υ)) :
    eraseFirst k (e :: l) = if e.1 = k then l else e :: eraseFirst k l := by
  rw [eraseFirst, List.eraseP_cons]
  by_cases h : e.1 = k <;> simp [h, eraseFirst]

/-- Writing to a list with one more entry in front. -/
theorem upsert_cons (k : κ) (v : υ) (e : κ × υ) (l : List (κ × υ)) :
    upsert k v (e :: l) = if e.1 = k then (e.1, v) :: l else e :: upsert k v l := rfl

/-- An entry of the list was written now, or was there. -/
theorem mem_upsert {k : κ} {v : υ} {l : List (κ × υ)} {a : κ × υ} (h : a ∈ upsert k v l) :
    a = (k, v) ∨ a ∈ l := by
  induction l with
  | nil => exact .inl (List.mem_singleton.1 h)
  | cons e l ih =>
      rw [upsert_cons] at h
      split at h
      · next hk =>
          subst hk
          exact (List.mem_cons.1 h).imp id (List.mem_cons_of_mem _)
      · rcases List.mem_cons.1 h with rfl | h
        · exact .inr List.mem_cons_self
        · exact (ih h).imp id (List.mem_cons_of_mem _)

/-- Lists of entries, possibly with several entries of one key, edited at the first one. -/
def entries : Keyed (List (κ × υ)) κ υ where
  put := upsert
  del := eraseFirst
  values := valuesOf
  Alike l m := l.map Prod.fst = m.map Prod.fst
  values_put_self k v l := by
    induction l with
    | nil => simp [upsert, valuesOf]
    | cons e l ih => by_cases h : e.1 = k <;> simp [upsert_cons, valuesOf_cons, h, ih]
  values_put_of_ne j k v l hj := by
    induction l with
    | nil => simp [upsert, valuesOf, Ne.symm hj]
    | cons e l ih =>
        by_cases h : e.1 = k
        · simp [upsert_cons, valuesOf_cons, h, Ne.symm hj]
        · simp [upsert_cons, valuesOf_cons, h, ih]
  values_del_self k l := by
    induction l with
    | nil => rfl
    | cons e l ih => by_cases h : e.1 = k <;> simp [eraseFirst_cons, valuesOf_cons, h, ih]
  values_del_of_ne j k l hj := by
    induction l with
    | nil => rfl
    | cons e l ih =>
        by_cases h : e.1 = k
        · simp [eraseFirst_cons, valuesOf_cons, h, Ne.symm hj]
        · simp [eraseFirst_cons, valuesOf_cons, h, ih]
  del_put_self k v l := by
    induction l with
    | nil => simp [upsert, eraseFirst]
    | cons e l ih => by_cases h : e.1 = k <;> simp [upsert_cons, eraseFirst_cons, h, ih]
  del_put_of_ne j k v l hj := by
    induction l with
    | nil => simp [upsert, eraseFirst, hj]
    | cons e l ih =>
        by_cases hk : e.1 = k
        · simp [upsert_cons, eraseFirst_cons, hk, Ne.symm hj]
        · by_cases h : e.1 = j <;> simp [upsert_cons, eraseFirst_cons, hk, h, ih, hj]
  del_comm j k l := by
    by_cases hjk : j = k
    · rw [hjk]
    · refine List.eraseP_comm fun e _ => ?_
      by_cases h : e.1 = k
      · exact .inr (by simpa using fun he => hjk (he.symm.trans h))
      · exact .inl (by simpa using h)
  alike_refl _ := rfl
  alike_put k v w l m h := by
    induction l generalizing m with
    | nil =>
        cases m with
        | nil => rfl
        | cons _ _ => cases h
    | cons e l ih =>
        cases m with
        | nil => cases h
        | cons e' m =>
            rw [List.map_cons, List.map_cons, List.cons.injEq] at h
            rw [upsert_cons, upsert_cons, h.1]
            by_cases hk : e'.1 = k
            · simp [hk, h.2]
            · simp [hk, h.1, ih m h.2]
  alike_put_left k v l m hne h := by
    rw [← h]
    induction l generalizing m with
    | nil => exact absurd rfl hne
    | cons e l ih =>
        rw [upsert_cons]
        rw [valuesOf_cons] at hne
        by_cases hk : e.1 = k
        · simp [hk]
        · rw [if_neg hk] at hne ⊢
          simp [ih _ hne rfl]
  alike_del k l m h := by
    have hmap : ∀ l : List (κ × υ), (eraseFirst k l).map Prod.fst =
      (l.map Prod.fst).eraseP (· = k) := by
      intro l
      rw [eraseFirst, List.eraseP_map]
      rfl
    rw [hmap, hmap, h]
  alike_ext l m h hv := by
    induction l generalizing m with
    | nil => exact (List.map_eq_nil_iff.1 h.symm).symm
    | cons e l ih =>
        cases m with
        | nil => cases h
        | cons e' m =>
            rw [List.map_cons, List.map_cons, List.cons.injEq] at h
            obtain ⟨hfst, hrest⟩ := h
            have hhead := hv e.1
            rw [valuesOf_cons, valuesOf_cons, if_pos rfl, if_pos hfst.symm,
              List.cons.injEq] at hhead
            have htail : l = m := by
              refine ih m hrest fun k => ?_
              have hk := hv k
              rw [valuesOf_cons, valuesOf_cons, ← hfst] at hk
              split at hk
              · exact (List.cons.inj hk).2
              · exact hk
            rw [htail, Prod.ext hfst hhead.1]

/-- Ordered maps, with one value a key. -/
def finmap : Keyed (Finmap fun _ : κ => υ) κ υ where
  put k v s := s.insert k v
  del k s := s.erase k
  values k s := (s.lookup k).toList
  Alike _ _ := True
  values_put_self k v s := by
    rw [Finmap.lookup_insert]
    cases s.lookup k <;> rfl
  values_put_of_ne j k v s hj := by rw [Finmap.lookup_insert_of_ne _ hj]
  values_del_self k s := by
    rw [Finmap.lookup_erase]
    cases s.lookup k <;> rfl
  values_del_of_ne j k s hj := by rw [Finmap.lookup_erase_ne hj]
  del_put_self k v s := by
    refine Finmap.ext_lookup fun j => ?_
    by_cases hj : j = k
    · subst hj
      rw [Finmap.lookup_erase, Finmap.lookup_erase]
    · rw [Finmap.lookup_erase_ne hj, Finmap.lookup_erase_ne hj, Finmap.lookup_insert_of_ne _ hj]
  del_put_of_ne j k v s hj := by
    refine Finmap.ext_lookup fun i => ?_
    by_cases hi : i = k
    · subst hi
      rw [Finmap.lookup_erase, Finmap.lookup_insert_of_ne _ (Ne.symm hj), Finmap.lookup_erase]
    · by_cases hij : i = j
      · subst hij
        rw [Finmap.lookup_erase_ne hi, Finmap.lookup_insert, Finmap.lookup_insert]
      · rw [Finmap.lookup_erase_ne hi, Finmap.lookup_insert_of_ne _ hij,
          Finmap.lookup_insert_of_ne _ hij, Finmap.lookup_erase_ne hi]
  del_comm _ _ _ := Finmap.erase_erase
  alike_refl _ := trivial
  alike_put _ _ _ _ _ _ := trivial
  alike_put_left _ _ _ _ _ _ := trivial
  alike_del _ _ _ _ := trivial
  alike_ext s t _ hv := by
    refine Finmap.ext_lookup fun k => ?_
    have hk := congrArg List.head? (hv k)
    rwa [Option.head?_toList, Option.head?_toList] at hk

end

end Lib
