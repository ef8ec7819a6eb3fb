import Mathlib.Data.List.Basic

/-!
# A queue that numbers its entries

The history of a queue that elements enter at the back, and leave from anywhere: `take` takes the
first one that a filter wants, `discard` drops all that a filter matches. Every element keeps the
number under which it came in, so that `InOrder key` can say that the elements of one kind are
taken in the order they came in, none twice. A filter that looks at the kind only keeps that
(`InOrder.take`).
-/

namespace Lib

/-- A queue with its history: all that came in, what waits with its numbers, and what was taken. -/
structure Queue (α : Type*) where
  pushed : List α := []
  entries : List (ℕ × α) := []
  taken : List (ℕ × α) := []

namespace Queue
variable {α κ : Type*}

/-- An element enters at the back. -/
def push (q : Queue α) (x : α) : Queue α :=
  { q with pushed := q.pushed ++ [x], entries := q.entries ++ [(q.pushed.length, x)] }

/-- A list of elements enters. -/
def pushAll (q : Queue α) (l : List α) : Queue α := l.foldl push q

/-- The first element the filter wants leaves, and is recorded. -/
def take (q : Queue α) (wants : α → Bool) : Queue α :=
  match q.entries.find? fun e => wants e.2 with
  | none => q
  | some e => { q with entries := q.entries.eraseP fun e => wants e.2, taken := q.taken ++ [e] }

/-- The elements the filter matches are dropped. -/
def discard (q : Queue α) (gone : α → Bool) : Queue α :=
  { q with entries := q.entries.filter fun e => !gone e.2 }

/-- The elements that wait, in order. -/
def contents (q : Queue α) : List α := q.entries.map Prod.snd

/-- The elements that were taken, in order. -/
def served (q : Queue α) : List α := q.taken.map Prod.snd

@[simp] theorem contents_push (q : Queue α) (x : α) : (q.push x).contents = q.contents ++ [x] := by
  simp [contents, push]

@[simp] theorem contents_pushAll (q : Queue α) (l : List α) :
    (q.pushAll l).contents = q.contents ++ l := by
  induction l generalizing q with
  | nil => exact (List.append_nil _).symm
  | cons x l ih =>
      show ((q.push x).pushAll l).contents = _
      rw [ih, contents_push, List.append_assoc]
      rfl

@[simp] theorem pushed_pushAll (q : Queue α) (l : List α) :
    (q.pushAll l).pushed = q.pushed ++ l := by
  induction l generalizing q with
  | nil => exact (List.append_nil _).symm
  | cons x l ih =>
      show ((q.push x).pushAll l).pushed = _
      rw [ih]
      simp [push]

@[simp] theorem contents_discard (q : Queue α) (gone : α → Bool) :
    (q.discard gone).contents = q.contents.filter fun x => !gone x := by
  simp only [contents, discard, List.filter_map]
  rfl

/-- Taking an element leaves the others in order. -/
@[simp] theorem contents_take (q : Queue α) (wants : α → Bool) :
    (q.take wants).contents = q.contents.eraseP wants := by
  have hmap : ∀ l : List (ℕ × α), (l.eraseP fun e => wants e.2).map Prod.snd =
    (l.map Prod.snd).eraseP wants := by
    intro l
    induction l with
    | nil => rfl
    | cons e l ih =>
        rw [List.map_cons, List.eraseP_cons, List.eraseP_cons]
        cases h : wants e.2 with
        | true => rfl
        | false => simp [ih]
  unfold take
  split
  · next hnone =>
      refine (List.eraseP_of_forall_not fun x hx => ?_).symm
      obtain ⟨e, he, rfl⟩ := List.mem_map.1 hx
      simpa using List.find?_eq_none.1 hnone e he
  · exact hmap _

@[simp] theorem pushed_take (q : Queue α) (wants : α → Bool) :
    (q.take wants).pushed = q.pushed := by
  unfold take
  split <;> rfl

/-- What is taken is the first waiting element the filter wants. -/
theorem served_take (q : Queue α) (wants : α → Bool) :
    (q.take wants).served = q.served ++ (q.contents.find? wants).toList := by
  have hfind : q.contents.find? wants = (q.entries.find? fun e => wants e.2).map Prod.snd := by
    rw [contents, List.find?_map]
    rfl
  rw [hfind]
  unfold take
  split
  · next hnone => simp [hnone, served]
  · next e hsome => simp [hsome, served]

/-- Elements of one kind are taken in the order they came in, none twice. -/
structure InOrder (key : α → κ) (q : Queue α) : Prop where
  recorded : ∀ e ∈ q.entries ++ q.taken, q.pushed[e.1]? = some e.2
  waiting : q.entries.Pairwise fun d e => d.1 < e.1
  taken : q.taken.Pairwise fun d e => key d.2 = key e.2 → d.1 < e.1
  before : ∀ d ∈ q.taken, ∀ e ∈ q.entries, key d.2 = key e.2 → d.1 < e.1

namespace InOrder
variable {key : α → κ} {q : Queue α}

/-- An empty queue is in order. -/
theorem empty : InOrder key ({} : Queue α) := ⟨nofun, .nil, .nil, nofun⟩

/-- An entry's index is one of a pushed element. -/
theorem bound (h : q.InOrder key) {e : ℕ × α} (he : e ∈ q.entries ++ q.taken) :
    e.1 < q.pushed.length :=
  (List.getElem?_eq_some_iff.1 (h.recorded e he)).1

/-- A pushed element comes last. -/
theorem push (h : q.InOrder key) (x : α) : (q.push x).InOrder key where
  recorded e he := by
    have hold : e ∈ q.entries ++ q.taken → (q.pushed ++ [x])[e.1]? = some e.2 := by
      intro hm
      rw [List.getElem?_append_left (h.bound hm), h.recorded e hm]
    rcases List.mem_append.1 he with hw | ht
    · rcases List.mem_append.1 hw with hw | hnew
      · exact hold (List.mem_append_left _ hw)
      · obtain rfl := List.mem_singleton.1 hnew
        exact List.getElem?_concat_length
    · exact hold (List.mem_append_right _ ht)
  waiting := by
    refine List.pairwise_append.2 ⟨h.waiting, List.pairwise_singleton _ _, ?_⟩
    intro d hd e he
    obtain rfl := List.mem_singleton.1 he
    exact h.bound (List.mem_append_left _ hd)
  taken := h.taken
  before d hd e he hkey := by
    rcases List.mem_append.1 he with hw | hnew
    · exact h.before d hd e hw hkey
    · obtain rfl := List.mem_singleton.1 hnew
      exact h.bound (List.mem_append_right _ hd)

/-- So do several. -/
theorem pushAll (h : q.InOrder key) (l : List α) : (q.pushAll l).InOrder key := by
  induction l generalizing q with
  | nil => exact h
  | cons x l ih => exact ih (h.push x)

/-- Fewer elements wait. -/
theorem sublist (h : q.InOrder key) {l : List (ℕ × α)} (hl : l.Sublist q.entries) :
    InOrder key { q with entries := l } where
  recorded e he := by
    refine h.recorded e (List.mem_append.2 ?_)
    exact (List.mem_append.1 he).imp (fun hm => hl.subset hm) id
  waiting := h.waiting.sublist hl
  taken := h.taken
  before d hd e he := h.before d hd e (hl.subset he)

/-- Discarding elements keeps the order of the others. -/
theorem discard (h : q.InOrder key) (gone : α → Bool) : (q.discard gone).InOrder key :=
  h.sublist List.filter_sublist

/-- A filter that looks at the kind only takes the oldest element of a kind. -/
theorem take (h : q.InOrder key) {wants : α → Bool}
    (hkey : ∀ x y, key x = key y → wants x = wants y) : (q.take wants).InOrder key := by
  unfold Queue.take
  split
  · exact h
  · next e hfind =>
      obtain ⟨hwants, older, younger, hsplit, hskip⟩ := List.find?_eq_some_iff_append.1 hfind
      have herase : (q.entries.eraseP fun e => wants e.2) = older ++ younger := by
        rw [hsplit, List.eraseP_append_right _ fun d hd => by simpa using hskip d hd,
          List.eraseP_cons_of_pos (p := fun d : ℕ × α => wants d.2) hwants]
      have hmem : e ∈ q.entries := by rw [hsplit]; simp
      have hrest := h.sublist (l := older ++ younger) (by rw [hsplit]; simp)
      rw [herase]
      refine ⟨?_, hrest.waiting, ?_, ?_⟩
      · intro d hd
        rcases List.mem_append.1 hd with hw | ht
        · exact hrest.recorded d (List.mem_append_left _ hw)
        · rcases List.mem_append.1 ht with ht | hlast
          · exact h.recorded d (List.mem_append_right _ ht)
          · obtain rfl := List.mem_singleton.1 hlast
            exact h.recorded d (List.mem_append_left _ hmem)
      · refine List.pairwise_append.2 ⟨h.taken, List.pairwise_singleton _ _, ?_⟩
        intro d hd d' hd' hkind
        obtain rfl := List.mem_singleton.1 hd'
        exact h.before d hd _ hmem hkind
      · intro d hd d' hd' hkind
        rcases List.mem_append.1 hd with hd | hlast
        · exact hrest.before d hd d' hd' hkind
        · obtain rfl := List.mem_singleton.1 hlast
          -- an older element of the kind would have been wanted too
          rcases List.mem_append.1 hd' with hold | hyoung
          · have hno := hskip d' hold
            rw [← hkey _ _ hkind, hwants] at hno
            cases hno
          · have hpair := h.waiting
            rw [hsplit, List.pairwise_append, List.pairwise_cons] at hpair
            exact hpair.2.1.1 d' hyoung

end InOrder

end Queue

end Lib
