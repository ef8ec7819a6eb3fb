import EOSEmu.Lib.Issued
import EOSEmu.Lib.Trace

/-!
# What a history leaves standing

A fact that some transitions bring about and others end holds after a run exactly if it was brought
about and has not been ended since (`Trace.standing`). A list whose entries are found by a key,
each key once, loses exactly the entry of a key when the first match is erased (`mem_eraseP_key`).
-/

namespace Lib

section
variable {σ α : Type*} {step : σ → α → Option σ} {ok : σ → α → Prop} {s t : σ}
  {l : List (Transition σ α)} {F : σ → Prop} {P Q : Transition σ α → Prop}

/-- A fact stands exactly if it was brought about and not ended since. -/
theorem Trace.standing (h : Trace step ok s l t) (hs : ¬ F s)
    (hstep : ∀ before x after, l = before ++ x :: after → (F x.post ↔ P x ∨ (F x.pre ∧ ¬ Q x))) :
    F t ↔ Since P Q l := by
  induction h with
  | refl => exact iff_of_false hs not_since_nil
  | @tail l u v a _ _ _ ih =>
      have hnow := hstep l ⟨u, a, v⟩ [] rfl
      rw [since_snoc, hnow, ih]
      intro before x after heq
      exact hstep before x (after ++ [⟨u, a, v⟩]) (by simp [heq])

/-- A quantity that every step raises by at most one is bounded by the length of the history. -/
theorem Trace.counted (h : Trace step ok s l t) {f : σ → ℕ}
    (hstep : ∀ u v a, ok u a → step u a = some v → f v ≤ f u + 1) : f t ≤ f s + l.length := by
  induction h with
  | refl => exact Nat.le_refl _
  | @tail l u v a hl hok hst ih =>
      have hone := hstep u v a hok hst
      rw [List.length_append, List.length_singleton]
      omega

end

section
variable {α κ : Type*} [DecidableEq κ] {key : α → κ} {l : List α} {x : α} {k : κ}

/-- Erasing the first entry of a key takes that entry, and no other. -/
theorem mem_eraseP_key (hnd : (l.map key).Nodup) : x ∈ l.eraseP (fun y => key y = k) ↔ x ∈ l ∧
    key x ≠ k := by
  induction l with
  | nil => simp
  | cons y l ih =>
      obtain ⟨hy, hnd⟩ := List.nodup_cons.1 hnd
      rcases eq_or_ne (key y) k with rfl | hne
      · rw [List.eraseP_cons_of_pos (by simp)]
        constructor
        · intro hx
          exact ⟨List.mem_cons_of_mem _ hx, fun hkey => hy (hkey ▸ List.mem_map_of_mem hx)⟩
        · rintro ⟨hx, hkey⟩
          rcases List.mem_cons.1 hx with rfl | hx
          · exact absurd rfl hkey
          · exact hx
      · rw [List.eraseP_cons_of_neg (by simpa using hne), List.mem_cons, List.mem_cons, ih hnd]
        constructor
        · rintro (rfl | ⟨hx, hkey⟩)
          · exact ⟨.inl rfl, hne⟩
          · exact ⟨.inr hx, hkey⟩
        · rintro ⟨rfl | hx, hkey⟩
          · exact .inl rfl
          · exact .inr ⟨hx, hkey⟩

/-- The first entry of a key is the only one. -/
theorem find?_key (hnd : (l.map key).Nodup) : l.find? (fun y => key y = k) = some x ↔ x ∈ l ∧
    key x = k := by
  have hfound : ∀ {y}, l.find? (fun y => key y = k) = some y → y ∈ l ∧ key y = k := by
    intro y h
    exact ⟨List.mem_of_find?_eq_some h, by simpa using List.find?_some h⟩
  refine ⟨hfound, fun hx => ?_⟩
  cases hfind : l.find? fun y => key y = k with
  | none => exact absurd hx.2 (by simpa using List.find?_eq_none.1 hfind x hx.1)
  | some y =>
      obtain ⟨hy, hkey⟩ := hfound hfind
      rw [List.inj_on_of_nodup_map hnd hy hx.1 (hkey.trans hx.2.symm)]

end

end Lib
