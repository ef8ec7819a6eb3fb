import EOSEmu.Net.Serialize

/-!
# Reading bytes nobody vouches for

Three properties of a reading program that compose along `bind` and over counted loops, so that a
decoder has them by one rule per line of its body. `Contained`: the program stays inside the buffer
and never clears a failure. `Spends`: what it builds is paid for by the bytes it consumes, plus one
for the read that fails. `RejectsCuts`: on a strict prefix of an encoding, with nothing behind it,
the program fails.
-/

namespace EOSEmu

/-! ## Running a program -/

/-- One program after another. -/
theorem Reader.bind_apply {α β : Type} (m : Reader α) (f : α → Reader β) (r : ByteReader) :
    (m >>= f) r = f (m r).1 (m r).2 := rfl

/-- A program that only returns. -/
theorem Reader.pure_apply {α : Type} (a : α) (r : ByteReader) :
    (Pure.pure a : Reader α) r = (a, r) := rfl

/-- Testing the state reads nothing. -/
theorem ByteReader.isOk_apply (r : ByteReader) : ByteReader.isOk r = (r.ok, r) := rfl

/-- A program chosen on a condition. -/
theorem Reader.ite_apply {α : Type} (c : Prop) [Decidable c] (m m' : Reader α) (r : ByteReader) :
    (if c then m else m') r = if c then m r else m' r := by
  split <;> rfl

/-! ## Containment -/

/-- The program leaves the buffer alone, moves forward inside it, and does not clear a failure. A
class, so that the containment of a decoder is found from its body. -/
class Contained {α : Type} (m : Reader α) : Prop where
  data : ∀ r, (m r).2.data = r.data
  forward : ∀ r, r.pos ≤ (m r).2.pos
  inside : ∀ r, r.pos ≤ r.data.length → (m r).2.pos ≤ r.data.length
  failed : ∀ r, r.ok = false → (m r).2.ok = false

namespace Contained
variable {α β : Type} {m : Reader α} {f : α → Reader β}

instance pure (a : α) : Contained (Pure.pure a : Reader α) where
  data _ := rfl
  forward _ := Nat.le_refl _
  inside _ h := h
  failed _ h := h

instance bind [hm : Contained m] [hf : ∀ a, Contained (f a)] : Contained (m >>= f) where
  data r := ((hf (m r).1).data (m r).2).trans (hm.data r)
  forward r := (hm.forward r).trans ((hf (m r).1).forward (m r).2)
  inside r h := by
    have h1 : (m r).2.pos ≤ (m r).2.data.length := by rw [hm.data]; exact hm.inside r h
    have h2 := (hf (m r).1).inside (m r).2 h1
    rwa [hm.data] at h2
  failed r h := (hf (m r).1).failed (m r).2 (hm.failed r h)

instance read (n : ℕ) : Contained (ByteReader.read n) where
  data r := by
    simp only [ByteReader.read]
    split <;> rfl
  forward r := by
    simp only [ByteReader.read]
    split <;> simp
  inside r h := by
    simp only [ByteReader.read]
    split
    · exact h
    · rename_i hread
      simp only [ByteReader.remaining, not_or] at hread
      have := hread.2
      show r.pos + n ≤ r.data.length
      omega
  failed r h := by simp only [ByteReader.read, h, true_or, if_true]

instance isOk : Contained ByteReader.isOk where
  data _ := rfl
  forward _ := Nat.le_refl _
  inside _ h := h
  failed _ h := h

instance readLe (n : ℕ) : Contained (ByteReader.readLe n) :=
  inferInstanceAs (Contained (do return leValue ((← ByteReader.read n).getD [])))

instance u8 : Contained ByteReader.u8 :=
  inferInstanceAs (Contained (do return UInt8.ofNat (← ByteReader.readLe 1)))

instance u32 : Contained ByteReader.u32 :=
  inferInstanceAs (Contained (do return UInt32.ofNat (← ByteReader.readLe 4)))

instance u64 : Contained ByteReader.u64 :=
  inferInstanceAs (Contained (do return UInt64.ofNat (← ByteReader.readLe 8)))

instance i64 : Contained ByteReader.i64 :=
  inferInstanceAs (Contained (do return (← ByteReader.u64).toInt64))

instance bool : Contained ByteReader.bool :=
  inferInstanceAs (Contained (do return decide ((← ByteReader.u8) ≠ 0)))

instance str : Contained ByteReader.str :=
  inferInstanceAs
    (Contained (do let n ← ByteReader.u32; return (← ByteReader.read n.toNat).getD []))

/-- A counted loop. -/
instance repeatOk [hm : Contained m] : ∀ n, Contained (ByteReader.repeatOk m n)
  | 0 => pure []
  | n + 1 =>
      have := repeatOk n
      have : ∀ go : Bool, Contained (if go then do
          let a ← m
          return a :: (← ByteReader.repeatOk m n)
        else return []) := fun
        | true => inferInstanceAs
          (Contained (do let a ← m; return a :: (← ByteReader.repeatOk m n)))
        | false => pure []
      bind

end Contained

/-! ## Work bounded by the buffer -/

/-- What a reader can still pay for: its remaining bytes, and one failure. -/
def ByteReader.budget (r : ByteReader) : ℕ := r.remaining + if r.ok then 1 else 0

/-- A fresh reader's budget is one more than the length of its buffer. -/
theorem ByteReader.budget_le (r : ByteReader) : r.budget ≤ r.data.length + 1 := by
  simp only [budget, remaining]
  split <;> omega

/-- The measure `μ` of the result is paid for by the budget, on top of `c`. -/
def Spends {α : Type} (m : Reader α) (c : ℕ) (μ : α → ℕ) : Prop :=
  ∀ r : ByteReader, μ (m r).1 + (m r).2.budget ≤ c + r.budget

namespace Spends
variable {α β : Type} {m : Reader α} {f : α → Reader β} {μ : α → ℕ} {ν : β → ℕ} {c : ℕ}

/-- A contained program spends nothing if it builds nothing. -/
theorem of_contained [hm : Contained m] : Spends m c fun _ => c := by
  intro r
  have hdata := hm.data r
  have hforward := hm.forward r
  have hfailed := hm.failed r
  simp only [ByteReader.budget, ByteReader.remaining, hdata]
  cases hok : r.ok with
  | false => simp only [hfailed hok, Bool.false_eq_true, if_false]; omega
  | true => simp only [if_true]; split <;> omega

/-- Returning spends what it returns. -/
theorem pure {a : α} (h : μ a ≤ c) : Spends (Pure.pure a) c μ := fun _ => Nat.add_le_add_right h _

/-- What the first program builds pays for the second. -/
theorem bind (hm : Spends m c μ) (hf : ∀ a, Spends (f a) (μ a) ν) : Spends (m >>= f) c ν :=
  fun r => (hf (m r).1 (m r).2).trans (hm r)

/-- After a contained step. -/
theorem step [Contained m] (hf : ∀ a, Spends (f a) c ν) : Spends (m >>= f) c ν :=
  bind of_contained hf

/-- A final `return`. -/
theorem map {g : α → β} (hm : Spends m c μ) (hg : ∀ a, ν (g a) ≤ μ a) :
    Spends (do return g (← m)) c ν :=
  hm.bind fun a => pure (hg a)

/-- A program may be charged for anything it does before. -/
theorem add (hm : Spends m c μ) (k : ℕ) : Spends m (c + k) fun a => μ a + k := by
  intro r
  have := hm r
  show μ (m r).1 + k + (m r).2.budget ≤ c + k + r.budget
  omega

/-- A read of at least one byte pays for one. -/
theorem read {n : ℕ} (hn : 0 < n) {r : ByteReader} (hok : r.ok = true) :
    1 + (ByteReader.read n r).2.budget ≤ r.budget := by
  simp only [ByteReader.read, hok, Bool.true_eq_false, false_or]
  split
  · simp only [ByteReader.budget, ByteReader.remaining, hok, Bool.false_eq_true, if_true, if_false]
    omega
  · rename_i hlen
    simp only [ByteReader.budget, ByteReader.remaining, hok, if_true] at hlen ⊢
    omega

end Spends

/-- A program that, started without a failure, pays for one more than it builds. -/
def Pays {α : Type} (m : Reader α) (μ : α → ℕ) : Prop :=
  ∀ r : ByteReader, r.ok = true → 1 + μ (m r).1 + (m r).2.budget ≤ r.budget

namespace Pays
variable {α β : Type} {m : Reader α} {f : α → Reader β} {μ : α → ℕ} {ν : β → ℕ}

/-- The first step pays, the rest may spend. -/
theorem bind (hm : Pays m fun _ => 0) (hf : ∀ a, Spends (f a) 0 ν) : Pays (m >>= f) ν := by
  intro r hok
  have h1 := hm r hok
  have h2 := hf (m r).1 (m r).2
  show 1 + ν (f (m r).1 (m r).2).1 + (f (m r).1 (m r).2).2.budget ≤ r.budget
  omega

/-- A final `return` is free. -/
theorem map {g : α → β} (hm : Pays m fun _ => 0) : Pays (do return g (← m)) fun _ => 0 :=
  hm.bind fun _ => Spends.pure (Nat.le_refl 0)

/-- A fixed-width read pays for one element. -/
theorem readLe {n : ℕ} (hn : 0 < n) : Pays (ByteReader.readLe n) fun _ => 0 :=
  map fun r hok => by simpa using Spends.read hn hok

/-- A 32-bit integer pays for one element. -/
theorem u32 : Pays ByteReader.u32 fun _ => 0 := map (readLe (by omega))

/-- A string pays for one element. -/
theorem str : Pays ByteReader.str fun _ => 0 := u32.bind fun _ => Spends.of_contained

end Pays

/-- A pass of the loop. -/
theorem ByteReader.repeatOk_succ {α : Type} {m : Reader α} {n : ℕ} {r : ByteReader}
    (hok : r.ok = true) :
    repeatOk m (n + 1) r = ((m r).1 :: (repeatOk m n (m r).2).1, (repeatOk m n (m r).2).2) := by
  show (if r.ok then _ else _ : Reader _) r = _
  rw [hok]
  rfl

/-- After a failure the loop is over. -/
theorem ByteReader.repeatOk_failed {α : Type} {m : Reader α} {n : ℕ} {r : ByteReader}
    (hok : r.ok = false) : repeatOk m (n + 1) r = ([], r) := by
  show (if r.ok then _ else _ : Reader _) r = _
  rw [hok]
  rfl

/-- A counted loop pays for every pass: the number of elements it builds, with what each of them
measures. -/
theorem Spends.repeatOk {α : Type} {m : Reader α} {μ : α → ℕ} (hm : Pays m μ) (c n : ℕ) :
    Spends (ByteReader.repeatOk m n) c fun l => c + (l.map fun a => 1 + μ a).sum := by
  induction n with
  | zero => exact Spends.pure (Nat.le_refl c)
  | succ n ih =>
      intro r
      cases hok : r.ok with
      | false =>
          rw [ByteReader.repeatOk_failed hok]
          exact Nat.le_refl _
      | true =>
          have h1 := hm r hok
          have h2 := ih (m r).2
          rw [ByteReader.repeatOk_succ hok]
          simp only [List.map_cons, List.sum_cons] at h2 ⊢
          omega

/-! ## Cut encodings -/

/-- A prefix of a concatenation is a prefix of the first part, or the first part and a prefix of
the second. -/
theorem prefix_append_cases {α : Type} {s l l' : List α} (h : s <+: l ++ l') :
    s <+: l ∨ ∃ t, s = l ++ t ∧ t <+: l' := by
  rcases List.prefix_or_prefix_of_prefix h (List.prefix_append l l') with hs | ⟨t, rfl⟩
  · exact Or.inl hs
  · exact Or.inr ⟨t, rfl, (List.prefix_append_right_inj l).1 h⟩

/-- On a strict prefix of the encoding, with nothing behind it, the program fails. -/
def RejectsCuts {α : Type} (m : Reader α) (bs : Bytes) : Prop :=
  ∀ pre s : Bytes, s <+: bs → s ≠ bs → (m ⟨pre ++ s, pre.length, true⟩).2.ok = false

namespace RejectsCuts
variable {α β : Type} {m : Reader α} {f : α → Reader β} {bs bs' : Bytes} {a : α}

/-- A buffer that holds a cut and nothing else. -/
theorem whole {s : Bytes} (h : RejectsCuts m bs) (hs : s <+: bs) (hne : s ≠ bs) :
    (m ⟨s, 0, true⟩).2.ok = false :=
  h [] s hs hne

/-- The empty encoding has no strict prefix. -/
theorem nil : RejectsCuts m [] := fun _ _ hs hne => absurd (List.prefix_nil.1 hs) hne

/-- A strict prefix of a concatenation ends inside the first part or inside the second. -/
theorem bind [hc : ∀ x, Contained (f x)] (hd : Decodes m bs a) (hm : RejectsCuts m bs)
    (hf : RejectsCuts (f a) bs') : RejectsCuts (m >>= f) (bs ++ bs') := by
  intro pre s hs hne
  rcases prefix_append_cases hs with hfirst | ⟨t, rfl, ht⟩
  · by_cases hall : s = bs
    · subst hall
      have hrest : ([] : Bytes) ≠ bs' := fun h => hne (by rw [← h, List.append_nil])
      have h1 := hd pre []
      have h2 := hf (pre ++ s) [] List.nil_prefix hrest
      rw [List.append_nil] at h1 h2
      show (f (m _).1 (m _).2).2.ok = false
      rw [h1]
      exact h2
    · exact (hc _).failed _ (hm pre s hfirst hall)
  · have h1 := hd pre t
    have h2 := hf (pre ++ bs) t ht fun h => hne (by rw [h])
    rw [List.append_assoc] at h1 h2
    show (f (m _).1 (m _).2).2.ok = false
    rw [h1]
    exact h2

/-- A final `return`. -/
theorem map {g : α → β} (hm : RejectsCuts m bs) : RejectsCuts (do return g (← m)) bs := hm

/-- Plain bytes, cut anywhere, are rejected. -/
theorem read (bs : Bytes) : RejectsCuts (ByteReader.read bs.length) bs := by
  intro pre s hs hne
  have hlen : s.length < bs.length :=
    Nat.lt_of_le_of_ne hs.length_le fun h => hne (hs.eq_of_length h)
  have hrem : ByteReader.remaining ⟨pre ++ s, pre.length, true⟩ < bs.length := by
    simpa [ByteReader.remaining] using hlen
  rw [ByteReader.read, if_pos (Or.inr hrem)]

/-- A cut integer is rejected. -/
theorem readLe (n v : ℕ) : RejectsCuts (ByteReader.readLe n) (leBytes n v) := by
  have h := read (leBytes n v)
  rw [leBytes_length] at h
  exact h.map

/-- A counted loop over elements whose cuts are rejected. -/
theorem repeatOk {γ : Type} {enc : γ → Bytes} {val : γ → α} [Contained m] : ∀ {l : List γ},
    (∀ x ∈ l, Decodes m (enc x) (val x)) → (∀ x ∈ l, RejectsCuts m (enc x)) →
      RejectsCuts (ByteReader.repeatOk m l.length) (l.flatMap enc)
  | [], _, _ => nil
  | x :: l, hd, hr => by
      have hl := repeatOk (fun y hy => hd y (List.mem_cons_of_mem _ hy)) fun y hy =>
        hr y (List.mem_cons_of_mem _ hy)
      have hbody := bind (f := fun a => do return a :: (← ByteReader.repeatOk m l.length))
        (hd x List.mem_cons_self) (hr x List.mem_cons_self) hl.map
      -- the loop test reads nothing and succeeds, since nothing has failed so far
      intro pre s hs hne
      exact hbody pre s hs hne

end RejectsCuts

/-- The program reads exactly the encoding as the value, and fails on every cut of it. -/
structure Frames {α : Type} (m : Reader α) (bs : Bytes) (a : α) : Prop where
  decodes : Decodes m bs a
  rejectsCuts : RejectsCuts m bs

namespace Frames
variable {α β : Type} {m : Reader α} {f : α → Reader β} {bs bs' : Bytes} {a : α} {b : β}

/-- Nothing is written for what is only returned. -/
theorem pure (a : α) : Frames (Pure.pure a) [] a := ⟨Decodes.pure a, RejectsCuts.nil⟩

/-- Sequencing, where the rest keeps a failure whatever has been read. -/
theorem bind [∀ x, Contained (f x)] (hm : Frames m bs a) (hf : Frames (f a) bs' b) :
    Frames (m >>= f) (bs ++ bs') b :=
  ⟨hm.decodes.bind hf.decodes, RejectsCuts.bind hm.decodes hm.rejectsCuts hf.rejectsCuts⟩

/-- A final `return`. -/
theorem map {g : α → β} (hm : Frames m bs a) : Frames (do return g (← m)) bs (g a) :=
  ⟨hm.decodes.map, hm.rejectsCuts.map⟩

/-- A byte is framed by itself. -/
theorem u8 (v : UInt8) : Frames ByteReader.u8 (ByteWriter.u8 v) v := by
  have hb : ByteWriter.u8 v = leBytes 1 v.toNat := by
    simp [leBytes, ByteWriter.u8, Nat.mod_eq_of_lt v.toNat_lt]
  exact ⟨Decodes.u8 v, hb ▸ (RejectsCuts.readLe 1 _).map⟩

/-- A 32-bit integer is framed by its four bytes. -/
theorem u32 (v : UInt32) : Frames ByteReader.u32 (ByteWriter.u32 v) v :=
  ⟨Decodes.u32 v, (RejectsCuts.readLe 4 _).map⟩

/-- A 64-bit integer is framed by its eight bytes. -/
theorem u64 (v : UInt64) : Frames ByteReader.u64 (ByteWriter.u64 v) v :=
  ⟨Decodes.u64 v, (RejectsCuts.readLe 8 _).map⟩

/-- A signed 64-bit integer is framed by its eight bytes. -/
theorem i64 (v : Int64) : Frames ByteReader.i64 (ByteWriter.i64 v) v :=
  ⟨Decodes.i64 v, (u64 _).rejectsCuts.map⟩

/-- A boolean is framed by its byte. -/
theorem bool (v : Bool) : Frames ByteReader.bool (ByteWriter.bool v) v :=
  ⟨Decodes.bool v, (u8 _).rejectsCuts.map⟩

/-- A string shorter than `2 ^ 32` bytes. -/
theorem str {s : Bytes} (hs : s.length < 2 ^ 32) : Frames ByteReader.str (ByteWriter.str s) s := by
  have hread : RejectsCuts (do return (← ByteReader.read (UInt32.ofNat s.length).toNat).getD [])
    s := by
    rw [toNat_ofNat_length hs]
    exact (RejectsCuts.read s).map
  exact ⟨Decodes.str hs, RejectsCuts.bind (Decodes.u32 _) (u32 _).rejectsCuts hread⟩

/-- Going on after a test of the flag. -/
theorem testOk {f : Bool → Reader β} (hf : Frames (f true) bs b) :
    Frames (ByteReader.isOk >>= f) bs b :=
  ⟨Decodes.testOk hf.decodes, hf.rejectsCuts⟩

/-- A loop over a count that was written as `uint32_t`. -/
theorem counted {γ : Type} {enc : γ → Bytes} {val : γ → α} {l : List γ} [Contained m]
    (hlen : l.length < 2 ^ 32) (h : ∀ x ∈ l, Frames m (enc x) (val x)) :
    Frames (ByteReader.repeatOk m (UInt32.ofNat l.length).toNat) (l.flatMap enc) (l.map val) := by
  refine ⟨Decodes.counted hlen fun x hx => (h x hx).decodes, ?_⟩
  rw [toNat_ofNat_length hlen]
  exact RejectsCuts.repeatOk (fun x hx => (h x hx).decodes) fun x hx => (h x hx).rejectsCuts

end Frames

/-- The program reads exactly the encoding as some value, and fails on every cut of it. -/
def Framed {α : Type} (m : Reader α) (bs : Bytes) : Prop := ∃ a, Frames m bs a

namespace Framed
variable {α β : Type} {m : Reader α} {f : α → Reader β} {bs bs' : Bytes} {a : α}

/-- Sequencing, where the rest is framed whatever its value. -/
theorem bind [∀ x, Contained (f x)] (hm : Frames m bs a) (hf : Framed (f a) bs') :
    Framed (m >>= f) (bs ++ bs') :=
  have ⟨b, h⟩ := hf
  ⟨b, hm.bind h⟩

/-- A loop over a count that was written as `uint32_t`. -/
theorem counted {γ : Type} {enc : γ → Bytes} {l : List γ} [Contained m] (hlen : l.length < 2 ^ 32)
    (h : ∀ x ∈ l, Framed m (enc x)) :
    Framed (ByteReader.repeatOk m (UInt32.ofNat l.length).toNat) (l.flatMap enc) := by
  have hval : ∀ x, ∃ a, x ∈ l → Frames m (enc x) a := by
    intro x
    by_cases hx : x ∈ l
    · have ⟨a, ha⟩ := h x hx
      exact ⟨a, fun _ => ha⟩
    · exact ⟨(m { data := [] }).1, fun hmem => absurd hmem hx⟩
  have ⟨val, hval⟩ := Classical.axiom_of_choice hval
  exact ⟨l.map val, Frames.counted hlen hval⟩

end Framed

end EOSEmu
