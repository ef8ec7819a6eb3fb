import EOSEmu.Storage.PlayerData
import Mathlib.Data.Nat.Find

/-!
# The transfer of a file

The loop of `EOS_PlayerDataStorage_WriteFile` asks the game's data callback for one chunk after the
other. A transcript is what the callback answered until the loop ended. `writeFile_all_or_nothing`
says what every transcript leaves: the whole file, or the store as it was. The loop has no other
bound than the size of the file, so it ends exactly if the callback stops it or produces enough
(`writeFile_ends_iff`): a callback that goes on without a byte keeps it forever, and one that
always produces something does not (`stops_of_progress`).
-/

namespace EOSEmu.PlayerDataStorage

open Lib

/-- `EOS_PlayerDataStorage_EWriteResult` of what the callback returns; the loop takes every other
value for a cancellation. -/
def EWriteResult.ofCode : Int → EWriteResult
  | 1 => .continueWriting
  | 2 => .completeRequest
  | 3 => .failRequest
  | _ => .cancelRequest

/-- One answer of the data callback: the bytes it wrote into the buffer, and what it returned. -/
abbrev Answer := Bytes × Int

/-- The answer as the loop takes it. -/
def Answer.taken (a : Answer) : Bytes × EWriteResult := (a.1, .ofCode a.2)

/-- The chunks of some answers, one after the other. -/
def chunks (answers : List Answer) : Bytes := answers.flatMap Prod.fst

/-- The answers that a transfer gets until its loop ends: all but the last one ask it to go on and
fit. -/
structure Transcript (init : List Answer) (last : Answer) : Prop where
  going : ∀ a ∈ init, EWriteResult.ofCode a.2 = .continueWriting
  fits : (chunks init).length ≤ kMaxFileBytes
  ended : EWriteResult.ofCode last.2 ≠ .continueWriting ∨
    kMaxFileBytes < (chunks (init ++ [last])).length

/-- `EOS_PlayerDataStorage_WriteFile`, with or without `[Storage] Persist`. -/
def Store.writeFileWith (s : Store) (persist : Bool) (refuses : Bytes → Bool) (user : Bytes)
    (filename : Option Bytes) (callback : Option (List (Bytes × EWriteResult))) :
    Option (EResult × Store) :=
  if persist then s.writeFile refuses user filename callback
  else
    match filename, transfer filename callback with
    | some name, some (.success, assembled) =>
        some
          (.success, { s with files := s.files.set user ((s.files.table user).set name assembled)
          })
    | some _, some (result, _) => some (result, s)
    | _, _ => none

/-! ## The loop -/

section
variable {assembled : Bytes} {init answers : List Answer} {last : Answer}

@[simp] theorem chunks_nil : chunks [] = [] := rfl

@[simp] theorem chunks_cons (a : Answer) (l : List Answer) : chunks (a :: l) = a.1 ++ chunks l :=
  rfl

@[simp] theorem chunks_append (l l' : List Answer) : chunks (l ++ l') = chunks l ++ chunks l' :=
  List.flatMap_append

/-- One round that goes on. -/
theorem assemble_continue {a : Answer} {rest : List (Bytes × EWriteResult)}
    (hgoes : EWriteResult.ofCode a.2 = .continueWriting)
    (hfits : (assembled ++ a.1).length ≤ kMaxFileBytes) :
    assemble assembled (a.taken :: rest) = assemble (assembled ++ a.1) rest := by
  simp only [assemble, Answer.taken, hgoes]
  rw [if_neg (Nat.not_lt.2 hfits)]

/-- As long as the callback goes on and everything fits, the loop gathers the chunks. -/
theorem assemble_going (hgoing : ∀ a ∈ init, EWriteResult.ofCode a.2 = .continueWriting)
    (hfits : (assembled ++ chunks init).length ≤ kMaxFileBytes)
    (rest : List (Bytes × EWriteResult)) :
    assemble assembled (init.map Answer.taken ++ rest) =
      assemble (assembled ++ chunks init) rest := by
  induction init generalizing assembled with
  | nil => simp
  | cons a init ih =>
      rw [chunks_cons, ← List.append_assoc] at hfits ⊢
      have hfirst : (assembled ++ a.1).length ≤ kMaxFileBytes := by
        rw [List.length_append] at hfits
        omega
      rw [List.map_cons, List.cons_append, assemble_continue (hgoing a List.mem_cons_self) hfirst]
      exact ih (fun b hb => hgoing b (List.mem_cons_of_mem _ hb)) hfits

/-- The result of the loop's last round. -/
def verdict (assembled : Bytes) (last : Answer) : EResult :=
  if kMaxFileBytes < assembled.length then .fileSizeTooLarge
  else
    match EWriteResult.ofCode last.2 with
    | .continueWriting | .completeRequest => .success
    | .failRequest => .userErrorFromDataCallback
    | .cancelRequest => .canceled

/-- The loop over a transcript gathers all its chunks, and ends with the verdict on the last
answer. -/
theorem assemble_transcript (h : Transcript init last) :
    assemble [] ((init ++ [last]).map Answer.taken) =
      some (verdict (chunks (init ++ [last])) last, chunks (init ++ [last])) := by
  have hended := h.ended
  rw [List.map_append, assemble_going h.going (by simpa using h.fits)]
  simp only [chunks_append, chunks_cons, chunks_nil, List.append_nil, List.nil_append] at hended ⊢
  simp only [List.map_cons, List.map_nil, assemble, Answer.taken, verdict]
  split
  · rfl
  · next hsize =>
      cases hcode : EWriteResult.ofCode last.2 with
      | continueWriting => exact absurd (hended.resolve_left fun hne => hne hcode) hsize
      | completeRequest | failRequest | cancelRequest => rfl

/-- A transcript is a success if it ends with completion and fits. -/
theorem verdict_success_iff (h : Transcript init last) :
    verdict (chunks (init ++ [last])) last = .success ↔
      EWriteResult.ofCode last.2 = .completeRequest ∧
      (chunks (init ++ [last])).length ≤ kMaxFileBytes := by
  unfold verdict
  split
  · next hsize => exact iff_of_false nofun fun hok => absurd hok.2 (Nat.not_le.2 hsize)
  · next hsize =>
      cases hcode : EWriteResult.ofCode last.2 with
      | continueWriting => exact absurd (h.ended.resolve_left fun hne => hne hcode) hsize
      | completeRequest => exact iff_of_true rfl ⟨rfl, Nat.not_lt.1 hsize⟩
      | failRequest | cancelRequest => exact iff_of_false nofun fun hok => nomatch hok.1

end

/-! ## All or nothing -/

section
variable {s s' : Store} {persist : Bool} {refuses : Bytes → Bool} {user name : Bytes}
  {init : List Answer} {last : Answer}

/-- A write has an outcome when its transfer has ended. -/
theorem writeFileWith_isSome (callback : Option (List (Bytes × EWriteResult))) :
    (s.writeFileWith persist refuses user (some name) callback).isSome =
      (transfer (some name) callback).isSome := by
  unfold Store.writeFileWith Store.writeFile
  cases transfer (some name) callback with
  | none => cases persist <;> rfl
  | some out =>
      obtain ⟨result, bytes⟩ := out
      cases persist <;> cases result <;> rfl

/-- A file name that is not valid ends the transfer before its first call. -/
theorem writeFileWith_invalid (hname : checkFilename (some name) ≠ .success)
    (answers : List (Bytes × EWriteResult)) :
    s.writeFileWith persist refuses user (some name) (some answers) =
      some (checkFilename (some name), s) := by
  have htransfer : transfer (some name) (some answers) =
    some (checkFilename (some name), []) := if_neg hname
  unfold Store.writeFileWith Store.writeFile
  rw [htransfer]
  cases hcheck : checkFilename (some name) with
  | success => exact absurd hcheck hname
  | _ => simp

/-- A transfer that ends without success leaves the store. -/
theorem writeFileWith_failed (hname : checkFilename (some name) = .success)
    {answers : List (Bytes × EWriteResult)} {result : EResult} {bytes : Bytes}
    (hend : assemble [] answers = some (result, bytes)) (hfail : result ≠ .success) :
    s.writeFileWith persist refuses user (some name) (some answers) = some (result, s) := by
  have htransfer : transfer (some name) (some answers) =
    some (result, bytes) := (if_pos hname).trans hend
  unfold Store.writeFileWith Store.writeFile
  rw [htransfer]
  cases result with
  | success => exact absurd rfl hfail
  | _ => simp

variable (refuses user) in
/-- A transfer that ends with success assigns the file, and no other one. -/
theorem writeFileWith_success (hloaded : persist = true → s.loaded = true)
    (hname : checkFilename (some name) = .success) {answers : List (Bytes × EWriteResult)}
    {bytes : Bytes} (hend : assemble [] answers = some (.success, bytes)) :
    ∃ s', s.writeFileWith persist refuses user (some name) (some answers) = some (.success, s') ∧
      ∀ u n, s'.files.find u n = if u = user ∧ n = name then some bytes else s.files.find u n := by
  have htransfer : transfer (some name) (some answers) = some (.success, bytes) :=
    (if_pos hname).trans hend
  unfold Store.writeFileWith Store.writeFile
  rw [htransfer]
  cases persist with
  | true =>
      have hensured : s.ensureLoadedLocked = s := if_pos (hloaded rfl)
      refine ⟨_, rfl, ?_⟩
      rw [hensured]
      exact Files.find_set_set s.files user name bytes
  | false => exact ⟨_, rfl, Files.find_set_set s.files user name bytes⟩

/-- What a transfer that has ended leaves and reports. -/
structure AllOrNothing (s s' : Store) (user name : Bytes) (init : List Answer) (last : Answer)
    (result : EResult) : Prop where
  success_iff : result = .success ↔ checkFilename (some name) = .success ∧
    EWriteResult.ofCode last.2 = .completeRequest ∧
    (chunks (init ++ [last])).length ≤ kMaxFileBytes
  stored : result = .success → ∀ u n, s'.files.find u n =
    if u = user ∧ n = name then some (chunks (init ++ [last])) else s.files.find u n
  untouched : result ≠ .success → s' = s
  invalid : checkFilename (some name) ≠ .success → result = checkFilename (some name)
  oversize : checkFilename (some name) = .success →
    kMaxFileBytes < (chunks (init ++ [last])).length → result = .fileSizeTooLarge
  failed : checkFilename (some name) = .success →
    (chunks (init ++ [last])).length ≤ kMaxFileBytes →
    EWriteResult.ofCode last.2 = .failRequest → result = .userErrorFromDataCallback
  canceled : checkFilename (some name) = .success →
    (chunks (init ++ [last])).length ≤ kMaxFileBytes →
    EWriteResult.ofCode last.2 = .cancelRequest → result = .canceled

/-- **All or nothing.** With the mirror loaded or without persistence, a write leaves the chunks of
its transcript under its name and every other file as it was, and reports success, exactly if the
name is valid and the transcript ends with completion and fits; otherwise it leaves the store as it
was and reports why. -/
theorem writeFile_all_or_nothing (s : Store) (persist : Bool) (refuses : Bytes → Bool)
    (user name : Bytes) (init : List Answer) (last : Answer)
    (hloaded : persist = true → s.loaded = true)
    (ht : checkFilename (some name) = .success → Transcript init last) :
    ∃ result s', s.writeFileWith persist refuses user (some name)
      (some ((init ++ [last]).map Answer.taken)) =
      some (result, s') ∧ AllOrNothing s s' user name init last result := by
  by_cases hname : checkFilename (some name) = .success
  · have htrans := ht hname
    have hend := assemble_transcript htrans
    have hiff := verdict_success_iff htrans
    by_cases hok : verdict (chunks (init ++ [last])) last = .success
    · rw [hok] at hend
      obtain ⟨hcode, hfits⟩ := hiff.1 hok
      obtain ⟨s', hs', hfiles⟩ := writeFileWith_success refuses user hloaded hname hend
      refine ⟨.success, s', hs',
        ⟨iff_of_true rfl ⟨hname, hcode, hfits⟩, fun _ => hfiles, fun h => absurd rfl h,
        fun h => absurd hname h, fun _ hsize => absurd hfits (Nat.not_le.2 hsize), fun _ _ h =>
          ?_, fun _ _ h => ?_⟩⟩
      · rw [hcode] at h
        cases h
      · rw [hcode] at h
        cases h
    · refine ⟨_, s, writeFileWith_failed hname hend hok, ⟨?_, fun h => absurd h hok, fun _ => rfl,
        fun h => absurd hname h, fun _ hsize => if_pos hsize, fun _ hfits h => ?_, fun _ hfits h =>
          ?_⟩⟩
      · exact iff_of_false hok fun h => hok (hiff.2 h.2)
      · rw [verdict, if_neg (Nat.not_lt.2 hfits), h]
      · rw [verdict, if_neg (Nat.not_lt.2 hfits), h]
  · exact ⟨_, s, writeFileWith_invalid hname _,
      ⟨iff_of_false hname fun h => hname h.1, fun h => absurd h hname,
      fun _ => rfl, fun _ => rfl, fun h => absurd h hname, fun h => absurd h hname, fun h =>
        absurd h hname⟩⟩

/-- Two chunks and a failure: the old version of the file stays. -/
def sampleFailure : List Answer := [([1], 1), ([2], 1)]

/-- The old version of the file. -/
def sampleStore : Store := { files := .set .empty (str "0002") (.set .empty (str "Save") [9]) }

/-- It is a transcript: two chunks, then the failure. -/
theorem sampleFailure_transcript : Transcript sampleFailure ([3], 3) where
  going := by decide
  fits := by decide
  ended := .inl (by decide)

/-- The failed write reports the callback's error, and the next reader finds the old version. -/
theorem writeFile_all_or_nothing_sample :
    ∃ result s', sampleStore.writeFileWith false Store.tooLong (str "0002")
      (some (str "Save")) (some ((sampleFailure ++ [([3], 3)]).map Answer.taken)) = some
        (result, s') ∧
    AllOrNothing sampleStore s' (str "0002") (str "Save") sampleFailure ([3], 3) result :=
  writeFile_all_or_nothing sampleStore false Store.tooLong (str "0002") (str "Save") sampleFailure
    ([3], 3) nofun fun _ => sampleFailure_transcript

end

/-! ## The end of the loop -/

/-- What a callback answers in its first calls. -/
def answersOf (callback : ℕ → Answer) (n : ℕ) : List Answer := (List.range n).map callback

section
variable {callback : ℕ → Answer} {name : Bytes}

/-- One more answer comes last. -/
theorem answersOf_succ (callback : ℕ → Answer) (n : ℕ) :
    answersOf callback (n + 1) = answersOf callback n ++ [callback n] := by
  simp [answersOf, List.range_succ]

/-- A callback that goes on forever without filling the file keeps the loop. -/
theorem assemble_forever (hgoing : ∀ k, EWriteResult.ofCode (callback k).2 = .continueWriting)
    (hfits : ∀ k, (chunks (answersOf callback (k + 1))).length ≤ kMaxFileBytes) (n : ℕ) :
    assemble [] ((answersOf callback n).map Answer.taken) = none := by
  have hall : ∀ a ∈ answersOf callback n, EWriteResult.ofCode a.2 = .continueWriting := by
    intro a ha
    obtain ⟨k, _, rfl⟩ := List.mem_map.1 ha
    exact hgoing k
  have hlen : ([] ++ chunks (answersOf callback n)).length ≤ kMaxFileBytes := by
    cases n with
    | zero => exact Nat.zero_le _
    | succ n => exact hfits n
  rw [← List.append_nil ((answersOf callback n).map Answer.taken), assemble_going hall hlen]
  rfl

/-- The first answer that stops the loop ends the transcript. -/
theorem transcript_of_stop (hstop : ∃ k, EWriteResult.ofCode (callback k).2 ≠ .continueWriting ∨
    kMaxFileBytes < (chunks (answersOf callback (k + 1))).length) :
    ∃ k, Transcript (answersOf callback k) (callback k) := by
  classical
  refine ⟨Nat.find hstop, ⟨fun a ha => ?_, ?_, ?_⟩⟩
  · obtain ⟨j, hj, rfl⟩ := List.mem_map.1 ha
    have hgoes := Nat.find_min hstop (List.mem_range.1 hj)
    rw [not_or, not_not] at hgoes
    exact hgoes.1
  · cases hk : Nat.find hstop with
    | zero => exact Nat.zero_le _
    | succ j =>
        have hgoes := Nat.find_min hstop (m := j) (by omega)
        rw [not_or, Nat.not_lt] at hgoes
        exact hgoes.2
  · rw [← answersOf_succ]
    exact Nat.find_spec hstop

end

/-- **The end of a transfer.** The loop ends after finitely many calls exactly if the file name is
not valid, or the callback at some call returns something else than `ContinueWriting` or has
produced more than the largest file. -/
theorem writeFile_ends_iff (s : Store) (persist : Bool) (refuses : Bytes → Bool)
    (user name : Bytes) (callback : ℕ → Answer) :
    (∃ n, (s.writeFileWith persist refuses user (some name)
        (some ((answersOf callback n).map Answer.taken))).isSome = true) ↔
      checkFilename (some name) ≠ .success ∨ ∃ k, EWriteResult.ofCode (callback k).2 ≠
        .continueWriting ∨ kMaxFileBytes < (chunks (answersOf callback (k + 1))).length := by
  simp only [writeFileWith_isSome, transfer]
  by_cases hname : checkFilename (some name) = .success
  · simp only [if_pos hname]
    constructor
    · rintro ⟨n, hends⟩
      by_contra hnot
      simp only [not_or, not_not, not_exists, Nat.not_lt] at hnot
      rw [assemble_forever (fun k => (hnot.2 k).1) (fun k => (hnot.2 k).2) n] at hends
      cases hends
    · intro hstop
      obtain ⟨k, htrans⟩ := transcript_of_stop (hstop.resolve_left fun h => h hname)
      refine ⟨k + 1, ?_⟩
      rw [answersOf_succ, assemble_transcript htrans]
      rfl
  · simp only [if_neg hname]
    exact iff_of_true ⟨0, rfl⟩ (.inl hname)

/-- A callback that produces something whenever it asks to go on is asked at most once for each
byte of the largest file, and once more. -/
theorem stops_of_progress {callback : ℕ → Answer}
    (hprogress : ∀ k, EWriteResult.ofCode (callback k).2 = .continueWriting → (callback k).1 ≠ []) :
    ∃ k ≤ kMaxFileBytes, EWriteResult.ofCode (callback k).2 ≠ .continueWriting ∨
      kMaxFileBytes < (chunks (answersOf callback (k + 1))).length := by
  by_contra hnot
  simp only [not_exists, not_and, not_or, not_not, Nat.not_lt] at hnot
  have hlen : ∀ n ≤ kMaxFileBytes + 1, n ≤ (chunks (answersOf callback n)).length := by
    intro n
    induction n with
    | zero => exact fun _ => Nat.zero_le _
    | succ n ih =>
        intro hn
        have hpos := List.length_pos_iff.2 (hprogress n (hnot n (by omega)).1)
        rw [answersOf_succ, chunks_append, chunks_cons, chunks_nil, List.append_nil,
          List.length_append]
        have := ih (by omega)
        omega
  have hmany := hlen (kMaxFileBytes + 1) (Nat.le_refl _)
  have hfew := (hnot kMaxFileBytes (Nat.le_refl _)).2
  omega

/-- The callback that asks to go on and produces nothing. -/
def idleCallback (_ : ℕ) : Answer := ([], 1)

/-- Without the condition this fails: the loop asks the idle callback forever. -/
theorem not_writeFile_ends :
    ¬ ∀ (s : Store) (persist : Bool) (refuses : Bytes → Bool) (user name : Bytes)
    (callback : ℕ → Answer), ∃ n, (s.writeFileWith persist refuses user (some name)
      (some ((answersOf callback n).map Answer.taken))).isSome = true := by
  intro h
  obtain ⟨n, hends⟩ := h {} false Store.tooLong (str "0002") (str "Save") idleCallback
  have hempty : ∀ k, chunks (answersOf idleCallback k) = [] := by
    intro k
    induction k with
    | zero => rfl
    | succ k ih =>
        rw [answersOf_succ, chunks_append, ih]
        rfl
  rw [writeFileWith_isSome] at hends
  simp only [transfer] at hends
  rw [if_pos (by decide), assemble_forever (fun _ => rfl)
    (fun k => by rw [hempty]; exact Nat.zero_le _)] at hends
  cases hends

end EOSEmu.PlayerDataStorage
